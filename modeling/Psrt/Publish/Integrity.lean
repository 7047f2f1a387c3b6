import Psrt.Client.Udp
import Psrt.Publish.Agreement

/-! Datagram publishes from the client's packet to the server's push: what the receive buffer may
cut off, and when the publish is nevertheless whole. -/

namespace Psrt
open Wire Interaction

variable {m : SubMap}

structure Publication where
  priority : UInt8
  topic : Str
  message : Bytes
  deriving DecidableEq, Repr

def publicationOf (e : ServerEvent) : Option Publication :=
  match e.op with
  | .pushToSubscribers _ priority topic message _ => some ⟨priority, topic, message⟩
  | .replicationPush priority topic message _ => some ⟨priority, topic, message⟩
  | _ => none

def replyOf (e : ServerEvent) : Option Bytes :=
  match e.op with
  | .sendTo buf => some buf
  | _ => none

section
variable (cfg : Config) (crypto : Crypto) (st : ServerState m) (now : UInt64)

/-- What a program publishes, what it replies and how it ends, against the state alone. Handling a
datagram reads each database at most once, so `st` is what each of them held when it was read. -/
def outcome (p : ServerProg UdpError Bool) :
    List Publication × List Bytes × Option (Except UdpError Bool) :=
  ((events crypto st now p []).filterMap publicationOf,
    (events crypto st now p []).filterMap replyOf, (p.eval (st.answer crypto now) []).2.2)

def Refuses (p : ServerProg UdpError Bool) : Prop :=
  ∃ e, outcome crypto st now p = ([], [], some (.error e))

theorem refuses_throw (e : UdpError) : Refuses crypto st now (.throw e) := ⟨e, rfl⟩

def delivered (p : Publication) : List Publication :=
  (if (st.db.getSubscribers p.topic).isEmpty then [] else [p]) ++ if cfg.cluster then [p] else []

theorem delivered_eq_nil (p : Publication) :
    delivered cfg st p = [] ↔ st.db.getSubscribers p.topic = [] ∧ cfg.cluster = false := by
  cases hs : st.db.getSubscribers p.topic with
  | nil => cases hc : cfg.cluster <;> simp [delivered, hs, hc]
  | cons c cs => simp [delivered, hs]

theorem eq_of_mem_delivered {p q : Publication} (h : q ∈ delivered cfg st p) : q = p := by
  unfold delivered at h
  split_ifs at h <;> simp_all only [List.append_nil, List.nil_append, List.mem_cons,
    List.not_mem_nil, or_false, List.cons_append, or_self]

def Accepts (login : Str) (password : Option Str) (raw topic : Str) : Prop :=
  Authentic cfg crypto st login password ∧ prepareTopic cfg.maxTopicDepth raw = .ok topic ∧
    containsInvalidSymbols topic = false ∧
      ∃ acl, st.acls.getAcl login = some acl ∧ acl.allowWrite topic = true

theorem outcome_authenticateUdp {login : Str} {password : Option Str}
    (h : Authentic cfg crypto st login password) (needAck : Bool)
    (k : Unit → ServerProg UdpError Bool) :
    outcome crypto st now ((authenticateUdp cfg login password needAck).bind k) =
      outcome crypto st now (k ()) := by
  cases password with
  | none => rfl
  | some password =>
    unfold Authentic at h
    unfold authenticateUdp
    dsimp only at h ⊢
    split_ifs at h ⊢
    · rfl
    · unfold outcome events
      simp only [perform, Prog.op, Prog.bind_eq, Prog.call_bind, Prog.ret_bind, Prog.eval_call,
        ServerState.answer, h, if_true]
      rfl

theorem refuses_authenticateUdp {login : Str} {password : Option Str}
    (h : ¬ Authentic cfg crypto st login password) (needAck : Bool)
    (k : Unit → ServerProg UdpError Bool) :
    Refuses crypto st now ((authenticateUdp cfg login password needAck).bind k) := by
  cases password with
  | none => exact absurd trivial h
  | some password =>
    unfold Authentic at h
    unfold authenticateUdp
    dsimp only at h ⊢
    split_ifs at h ⊢
    · exact refuses_throw crypto st now _
    · have hv : st.passwords.verify crypto login password = false :=
        Bool.eq_false_of_not_eq_true h
      unfold Refuses outcome events
      simp only [perform, Prog.op, Prog.bind_eq, Prog.call_bind, Prog.ret_bind, Prog.eval_call,
        ServerState.answer, hv, Bool.false_eq_true, if_false]
      exact ⟨_, rfl⟩

theorem outcome_getAcl (login : Str) (k : Option Acl → ServerProg UdpError Bool) :
    outcome crypto st now ((perform (.getAcl login)).bind k) =
      outcome crypto st now (k (st.acls.getAcl login)) := rfl

theorem outcome_deliver (priority : UInt8) (topic : Str) (data : Bytes) (timestamp : UInt64)
    (needAck : Bool) :
    outcome crypto st now ((perform (.getSubscribers topic)).bind fun subscribers =>
      (pushIfAny subscribers priority topic data timestamp).bind fun _ =>
        (replicate cfg priority topic data timestamp).bind fun _ => .ret needAck) =
      (delivered cfg st ⟨priority, topic, data⟩, [], some (.ok needAck)) := by
  change outcome crypto st now
    ((pushIfAny (st.db.getSubscribers topic) priority topic data timestamp).bind fun _ =>
        (replicate cfg priority topic data timestamp).bind fun _ => .ret needAck) = _
  unfold delivered pushIfAny replicate
  split_ifs <;> rfl

theorem outcome_publishUdp {login : Str} {password : Option Str} {raw topic : Str}
    (h : Accepts cfg crypto st login password raw topic) (needAck : Bool) (priority : UInt8)
    (data : Bytes) (timestamp : UInt64) :
    outcome crypto st now (publishUdp cfg login password needAck priority raw data timestamp) =
      (delivered cfg st ⟨priority, topic, data⟩, [], some (.ok needAck)) := by
  obtain ⟨hauth, ht, hi, acl, hacl, hw⟩ := h
  unfold publishUdp
  rw [Prog.bind_eq, outcome_authenticateUdp cfg crypto st now hauth, Prog.bind_eq, outcome_getAcl,
    hacl, ht]
  simp only [Prog.bind_eq, Prog.ofExcept_ok, Prog.ret_mapError, Prog.ret_bind, hi, hw,
    Bool.false_eq_true, if_false, Bool.not_true]
  exact outcome_deliver cfg crypto st now priority topic data timestamp needAck

theorem refuses_publishUdp {login : Str} {password : Option Str} {raw : Str}
    (h : ∀ topic, ¬ Accepts cfg crypto st login password raw topic) (needAck : Bool)
    (priority : UInt8) (data : Bytes) (timestamp : UInt64) :
    Refuses crypto st now
      (publishUdp cfg login password needAck priority raw data timestamp) := by
  by_cases hauth : Authentic cfg crypto st login password
  · unfold publishUdp Refuses
    rw [Prog.bind_eq, outcome_authenticateUdp cfg crypto st now hauth, Prog.bind_eq, outcome_getAcl]
    cases hacl : st.acls.getAcl login with
    | none => exact refuses_throw crypto st now _
    | some acl =>
      cases ht : prepareTopic cfg.maxTopicDepth raw with
      | error e => exact refuses_throw crypto st now _
      | ok topic =>
        simp only [Prog.bind_eq, Prog.ofExcept_ok, Prog.ret_mapError, Prog.ret_bind]
        split_ifs with hi hw
        · exact refuses_throw crypto st now _
        · exact refuses_throw crypto st now _
        · have hwrite : acl.allowWrite topic = true := by
            simpa only [Bool.not_eq_true', Bool.not_eq_false] using hw
          exact absurd ⟨hauth, ht, Bool.eq_false_of_not_eq_true hi, acl, hacl, hwrite⟩ (h topic)
  · exact refuses_authenticateUdp cfg crypto st now hauth needAck _

theorem publishOp_ne_zero (ack : Bool) : UdpClient.publishOp ack ≠ 0 := by
  cases ack with
  | false => decide
  | true => decide

theorem udpNeedAck_publishOp (ack : Bool) : udpNeedAck (UdpClient.publishOp ack) = some ack := by
  cases ack with
  | false => rfl
  | true => rfl

theorem processUdpBlock_msgBuf (login : Str) (password : Option Str) {topic : Str}
    (hne : topic ≠ []) (h0 : 0 ∉ utf8 topic) (message : Bytes) (ack : Bool) (timestamp : UInt64) :
    processUdpBlock cfg login password (UdpClient.msgBuf topic message ack) timestamp =
      publishUdp cfg login password ack defaultPriority topic message timestamp := by
  have hsplit : splitFirst 0 (UdpClient.msgBuf topic message ack) =
      (UdpClient.publishOp ack :: defaultPriority :: utf8 topic, some message) := by
    have hnot : (0 : UInt8) ∉ UdpClient.publishOp ack :: defaultPriority :: utf8 topic := by
      simp only [List.mem_cons, not_or]
      exact ⟨(publishOp_ne_zero ack).symm, by decide, h0⟩
    exact splitFirst_append hnot message
  have hlen : ¬ (UdpClient.publishOp ack :: defaultPriority :: utf8 topic).length < 3 := by
    have hpos : 0 < (utf8 topic).length :=
      List.length_pos_iff.mpr (mt utf8_eq_nil.mp hne)
    simp only [List.length_cons]
    omega
  unfold processUdpBlock
  simp only [hsplit, hlen, if_false, List.getD_cons_zero, List.getD_cons_succ,
    udpNeedAck_publishOp, List.drop_succ_cons, List.drop_zero, strFromUtf8_utf8, Prog.bind_eq,
    Prog.ofExcept_ok, Prog.ret_mapError, Prog.ret_bind]

theorem processUdpBody_plain {login password : Str} (hlogin : 0 ∉ utf8 login)
    (hpassword : 0 ∉ utf8 password) (block : Bytes) (timestamp : UInt64) :
    processUdpBody cfg .no (utf8 login ++ 0 :: (utf8 password ++ 0 :: block)) timestamp =
      processUdpBlock cfg login (some password) block timestamp := by
  unfold processUdpBody
  simp only [splitFirst_append hlogin, splitFirst_append hpassword, strFromUtf8_utf8, Prog.bind_eq,
    Prog.ofExcept_ok, Prog.ret_mapError, Prog.ret_bind, EncryptionType.needDecrypt, bne_self_eq_false,
    Bool.false_eq_true, if_false]

theorem processUdpPacket_header {etp : EncryptionType} {auth : UInt8}
    (hetp : EncryptionType.fromByte auth = .ok etp) (body : Bytes) :
    processUdpPacket cfg (UdpClient.packetHeader auth ++ body) =
      .call .nowNs fun timestamp => processUdpBody cfg etp body timestamp := by
  have hbytes : UdpClient.packetHeader auth ++ body = 0xEE :: 0xAA :: 1 :: 0 :: auth :: body := rfl
  unfold processUdpPacket
  rw [hbytes]
  have hlen : ¬ (0xEE :: 0xAA :: 1 :: 0 :: auth :: body : Bytes).length < 5 := by
    simp only [List.length_cons]
    omega
  simp only [hlen, if_false, List.take_succ_cons, List.take_zero, controlHeader, ne_eq,
    not_true_eq_false, List.getD_cons_zero, List.getD_cons_succ, List.drop_succ_cons,
    List.drop_zero, hetp, Prog.bind_eq, Prog.ofExcept_ok, Prog.ret_mapError, Prog.ret_bind]
  rfl

theorem outcome_nowNs (k : UInt64 → ServerProg UdpError Bool) :
    outcome crypto st now (.call .nowNs k) = outcome crypto st now (k now) := rfl

theorem refuses_processUdpPacket_short {frame : Bytes} (h : frame.length < 5) :
    Refuses crypto st now (processUdpPacket cfg frame) := by
  unfold Refuses processUdpPacket
  simp only [if_pos h]
  exact refuses_throw crypto st now _

theorem count_of_splitFirst {b c d : Bytes} (h : splitFirst 0 b = (c, some d)) :
    b.count 0 = d.count 0 + 1 := by
  have hc := not_mem_splitFirst (0 : UInt8) b
  rw [h] at hc
  rw [eq_of_splitFirst_some h, List.count_append, List.count_eq_zero_of_not_mem hc,
    List.count_cons_self, Nat.zero_add]

theorem refuses_processUdpBlock {block : Bytes} (h : block.count 0 = 0) (login : Str)
    (password : Option Str) (timestamp : UInt64) :
    Refuses crypto st now (processUdpBlock cfg login password block timestamp) := by
  have hsplit : splitFirst 0 block = (block, none) :=
    splitFirst_of_not_mem (List.count_eq_zero.mp h)
  unfold processUdpBlock
  rw [hsplit]
  dsimp only
  split_ifs
  · exact refuses_throw crypto st now _
  · cases udpNeedAck (block.getD 0 0) with
    | none => exact refuses_throw crypto st now _
    | some needAck =>
      cases strFromUtf8 (block.drop 2) with
      | error e => exact refuses_throw crypto st now _
      | ok raw => exact refuses_throw crypto st now _

theorem refuses_processUdpBody_plain {body : Bytes} (h : body.count 0 ≤ 2) (timestamp : UInt64) :
    Refuses crypto st now (processUdpBody cfg .no body timestamp) := by
  unfold processUdpBody
  cases hlogin : splitFirst 0 body with
  | mk login rest =>
    cases hl : strFromUtf8 login with
    | error e =>
      simp only [hl]
      exact refuses_throw crypto st now _
    | ok login =>
      simp only [hl, Prog.bind_eq, Prog.ofExcept_ok, Prog.ret_mapError, Prog.ret_bind,
        EncryptionType.needDecrypt, bne_self_eq_false, Bool.false_eq_true, if_false]
      cases rest with
      | none => exact refuses_throw crypto st now _
      | some rest =>
        have hcount := count_of_splitFirst hlogin
        dsimp only
        cases hpassword : splitFirst 0 rest with
        | mk password block =>
          cases hp : strFromUtf8 password with
          | error e => exact refuses_throw crypto st now _
          | ok password =>
            simp only [Prog.ofExcept_ok, Prog.ret_mapError, Prog.ret_bind]
            cases block with
            | none => exact refuses_throw crypto st now _
            | some block =>
              have hcount' := count_of_splitFirst hpassword
              exact refuses_processUdpBlock cfg crypto st now (by omega) login _ timestamp

theorem processUdpBody_sealed {login : Str} (hlogin : 0 ∉ utf8 login) (block : Bytes)
    (timestamp : UInt64) :
    processUdpBody cfg .aes256Gcm (utf8 login ++ 0 :: block) timestamp =
      .call (.authAndDecr block (udpKeyId login) .aes256Gcm) fun r =>
        ((Prog.ofExcept r).mapError (·, false)).bind fun b =>
          processUdpBlock cfg login none b timestamp := by
  unfold processUdpBody
  simp only [splitFirst_append hlogin, strFromUtf8_utf8, Prog.bind_eq, Prog.ofExcept_ok,
    Prog.ret_mapError, Prog.ret_bind, EncryptionType.needDecrypt]
  rfl

theorem refuses_processUdpBody_sealed {body : Bytes} (h : body.count 0 = 0) (timestamp : UInt64) :
    Refuses crypto st now (processUdpBody cfg .aes256Gcm body timestamp) := by
  have hsplit : splitFirst 0 body = (body, none) :=
    splitFirst_of_not_mem (List.count_eq_zero.mp h)
  unfold processUdpBody
  rw [hsplit]
  dsimp only
  cases strFromUtf8 body with
  | error e => exact refuses_throw crypto st now _
  | ok login => exact refuses_throw crypto st now _

theorem authAndDecr_of_sealed {keys : Keys} {keyId : Str} {key nonce plain encrypted digest : Bytes}
    (hs : ∀ k, keys.bind (· keyId) = some k →
      Sealed crypto k.cipherAes256 key nonce plain encrypted digest) {b : Bytes}
    (hb : b <+: nonce ++ encrypted ++ digest) :
    keys.authAndDecr crypto b keyId .aes256Gcm = some (.ok plain) ∧
        b = nonce ++ encrypted ++ digest ∨
      ∃ e, keys.authAndDecr crypto b keyId .aes256Gcm = some (.error e) := by
  unfold Keys.authAndDecr
  cases hkey : keys.bind (· keyId) with
  | none => exact .inr ⟨_, rfl⟩
  | some k =>
    have hk := hs k hkey
    dsimp only
    split_ifs with hlen
    · exact .inr ⟨_, rfl⟩
    · unfold decrypt
      dsimp only
      have hparts : b.take 12 ++ (b.drop 12).take ((b.drop 12).length - 16) ++
          (b.drop 12).drop ((b.drop 12).length - 16) = b := by
        rw [List.append_assoc, List.take_append_drop, List.take_append_drop]
      by_cases heq : (k.cipherAes256, b.take 12, (b.drop 12).take ((b.drop 12).length - 16),
          (b.drop 12).drop ((b.drop 12).length - 16)) = (key, nonce, encrypted, digest)
      · simp only [Prod.mk.injEq] at heq
        obtain ⟨hsame, hnonce, hdata, htag⟩ := heq
        rw [hsame, hnonce, hdata, htag, hk.opens]
        rw [hnonce, hdata, htag] at hparts
        exact .inl ⟨rfl, hparts.symm⟩
      · have hnone := hk.rejects _ _ _ (hparts.symm ▸ hb) heq
        rw [hnone]
        exact .inr ⟨_, rfl⟩

/-- Everything handed on of the datagram is the publish as it was sent, and it is acknowledged as
published only when all of it was received. -/
def Integrity (h : List ServerEvent) (topic : Str) (message received datagram : Bytes) : Prop :=
  (∀ p ∈ h.filterMap publicationOf, p.priority = defaultPriority ∧
    prepareTopic cfg.maxTopicDepth topic = .ok p.topic ∧ p.message = message) ∧
  (udpReply responseOk ∈ h.filterMap replyOf → received = datagram)

theorem udpReply_injective : Function.Injective udpReply := fun _ _ h =>
  (List.cons.inj (List.append_cancel_left h)).1

theorem events_handleUdpDatagram {frame : Bytes} {r : Except UdpError Bool}
    (hr : (outcome crypto st now (processUdpPacket cfg frame)).2.2 = some r) :
    events crypto st now (handleUdpDatagram cfg frame) [] =
      events crypto st now (processUdpPacket cfg frame) [] ++
        match udpAckCode r with
        | some code => [⟨.sendTo (udpReply code), .ok ()⟩]
        | none => [] := by
  unfold outcome at hr
  unfold events handleUdpDatagram
  rw [Prog.bind_eq, Prog.eval_bind, Prog.eval_attempt]
  dsimp only at hr ⊢
  rw [hr]
  simp only [Option.map_some]
  cases udpAckCode r with
  | none => rfl
  | some code => rfl

theorem integrity_iff {frame topic message received datagram} {pubs : List Publication}
    {r : Except UdpError Bool}
    (h : outcome crypto st now (processUdpPacket cfg frame) = (pubs, [], some r)) :
    Integrity cfg (events crypto st now (handleUdpDatagram cfg frame) []) topic message received
        datagram ↔
      (∀ p ∈ pubs, p.priority = defaultPriority ∧
        prepareTopic cfg.maxTopicDepth topic = .ok p.topic ∧ p.message = message) ∧
      (udpAckCode r = some responseOk → received = datagram) := by
  have hevents := events_handleUdpDatagram cfg crypto st now (congrArg (·.2.2) h)
  have hpubs : (events crypto st now (processUdpPacket cfg frame) []).filterMap publicationOf =
      pubs := congrArg (·.1) h
  have hreplies : (events crypto st now (processUdpPacket cfg frame) []).filterMap replyOf = [] :=
    congrArg (·.2.1) h
  unfold Integrity
  rw [hevents, List.filterMap_append, List.filterMap_append, hpubs, hreplies]
  cases udpAckCode r with
  | none => simp
  | some code =>
    have hpub : publicationOf ⟨.sendTo (udpReply code), .ok ()⟩ = none := rfl
    have hreply : replyOf ⟨.sendTo (udpReply code), .ok ()⟩ = some (udpReply code) := rfl
    have hcode : udpReply responseOk = udpReply code ↔ code = responseOk :=
      ⟨fun h => (udpReply_injective h).symm, fun h => h ▸ rfl⟩
    simp only [List.filterMap_cons, hpub, hreply, List.filterMap_nil, List.append_nil,
      List.nil_append, List.mem_cons, List.not_mem_nil, or_false, Option.some.injEq, hcode]

theorem integrity_of_refuses {frame : Bytes}
    (h : Refuses crypto st now (processUdpPacket cfg frame)) (topic : Str)
    (message received datagram : Bytes) :
    Integrity cfg (events crypto st now (handleUdpDatagram cfg frame) []) topic message received
      datagram := by
  obtain ⟨⟨e, needAck⟩, h⟩ := h
  rw [integrity_iff cfg crypto st now h]
  refine ⟨fun p hp => absurd hp List.not_mem_nil, fun hack => ?_⟩
  cases needAck with
  | false => cases hack
  | true =>
    have hcode := Option.some.inj hack
    split_ifs at hcode
    · exact absurd hcode (by decide)
    · exact absurd hcode (by decide)

theorem integrity_of_accepts {frame topic message received datagram data} {t : Str} {ack : Bool}
    (h : outcome crypto st now (processUdpPacket cfg frame) =
      (delivered cfg st ⟨defaultPriority, t, data⟩, [], some (.ok ack)))
    (ht : prepareTopic cfg.maxTopicDepth topic = .ok t) :
    Integrity cfg (events crypto st now (handleUdpDatagram cfg frame) []) topic message received
        datagram ↔
      (delivered cfg st ⟨defaultPriority, t, data⟩ = [] ∨ data = message) ∧
        (ack = true → received = datagram) := by
  have hack : udpAckCode (.ok ack) = some responseOk ↔ ack = true := by
    cases ack with
    | false => simp only [udpAckCode, reduceCtorEq, Bool.false_eq_true]
    | true => simp only [udpAckCode]
  rw [integrity_iff cfg crypto st now h, hack]
  refine and_congr_left' ⟨fun hall => ?_, fun hor p hp => ?_⟩
  · cases hd : delivered cfg st ⟨defaultPriority, t, data⟩ with
    | nil => exact .inl rfl
    | cons p ps =>
      have hmem : p ∈ delivered cfg st ⟨defaultPriority, t, data⟩ := hd ▸ List.mem_cons_self ..
      have hp := eq_of_mem_delivered cfg st hmem
      have hmessage := (hall p hmem).2.2
      rw [hp] at hmessage
      exact .inr hmessage
  · have heq := eq_of_mem_delivered cfg st hp
    subst heq
    rcases hor with hnil | hdata
    · exact absurd (hnil ▸ hp) List.not_mem_nil
    · exact ⟨rfl, ht, hdata⟩

theorem integrity_of_publish {frame message received datagram data} {login topic : Str}
    {password : Option Str} {ack : Bool}
    (h : outcome crypto st now (processUdpPacket cfg frame) = outcome crypto st now
      (publishUdp cfg login password ack defaultPriority topic data now)) :
    Integrity cfg (events crypto st now (handleUdpDatagram cfg frame) []) topic message received
        datagram ↔
      (∀ t, ¬ Accepts cfg crypto st login password topic t) ∨
        ((cfg.cluster = false ∧
          ∀ t, prepareTopic cfg.maxTopicDepth topic = .ok t → st.db.getSubscribers t = []) ∨
          data = message) ∧ (ack = true → received = datagram) := by
  by_cases hacc : ∃ t, Accepts cfg crypto st login password topic t
  · obtain ⟨t, hacc⟩ := hacc
    have ht := hacc.2.1
    have hnot : ¬ ∀ t, ¬ Accepts cfg crypto st login password topic t := fun hall => hall t hacc
    have hsubs : (∀ t', prepareTopic cfg.maxTopicDepth topic = .ok t' →
        st.db.getSubscribers t' = []) ↔ st.db.getSubscribers t = [] := by
      simp only [ht, Except.ok.injEq, forall_eq']
    rw [outcome_publishUdp cfg crypto st now hacc] at h
    rw [integrity_of_accepts cfg crypto st now h ht, delivered_eq_nil, hsubs, and_comm (a := _ = []),
      or_iff_right hnot]
  · have hall := not_exists.mp hacc
    refine iff_of_true (integrity_of_refuses cfg crypto st now ?_ topic message _ _) (.inl hall)
    unfold Refuses
    rw [h]
    exact refuses_publishUdp cfg crypto st now hall ack defaultPriority data now

theorem length_packetHeader (auth : UInt8) : (UdpClient.packetHeader auth).length = 5 := rfl

theorem recvFrom_packet (size : Nat) (auth : UInt8) (body : Bytes) :
    (recvFrom size (UdpClient.packetHeader auth ++ body)).length < 5 ∨
      5 ≤ size ∧ recvFrom size (UdpClient.packetHeader auth ++ body) =
        UdpClient.packetHeader auth ++ body.take (size - 5) := by
  have hheader := length_packetHeader auth
  unfold recvFrom
  by_cases hsize : size < 5
  · have hlen := List.length_take_le size (UdpClient.packetHeader auth ++ body)
    exact .inl (by omega)
  · have hfull : (UdpClient.packetHeader auth).take size = UdpClient.packetHeader auth :=
      List.take_of_length_le (by omega)
    exact .inr ⟨by omega, by rw [List.take_append, hfull, hheader]⟩

def plainFields (login password topic : Bytes) (ack : Bool) : Bytes :=
  login ++ 0 :: (password ++ 0 :: (UdpClient.publishOp ack :: defaultPriority :: topic))

theorem plainFields_append (login password : Bytes) (topic : Str) (message : Bytes) (ack : Bool) :
    login ++ 0 :: (password ++ 0 :: UdpClient.msgBuf topic message ack) =
      plainFields login password (utf8 topic) ack ++ 0 :: message := by
  simp only [plainFields, UdpClient.msgBuf, List.append_assoc, List.cons_append]

theorem count_plainFields {login password topic : Bytes} (hlogin : 0 ∉ login)
    (hpassword : 0 ∉ password) (htopic : 0 ∉ topic) (ack : Bool) :
    (plainFields login password topic ack).count 0 = 2 := by
  have hop : (0 : UInt8) ∉ UdpClient.publishOp ack :: defaultPriority :: topic := by
    simp only [List.mem_cons, not_or]
    exact ⟨(publishOp_ne_zero ack).symm, by decide, htopic⟩
  unfold plainFields
  rw [List.count_append, List.count_eq_zero_of_not_mem hlogin, List.count_cons_self,
    List.count_append, List.count_eq_zero_of_not_mem hpassword, List.count_cons_self,
    List.count_eq_zero_of_not_mem hop]

theorem outcome_plain_packet {login password topic : Str} (hlogin : 0 ∉ utf8 login)
    (hpassword : 0 ∉ utf8 password) (htopic : topic ≠ []) (htopic0 : 0 ∉ utf8 topic)
    (data : Bytes) (ack : Bool) :
    outcome crypto st now (processUdpPacket cfg (UdpClient.packetHeader authLoginPass ++
        (utf8 login ++ 0 :: (utf8 password ++ 0 :: UdpClient.msgBuf topic data ack)))) =
      outcome crypto st now
        (publishUdp cfg login (some password) ack defaultPriority topic data now) := by
  rw [processUdpPacket_header cfg rfl, outcome_nowNs, processUdpBody_plain cfg hlogin hpassword,
    processUdpBlock_msgBuf cfg login (some password) htopic htopic0]

theorem refuses_cut_fields {size : Nat} {login password topic : Str} (hlogin : 0 ∉ utf8 login)
    (hpassword : 0 ∉ utf8 password) (htopic0 : 0 ∉ utf8 topic) (message : Bytes) (ack : Bool)
    (hsize : size < 5 + (plainFields (utf8 login) (utf8 password) (utf8 topic) ack).length + 1) :
    Refuses crypto st now (processUdpPacket cfg (recvFrom size
      (UdpClient.packetHeader authLoginPass ++
        (plainFields (utf8 login) (utf8 password) (utf8 topic) ack ++ 0 :: message)))) := by
  rcases recvFrom_packet size authLoginPass
    (plainFields (utf8 login) (utf8 password) (utf8 topic) ack ++ 0 :: message) with
    hshort | ⟨h5, hrecv⟩
  · exact refuses_processUdpPacket_short cfg crypto st now hshort
  · have htake : (plainFields (utf8 login) (utf8 password) (utf8 topic) ack ++ 0 :: message).take
        (size - 5) = (plainFields (utf8 login) (utf8 password) (utf8 topic) ack).take (size - 5) :=
      List.take_append_of_le_length (by omega)
    have hcount : ((plainFields (utf8 login) (utf8 password) (utf8 topic) ack).take
        (size - 5)).count 0 ≤ 2 := by
      rw [← count_plainFields hlogin hpassword htopic0 ack]
      exact (List.take_sublist _ _).count_le 0
    unfold Refuses
    rw [hrecv, processUdpPacket_header cfg rfl, outcome_nowNs, htake]
    exact refuses_processUdpBody_plain cfg crypto st now hcount now

theorem recvFrom_plain_packet {size : Nat} {login password : Bytes} {topic : Str} {ack : Bool}
    (hsize : 5 + (plainFields login password (utf8 topic) ack).length + 1 ≤ size)
    (message : Bytes) :
    recvFrom size (UdpClient.packetHeader authLoginPass ++
        (plainFields login password (utf8 topic) ack ++ 0 :: message)) =
      UdpClient.packetHeader authLoginPass ++
        (plainFields login password (utf8 topic) ack ++ 0 :: message.take
          (size - (5 + (plainFields login password (utf8 topic) ack).length + 1))) := by
  have hheader : (UdpClient.packetHeader authLoginPass).take size =
      UdpClient.packetHeader authLoginPass := by
    refine List.take_of_length_le ?_
    rw [length_packetHeader]
    omega
  have hfields : (plainFields login password (utf8 topic) ack).take (size - 5) =
      plainFields login password (utf8 topic) ack := List.take_of_length_le (by omega)
  have hrest : size - 5 - (plainFields login password (utf8 topic) ack).length =
      size - (5 + (plainFields login password (utf8 topic) ack).length + 1) + 1 := by omega
  unfold recvFrom
  rw [List.take_append, hheader, length_packetHeader, List.take_append, hfields, hrest,
    List.take_succ_cons]

/-- Among the packets whose fields arrive, the cut ones lose data that is published or acknowledged
all the same. -/
theorem integrity_plain {size : Nat} {login password topic : Str} (hlogin : 0 ∉ utf8 login)
    (hpassword : 0 ∉ utf8 password) (htopic : topic ≠ []) (htopic0 : 0 ∉ utf8 topic)
    (message : Bytes) (ack : Bool) {datagram : Bytes}
    (hd : datagram = UdpClient.packetHeader authLoginPass ++
      (plainFields (utf8 login) (utf8 password) (utf8 topic) ack ++ 0 :: message)) :
    Integrity cfg (events crypto st now (handleUdpDatagram cfg (recvFrom size datagram)) []) topic
        message (recvFrom size datagram) datagram ↔
      datagram.length ≤ size ∨ size + message.length < datagram.length ∨
        (∀ t, ¬ Accepts cfg crypto st login (some password) topic t) ∨
        ack = false ∧ cfg.cluster = false ∧
          ∀ t, prepareTopic cfg.maxTopicDepth topic = .ok t → st.db.getSubscribers t = [] := by
  set fields := plainFields (utf8 login) (utf8 password) (utf8 topic) ack with hfields
  have hlength : datagram.length = 5 + fields.length + 1 + message.length := by
    rw [hd, List.length_append, length_packetHeader, List.length_append, List.length_cons]
    omega
  by_cases hcut : size < 5 + fields.length + 1
  · -- cut before the message: a field is missing
    have hrefuses := refuses_cut_fields cfg crypto st now hlogin hpassword htopic0 message ack hcut
    rw [← hfields, ← hd] at hrefuses
    have hrhs : size + message.length < datagram.length := by omega
    exact iff_of_true (integrity_of_refuses cfg crypto st now hrefuses topic message _ _)
      (.inr (.inl hrhs))
  · have hrecv := recvFrom_plain_packet (Nat.le_of_not_lt hcut) message
    rw [← hfields, ← hd, hfields, ← plainFields_append] at hrecv
    have hout := outcome_plain_packet cfg crypto st now hlogin hpassword htopic htopic0
      (message.take (size - (5 + fields.length + 1))) ack
    rw [← hrecv] at hout
    -- cut inside the message: what is left of it is published
    have hwhole : message.take (size - (5 + fields.length + 1)) = message ↔
        datagram.length ≤ size := by
      rw [List.take_eq_self_iff]
      omega
    have hsame : recvFrom size datagram = datagram ↔ datagram.length ≤ size :=
      List.take_eq_self_iff _
    have hlong : ¬ size + message.length < datagram.length := by omega
    rw [integrity_of_publish cfg crypto st now hout, hwhole, hsame, or_iff_right hlong]
    by_cases hfits : datagram.length ≤ size
    · simp only [hfits, or_true, implies_true, and_true, true_or]
    · cases ack with
      | false => simp only [hfits, or_false, false_or, Bool.false_eq_true, false_implies, and_true,
          true_and]
      | true => simp only [hfits, or_false, false_or, Bool.true_eq_false, true_implies, and_false,
          false_and]

theorem outcome_authAndDecr (block : Bytes) (keyId : Str) (tp : EncryptionType)
    {r : Except Error Bytes} (h : st.keys.authAndDecr crypto block keyId tp = some r)
    (k : Except Error Bytes → ServerProg UdpError Bool) :
    outcome crypto st now (.call (.authAndDecr block keyId tp) k) = outcome crypto st now (k r) := by
  unfold outcome events
  simp only [Prog.eval_call, ServerState.answer, h, Option.getD_some]
  rfl

/-- A sealed packet is published whole or refused, wherever it is cut. -/
theorem integrity_sealed {size : Nat} {login topic : Str} (hlogin : 0 ∉ utf8 login)
    (htopic : topic ≠ []) (htopic0 : 0 ∉ utf8 topic) (message : Bytes) (ack : Bool)
    {key nonce encrypted digest : Bytes}
    (hs : ∀ k, st.keys.bind (· (udpKeyId login)) = some k →
      Sealed crypto k.cipherAes256 key nonce (UdpClient.msgBuf topic message ack) encrypted digest)
    {datagram : Bytes}
    (hd : datagram = UdpClient.packetHeader authKeyAes256Gcm ++
      (utf8 login ++ 0 :: (nonce ++ encrypted ++ digest))) :
    Integrity cfg (events crypto st now (handleUdpDatagram cfg (recvFrom size datagram)) []) topic
      message (recvFrom size datagram) datagram := by
  rcases recvFrom_packet size authKeyAes256Gcm
    (utf8 login ++ 0 :: (nonce ++ encrypted ++ digest)) with hshort | ⟨_, hrecv⟩
  · rw [← hd] at hshort
    exact integrity_of_refuses cfg crypto st now
      (refuses_processUdpPacket_short cfg crypto st now hshort) topic message _ _
  · rw [← hd] at hrecv
    have hout := congrArg (outcome crypto st now) (congrArg (processUdpPacket cfg) hrecv)
    rw [processUdpPacket_header cfg rfl, outcome_nowNs] at hout
    by_cases hname : size - 5 ≤ (utf8 login).length
    · have hcount : ((utf8 login ++ 0 :: (nonce ++ encrypted ++ digest)).take
          (size - 5)).count 0 = 0 := by
        rw [List.take_append_of_le_length hname]
        exact List.count_eq_zero_of_not_mem (fun h => hlogin (List.mem_of_mem_take h))
      refine integrity_of_refuses cfg crypto st now ?_ topic message _ _
      unfold Refuses
      rw [hout]
      exact refuses_processUdpBody_sealed cfg crypto st now hcount now
    · obtain ⟨n, hn⟩ : ∃ n, size - 5 = (utf8 login).length + (n + 1) :=
        ⟨size - 5 - (utf8 login).length - 1, by omega⟩
      rw [hn, List.take_length_add_append, List.take_succ_cons,
        processUdpBody_sealed cfg hlogin] at hout
      rw [hn, List.take_length_add_append, List.take_succ_cons] at hrecv
      -- a box that was cut does not open
      rcases authAndDecr_of_sealed crypto hs (List.take_prefix n (nonce ++ encrypted ++ digest))
        with ⟨hopen, hwhole⟩ | ⟨e, herror⟩
      · rw [outcome_authAndDecr crypto st now _ _ _ hopen] at hout
        simp only [Prog.ofExcept_ok, Prog.ret_mapError, Prog.ret_bind,
          processUdpBlock_msgBuf cfg login none htopic htopic0] at hout
        have hsame : recvFrom size datagram = datagram := by rw [hrecv, hwhole, hd]
        exact (integrity_of_publish cfg crypto st now hout).mpr (.inr ⟨.inr rfl, fun _ => hsame⟩)
      · rw [outcome_authAndDecr crypto st now _ _ _ herror] at hout
        refine integrity_of_refuses cfg crypto st now ?_ topic message _ _
        unfold Refuses
        rw [hout]
        exact refuses_throw crypto st now _

end

def sampleKey : Bytes := List.replicate 32 7

def sampleNonce : Bytes := List.replicate 12 9

def sampleDigest : Bytes := List.replicate 16 5

def sampleAead : Crypto where
  bcryptVerify password hash := password == hash
  encryptAead _ _ _ data := some (data, sampleDigest)
  decryptAead _ key iv data tag :=
    if (key, iv, data, tag) =
      (sampleKey, sampleNonce, UdpClient.msgBuf ['a'] [1, 2, 3] true, sampleDigest) then some data
    else none

theorem sampleAead_sealed (stored : Bytes) : Sealed sampleAead stored sampleKey sampleNonce
    (UdpClient.msgBuf ['a'] [1, 2, 3] true) (UdpClient.msgBuf ['a'] [1, 2, 3] true)
    sampleDigest where
  opens := by decide
  rejects _ _ _ _ hne := if_neg hne

def sampleKeyedState : ServerState listMap :=
  { sampleState with keys := some fun _ => some ⟨sampleKey.take 16, sampleKey⟩ }

end Psrt

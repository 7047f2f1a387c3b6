import Psrt.Publish.Integrity
import Psrt.Server.Datagram

/-! The replies to datagrams: when there is one, and what its code says of the publish. -/

namespace Psrt
open Wire Interaction

def replies (h : List ServerEvent) : List Bytes := h.filterMap replyOf

def Accepted (h : List ServerEvent) : Prop :=
  pushes h ≠ [] ∨ ∃ topic, ⟨.getSubscribers topic, []⟩ ∈ h

def AuthRefused (cfg : Config) (login : Str) (password : Option Str) (h : List ServerEvent) :
    Prop :=
  (login = [] ∧ password = some [] ∧ cfg.allowAnonymous = false) ∨
    ∃ p, password = some p ∧ ⟨.authenticate login p, false⟩ ∈ h

def AclDenies (cfg : Config) (raw : Str) : Option Acl → Prop
  | none => True
  | some acl => ∃ topic, prepareTopic cfg.maxTopicDepth raw = .ok topic ∧
      containsInvalidSymbols topic = false ∧ acl.allowWrite topic = false

def Refused (cfg : Config) (login : Str) (password : Option Str) (raw : Str)
    (h : List ServerEvent) : Prop :=
  AuthRefused cfg login password h ∨ ∃ acl, ⟨.getAcl login, acl⟩ ∈ h ∧ AclDenies cfg raw acl

def Envelope.login : Envelope → Str
  | plain login _ _ => login
  | sealed login _ _ => login

def Envelope.password : Envelope → Option Str
  | plain _ password _ => some password
  | sealed _ _ _ => none

def AccessRefused (cfg : Config) (frame : Bytes) (h : List ServerEvent) : Prop :=
  ∃ envelope block b, openDatagram frame = .ok envelope ∧ blockOf frame h = some block ∧
    parseBlock block = .ok b ∧ Refused cfg envelope.login envelope.password b.raw h

/-- What a listener's turn owes the sender of a datagram. -/
structure ReplyDiscipline (cfg : Config) (frame : Bytes) (h : List ServerEvent) : Prop where
  one : (replies h).length ≤ 1
  ok : udpReply responseOk ∈ replies h ↔ decodedOp frame h = some opPublish ∧ Accepted h
  error : ∀ r ∈ replies h, r ≠ udpReply responseOk →
    (r = udpReply responseErr ∨ r = udpReply responseErrAccess) ∧
      decodedOp frame h = some opPublish ∧ ¬ Accepted h
  access : udpReply responseErrAccess ∈ replies h ↔
    decodedOp frame h = some opPublish ∧ AccessRefused cfg frame h
  silent : decodedOp frame h ≠ some opPublish → replies h = []

/-- The questions before a publish: they neither push nor reply. -/
def CheckOp : ServerOp → Prop
  | .nowNs => True
  | .authAndDecr _ _ _ => True
  | .authenticate _ _ => True
  | _ => False

def DeliverOp : ServerOp → Prop
  | .getSubscribers _ => True
  | .pushToSubscribers _ _ _ _ _ => True
  | .replicationPush _ _ _ _ => True
  | _ => False

theorem CheckOp.not_deliver {o : ServerOp} (h : CheckOp o) : ¬ DeliverOp o := by
  cases o with
  | nowNs => exact id
  | authAndDecr => exact id
  | authenticate => exact id
  | _ => exact h.elim

theorem CheckOp.not_sendTo {o : ServerOp} (h : CheckOp o) (buf : Bytes) : o ≠ .sendTo buf := by
  rintro rfl
  exact h

theorem DeliverOp.not_sendTo {o : ServerOp} (h : DeliverOp o) (buf : Bytes) :
    o ≠ .sendTo buf := by
  rintro rfl
  exact h

section
variable {h tail : List ServerEvent}

theorem mem_pushes_iff {p : Push} : p ∈ pushes h ↔ ∃ timestamp,
    ⟨.pushToSubscribers p.subscribers p.priority p.topic p.message timestamp, ()⟩ ∈ h := by
  constructor
  · intro hp
    obtain ⟨e, he, hpush⟩ := List.mem_filterMap.mp hp
    obtain ⟨timestamp, rfl⟩ := eq_of_pushOf hpush
    exact ⟨timestamp, he⟩
  · rintro ⟨timestamp, he⟩
    exact List.mem_filterMap.mpr ⟨_, he, rfl⟩

theorem replies_eq_nil (hops : ∀ e ∈ h, ∀ buf, e.op ≠ .sendTo buf) : replies h = [] := by
  refine List.filterMap_eq_nil_iff.mpr fun e he => ?_
  have hop := hops e he
  unfold replyOf
  split
  · next buf heq => exact absurd heq (hop buf)
  · rfl

theorem kind_of_prepareTopic {d : Nat} {raw : Str} {e : Error}
    (he : prepareTopic d raw = .error e) : e.kind ≠ .accessDenied := by
  unfold prepareTopic at he
  dsimp only at he
  split_ifs at he
  obtain rfl := Except.error.inj he
  exact nofun

theorem not_accepted (hops : ∀ e ∈ h, ¬ DeliverOp e.op) : ¬ Accepted h := by
  rintro (hpush | ⟨topic, he⟩)
  · obtain ⟨p, hp⟩ := List.exists_mem_of_ne_nil _ hpush
    obtain ⟨_, he⟩ := mem_pushes_iff.mp hp
    exact hops _ he trivial
  · exact hops _ he trivial

/-- What is exchanged after the access list was answered does not change the decision. -/
theorem refused_iff {cfg : Config} {login raw : Str} {password : Option Str} {acl : Option Acl}
    (hcheck : ∀ e ∈ h, CheckOp e.op) (hauth : ¬ AuthRefused cfg login password h)
    (hdeliver : ∀ e ∈ tail, DeliverOp e.op) :
    Refused cfg login password raw (h ++ [⟨.getAcl login, acl⟩] ++ tail) ↔
      AclDenies cfg raw acl := by
  have hmem : ∀ e ∈ h ++ [⟨.getAcl login, acl⟩] ++ tail, ¬ DeliverOp e.op →
      e ∈ h ∨ e = ⟨.getAcl login, acl⟩ := by
    intro e he hnot
    simp only [List.mem_append, List.mem_singleton] at he
    rcases he with (he | he) | he
    · exact .inl he
    · exact .inr he
    · exact absurd (hdeliver e he) hnot
  constructor
  · rintro ((hanon | ⟨p, hp, he⟩) | ⟨acl', he, hdenies⟩)
    · exact absurd (.inl hanon) hauth
    · rcases hmem _ he id with he | heq
      · exact absurd (.inr ⟨p, hp, he⟩) hauth
      · cases heq
    · rcases hmem _ he id with he | heq
      · exact (hcheck _ he).elim
      · cases heq
        exact hdenies
  · intro hdenies
    exact .inr ⟨acl, List.mem_append_left _ (List.mem_append_right _ (List.mem_singleton_self _)),
      hdenies⟩

theorem Accepted.mono {h' : List ServerEvent} (ha : Accepted h) (hsub : h ⊆ h') :
    Accepted h' := by
  rcases ha with hpush | ⟨topic, he⟩
  · obtain ⟨p, hp⟩ := List.exists_mem_of_ne_nil _ hpush
    obtain ⟨timestamp, he⟩ := mem_pushes_iff.mp hp
    exact .inl (List.ne_nil_of_mem (mem_pushes_iff.mpr ⟨timestamp, hsub he⟩))
  · exact .inr ⟨topic, hsub he⟩

end

def watch : Monitor ServerOp ServerOp.Resp (List ServerEvent) :=
  Monitor.history fun
    | h, .sendTo _ => replies h = []
    | _, _ => True

structure Passed (cfg : Config) (login : Str) (password : Option Str) (h h' : List ServerEvent) :
    Prop where
  later : h <+: h'
  check : ∀ e ∈ h', CheckOp e.op
  auth : ¬ AuthRefused cfg login password h'

structure Published (cfg : Config) (login : Str) (password : Option Str) (raw : Str)
    (h h' : List ServerEvent) : Prop where
  later : h <+: h'
  accepted : Accepted h'
  granted : ¬ Refused cfg login password raw h'
  silent : replies h' = []

structure Declined (cfg : Config) (login : Str) (password : Option Str) (raw : Str) (e : Error)
    (h h' : List ServerEvent) : Prop where
  later : h <+: h'
  accepted : ¬ Accepted h'
  access : e.kind = .accessDenied ↔ Refused cfg login password raw h'
  silent : replies h' = []

section
variable {cfg : Config} {login raw : Str} {password : Option Str} {h : List ServerEvent}

theorem Declined.of_check {e : Error} {h' : List ServerEvent} (hlater : h <+: h')
    (hcheck : ∀ e ∈ h', CheckOp e.op) (he : e.kind = .accessDenied)
    (hauth : AuthRefused cfg login password h') : Declined cfg login password raw e h h' where
  later := hlater
  accepted := not_accepted fun e he => (hcheck e he).not_deliver
  access := iff_of_true he (.inl hauth)
  silent := replies_eq_nil fun e he => (hcheck e he).not_sendTo

section
variable {h₁ : List ServerEvent} (hp : Passed cfg login password h h₁) {acl : Option Acl}
include hp

theorem Passed.declined {e : Error} (he : e.kind = .accessDenied ↔ AclDenies cfg raw acl) :
    Declined cfg login password raw e h (h₁ ++ [⟨.getAcl login, acl⟩]) where
  later := hp.later.trans (List.prefix_append ..)
  accepted := not_accepted fun e he hd => by
    rcases List.mem_append.mp he with he | he
    · exact (hp.check e he).not_deliver hd
    · obtain rfl := List.mem_singleton.mp he
      exact hd
  access := by
    have hiff : Refused cfg login password raw (h₁ ++ [⟨.getAcl login, acl⟩] ++ []) ↔
        AclDenies cfg raw acl :=
      refused_iff hp.check hp.auth fun _ he => absurd he List.not_mem_nil
    rw [List.append_nil] at hiff
    exact he.trans hiff.symm
  silent := replies_eq_nil fun e he buf heq => by
    rcases List.mem_append.mp he with he | he
    · exact (hp.check e he).not_sendTo buf heq
    · obtain rfl := List.mem_singleton.mp he
      cases heq

theorem Passed.published {tail : List ServerEvent} (hgrant : ¬ AclDenies cfg raw acl)
    (hdeliver : ∀ e ∈ tail, DeliverOp e.op) (haccepted : Accepted tail) :
    Published cfg login password raw h (h₁ ++ [⟨.getAcl login, acl⟩] ++ tail) where
  later := (hp.later.trans (List.prefix_append ..)).trans (List.prefix_append ..)
  accepted := haccepted.mono (List.subset_append_right ..)
  granted := fun hr => hgrant ((refused_iff hp.check hp.auth hdeliver).mp hr)
  silent := replies_eq_nil fun e he buf heq => by
    simp only [List.mem_append, List.mem_singleton] at he
    rcases he with (he | rfl) | he
    · exact (hp.check e he).not_sendTo buf heq
    · cases heq
    · exact (hdeliver e he).not_sendTo buf heq

end

theorem wp_authenticateUdp_watch (needAck : Bool) (hcheck : ∀ e ∈ h, CheckOp e.op)
    (hfirst : ∀ e ∈ h, ∀ l p, e.op ≠ .authenticate l p) :
    watch.wp (authenticateUdp cfg login password needAck)
      (fun _ h' => Passed cfg login password h h')
      (fun e h' => e.2 = needAck ∧ Declined cfg login password raw e.1 h h') h := by
  have hnone : ∀ p, ⟨.authenticate login p, false⟩ ∉ h := fun p he => hfirst _ he login p rfl
  unfold authenticateUdp
  cases password with
  | none =>
    -- an encrypted datagram is authenticated by its key alone
    refine ⟨List.prefix_rfl, hcheck, ?_⟩
    rintro (⟨_, hp, _⟩ | ⟨p, hp, _⟩)
    · cases hp
    · cases hp
  | some password =>
    dsimp only
    split_ifs with hempty hallow
    · refine ⟨List.prefix_rfl, hcheck, ?_⟩
      rintro (⟨_, _, hclosed⟩ | ⟨p, _, he⟩)
      · rw [hallow] at hclosed
        cases hclosed
      · exact hnone p he
    · simp only [Bool.and_eq_true, List.isEmpty_iff] at hempty
      refine ⟨rfl, .of_check List.prefix_rfl hcheck rfl (.inl ⟨hempty.1, ?_, ?_⟩)⟩
      · rw [hempty.2]
      · exact Bool.eq_false_of_not_eq_true hallow
    · refine ⟨trivial, fun verified _ => ?_⟩
      have hcheck' : ∀ e ∈ h ++ [⟨.authenticate login password, verified⟩], CheckOp e.op := by
        intro e he
        rcases List.mem_append.mp he with he | he
        · exact hcheck e he
        · obtain rfl := List.mem_singleton.mp he
          trivial
      cases verified with
      | true =>
        refine ⟨List.prefix_append .., hcheck', ?_⟩
        rintro (⟨hlogin, hpassword, _⟩ | ⟨p, _, he⟩)
        · obtain rfl := Option.some.inj hpassword
          exact hempty (by rw [hlogin]; rfl)
        · rcases List.mem_append.mp he with he | he
          · exact hnone p he
          · cases List.mem_singleton.mp he
      | false =>
        exact ⟨rfl, .of_check (List.prefix_append ..) hcheck' rfl (.inr ⟨password, rfl,
          List.mem_append_right _ (List.mem_singleton_self _)⟩)⟩

theorem wp_deliver_watch {h₁ : List ServerEvent} (hp : Passed cfg login password h h₁)
    {acl : Option Acl} (hgrant : ¬ AclDenies cfg raw acl) (priority : UInt8) (topic : Str)
    (data : Bytes) (timestamp : UInt64) (needAck : Bool) {E : UdpError → List ServerEvent → Prop} :
    watch.wp ((perform (.getSubscribers topic)).bind fun subscribers =>
      (pushIfAny subscribers priority topic data timestamp).bind fun _ =>
        (replicate cfg priority topic data timestamp).bind fun _ =>
          (.ret needAck : ServerProg UdpError Bool))
      (fun ack h' => ack = needAck ∧ Published cfg login password raw h h') E
      (h₁ ++ [⟨.getAcl login, acl⟩]) := by
  -- whatever has made the publish accepted, replicating it does not change the end
  have hrepl : ∀ tail, (∀ e ∈ tail, DeliverOp e.op) → Accepted tail →
      watch.wp ((replicate cfg priority topic data timestamp).bind fun _ =>
          (.ret needAck : ServerProg UdpError Bool))
        (fun ack h' => ack = needAck ∧ Published cfg login password raw h h') E
        (h₁ ++ [⟨.getAcl login, acl⟩] ++ tail) := by
    intro tail hdeliver haccepted
    unfold replicate
    split_ifs
    · refine ⟨trivial, fun r _ => ⟨rfl, ?_⟩⟩
      change Published _ _ _ _ _ (h₁ ++ [⟨.getAcl login, acl⟩] ++ tail ++ [_])
      rw [List.append_assoc]
      refine hp.published hgrant ?_ (haccepted.mono (List.subset_append_left ..))
      exact List.forall_mem_append.mpr ⟨hdeliver, List.forall_mem_singleton.mpr trivial⟩
    · exact ⟨rfl, hp.published hgrant hdeliver haccepted⟩
  rw [Prog.op_bind]
  refine ⟨trivial, fun subscribers _ => ?_⟩
  have hget : ∀ e ∈ [(⟨.getSubscribers topic, subscribers⟩ : ServerEvent)], DeliverOp e.op :=
    List.forall_mem_singleton.mpr trivial
  unfold pushIfAny
  dsimp only
  split_ifs with hnobody
  · rw [List.isEmpty_iff] at hnobody
    subst hnobody
    exact hrepl _ hget (.inr ⟨topic, List.mem_singleton_self _⟩)
  · refine ⟨trivial, fun r _ => ?_⟩
    let pushed : ServerEvent :=
      ⟨.pushToSubscribers subscribers priority topic data timestamp, r⟩
    have hpushed : pushed ∈ [⟨.getSubscribers topic, subscribers⟩] ++ [pushed] :=
      List.mem_append_right _ (List.mem_singleton_self _)
    have hpush : Accepted ([⟨.getSubscribers topic, subscribers⟩] ++ [pushed]) :=
      .inl (List.ne_nil_of_mem (List.mem_filterMap.mpr ⟨pushed, hpushed, rfl⟩))
    have hrest := hrepl ([⟨.getSubscribers topic, subscribers⟩] ++ [pushed])
      (List.forall_mem_append.mpr ⟨hget, List.forall_mem_singleton.mpr trivial⟩) hpush
    rw [← List.append_assoc] at hrest
    exact hrest

theorem wp_publishUdp_watch (needAck : Bool) (priority : UInt8) (data : Bytes)
    (timestamp : UInt64) (hcheck : ∀ e ∈ h, CheckOp e.op)
    (hfirst : ∀ e ∈ h, ∀ l p, e.op ≠ .authenticate l p) :
    watch.wp (publishUdp cfg login password needAck priority raw data timestamp)
      (fun ack h' => ack = needAck ∧ Published cfg login password raw h h')
      (fun e h' => e.2 = needAck ∧ Declined cfg login password raw e.1 h h') h := by
  unfold publishUdp
  rw [Prog.bind_eq, Monitor.wp_bind]
  refine Monitor.wp_mono (fun _ h₁ hp => ?_) (fun _ _ he => he)
    (wp_authenticateUdp_watch needAck hcheck hfirst)
  refine ⟨trivial, fun acl _ => ?_⟩
  cases acl with
  | none => exact ⟨rfl, hp.declined (iff_of_true rfl trivial)⟩
  | some acl =>
    cases hprepared : prepareTopic cfg.maxTopicDepth raw with
    | error e =>
      refine ⟨rfl, hp.declined (iff_of_false (kind_of_prepareTopic hprepared) ?_)⟩
      rintro ⟨topic, htopic, _⟩
      rw [hprepared] at htopic
      cases htopic
    | ok topic =>
      have hdenies : AclDenies cfg raw (some acl) ↔
          containsInvalidSymbols topic = false ∧ acl.allowWrite topic = false := by
        simp only [AclDenies, hprepared, Except.ok.injEq, exists_eq_left']
      simp only [Prog.bind_eq, Prog.ofExcept_ok, Prog.ret_mapError, Prog.ret_bind]
      split_ifs with hinvalid hwrite
      · refine ⟨rfl, hp.declined (iff_of_false nofun fun hd => ?_)⟩
        rw [(hdenies.mp hd).1] at hinvalid
        cases hinvalid
      · have hvalid := Bool.eq_false_of_not_eq_true hinvalid
        rw [Bool.not_eq_true'] at hwrite
        exact ⟨rfl, hp.declined (iff_of_true rfl (hdenies.mpr ⟨hvalid, hwrite⟩))⟩
      · refine wp_deliver_watch hp (fun hd => ?_) priority topic data timestamp needAck
        rw [Bool.not_eq_true'] at hwrite
        exact hwrite (hdenies.mp hd).2

end

structure PacketAccepted (cfg : Config) (frame : Bytes) (ack : Bool) (h : List ServerEvent) :
    Prop where
  flag : ack = true ↔ decodedOp frame h = some opPublish
  accepted : Accepted h
  granted : ¬ AccessRefused cfg frame h
  silent : replies h = []

structure PacketFailed (cfg : Config) (frame : Bytes) (e : UdpError) (h : List ServerEvent) :
    Prop where
  flag : e.2 = true ↔ decodedOp frame h = some opPublish
  accepted : ¬ Accepted h
  access : e.2 = true → (e.1.kind = .accessDenied ↔ AccessRefused cfg frame h)
  silent : replies h = []

section
variable {cfg : Config} {frame : Bytes} {h : List ServerEvent}

theorem accessRefused_iff {envelope : Envelope} {block : Bytes} {b : Block}
    (hopen : openDatagram frame = .ok envelope) (hblock : blockOf frame h = some block)
    (hparse : parseBlock block = .ok b) :
    AccessRefused cfg frame h ↔ Refused cfg envelope.login envelope.password b.raw h := by
  constructor
  · rintro ⟨envelope', block', b', hopen', hblock', hparse', hrefused⟩
    obtain rfl := Except.ok.inj (hopen'.symm.trans hopen)
    obtain rfl := Option.some.inj (hblock'.symm.trans hblock)
    obtain rfl := Except.ok.inj (hparse'.symm.trans hparse)
    exact hrefused
  · intro hrefused
    exact ⟨envelope, block, b, hopen, hblock, hparse, hrefused⟩

theorem decodedOp_eq {block : Bytes} (hblock : blockOf frame h = some block) :
    decodedOp frame h = blockOp block := by
  rw [decodedOp, hblock, Option.bind_some]

theorem PacketFailed.of_undecoded (e : Error) (hblock : blockOf frame h = none)
    (hcheck : ∀ e ∈ h, CheckOp e.op) : PacketFailed cfg frame (e, false) h where
  flag := by
    rw [decodedOp, hblock, Option.bind_none]
    exact iff_of_false Bool.false_ne_true nofun
  accepted := not_accepted fun e he => (hcheck e he).not_deliver
  access := nofun
  silent := replies_eq_nil fun e he => (hcheck e he).not_sendTo

theorem wp_processUdpBlock_watch {envelope : Envelope} {block : Bytes} (timestamp : UInt64)
    (hopen : openDatagram frame = .ok envelope) (hblock : blockOf frame h = some block)
    (hcheck : ∀ e ∈ h, CheckOp e.op) (hfirst : ∀ e ∈ h, ∀ l p, e.op ≠ .authenticate l p) :
    watch.wp (processUdpBlock cfg envelope.login envelope.password block timestamp)
      (PacketAccepted cfg frame) (PacketFailed cfg frame) h := by
  rw [processUdpBlock_eq]
  have hlater : ∀ {h'}, h <+: h' → blockOf frame h' = some block := by
    rintro h' ⟨tail, rfl⟩
    exact blockOf_append hblock tail
  rcases parseBlock_cases block with ⟨b, hparse, _, hflag⟩ | ⟨e, needAck, hparse, hkind, hflag⟩
  · rw [hparse, Prog.ofExcept_ok, Prog.ret_bind]
    refine Monitor.wp_mono ?_ ?_ (wp_publishUdp_watch b.needAck b.priority b.data timestamp hcheck
      hfirst)
    · rintro ack h' ⟨rfl, hp⟩
      have hblock' := hlater hp.later
      refine ⟨?_, hp.accepted, ?_, hp.silent⟩
      · rwa [decodedOp_eq hblock']
      · rw [accessRefused_iff hopen hblock' hparse]
        exact hp.granted
    · rintro ⟨e, needAck⟩ h' ⟨rfl, hd⟩
      have hblock' := hlater hd.later
      refine ⟨?_, hd.accepted, fun _ => ?_, hd.silent⟩
      · rwa [decodedOp_eq hblock']
      · rw [accessRefused_iff hopen hblock' hparse]
        exact hd.access
  · rw [hparse]
    refine ⟨?_, not_accepted fun e he => (hcheck e he).not_deliver, fun _ => ?_,
      replies_eq_nil fun e he => (hcheck e he).not_sendTo⟩
    · rwa [decodedOp_eq hblock]
    · refine iff_of_false (fun heq => by rw [hkind] at heq; cases heq) ?_
      rintro ⟨_, block', b, _, hblock', hparse', _⟩
      obtain rfl := Option.some.inj (hblock'.symm.trans hblock)
      rw [hparse] at hparse'
      cases hparse'

theorem wp_processUdpPacket_watch (frame : Bytes) :
    watch.wp (processUdpPacket cfg frame) (PacketAccepted cfg frame) (PacketFailed cfg frame)
      [] := by
  rw [processUdpPacket_eq]
  refine ⟨trivial, fun timestamp _ => ?_⟩
  have hnow : ∀ e ∈ [(⟨.nowNs, timestamp⟩ : ServerEvent)], CheckOp e.op :=
    List.forall_mem_singleton.mpr trivial
  have hnow' : ∀ e ∈ [(⟨.nowNs, timestamp⟩ : ServerEvent)], ∀ l p, e.op ≠ .authenticate l p :=
    List.forall_mem_singleton.mpr nofun
  cases hopen : openDatagram frame with
  | error e => exact .of_undecoded e (blockOf_error hopen _) hnow
  | ok envelope =>
    cases envelope with
    | plain login password block =>
      exact wp_processUdpBlock_watch timestamp hopen (blockOf_plain hopen _) hnow hnow'
    | sealed login etp encrypted =>
      refine ⟨trivial, fun r _ => ?_⟩
      have hcheck : ∀ e ∈ [(⟨.nowNs, timestamp⟩ : ServerEvent)] ++
          [⟨.authAndDecr encrypted (udpKeyId login) etp, r⟩], CheckOp e.op :=
        List.forall_mem_append.mpr ⟨hnow, List.forall_mem_singleton.mpr trivial⟩
      cases r with
      | error e => exact .of_undecoded e (by rw [blockOf_sealed hopen]; rfl) hcheck
      | ok block =>
        refine wp_processUdpBlock_watch timestamp hopen ?_ hcheck ?_
        · rw [blockOf_sealed hopen]
          rfl
        · exact List.forall_mem_append.mpr ⟨hnow', List.forall_mem_singleton.mpr nofun⟩

theorem replies_snoc (e : ServerEvent) : replies (h ++ [e]) = replies h ++ (replyOf e).toList := by
  unfold replies
  rw [List.filterMap_append]
  cases hreply : replyOf e with
  | none => rw [List.filterMap_cons_none hreply]; rfl
  | some buf => rw [List.filterMap_cons_some hreply]; rfl

theorem length_replies_le_one (ha : watch.Accepts [] h) : (replies h).length ≤ 1 := by
  induction h using List.reverseRecOn with
  | nil => exact Nat.zero_le 1
  | append_singleton h e ih =>
    rw [Monitor.accepts_snoc, watch, Monitor.history_after, List.nil_append] at ha
    rw [replies_snoc]
    obtain ⟨o, r⟩ := e
    cases o with
    | sendTo buf =>
      have hnone : replies h = [] := ha.2
      rw [hnone]
      exact Nat.le_refl 1
    | _ => simpa [replyOf] using ih ha.1

/-! A reply changes nothing of what it is about. -/

section
variable (r : Except Error Unit) (buf : Bytes)

theorem blockOf_sent : blockOf frame (h ++ [⟨.sendTo buf, r⟩]) = blockOf frame h := by
  unfold blockOf
  cases openDatagram frame with
  | error e => rfl
  | ok envelope =>
    cases envelope with
    | plain login password block => rfl
    | sealed login etp encrypted =>
      dsimp only
      rw [List.findSome?_append]
      exact Option.or_none

theorem decodedOp_sent : decodedOp frame (h ++ [⟨.sendTo buf, r⟩]) = decodedOp frame h := by
  rw [decodedOp, blockOf_sent, decodedOp]

theorem mem_sent {e : ServerEvent} (he : e.op ≠ .sendTo buf) :
    e ∈ h ++ [⟨.sendTo buf, r⟩] ↔ e ∈ h := by
  rw [List.mem_append, List.mem_singleton]
  refine or_iff_left fun heq => ?_
  rw [heq] at he
  exact he rfl

theorem accepted_sent : Accepted (h ++ [⟨.sendTo buf, r⟩]) ↔ Accepted h := by
  have hpushes : pushes (h ++ [⟨.sendTo buf, r⟩]) = pushes h := by
    unfold pushes
    rw [List.filterMap_append]
    exact List.append_nil _
  unfold Accepted
  rw [hpushes]
  refine or_congr_right (exists_congr fun topic => ?_)
  exact mem_sent r buf nofun

theorem accessRefused_sent :
    AccessRefused cfg frame (h ++ [⟨.sendTo buf, r⟩]) ↔ AccessRefused cfg frame h := by
  have hrefused : ∀ login password raw, Refused cfg login password raw
      (h ++ [⟨.sendTo buf, r⟩]) ↔ Refused cfg login password raw h := by
    intro login password raw
    refine or_congr (or_congr_right (exists_congr fun p => ?_)) (exists_congr fun acl => ?_)
    · exact and_congr_right fun _ => mem_sent r buf nofun
    · exact and_congr_left fun _ => mem_sent r buf nofun
  unfold AccessRefused
  rw [blockOf_sent]
  simp only [hrefused]

end

theorem replies_sent (r : Except Error Unit) (code : UInt8) (hnone : replies h = []) :
    replies (h ++ [⟨.sendTo (udpReply code), r⟩]) = [udpReply code] := by
  rw [replies_snoc, hnone]
  rfl

theorem ReplyDiscipline.of_silent (hnone : replies h = [])
    (hop : decodedOp frame h ≠ some opPublish) : ReplyDiscipline cfg frame h where
  one := by
    rw [hnone]
    exact Nat.zero_le 1
  ok := by
    rw [hnone]
    exact iff_of_false List.not_mem_nil fun hok => hop hok.1
  error r hr := by
    rw [hnone] at hr
    cases hr
  access := by
    rw [hnone]
    exact iff_of_false List.not_mem_nil fun haccess => hop haccess.1
  silent _ := hnone

theorem ReplyDiscipline.of_reply {code : UInt8} (hreply : replies h = [udpReply code])
    (hop : decodedOp frame h = some opPublish) (hok : code = responseOk ↔ Accepted h)
    (hcode : code ≠ responseOk → code = responseErr ∨ code = responseErrAccess)
    (haccess : code = responseErrAccess ↔ AccessRefused cfg frame h) :
    ReplyDiscipline cfg frame h where
  one := by
    rw [hreply]
    exact Nat.le_refl 1
  ok := by
    rw [hreply, List.mem_singleton, udpReply_injective.eq_iff, eq_comm, hok]
    exact (and_iff_right hop).symm
  error r hr hne := by
    rw [hreply, List.mem_singleton] at hr
    subst hr
    have hcode' : code ≠ responseOk := fun heq => hne (congrArg udpReply heq)
    refine ⟨?_, hop, fun ha => hcode' (hok.mpr ha)⟩
    exact (hcode hcode').imp (congrArg udpReply) (congrArg udpReply)
  access := by
    rw [hreply, List.mem_singleton, udpReply_injective.eq_iff, eq_comm, haccess]
    exact (and_iff_right hop).symm
  silent hne := absurd hop hne

theorem wp_handleUdpDatagram_watch (frame : Bytes) :
    watch.wp (handleUdpDatagram cfg frame) (fun _ h => ReplyDiscipline cfg frame h)
      (fun _ _ => False) [] := by
  refine (wp_handleUdpDatagram cfg frame).mpr (Monitor.wp_mono (fun ack h hp => ?_)
    (fun e h hf => ?_) (wp_processUdpPacket_watch frame))
  · cases ack with
    | false => exact .of_silent hp.silent fun hop => Bool.false_ne_true (hp.flag.mpr hop)
    | true =>
      refine ⟨hp.silent, fun r _ => ?_⟩
      have hop := hp.flag.mp rfl
      refine ReplyDiscipline.of_reply (replies_sent r responseOk hp.silent)
        ((decodedOp_sent r _).trans hop) (iff_of_true rfl ((accepted_sent r _).mpr hp.accepted))
        (absurd rfl) ?_
      refine iff_of_false (by decide) fun ha => hp.granted ?_
      exact (accessRefused_sent r _).mp ha
  · obtain ⟨e, needAck⟩ := e
    cases needAck with
    | false => exact .of_silent hf.silent fun hop => Bool.false_ne_true (hf.flag.mpr hop)
    | true =>
      refine ⟨hf.silent, fun r _ => ?_⟩
      have hop := hf.flag.mp rfl
      have haccess := hf.access rfl
      refine ReplyDiscipline.of_reply (replies_sent r _ hf.silent)
        ((decodedOp_sent r _).trans hop)
        (iff_of_false ?_ fun ha => hf.accepted ((accepted_sent r _).mp ha)) (fun _ => ?_)
        (Iff.trans ?_ (haccess.trans (accessRefused_sent r _).symm))
      · split_ifs
        · decide
        · decide
      · split_ifs
        · exact .inr rfl
        · exact .inl rfl
      · split_ifs with hkind
        · exact iff_of_true rfl hkind
        · exact iff_of_false (by decide) hkind

end

/-- A turn of the listener replies at most once, acknowledges exactly the publishes it accepted and
reports exactly the access it refused, and a packet that ends in an error pushed nothing. -/
theorem udp_reply_discipline (cfg : Config) (frame : Bytes) :
    (∀ (h : List ServerEvent) (q : ServerProg Error Unit),
      Prog.Run (handleUdpDatagram cfg frame) h q → (replies h).length ≤ 1) ∧
    (∀ (h : List ServerEvent), Prog.Run (handleUdpDatagram cfg frame) h (.ret ()) →
      ReplyDiscipline cfg frame h) ∧
    (∀ (h : List ServerEvent) (e : Error),
      ¬ Prog.Run (handleUdpDatagram cfg frame) h (.throw e)) ∧
    ∀ (h : List ServerEvent) (e : UdpError),
      Prog.Run (processUdpPacket cfg frame) h (.throw e) → pushes h = [] := by
  have hwatch : watch.wp (handleUdpDatagram cfg frame) (fun _ h => ReplyDiscipline cfg frame h)
      (fun _ _ => False) [] := wp_handleUdpDatagram_watch frame
  refine ⟨fun h q hr => ?_, fun h hr => ?_, fun h e hr => ?_, fun h e hr => ?_⟩
  · exact length_replies_le_one (Monitor.wp_run hwatch hr (Monitor.history_admits [] h)).1
  · exact Monitor.history_run hwatch hr
  · exact Monitor.history_run hwatch hr
  · have hfailed := Monitor.history_run (wp_processUdpPacket_watch frame) hr
    by_contra hpush
    exact hfailed.accepted (.inl hpush)

def sampleDatagram : Bytes := [0xEE, 0xAA, 1, 0, 0, 0, 0, 1, 127, 97, 0, 1]

def sampleTurn : List ServerEvent :=
  (Prog.eval (sampleState.answer sampleCrypto 0) (handleUdpDatagram sampleConfig sampleDatagram)
    []).1

theorem run_sampleTurn :
    Prog.Run (handleUdpDatagram sampleConfig sampleDatagram) sampleTurn (.ret ()) := by
  have hend : (Prog.eval (sampleState.answer sampleCrypto 0)
      (handleUdpDatagram sampleConfig sampleDatagram) []).2.2 = some (.ok ()) := by
    decide +kernel
  exact Prog.run_eval_end hend

theorem replies_sampleTurn : replies sampleTurn = [udpReply responseOk] := by
  decide +kernel

theorem udp_reply_discipline_sample :
    ∃ h, Prog.Run (handleUdpDatagram sampleConfig [0xEE, 0xAA, 1, 0, 0, 0, 0, 1, 127, 97, 0, 1]) h
      (.ret ()) ∧ udpReply responseOk ∈ replies h ∧ Accepted h := by
  have hreply : udpReply responseOk ∈ replies sampleTurn := by
    rw [replies_sampleTurn]
    exact List.mem_singleton_self _
  have hdiscipline := (udp_reply_discipline sampleConfig _).2.1 _ run_sampleTurn
  exact ⟨sampleTurn, run_sampleTurn, hreply, (hdiscipline.ok.mp hreply).2⟩

end Psrt

import Psrt.Server.Udp

/-! Datagrams taken apart: the envelope around a block, the fields of the block, and the handler
as one that decodes first and acts then. -/

namespace Psrt
open Wire Interaction

/-- What is around the block of a datagram; that of an encrypted one is still to be decrypted. -/
inductive Envelope where
  | plain (login password : Str) (block : Bytes)
  | sealed (login : Str) (etp : EncryptionType) (encrypted : Bytes)

def openBody (etp : EncryptionType) (body : Bytes) : Except Error Envelope := do
  let sp := splitFirst 0 body
  let login ← strFromUtf8 sp.1
  if etp.needDecrypt then
    match sp.2 with
    | none => .error (.invalidData "encryption block missing")
    | some encrypted => .ok (.sealed login etp encrypted)
  else
    match sp.2 with
    | none => .error (.invalidData "invalid packet format")
    | some block => do
      let sp := splitFirst 0 block
      let password ← strFromUtf8 sp.1
      match sp.2 with
      | none => .error (.invalidData "data missing")
      | some block => .ok (.plain login password block)

def openDatagram (frame : Bytes) : Except Error Envelope :=
  if frame.length < 5 then .error (.invalidData "packet too small")
  else if frame.take 2 ≠ controlHeader then .error (.invalidData "invalid header")
  else if leNat [frame.getD 2 0, frame.getD 3 0] ≠ protocolVersion then
    .error (.invalidData "unsupported protocol version")
  else do
    let etp ← EncryptionType.fromByte (frame.getD 4 0)
    openBody etp (frame.drop 5)

theorem field_of_splitFirst {b : Bytes} {s : Str} (h : strFromUtf8 (splitFirst 0 b).1 = .ok s) :
    0 ∉ utf8 s ∧ ∀ rest, (splitFirst 0 b).2 = some rest → b = utf8 s ++ 0 :: rest := by
  rw [utf8_of_strFromUtf8 h]
  exact ⟨not_mem_splitFirst 0 b, fun rest hrest => eq_of_splitFirst_some (Prod.ext rfl hrest)⟩

def Envelope.Opens (body : Bytes) : Envelope → Prop
  | .plain login password block => 0 ∉ utf8 login ∧ 0 ∉ utf8 password ∧
    body = utf8 login ++ 0 :: (utf8 password ++ 0 :: block)
  | .sealed login _ encrypted => 0 ∉ utf8 login ∧ body = utf8 login ++ 0 :: encrypted

theorem opens_of_openBody {etp : EncryptionType} {body : Bytes} {envelope : Envelope}
    (h : openBody etp body = .ok envelope) : envelope.Opens body := by
  unfold openBody at h
  dsimp only at h
  cases hlogin : strFromUtf8 (splitFirst 0 body).1 with
  | error e =>
    rw [hlogin] at h
    cases h
  | ok login =>
    rw [hlogin] at h
    dsimp only [bind, Except.bind] at h
    obtain ⟨hlogin0, hbody⟩ := field_of_splitFirst hlogin
    split_ifs at h with hdecrypt
    · cases hrest : (splitFirst 0 body).2 with
      | none =>
        rw [hrest] at h
        cases h
      | some encrypted =>
        rw [hrest] at h
        obtain rfl := Except.ok.inj h
        exact ⟨hlogin0, hbody encrypted hrest⟩
    · cases hrest : (splitFirst 0 body).2 with
      | none =>
        rw [hrest] at h
        cases h
      | some rest =>
        -- a plain one has a password in a field of its own
        rw [hrest] at h
        dsimp only at h
        cases hpassword : strFromUtf8 (splitFirst 0 rest).1 with
        | error e =>
          rw [hpassword] at h
          cases h
        | ok password =>
          rw [hpassword] at h
          obtain ⟨hpassword0, hsplit⟩ := field_of_splitFirst hpassword
          cases hblock : (splitFirst 0 rest).2 with
          | none =>
            rw [hblock] at h
            cases h
          | some block =>
            rw [hblock] at h
            obtain rfl := Except.ok.inj h
            refine ⟨hlogin0, hpassword0, ?_⟩
            rw [← hsplit block hblock]
            exact hbody rest hrest

theorem opens_of_openDatagram {frame : Bytes} {envelope : Envelope}
    (h : openDatagram frame = .ok envelope) : envelope.Opens (frame.drop 5) := by
  unfold openDatagram at h
  split_ifs at h
  cases hetp : EncryptionType.fromByte (frame.getD 4 0) with
  | error e =>
    rw [hetp] at h
    cases h
  | ok etp =>
    rw [hetp] at h
    exact opens_of_openBody h

def blockOp (block : Bytes) : Option UInt8 :=
  if (splitFirst 0 block).1.length < 3 then none else some ((splitFirst 0 block).1.getD 0 0)

def blockTopic (block : Bytes) : Except Error Str := strFromUtf8 ((splitFirst 0 block).1.drop 2)

structure Block where
  needAck : Bool
  priority : UInt8
  raw : Str
  data : Bytes

def parseBlock (block : Bytes) : Except UdpError Block :=
  match blockOp block with
  | none => .error (.invalidData "invalid data block", false)
  | some op => match udpNeedAck op with
    | none => .error (.invalidData s!"invalid opration: {lowerHex op.toNat}", false)
    | some needAck => match blockTopic block with
      | .error e => .error (e, needAck)
      | .ok raw => match (splitFirst 0 block).2 with
        | none => .error (.invalidData "data missing", needAck)
        | some data => .ok ⟨needAck, (splitFirst 0 block).1.getD 1 0, raw, data⟩

theorem udpNeedAck_iff {op : UInt8} {needAck : Bool} (h : udpNeedAck op = some needAck) :
    needAck = true ↔ op = opPublish := by
  unfold udpNeedAck at h
  split_ifs at h with hpublish hno
  · obtain rfl := Option.some.inj h
    exact iff_of_true rfl hpublish
  · obtain rfl := Option.some.inj h
    exact iff_of_false Bool.false_ne_true hpublish

theorem strFromUtf8_kind {b : Bytes} {e : Error} (h : strFromUtf8 b = .error e) :
    e.kind = .invalidData := by
  unfold strFromUtf8 at h
  split at h
  · cases h
  · obtain rfl := Except.error.inj h
    rfl

/-- How the fields of a block come out: the flag follows the operation, and none of the errors is
one of access. -/
theorem parseBlock_cases (block : Bytes) :
    (∃ b, parseBlock block = .ok b ∧ blockTopic block = .ok b.raw ∧
      (b.needAck = true ↔ blockOp block = some opPublish)) ∨
    ∃ e needAck, parseBlock block = .error (e, needAck) ∧ e.kind = .invalidData ∧
      (needAck = true ↔ blockOp block = some opPublish) := by
  unfold parseBlock
  cases hop : blockOp block with
  | none => exact .inr ⟨_, _, rfl, rfl, iff_of_false Bool.false_ne_true nofun⟩
  | some op =>
    dsimp only
    simp only [Option.some.injEq]
    cases hack : udpNeedAck op with
    | none =>
      refine .inr ⟨_, _, rfl, rfl, iff_of_false Bool.false_ne_true ?_⟩
      rintro rfl
      cases hack
    | some needAck =>
      have hiff := udpNeedAck_iff hack
      dsimp only
      cases hraw : blockTopic block with
      | error e => exact .inr ⟨_, _, rfl, strFromUtf8_kind hraw, hiff⟩
      | ok raw =>
        dsimp only
        cases (splitFirst 0 block).2 with
        | none => exact .inr ⟨_, _, rfl, rfl, hiff⟩
        | some data => exact .inl ⟨_, rfl, rfl, hiff⟩

theorem eq_of_parseBlock {block : Bytes} {b : Block} (h : parseBlock block = .ok b) :
    ∃ head, block = head ++ (utf8 b.raw ++ 0 :: b.data) ∧ 0 ∉ utf8 b.raw := by
  unfold parseBlock blockOp blockTopic at h
  split_ifs at h with hshort
  dsimp only at h
  cases hack : udpNeedAck ((splitFirst 0 block).1.getD 0 0) with
  | none =>
    rw [hack] at h
    cases h
  | some needAck =>
    rw [hack] at h
    cases hraw : strFromUtf8 ((splitFirst 0 block).1.drop 2) with
    | error e =>
      rw [hraw] at h
      cases h
    | ok raw =>
      rw [hraw] at h
      cases hdata : (splitFirst 0 block).2 with
      | none =>
        rw [hdata] at h
        cases h
      | some data =>
        rw [hdata] at h
        obtain rfl := Except.ok.inj h
        refine ⟨(splitFirst 0 block).1.take 2, ?_, ?_⟩
        · rw [utf8_of_strFromUtf8 hraw, ← List.append_assoc, List.take_append_drop]
          exact eq_of_splitFirst_some (Prod.ext rfl hdata)
        · rw [utf8_of_strFromUtf8 hraw]
          exact fun hmem => not_mem_splitFirst 0 block (List.mem_of_mem_drop hmem)

section
variable (cfg : Config)

theorem processUdpBlock_eq (login : Str) (password : Option Str) (block : Bytes)
    (timestamp : UInt64) :
    processUdpBlock cfg login password block timestamp =
      (Prog.ofExcept (parseBlock block)).bind fun b =>
        publishUdp cfg login password b.needAck b.priority b.raw b.data timestamp := by
  unfold processUdpBlock parseBlock blockOp blockTopic
  dsimp only
  split_ifs
  · rfl
  · dsimp only
    cases udpNeedAck ((splitFirst 0 block).1.getD 0 0) with
    | none => rfl
    | some needAck =>
      dsimp only
      cases strFromUtf8 ((splitFirst 0 block).1.drop 2) with
      | error e => rfl
      | ok raw =>
        cases (splitFirst 0 block).2 with
        | none => rfl
        | some data => rfl

def processEnvelope (timestamp : UInt64) : Envelope → ServerProg UdpError Bool
  | .plain login password block => processUdpBlock cfg login (some password) block timestamp
  | .sealed login etp encrypted => .call (.authAndDecr encrypted (udpKeyId login) etp) fun r =>
    ((Prog.ofExcept r).mapError (·, false)).bind fun block =>
      processUdpBlock cfg login none block timestamp

theorem processUdpBody_eq (etp : EncryptionType) (body : Bytes) (timestamp : UInt64) :
    processUdpBody cfg etp body timestamp =
      ((Prog.ofExcept (openBody etp body)).mapError (·, false)).bind
        (processEnvelope cfg timestamp) := by
  unfold processUdpBody openBody
  dsimp only
  cases strFromUtf8 (splitFirst 0 body).1 with
  | error e => rfl
  | ok login =>
    cases etp.needDecrypt with
    | true =>
      cases (splitFirst 0 body).2 with
      | none => rfl
      | some encrypted => rfl
    | false =>
      cases (splitFirst 0 body).2 with
      | none => rfl
      | some block =>
        dsimp only [bind, Except.bind, Prog.bind_eq]
        cases strFromUtf8 (splitFirst 0 block).1 with
        | error e => rfl
        | ok password =>
          cases (splitFirst 0 block).2 with
          | none => rfl
          | some block => rfl

theorem processUdpPacket_eq (frame : Bytes) :
    processUdpPacket cfg frame = .call .nowNs fun timestamp =>
      ((Prog.ofExcept (openDatagram frame)).mapError (·, false)).bind
        (processEnvelope cfg timestamp) := by
  unfold processUdpPacket openDatagram
  refine congrArg (Prog.call ServerOp.nowNs) (funext fun timestamp => ?_)
  dsimp only [Prog.ret_bind]
  split_ifs
  · rfl
  · rfl
  · rfl
  · cases EncryptionType.fromByte (frame.getD 4 0) with
    | error e => rfl
    | ok etp => exact processUdpBody_eq cfg etp (frame.drop 5) timestamp

end

def handleUdpReply (result : Except UdpError Bool) : ServerProg Error Unit :=
  match udpAckCode result with
  | some code => do
    let _ ← perform (.sendTo (udpReply code))
    .ret ()
  | none => .ret ()

def Sends {S : Type} (M : Monitor ServerOp ServerOp.Resp S) (Q : S → Prop) :
    Option UInt8 → S → Prop
  | none, s => Q s
  | some code, s => M.allowed s (.sendTo (udpReply code)) ∧
      ∀ r, M.possible s (.sendTo (udpReply code)) r → Q (M.next s (.sendTo (udpReply code)) r)

theorem wp_handleUdpDatagram {S : Type} {M : Monitor ServerOp ServerOp.Resp S} {Q : S → Prop}
    {E : Error → S → Prop} {s : S} (cfg : Config) (frame : Bytes) :
    M.wp (handleUdpDatagram cfg frame) (fun _ => Q) E s ↔
      M.wp (processUdpPacket cfg frame) (fun ack => Sends M Q (udpAckCode (.ok ack)))
        (fun e => Sends M Q (udpAckCode (.error e))) s := by
  have hreply : ∀ r s', M.wp (handleUdpReply r) (fun _ => Q) E s' ↔ Sends M Q (udpAckCode r) s' := by
    intro r s'
    unfold handleUdpReply
    cases udpAckCode r with
    | none => rfl
    | some code => rfl
  unfold handleUdpDatagram
  rw [Prog.bind_eq, Monitor.wp_bind, Monitor.wp_attempt]
  exact iff_of_eq (congrArg₂ (fun Q' E' => M.wp (processUdpPacket cfg frame) Q' E' s)
    (funext fun a => funext fun s' => propext (hreply (.ok a) s'))
    (funext fun e => funext fun s' => propext (hreply (.error e) s')))

def decryptedOf (e : ServerEvent) : Option Bytes :=
  match e with
  | ⟨.authAndDecr _ _ _, .ok block⟩ => some block
  | _ => none

def blockOf (frame : Bytes) (h : List ServerEvent) : Option Bytes :=
  match openDatagram frame with
  | .ok (.plain _ _ block) => some block
  | .ok (.sealed _ _ _) => h.findSome? decryptedOf
  | .error _ => none

section
variable {frame : Bytes} {login : Str}

theorem blockOf_plain {password : Str} {block : Bytes}
    (hopen : openDatagram frame = .ok (.plain login password block)) (h : List ServerEvent) :
    blockOf frame h = some block := by
  rw [blockOf, hopen]

theorem blockOf_sealed {etp : EncryptionType} {encrypted : Bytes}
    (hopen : openDatagram frame = .ok (.sealed login etp encrypted)) (h : List ServerEvent) :
    blockOf frame h = h.findSome? decryptedOf := by
  rw [blockOf, hopen]

theorem blockOf_error {e : Error} (hopen : openDatagram frame = .error e)
    (h : List ServerEvent) : blockOf frame h = none := by
  rw [blockOf, hopen]

theorem blockOf_append {h : List ServerEvent} {block : Bytes}
    (hb : blockOf frame h = some block) (h' : List ServerEvent) :
    blockOf frame (h ++ h') = some block := by
  cases hopen : openDatagram frame with
  | error e =>
    rw [blockOf_error hopen] at hb
    cases hb
  | ok envelope =>
    cases envelope with
    | plain login password b =>
      rw [blockOf_plain hopen] at hb ⊢
      exact hb
    | sealed login etp encrypted =>
      rw [blockOf_sealed hopen] at hb ⊢
      rw [List.findSome?_append, hb, Option.some_or]

end

def decodedOp (frame : Bytes) (h : List ServerEvent) : Option UInt8 :=
  (blockOf frame h).bind blockOp

end Psrt

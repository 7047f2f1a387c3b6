import Psrt.Server.KeyFile
import Psrt.Server.Datagram
import Psrt.Server.Calls
import Psrt.Server.DataStream

/-! The handlers of network input once more, with each index, slice, difference and `unwrap` that
would panic written out, and that they are the handlers of the model. -/

namespace Psrt
open Wire Interaction

def Cipher.keyLength : Cipher → Nat
  | .aes128Gcm => 16
  | .aes256Gcm => 32

namespace Checked

/-- How a handler may stop short: with an error, or in a panic. -/
inductive Stop (ε : Type) where
  | error (e : ε)
  | panic
  deriving DecidableEq, Repr

/-- Where the code panics for want of a value. -/
abbrev checked {ε α : Type} : Option α → ServerProg (Stop ε) α := Prog.orThrow .panic

section
variable {α : Type}

def index (v : List α) (n : Nat) : Option α := v[n]?

def sliceTo (v : List α) (n : Nat) : Option (List α) :=
  if n ≤ v.length then some (v.take n) else none

def sliceFrom (v : List α) (n : Nat) : Option (List α) :=
  if n ≤ v.length then some (v.drop n) else none

/-- `split_off`: what stays, and what is split off. -/
def splitOff (v : List α) (n : Nat) : Option (List α × List α) :=
  if n ≤ v.length then some (v.take n, v.drop n) else none

def sub (m n : Nat) : Option Nat := if n ≤ m then some (m - n) else none

/-- `&s[n..]` of a text, where `n` has to be the start of a character. -/
def strFrom : Str → Nat → Option Str
  | s, 0 => some s
  | [], _ + 1 => none
  | c :: s, n => if c.utf8Size ≤ n then strFrom s (n - c.utf8Size) else none

end

/-- `symm::decrypt_aead`: cipher, key, nonce, encrypted data, tag; without an answer it panics. -/
abbrev DecryptAead := Cipher → Bytes → Bytes → Bytes → Bytes → Option (Option Bytes)

def DecryptAead.Total (ssl : DecryptAead) (crypto : Crypto) : Prop :=
  ∀ (cipher : Cipher) (key iv data tag : Bytes), key.length = cipher.keyLength → iv.length = 12 →
    ssl cipher key iv data tag = some (crypto.decryptAead cipher key iv data tag)

def decrypt (ssl : DecryptAead) (cipher : Cipher) (key iv data : Bytes) :
    Option (Except Error Bytes) := do
  let digestPos ← sub data.length 16
  let encrypted ← sliceTo data digestPos
  let tag ← sliceFrom data digestPos
  match ← ssl cipher key iv encrypted tag with
  | some plain => some (.ok plain)
  | none => some (.error (.io "decryption failed"))

def authAndDecr (ssl : DecryptAead) (db : Keys) (block : Bytes) (keyId : Str)
    (tp : EncryptionType) : Option (Except Error Bytes) :=
  match db.bind (· keyId) with
  | some key =>
    if block.length < 29 then some (.error (.invalidData "Invalid encrypted data"))
    else match tp with
      | .aes128Gcm => do
        let iv ← sliceTo block 12
        let data ← sliceFrom block 12
        decrypt ssl .aes128Gcm key.cipherAes128 iv data
      | .aes256Gcm => do
        let iv ← sliceTo block 12
        let data ← sliceFrom block 12
        decrypt ssl .aes256Gcm key.cipherAes256 iv data
      | .no => none
  | none => some (.error (.access s!"no such key id: {String.ofList keyId}"))

def stripLeadingSlash (result : Str) : Option Str :=
  if result.head? = some '/' then strFrom result 1 else some result

def prepareTopic (maxTopicDepth : Nat) (topic : Str) : Option (Except Error Str) := do
  let result ← stripLeadingSlash (collapseSlashes topic)
  if result.count '/' > maxTopicDepth then some (.error (.invalidData "the topic is too deep"))
  else some (.ok result)

def publishNamed (cfg : Config) (acl : Acl) (timestamp : UInt64) (priority : UInt8)
    (name data : Bytes) : ServerProg (Stop Error) Unit := do
  let raw ← (Prog.ofExcept (strFromUtf8 name)).mapError .error
  match ← checked (prepareTopic cfg.maxTopicDepth raw) with
  | .error _ => (writeAll [responseErr]).mapError .error
  | .ok topic =>
    if containsInvalidSymbols topic then .throw (.error (.invalidData errInvalidDataBlock))
    else if acl.allowWrite topic then do
      let subscribers ← perform (.getSubscribers topic)
      pushIfAny subscribers priority topic data timestamp
      replicate cfg priority topic data timestamp
      (writeAll [responseOk]).mapError .error
    else (writeAll [responseErrAccess]).mapError .error

def handlePublish (cfg : Config) (acl : Acl) (timestamp : UInt64) (priority : UInt8)
    (buf : Bytes) : ServerProg (Stop Error) Unit :=
  match buf.idxOf? 0 with
  | none => .throw (.error (.invalidData errInvalidDataBlock))
  | some npos => do
    let parts ← checked (splitOff buf (npos + 1))
    let length ← checked (sub parts.1.length 1)
    let name := parts.1.take length
    if name.isEmpty then .throw (.error (.invalidData errInvalidDataBlock))
    else publishNamed cfg acl timestamp priority name parts.2

def publishUdp (cfg : Config) (login : Str) (password : Option Str) (needAck : Bool)
    (priority : UInt8) (raw : Str) (data : Bytes) (timestamp : UInt64) :
    ServerProg (Stop UdpError) Bool := do
  (authenticateUdp cfg login password needAck).mapError .error
  match ← perform (.getAcl login) with
  | none => .throw (.error (.access s!"No ACL for {formatLogin login}", needAck))
  | some acl => do
    let prepared ← checked (prepareTopic cfg.maxTopicDepth raw)
    let topic ← (Prog.ofExcept prepared).mapError fun e => .error (e, needAck)
    if containsInvalidSymbols topic then
      .throw (.error (.invalidData errInvalidDataBlock, needAck))
    else if !acl.allowWrite topic then
      .throw (.error (.access s!"pub access denied for {String.ofList topic}", needAck))
    else do
      let subscribers ← perform (.getSubscribers topic)
      pushIfAny subscribers priority topic data timestamp
      replicate cfg priority topic data timestamp
      .ret needAck

def processUdpBlock (cfg : Config) (login : Str) (password : Option Str) (block : Bytes)
    (timestamp : UInt64) : ServerProg (Stop UdpError) Bool := do
  let first := (splitn 2 block).next 0
  let buf ← Prog.orThrow (.error (.invalidData "data block missing", false)) first.1
  if buf.length < 3 then .throw (.error (.invalidData "invalid data block", false))
  else do
    let op ← checked (index buf 0)
    match udpNeedAck op with
    | none =>
      .throw (.error (.invalidData s!"invalid opration: {lowerHex op.toNat}", false))
    | some needAck => do
      let priority ← checked (index buf 1)
      let text ← checked (sliceFrom buf 2)
      let raw ← (Prog.ofExcept (strFromUtf8 text)).mapError fun e => .error (e, needAck)
      let data ← Prog.orThrow (.error (.invalidData "data missing", needAck)) (first.2.next 0).1
      publishUdp cfg login password needAck priority raw data timestamp

def processUdpBody (ssl : DecryptAead) (keys : Keys) (cfg : Config) (etp : EncryptionType)
    (body : Bytes) (timestamp : UInt64) : ServerProg (Stop UdpError) Bool := do
  let first := (splitn 2 body).next 0
  let name ← Prog.orThrow (.error (.invalidData "login / key id missing", false)) first.1
  let login ← (Prog.ofExcept (strFromUtf8 name)).mapError fun e => .error (e, false)
  if etp.needDecrypt then do
    let encrypted ← Prog.orThrow (.error (.invalidData "encryption block missing", false))
      (first.2.next 0).1
    let r ← checked (authAndDecr ssl keys encrypted (udpKeyId login) etp)
    let block ← (Prog.ofExcept r).mapError fun e => .error (e, false)
    processUdpBlock cfg login none block timestamp
  else do
    let block ← Prog.orThrow (.error (.invalidData "invalid packet format", false))
      (first.2.next 0).1
    let first := (splitn 2 block).next 0
    let text ← Prog.orThrow (.error (.invalidData "password missing", false)) first.1
    let password ← (Prog.ofExcept (strFromUtf8 text)).mapError fun e => .error (e, false)
    let block ← Prog.orThrow (.error (.invalidData "data missing", false)) (first.2.next 0).1
    processUdpBlock cfg login (some password) block timestamp

/-- `keys` is what `KEY_DB` holds when the datagram is decrypted. -/
def processUdpPacket (ssl : DecryptAead) (keys : Keys) (cfg : Config) (frame : Bytes) :
    ServerProg (Stop UdpError) Bool := do
  let timestamp ← perform .nowNs
  if frame.length < 5 then .throw (.error (.invalidData "packet too small", false))
  else do
    let header ← checked (sliceTo frame 2)
    if header ≠ controlHeader then .throw (.error (.invalidData "invalid header", false))
    else do
      let low ← checked (index frame 2)
      let high ← checked (index frame 3)
      if leNat [low, high] ≠ protocolVersion then
        .throw (.error (.invalidData "unsupported protocol version", false))
      else do
        let b ← checked (index frame 4)
        let etp ← (Prog.ofExcept (EncryptionType.fromByte b)).mapError fun e => .error (e, false)
        let body ← checked (sliceFrom frame 5)
        processUdpBody ssl keys cfg etp body timestamp

def warnHighLatency (message : MessageFrame) (latencyMks : UInt32) : DataProg (Option Unit) := do
  let rest ← Prog.orThrow .panic (sliceFrom message.frame 6)
  let field ← Prog.orThrow .panic ((splitn 2 rest).next 0).1
  let topic ← Prog.orThrow .panic (fromUtf8 field)
  let _ ← Prog.op (.warnLatency latencyMks topic)
  .ret none

def accountSent (latencyWarn : UInt32) (message : MessageFrame) : DataProg (Option Unit) :=
  match message.timestamp with
  | none => .ret none
  | some timestamp => do
    let now ← Prog.op .nowNs
    let latencyMks := ((now - timestamp) / 1000).toUInt32
    let _ ← Prog.op
      (.countSentBytes (message.frame.length + (message.data.elim 0 List.length)) latencyMks)
    if latencyMks > latencyWarn then warnHighLatency message latencyMks else .ret none

def writeMessage (latencyWarn : UInt32) (message : MessageFrame) : DataProg (Option Unit) := do
  let first ← Prog.orThrow .panic (index message.frame 0)
  if first = opNop then do
    let due ← Prog.op .beaconDue
    if due then writeEofIsOk [opNop] (.ret none) else .ret none
  else
    writeEofIsOk message.frame <|
      match message.data with
      | some data => writeEofIsOk data (accountSent latencyWarn message)
      | none => accountSent latencyWarn message

def handleDataStreamTurn (latencyWarn : UInt32) : DataProg (Option Unit) :=
  .call .recv fun
    | none => .ret (some ())
    | some message => writeMessage latencyWarn message

def handleDataStream (latencyWarn : UInt32) (turns : Nat) : DataProg Unit :=
  Prog.loop (handleDataStreamTurn latencyWarn) turns

section
variable {α : Type} {v : List α} {n : Nat}

theorem index_eq (h : n < v.length) (a : α) : index v n = some (v.getD n a) := by
  rw [index, List.getD_eq_getElem?_getD, List.getElem?_eq_getElem h, Option.getD_some]

theorem sliceTo_eq (h : n ≤ v.length) : sliceTo v n = some (v.take n) := if_pos h

theorem sliceFrom_eq (h : n ≤ v.length) : sliceFrom v n = some (v.drop n) := if_pos h

theorem splitOff_eq (h : n ≤ v.length) : splitOff v n = some (v.take n, v.drop n) := if_pos h

theorem sub_eq {m : Nat} (h : n ≤ m) : sub m n = some (m - n) := if_pos h

end

theorem stripLeadingSlash_eq (s : Str) :
    stripLeadingSlash s = some (Psrt.stripLeadingSlash s) := by
  by_cases hhead : s.head? = some '/'
  · obtain ⟨rest, rfl⟩ := List.head?_eq_some_iff.mp hhead
    have hsize : '/'.utf8Size = 1 := rfl
    simp only [stripLeadingSlash, List.head?_cons, if_true, strFrom, hsize, Nat.le_refl,
      Nat.sub_self, Psrt.stripLeadingSlash]
  · rw [stripLeadingSlash_of_head hhead]
    exact if_neg hhead

theorem prepareTopic_eq (maxTopicDepth : Nat) (topic : Str) :
    prepareTopic maxTopicDepth topic = some (Psrt.prepareTopic maxTopicDepth topic) := by
  unfold prepareTopic Psrt.prepareTopic
  rw [stripLeadingSlash_eq]
  dsimp only [bind, Option.bind]
  split_ifs
  · rfl
  · rfl

section
variable {ssl : DecryptAead} {crypto : Crypto} {keys : Keys}

theorem decrypt_eq (hssl : ssl.Total crypto) {cipher : Cipher} {key iv data : Bytes}
    (hkey : key.length = cipher.keyLength) (hiv : iv.length = 12) (hdata : 16 ≤ data.length) :
    decrypt ssl cipher key iv data = some (Psrt.decrypt crypto cipher key iv data) := by
  have hpos : data.length - 16 ≤ data.length := Nat.sub_le _ _
  unfold decrypt Psrt.decrypt
  rw [sub_eq hdata, Option.bind_eq_bind, Option.bind_some, sliceTo_eq hpos, sliceFrom_eq hpos]
  dsimp only [bind, Option.bind]
  rw [hssl cipher key iv _ _ hkey hiv]
  cases crypto.decryptAead cipher key iv (data.take (data.length - 16))
    (data.drop (data.length - 16)) with
  | none => rfl
  | some plain => rfl

theorem authAndDecr_eq (hssl : ssl.Total crypto) (hkeys : keys.WellFormed) {tp : EncryptionType}
    (htp : tp.needDecrypt = true) (block : Bytes) (keyId : Str) :
    authAndDecr ssl keys block keyId tp = keys.authAndDecr crypto block keyId tp := by
  unfold authAndDecr Keys.authAndDecr
  cases hkey : keys.bind (· keyId) with
  | none => rfl
  | some key =>
    dsimp only
    split_ifs with hshort
    · rfl
    · have hnonce : 12 ≤ block.length := by omega
      have hiv : (block.take 12).length = 12 := List.length_take_of_le hnonce
      have hdata : 16 ≤ (block.drop 12).length := by
        rw [List.length_drop]
        omega
      have hwell := hkeys keyId key hkey
      rw [sliceTo_eq hnonce, sliceFrom_eq hnonce]
      cases tp with
      | no => cases htp
      | aes128Gcm => exact decrypt_eq hssl hwell.aes128 hiv hdata
      | aes256Gcm => exact decrypt_eq hssl hwell.aes256 hiv hdata

end

section
variable (cfg : Config)

theorem pushIfAny_mapError {ε ε' : Type} (f : ε → ε') (subscribers : List ServerClient)
    (priority : UInt8) (topic : Str) (message : Bytes) (timestamp : UInt64) :
    (pushIfAny subscribers priority topic message timestamp).mapError f =
      pushIfAny subscribers priority topic message timestamp := by
  unfold pushIfAny
  split_ifs
  · rfl
  · rfl

theorem replicate_mapError {ε ε' : Type} (f : ε → ε') (priority : UInt8) (topic : Str)
    (message : Bytes) (timestamp : UInt64) :
    (replicate cfg priority topic message timestamp).mapError f =
      replicate cfg priority topic message timestamp := by
  unfold replicate
  split_ifs
  · rfl
  · rfl

theorem publishNamed_eq (acl : Acl) (timestamp : UInt64) (priority : UInt8) (name data : Bytes) :
    publishNamed cfg acl timestamp priority name data =
      (Psrt.publishNamed cfg acl timestamp priority name data).mapError .error := by
  unfold publishNamed Psrt.publishNamed
  simp only [Prog.bind_eq, Prog.bind_mapError]
  refine congrArg (Prog.bind _) (funext fun raw => ?_)
  rw [prepareTopic_eq]
  dsimp only [checked, Prog.orThrow, Prog.ret_bind]
  cases Psrt.prepareTopic cfg.maxTopicDepth raw with
  | error e => rfl
  | ok topic =>
    dsimp only
    split_ifs
    · rfl
    · simp only [Prog.bind_mapError, pushIfAny_mapError, replicate_mapError]
      rfl
    · rfl

theorem handlePublish_eq (acl : Acl) (timestamp : UInt64) (priority : UInt8) (buf : Bytes) :
    handlePublish cfg acl timestamp priority buf =
      (Psrt.handlePublish cfg acl timestamp priority buf).mapError .error := by
  unfold handlePublish Psrt.handlePublish
  cases hpos : buf.idxOf? 0 with
  | none => rfl
  | some npos =>
    obtain ⟨name, data, _, rfl, rfl⟩ := idxOf?_zero_eq_some hpos
    have hsplit : name.length + 1 ≤ (name ++ 0 :: data).length := by
      rw [List.length_append, List.length_cons]
      omega
    have hlast : 1 ≤ ((name ++ 0 :: data).take (name.length + 1)).length := by
      rw [List.length_take_of_le hsplit]
      omega
    dsimp only
    rw [splitOff_eq hsplit]
    dsimp only [checked, Prog.orThrow, Prog.bind_eq, Prog.ret_bind]
    rw [sub_eq hlast]
    dsimp only [Prog.orThrow, Prog.ret_bind]
    split_ifs
    · rfl
    · exact publishNamed_eq cfg acl timestamp priority _ _

theorem publishUdp_eq (login : Str) (password : Option Str) (needAck : Bool) (priority : UInt8)
    (raw : Str) (data : Bytes) (timestamp : UInt64) :
    publishUdp cfg login password needAck priority raw data timestamp =
      (Psrt.publishUdp cfg login password needAck priority raw data timestamp).mapError .error := by
  unfold publishUdp Psrt.publishUdp
  rw [prepareTopic_eq]
  simp only [Prog.bind_eq, Prog.bind_mapError]
  refine congrArg (Prog.bind _) (funext fun _ => ?_)
  refine congrArg (Prog.call _) (funext fun acl => ?_)
  cases acl with
  | none => rfl
  | some acl =>
    cases Psrt.prepareTopic cfg.maxTopicDepth raw with
    | error e => rfl
    | ok topic =>
      simp only [checked, Prog.orThrow_some, Prog.ret_bind, Prog.ofExcept_ok, Prog.ret_mapError]
      split_ifs
      · rfl
      · rfl
      · simp only [Prog.bind_mapError, pushIfAny_mapError, replicate_mapError]
        rfl

/-- A first field of three octets has an operation, a priority and a topic. -/
theorem processUdpBlock_eq (login : Str) (password : Option Str) (block : Bytes)
    (timestamp : UInt64) :
    processUdpBlock cfg login password block timestamp =
      (Psrt.processUdpBlock cfg login password block timestamp).mapError .error := by
  unfold processUdpBlock Psrt.processUdpBlock
  obtain ⟨hfirst, hsecond⟩ := splitn_two 0 block
  dsimp only
  rw [hfirst, hsecond]
  generalize (splitFirst 0 block).1 = buf
  simp only [Prog.bind_eq, Prog.orThrow_some, Prog.ret_bind]
  split_ifs with hshort
  · rfl
  · have hop : 0 < buf.length := by omega
    have hpriority : 1 < buf.length := by omega
    have htopic : 2 ≤ buf.length := by omega
    rw [index_eq hop 0, index_eq hpriority 0, sliceFrom_eq htopic]
    simp only [checked, Prog.orThrow_some, Prog.ret_bind]
    cases udpNeedAck (buf.getD 0 0) with
    | none => rfl
    | some needAck =>
      cases strFromUtf8 (buf.drop 2) with
      | error e => rfl
      | ok raw =>
        cases (splitFirst 0 block).2 with
        | none => rfl
        | some data => exact publishUdp_eq cfg login password needAck _ raw data timestamp

def keysAnswer (crypto : Crypto) (keys : Keys) : (o : ServerOp) → Option o.Resp
  | .authAndDecr block keyId tp => keys.authAndDecr crypto block keyId tp
  | _ => none

theorem processUdpBlock_resolve (crypto : Crypto) (keys : Keys) (login : Str)
    (password : Option Str) (block : Bytes) (timestamp : UInt64) :
    (Psrt.processUdpBlock cfg login password block timestamp).resolve (keysAnswer crypto keys) =
      Psrt.processUdpBlock cfg login password block timestamp := by
  apply Prog.Calls.resolve_eq
  rw [Psrt.processUdpBlock_eq]
  refine Prog.Calls.bind (Prog.calls_ofExcept _) fun b => ?_
  exact calls_publishUdp cfg (fun _ _ => rfl) (fun _ => rfl)
    (fun _ _ _ _ _ => ⟨rfl, fun _ => rfl, fun _ => rfl⟩) login password b.needAck

theorem isSome_authAndDecr (crypto : Crypto) (keys : Keys) {tp : EncryptionType}
    (htp : tp.needDecrypt = true) (block : Bytes) (keyId : Str) :
    (keys.authAndDecr crypto block keyId tp).isSome = true := by
  unfold Keys.authAndDecr
  cases keys.bind (· keyId) with
  | none => rfl
  | some key =>
    dsimp only
    split_ifs
    · rfl
    · cases tp with
      | no => cases htp
      | aes128Gcm => rfl
      | aes256Gcm => rfl

section
variable {ssl : DecryptAead} {crypto : Crypto} {keys : Keys} (hssl : ssl.Total crypto)
  (hkeys : keys.WellFormed)
include hssl hkeys

theorem processUdpBody_eq (etp : EncryptionType) (body : Bytes) (timestamp : UInt64) :
    processUdpBody ssl keys cfg etp body timestamp =
      ((Psrt.processUdpBody cfg etp body timestamp).resolve (keysAnswer crypto keys)).mapError
        .error := by
  unfold processUdpBody Psrt.processUdpBody
  obtain ⟨hfirst, hsecond⟩ := splitn_two 0 body
  dsimp only
  rw [hfirst, hsecond]
  -- the first piece of a split is always there, so `ok_or_else` never fails on it
  simp only [Prog.bind_eq, Prog.orThrow_some, Prog.ret_bind]
  cases strFromUtf8 (splitFirst 0 body).1 with
  | error e => rfl
  | ok login =>
    simp only [Prog.ofExcept_ok, Prog.ret_mapError, Prog.ret_bind]
    split_ifs with hdecrypt
    · cases (splitFirst 0 body).2 with
      | none => rfl
      | some encrypted =>
        obtain ⟨r, hr⟩ := Option.isSome_iff_exists.mp
          (isSome_authAndDecr crypto keys hdecrypt encrypted (udpKeyId login))
        have hknown : keysAnswer crypto keys (.authAndDecr encrypted (udpKeyId login) etp) =
            some r := hr
        simp only [Prog.orThrow_some, Prog.ret_bind, Prog.op_bind]
        rw [authAndDecr_eq hssl hkeys hdecrypt, hr, Prog.resolve_call_some hknown]
        cases r with
        | error e => rfl
        | ok block =>
          simp only [checked, Prog.orThrow_some, Prog.ofExcept_ok, Prog.ret_mapError,
            Prog.ret_bind]
          rw [processUdpBlock_resolve, processUdpBlock_eq]
    · cases (splitFirst 0 body).2 with
      | none => rfl
      | some block =>
        obtain ⟨hfirst, hsecond⟩ := splitn_two 0 block
        simp only [Prog.orThrow_some, Prog.ret_bind]
        rw [hfirst, hsecond]
        simp only [Prog.orThrow_some, Prog.ret_bind]
        cases strFromUtf8 (splitFirst 0 block).1 with
        | error e => rfl
        | ok password =>
          cases (splitFirst 0 block).2 with
          | none => rfl
          | some block =>
            simp only [Prog.orThrow_some, Prog.ofExcept_ok, Prog.ret_mapError, Prog.ret_bind]
            rw [processUdpBlock_resolve, processUdpBlock_eq]

theorem processUdpPacket_eq (frame : Bytes) :
    processUdpPacket ssl keys cfg frame =
      ((Psrt.processUdpPacket cfg frame).resolve (keysAnswer crypto keys)).mapError .error := by
  have hnow : keysAnswer crypto keys .nowNs = none := rfl
  unfold processUdpPacket Psrt.processUdpPacket
  simp only [Prog.bind_eq, Prog.op_bind]
  rw [Prog.resolve_call_none hnow]
  refine congrArg (Prog.call ServerOp.nowNs) (funext fun timestamp => ?_)
  dsimp only
  by_cases hsmall : frame.length < 5
  · rw [if_pos hsmall, if_pos hsmall]
    rfl
  · have hheader : 2 ≤ frame.length := by omega
    have hlow : 2 < frame.length := by omega
    have hhigh : 3 < frame.length := by omega
    have hetp : 4 < frame.length := by omega
    have hbody : 5 ≤ frame.length := by omega
    rw [if_neg hsmall, if_neg hsmall, sliceTo_eq hheader, index_eq hlow 0, index_eq hhigh 0,
      index_eq hetp 0, sliceFrom_eq hbody]
    simp only [checked, Prog.orThrow_some, Prog.ret_bind]
    split_ifs
    · rfl
    · rfl
    · cases EncryptionType.fromByte (frame.getD 4 0) with
      | error e => rfl
      | ok etp => exact processUdpBody_eq cfg hssl hkeys etp (frame.drop 5) timestamp

end

end

theorem warnHighLatency_eq (message : MessageFrame) (latencyMks : UInt32) :
    warnHighLatency message latencyMks = Psrt.warnHighLatency message latencyMks := by
  unfold warnHighLatency Psrt.warnHighLatency
  by_cases hshort : message.frame.length < 6
  · have hslice : sliceFrom message.frame 6 = none := if_neg (by omega)
    rw [if_pos hshort, hslice]
    rfl
  · rw [if_neg hshort, sliceFrom_eq (by omega)]
    simp only [Prog.bind_eq, Prog.orThrow_some, Prog.ret_bind]
    rw [(splitn_two 0 (message.frame.drop 6)).1]
    cases hname : fromUtf8 (splitFirst 0 (message.frame.drop 6)).1 with
    | none => simp [hname]
    | some topic => simp [hname]

theorem writeMessage_eq (latencyWarn : UInt32) (message : MessageFrame) :
    writeMessage latencyWarn message = Psrt.writeMessage latencyWarn message := by
  have hsent : accountSent latencyWarn message = Psrt.accountSent latencyWarn message := by
    unfold accountSent Psrt.accountSent
    simp only [warnHighLatency_eq]
    rfl
  unfold writeMessage Psrt.writeMessage
  rw [hsent]
  cases message.frame with
  | nil => rfl
  | cons first rest => rfl

theorem handleDataStream_eq (latencyWarn : UInt32) (turns : Nat) :
    handleDataStream latencyWarn turns = Psrt.handleDataStream latencyWarn turns := by
  have hturn : handleDataStreamTurn latencyWarn = Psrt.handleDataStreamTurn latencyWarn := by
    refine congrArg (Prog.call DataOp.recv) (funext fun received => ?_)
    cases received with
    | none => rfl
    | some message => exact writeMessage_eq latencyWarn message
  rw [handleDataStream, hturn]
  rfl

end Checked

end Psrt

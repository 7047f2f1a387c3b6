import Psrt.Publish.Codec
import Psrt.Server.Checked
import Psrt.Server.State

/-! No input from the network makes the server panic: neither the handlers of datagrams and of
`OP_PUBLISH`, nor the data stream that writes what they queue. -/

namespace Psrt
open Wire Interaction

namespace Checked

theorem not_panic_of_mapError {ε α : Type} (p : ServerProg ε α) (h : List ServerEvent) :
    ¬ Prog.Run (p.mapError Stop.error) h (.throw .panic) := by
  intro hr
  obtain ⟨q, _, hq⟩ := Prog.Run.of_mapError hr
  cases q with
  | ret a => cases hq
  | throw e => cases hq
  | call o k => cases hq
  | hang => cases hq

theorem processUdpPacket_not_panic {ssl : DecryptAead} {crypto : Crypto} {keys : Keys}
    (hssl : ssl.Total crypto) (hkeys : keys.WellFormed) (cfg : Config) (frame : Bytes)
    (h : List ServerEvent) :
    ¬ Prog.Run (processUdpPacket ssl keys cfg frame) h (.throw .panic) := by
  rw [processUdpPacket_eq cfg hssl hkeys]
  exact not_panic_of_mapError _ h

theorem handlePublish_not_panic (cfg : Config) (acl : Acl) (timestamp : UInt64) (priority : UInt8)
    (buf : Bytes) (h : List ServerEvent) :
    ¬ Prog.Run (handlePublish cfg acl timestamp priority buf) h (.throw .panic) := by
  rw [handlePublish_eq]
  exact not_panic_of_mapError _ h

def messageOf (e : ServerEvent) : Option MessageFrame :=
  match e.op with
  | .pushToSubscribers _ priority topic data timestamp =>
    some (messageFrame priority topic data timestamp)
  | _ => none

def PushedBy {ε α : Type} (p : ServerProg ε α) (message : MessageFrame) : Prop :=
  ∃ h q, Prog.Run p h q ∧ message ∈ h.filterMap messageOf

inductive Enqueued (hexDecode : Str → Except Error Bytes) (ssl : DecryptAead) (cfg : Config) :
    MessageFrame → Prop
  | ping : Enqueued hexDecode ssl cfg emptyMessage
  | udp {keys : Keys} {frame : Bytes} {message : MessageFrame} : keys.Loaded hexDecode →
    PushedBy (processUdpPacket ssl keys cfg frame) message → Enqueued hexDecode ssl cfg message
  | publish {acl : Acl} {timestamp : UInt64} {priority : UInt8} {buf : Bytes}
    {message : MessageFrame} : PushedBy (handlePublish cfg acl timestamp priority buf) message →
    Enqueued hexDecode ssl cfg message
  | publishRepl {acl : Acl} {topicData : Bytes} {message : MessageFrame} :
    PushedBy (handlePublishRepl cfg acl topicData) message → Enqueued hexDecode ssl cfg message

inductive Printable : MessageFrame → Prop
  | ping : Printable emptyMessage
  | message (priority : UInt8) (topic : Str) (data : Bytes) (timestamp : UInt64) :
    Printable (messageFrame priority topic data timestamp)

theorem PushedBy.printable {ε α : Type} {p : ServerProg ε α} {message : MessageFrame}
    (h : PushedBy p message) : Printable message := by
  obtain ⟨events, q, _, hmem⟩ := h
  obtain ⟨⟨o, r⟩, _, hmessage⟩ := List.mem_filterMap.mp hmem
  cases o with
  | pushToSubscribers subscribers priority topic data timestamp =>
    obtain rfl := Option.some.inj hmessage
    exact .message priority topic data timestamp
  | _ => cases hmessage

theorem Enqueued.printable {hexDecode : Str → Except Error Bytes} {ssl : DecryptAead}
    {cfg : Config} {message : MessageFrame} (h : Enqueued hexDecode ssl cfg message) :
    Printable message := by
  cases h with
  | ping => exact .ping
  | udp _ hpushed => exact hpushed.printable
  | publish hpushed => exact hpushed.printable
  | publishRepl hpushed => exact hpushed.printable

theorem warnHighLatency_of_printable (priority : UInt8) (topic : Str) (data : Bytes)
    (timestamp : UInt64) (latencyMks : UInt32) :
    ∃ name, Psrt.warnHighLatency (messageFrame priority topic data timestamp) latencyMks =
      .call (.warnLatency latencyMks name) fun _ => .ret none := by
  have hlong : ¬ (messageFrame priority topic data timestamp).frame.length < 6 := by
    simp only [messageFrame, List.length_cons, List.length_append, length_leBytes]
    omega
  obtain ⟨name, hname⟩ := exists_text_splitFirst topic []
  refine ⟨name, ?_⟩
  unfold Psrt.warnHighLatency
  rw [if_neg hlong, drop_messageFrame, hname, fromUtf8_utf8]

def printableQueue : Monitor DataOp DataOp.Resp Unit where
  allowed _ _ := True
  possible _
    | .recv, received => ∀ message, received = some message → Printable message
    | _, _ => True
  next _ _ _ := ()

def NoPanic (p : DataProg (Option Unit)) : Prop :=
  ∀ s, printableQueue.wp p (fun _ _ => True) (fun stop _ => stop ≠ .panic) s

theorem noPanic_writeEofIsOk {k : DataProg (Option Unit)} (hk : NoPanic k) (buf : Bytes) :
    NoPanic (writeEofIsOk buf k) := by
  intro s
  refine ⟨trivial, fun r _ => ?_⟩
  cases r with
  | ok u => exact hk _
  | error e =>
    dsimp only
    split_ifs
    · trivial
    · intro hstop
      cases hstop

theorem noPanic_ret (r : Option Unit) : NoPanic (.ret r) := fun _ => trivial

theorem noPanic_accountSent (latencyWarn : UInt32) {message : MessageFrame}
    (h : Printable message) : NoPanic (Psrt.accountSent latencyWarn message) := by
  cases h with
  | ping => exact noPanic_ret none
  | message priority topic data timestamp =>
    intro s
    refine ⟨trivial, fun now _ => ⟨trivial, fun _ _ => ?_⟩⟩
    dsimp only
    split_ifs
    · obtain ⟨name, hwarn⟩ := warnHighLatency_of_printable priority topic data timestamp
        ((now - timestamp) / 1000).toUInt32
      rw [hwarn]
      exact ⟨trivial, fun _ _ => trivial⟩
    · trivial

theorem noPanic_writeMessage (latencyWarn : UInt32) {message : MessageFrame}
    (h : Printable message) : NoPanic (Psrt.writeMessage latencyWarn message) := by
  have haccount := noPanic_accountSent latencyWarn h
  cases h with
  | ping =>
    intro s
    refine ⟨trivial, fun due _ => ?_⟩
    dsimp only
    split_ifs
    · exact noPanic_writeEofIsOk (noPanic_ret none) _ _
    · trivial
  | message priority topic data timestamp =>
    exact noPanic_writeEofIsOk (noPanic_writeEofIsOk haccount data) _

theorem noPanic_handleDataStreamTurn (latencyWarn : UInt32) :
    NoPanic (Psrt.handleDataStreamTurn latencyWarn) := by
  intro s
  refine ⟨trivial, fun received hreceived => ?_⟩
  cases received with
  | none => trivial
  | some message => exact noPanic_writeMessage latencyWarn (hreceived message rfl) _

theorem handleDataStream_not_panic (latencyWarn : UInt32) (turns : Nat) {h : List DataEvent}
    (hqueue : ∀ message, (⟨.recv, some message⟩ : DataEvent) ∈ h → Printable message) :
    ¬ Prog.Run (handleDataStream latencyWarn turns) h (.throw .panic) := by
  intro hr
  rw [handleDataStream_eq] at hr
  have hwp : printableQueue.wp (Psrt.handleDataStream latencyWarn turns) (fun _ _ => True)
      (fun stop _ => stop ≠ .panic) () := by
    apply Monitor.wp_loop (I := fun _ => True) _ turns trivial
    intro s _
    refine Monitor.wp_mono (fun r _ _ => ?_) (fun _ _ hstop => hstop)
      (noPanic_handleDataStreamTurn latencyWarn s)
    cases r with
    | some u => trivial
    | none => trivial
  have hadmits : printableQueue.Admits () h := by
    apply Monitor.admits_of_forall
    rintro ⟨o, r⟩ he s
    cases o with
    | recv =>
      intro message hmessage
      apply hqueue message
      rw [← hmessage]
      exact he
    | beaconDue => trivial
    | write buf => trivial
    | nowNs => trivial
    | countSentBytes bytes latency => trivial
    | warnLatency latency topic => trivial
  have hend := (Monitor.wp_run hwp hr hadmits).2
  exact hend rfl

/-- Neither a datagram nor a frame of `OP_PUBLISH` nor a message that is written to a subscriber makes
the server panic. -/
theorem network_input_never_panics (hexDecode : Str → Except Error Bytes) (ssl : DecryptAead)
    (crypto : Crypto) (hssl : ssl.Total crypto) (cfg : Config) :
    (∀ keys : Keys, keys.Loaded hexDecode → ∀ (frame : Bytes) (h : List ServerEvent),
      ¬ Prog.Run (processUdpPacket ssl keys cfg frame) h (.throw .panic)) ∧
    (∀ (acl : Acl) (timestamp : UInt64) (priority : UInt8) (buf : Bytes) (h : List ServerEvent),
      ¬ Prog.Run (handlePublish cfg acl timestamp priority buf) h (.throw .panic)) ∧
    ∀ (latencyWarn : UInt32) (turns : Nat) (h : List DataEvent),
      (∀ message, (⟨.recv, some message⟩ : DataEvent) ∈ h →
        Enqueued hexDecode ssl cfg message) →
      ¬ Prog.Run (handleDataStream latencyWarn turns) h (.throw .panic) := by
  refine ⟨?_, ?_, ?_⟩
  · intro keys hkeys frame h
    exact processUdpPacket_not_panic hssl hkeys.wellFormed cfg frame h
  · exact handlePublish_not_panic cfg
  · intro latencyWarn turns h hqueue
    apply handleDataStream_not_panic
    intro message hmessage
    exact (hqueue message hmessage).printable

/-- A test vector of AES-128-GCM, with a zero key and nonce: sixteen encrypted octets and their tag. -/
def sampleSealed : Bytes :=
  [0x03, 0x88, 0xda, 0xce, 0x60, 0xb6, 0xa3, 0x92, 0xf3, 0x28, 0xc2, 0xb9, 0x71, 0xb2, 0xfe, 0x78,
    0xab, 0x6e, 0x47, 0xd4, 0x2c, 0xec, 0x13, 0xbd, 0xf5, 0x3a, 0x67, 0xb2, 0x12, 0x57, 0xbd, 0xdf]

def vectorCrypto : Crypto :=
  { sampleCrypto with
    decryptAead := fun cipher key iv data tag =>
      if cipher = .aes128Gcm ∧ key = List.replicate 16 0 ∧ iv = List.replicate 12 0 ∧
        data ++ tag = sampleSealed then some (List.replicate 16 0) else none }

def vectorSsl : DecryptAead := fun cipher key iv data tag =>
  if key.length = cipher.keyLength ∧ iv.length = 12 then
    some (vectorCrypto.decryptAead cipher key iv data tag)
  else none

theorem total_vectorSsl : vectorSsl.Total vectorCrypto :=
  fun _ _ _ _ _ hkey hiv => if_pos ⟨hkey, hiv⟩

def sampleHexDecode (s : Str) : Except Error Bytes :=
  if s = List.replicate 64 '0' then .ok (List.replicate 32 0)
  else .error (.invalidData "Invalid string length")

def sampleKeys : Keys :=
  (Keys.reload sampleHexDecode (fun _ => some Acl.newFull)
    (some (.ok [(['a'], List.replicate 64 '0')])) none).2

def sealedDatagram : Bytes :=
  [0xEE, 0xAA, 1, 0, 2, 97, 0] ++ List.replicate 12 0 ++ sampleSealed

theorem pushedBy_sample : PushedBy (handlePublish sampleConfig Acl.newFull 2000 127 [97, 0, 1])
    (messageFrame 127 ['a'] [1] 2000) := by
  obtain ⟨q, hq⟩ := Prog.run_eval (sampleState.answer vectorCrypto 0)
    (handlePublish sampleConfig Acl.newFull 2000 127 [97, 0, 1]) []
  exact ⟨_, q, hq, by decide +kernel⟩

theorem network_input_never_panics_sample :
    (∃ h, Prog.Run (processUdpPacket vectorSsl sampleKeys sampleConfig sealedDatagram) h
        (.throw (.error (.invalidData "invalid data block", false))) ∧
      ¬ Prog.Run (processUdpPacket vectorSsl sampleKeys sampleConfig sealedDatagram) h
        (.throw .panic)) ∧
    ∃ h q, Prog.Run (handleDataStream 0 1) h q ∧ ⟨.warnLatency 3 ['a'], ()⟩ ∈ h ∧
      ¬ Prog.Run (handleDataStream 0 1) h (.throw .panic) := by
  obtain ⟨hudp, _, hdata⟩ := network_input_never_panics sampleHexDecode vectorSsl vectorCrypto
    total_vectorSsl sampleConfig
  constructor
  · have hend : (Prog.eval (sampleState.answer vectorCrypto 0)
        (processUdpPacket vectorSsl sampleKeys sampleConfig sealedDatagram) []).2.2 =
        some (.error (.error (.invalidData "invalid data block", false))) := by
      decide +kernel
    exact ⟨_, Prog.run_eval_end hend, hudp sampleKeys (.reload _ _ .default) sealedDatagram _⟩
  · have hevents : (Prog.eval (dataAnswer (fun _ => true) fun _ => 5000) (handleDataStream 0 1)
        [messageFrame 127 ['a'] [1] 2000]).1 =
        [⟨.recv, some (messageFrame 127 ['a'] [1] 2000)⟩,
          ⟨.write (messageFrame 127 ['a'] [1] 2000).frame, .ok ()⟩, ⟨.write [1], .ok ()⟩,
          ⟨.nowNs, 5000⟩, ⟨.countSentBytes 9 3, ()⟩, ⟨.warnLatency 3 ['a'], ()⟩] := rfl
    obtain ⟨q, hq⟩ := Prog.run_eval (dataAnswer (fun _ => true) fun _ => 5000)
      (handleDataStream 0 1) [messageFrame 127 ['a'] [1] 2000]
    rw [hevents] at hq
    refine ⟨_, q, hq, by simp, hdata 0 1 _ fun message hmessage => ?_⟩
    have hsample : message = messageFrame 127 ['a'] [1] 2000 := by simpa using hmessage
    rw [hsample]
    exact .publish pushedBy_sample

end Checked

end Psrt

import Psrt.Server.Calls
import Psrt.Server.State

/-! The messages the publish paths admit to `push_to_subscribers`: their topic is free of the
separator, and their length fits the length field of a frame. -/

namespace Psrt
open Wire Interaction

def publishArm (cfg : Config) (client : ServerClient) (acl : Acl) :
    ServerProg Error (Option Unit) := do
  let request ← readArm cfg opPublish
  handleRequest cfg client acl request

def Sendable (topic : Str) (message : Bytes) : Prop :=
  0 ∉ utf8 topic ∧ (utf8 topic).length + message.length + 1 < 2 ^ 32

/-- Reads give the octets asked for, decryption gives no more than it was given, and what is pushed
can be sent. -/
def sendableMonitor : Monitor ServerOp ServerOp.Resp Unit where
  allowed _
    | .pushToSubscribers _ _ topic message _ => Sendable topic message
    | _ => True
  possible _
    | .read n, r => ∀ b, r = .ok b → b.length = n
    | .authAndDecr block _ _, r => ∀ b, r = .ok b → b.length ≤ block.length
    | _, _ => True
  next _ _ _ := ()

/-- A call of `push_to_subscribers` by the `OP_PUBLISH` arm, or for a datagram that fits the receive
buffer. -/
inductive Admitted (cfg : Config) (udpFrameSize : UInt16) :
    UInt8 → Str → Bytes → UInt64 → Prop
  | control {client acl h q subscribers priority topic message timestamp} :
      Prog.Run (publishArm cfg client acl) h q → sendableMonitor.Admits () h →
      ⟨.pushToSubscribers subscribers priority topic message timestamp, ()⟩ ∈ h →
      Admitted cfg udpFrameSize priority topic message timestamp
  | datagram {frame h q subscribers priority topic message timestamp} :
      frame.length ≤ udpFrameSize.toNat →
      Prog.Run (processUdpPacket cfg frame) h q → sendableMonitor.Admits () h →
      ⟨.pushToSubscribers subscribers priority topic message timestamp, ()⟩ ∈ h →
      Admitted cfg udpFrameSize priority topic message timestamp

theorem sendable_of_prepareTopic {d : Nat} {name message : Bytes} {raw topic : Str}
    (hname : 0 ∉ name) (hraw : strFromUtf8 name = .ok raw)
    (ht : prepareTopic d raw = .ok topic) (hlen : name.length + message.length + 1 < 2 ^ 32) :
    Sendable topic message := by
  have hutf8 := utf8_of_strFromUtf8 hraw
  have hsub := sublist_of_prepareTopic ht
  have hle := length_utf8_le_of_sublist hsub
  rw [hutf8] at hle
  constructor
  · intro h0
    have hmem := hsub.subset ((zero_mem_utf8 topic).mp h0)
    rw [← hutf8] at hname
    exact hname ((zero_mem_utf8 raw).mpr hmem)
  · omega

def PushesSendable {ε α : Type} (p : ServerProg ε α) : Prop :=
  sendableMonitor.wp p (fun _ _ => True) (fun _ _ => True) ()

section
variable {ε α β : Type} {cfg : Config}

theorem PushesSendable.bind {p : ServerProg ε α} {f : α → ServerProg ε β} (hp : PushesSendable p)
    (hf : ∀ a, PushesSendable (f a)) : PushesSendable (p.bind f) := by
  unfold PushesSendable at hp ⊢
  rw [Monitor.wp_bind]
  exact Monitor.wp_mono (fun a _ _ => hf a) (fun _ _ _ => trivial) hp

theorem pushesSendable_ofExcept (r : Except ε α) :
    PushesSendable (Prog.ofExcept r : ServerProg ε α) := by
  cases r with
  | error e => trivial
  | ok a => trivial

theorem pushesSendable_writeAll (buf : Bytes) : PushesSendable (writeAll buf) :=
  ⟨trivial, fun r _ => pushesSendable_ofExcept r⟩

theorem pushesSendable_deliver {priority : UInt8} {topic : Str} {message : Bytes}
    (hs : Sendable topic message) (timestamp : UInt64) {last : ServerProg ε α}
    (hlast : PushesSendable last) :
    PushesSendable ((perform (.getSubscribers topic)).bind fun subscribers =>
      (pushIfAny subscribers priority topic message timestamp).bind fun _ =>
        (replicate cfg priority topic message timestamp).bind fun _ => last) := by
  refine PushesSendable.bind ⟨trivial, fun _ _ => trivial⟩ fun subscribers =>
    PushesSendable.bind ?_ fun _ => PushesSendable.bind ?_ fun _ => hlast
  · unfold pushIfAny
    split_ifs
    · trivial
    · exact ⟨hs, fun _ _ => trivial⟩
  · unfold replicate
    split_ifs
    · exact ⟨trivial, fun _ _ => trivial⟩
    · trivial

theorem wp_readExact (n : Nat) :
    sendableMonitor.wp (readExact n) (fun b _ => b.length = n) (fun _ _ => True) () := by
  refine ⟨trivial, fun r hr => ?_⟩
  cases r with
  | error e => trivial
  | ok b => exact hr b rfl

theorem wp_readFrame (maxLength : Option Nat) :
    sendableMonitor.wp (readFrame maxLength) (fun b _ => b.length < 2 ^ 32)
      (fun _ _ => True) () := by
  unfold readFrame readFrameWith
  rw [Prog.bind_eq, Monitor.wp_bind]
  refine Monitor.wp_mono (fun lenBuf _ hlen => ?_) (fun _ _ _ => trivial) (wp_readExact 4)
  have hlt := leNat_lt lenBuf
  rw [hlen] at hlt
  dsimp only
  split_ifs
  · trivial
  · refine Monitor.wp_mono (fun b _ hb => ?_) (fun _ _ _ => trivial) (wp_readExact (leNat lenBuf))
    rw [hb]
    exact hlt

theorem pushesSendable_publishNamed (acl : Acl) (timestamp : UInt64) (priority : UInt8)
    {name message : Bytes} (hname : 0 ∉ name) (hlen : name.length + message.length + 1 < 2 ^ 32) :
    PushesSendable (publishNamed cfg acl timestamp priority name message) := by
  unfold publishNamed
  cases hraw : strFromUtf8 name with
  | error e => trivial
  | ok raw =>
    simp only [Prog.bind_eq, Prog.ofExcept_ok, Prog.ret_bind]
    cases ht : prepareTopic cfg.maxTopicDepth raw with
    | error e => exact pushesSendable_writeAll _
    | ok topic =>
      have hs := sendable_of_prepareTopic hname hraw ht hlen
      dsimp only
      split_ifs
      · trivial
      · exact pushesSendable_deliver hs timestamp (pushesSendable_writeAll _)
      · exact pushesSendable_writeAll _

theorem pushesSendable_handlePublish (acl : Acl) (timestamp : UInt64) (priority : UInt8)
    {buf : Bytes} (hlen : buf.length < 2 ^ 32) :
    PushesSendable (handlePublish cfg acl timestamp priority buf) := by
  cases hpos : buf.idxOf? 0 with
  | none =>
    unfold handlePublish
    rw [hpos]
    trivial
  | some n =>
    obtain ⟨name, message, hname, rfl, _⟩ := idxOf?_zero_eq_some hpos
    rw [handlePublish_append cfg acl timestamp priority hname]
    rw [List.length_append, List.length_cons] at hlen
    split_ifs
    · trivial
    · exact pushesSendable_publishNamed acl timestamp priority hname (by omega)

theorem pushesSendable_publishArm (client : ServerClient) (acl : Acl) :
    PushesSendable (publishArm cfg client acl) := by
  have harm : publishArm cfg client acl = .call .nowNs fun timestamp =>
      (readExact 1).bind fun prio => (readFrame (some cfg.maxPubSize)).bind fun buf =>
        (handlePublish cfg acl timestamp (prio.headD defaultPriority) buf).bind fun _ =>
          .ret none := by
    simp only [publishArm, readArm_opPublish, Prog.bind_eq, Prog.call_bind, Prog.bind_assoc, Prog.ret_bind,
      handleRequest]
  rw [harm]
  refine ⟨trivial, fun timestamp _ => ?_⟩
  change PushesSendable ((readExact 1).bind _)
  refine PushesSendable.bind ⟨trivial, fun r _ => pushesSendable_ofExcept r⟩ fun prio => ?_
  unfold PushesSendable
  rw [Monitor.wp_bind]
  refine Monitor.wp_mono (fun buf _ hlen => ?_) (fun _ _ _ => trivial) (wp_readFrame _)
  exact PushesSendable.bind (pushesSendable_handlePublish acl timestamp _ hlen) fun _ => trivial

theorem pushesSendable_authenticateUdp (login : Str) (password : Option Str) (needAck : Bool) :
    PushesSendable (authenticateUdp cfg login password needAck) := by
  refine Monitor.safe_of_calls (P := NoPush) (fun _ o ho => ?_)
    (calls_authenticateUdp cfg (fun _ _ => trivial) login password needAck) ()
  cases o with
  | pushToSubscribers => exact ho.elim
  | _ => trivial

theorem pushesSendable_publishUdp (login : Str) (password : Option Str) (needAck : Bool)
    (priority : UInt8) {name message : Bytes} {raw : Str} (hname : 0 ∉ name)
    (hraw : strFromUtf8 name = .ok raw) (hlen : name.length + message.length + 1 < 2 ^ 32)
    (timestamp : UInt64) :
    PushesSendable (publishUdp cfg login password needAck priority raw message timestamp) := by
  unfold publishUdp
  refine PushesSendable.bind (pushesSendable_authenticateUdp login password needAck) fun _ =>
    PushesSendable.bind ⟨trivial, fun _ _ => trivial⟩ fun acl => ?_
  cases acl with
  | none => trivial
  | some acl =>
    cases ht : prepareTopic cfg.maxTopicDepth raw with
    | error e => trivial
    | ok topic =>
      have hs := sendable_of_prepareTopic hname hraw ht hlen
      simp only [Prog.bind_eq, Prog.ofExcept_ok, Prog.ret_mapError, Prog.ret_bind]
      split_ifs
      · trivial
      · trivial
      · exact pushesSendable_deliver hs timestamp trivial

theorem pushesSendable_processUdpBlock (login : Str) (password : Option Str) {block : Bytes}
    (hlen : block.length < 2 ^ 32) (timestamp : UInt64) :
    PushesSendable (processUdpBlock cfg login password block timestamp) := by
  rw [processUdpBlock_eq]
  cases hparse : parseBlock block with
  | error e => trivial
  | ok b =>
    obtain ⟨head, hblock, hname⟩ := eq_of_parseBlock hparse
    have hlength := congrArg List.length hblock
    simp only [List.length_append, List.length_cons] at hlength
    exact pushesSendable_publishUdp login password b.needAck _ hname (strFromUtf8_utf8 b.raw)
      (by omega) timestamp

theorem pushesSendable_processUdpPacket {frame : Bytes} (hlen : frame.length < 2 ^ 32) :
    PushesSendable (processUdpPacket cfg frame) := by
  have hbody : (frame.drop 5).length ≤ frame.length := by
    rw [List.length_drop]
    exact Nat.sub_le _ _
  rw [processUdpPacket_eq]
  refine ⟨trivial, fun timestamp _ => ?_⟩
  cases hopen : openDatagram frame with
  | error e => trivial
  | ok envelope =>
    have hopens := opens_of_openDatagram hopen
    cases envelope with
    | plain login password block =>
      have hlength := congrArg List.length hopens.2.2
      simp only [List.length_append, List.length_cons] at hlength
      exact pushesSendable_processUdpBlock login (some password) (by omega) timestamp
    | «sealed» login etp encrypted =>
      have hlength := congrArg List.length hopens.2
      rw [List.length_append, List.length_cons] at hlength
      refine ⟨trivial, fun r hr => ?_⟩
      cases r with
      | error e => trivial
      | ok block =>
        have hblock := hr block rfl
        exact pushesSendable_processUdpBlock login none (by omega) timestamp

end

theorem sendable_of_mem {ε α : Type} {p q : ServerProg ε α} {h : List ServerEvent}
    (hp : PushesSendable p) (hr : Prog.Run p h q) (ha : sendableMonitor.Admits () h)
    {subscribers : List ServerClient} {priority : UInt8} {topic : Str} {message : Bytes}
    {timestamp : UInt64}
    (hmem : ⟨.pushToSubscribers subscribers priority topic message timestamp, ()⟩ ∈ h) :
    Sendable topic message := by
  obtain ⟨h₁, h₂, rfl⟩ := List.append_of_mem hmem
  have haccepts := (Monitor.wp_run hp hr ha).1
  rw [Monitor.accepts_append] at haccepts
  exact haccepts.2.1

theorem Admitted.sendable {cfg : Config} {udpFrameSize : UInt16} {priority : UInt8} {topic : Str}
    {message : Bytes} {timestamp : UInt64}
    (h : Admitted cfg udpFrameSize priority topic message timestamp) : Sendable topic message := by
  cases h with
  | control hrun hadmits hmem =>
    exact sendable_of_mem (pushesSendable_publishArm _ _) hrun hadmits hmem
  | datagram hsize hrun hadmits hmem =>
    have hlt := udpFrameSize.toNat_lt
    exact sendable_of_mem (pushesSendable_processUdpPacket (by omega)) hrun hadmits hmem

end Psrt

import Psrt.Lib.Transition
import Psrt.Publish.Replies

/-! Confirmed publishes of one `UdpClient`: its calls, the datagrams and replies on their way, and the
listener that answers them, in any order. -/

namespace Psrt.Confirmed
open Wire Interaction

inductive Progress where
  | waiting
  | returned (result : Except Error Unit)
  | cancelled

structure Call where
  ack : Bool
  progress : Progress

/-- What `recv_from` may find: a reply of the server, with the call it answers, or a datagram of
another sender. -/
inductive Arrival where
  | reply (call : Nat) (datagram : Bytes)
  | foreign (datagram : Bytes)

structure Exchange where
  calls : Nat → Option Call
  /-- Datagrams on their way to the server, with the call that sent them. -/
  toServer : List (Nat × Bytes)
  /-- Replies on their way, with the call they answer. -/
  toClient : List (Nat × Bytes)
  /-- The client's socket, oldest arrival first. -/
  buffer : List Arrival
  /-- The calls whose datagram the server accepted. -/
  accepted : Set Nat

def initial : Exchange := ⟨fun _ => none, [], [], [], ∅⟩

inductive Label where
  | fail (call : Nat)
  | send (call : Nat)
  | cancel (call : Nat)
  | network
  | serve
  | arrive
  | skip (call : Nat)
  | take (call : Nat)
  | recvError (call : Nat)

namespace Exchange

def setCall (s : Exchange) (k : Nat) (ack : Bool) (progress : Progress) : Exchange :=
  { s with calls := Function.update s.calls k (some ⟨ack, progress⟩) }

end Exchange

def afterSend (ack : Bool) : Progress := if ack then .waiting else .returned (.ok ())

/-- A step of a caller, of the network, which may lose, repeat and reorder what is on its way, or of
the listener. -/
inductive Step (cfg : Config) (udpFrameSize : Nat) (crypto : Crypto) (client : UdpClient) :
    Exchange → Label → Exchange → Prop
  | fail {s} (k : Nat) (ack : Bool) (e : Error) (h : s.calls k = none) :
      Step cfg udpFrameSize crypto client s (.fail k) (s.setCall k ack (.returned (.error e)))
  | send {s} (k : Nat) (topic : Str) (message : Bytes) (ack : Bool) (nonce : Except Error Bytes)
      (packet : Bytes) (h : s.calls k = none)
      (hp : client.packet crypto nonce topic message ack = .ok packet) :
      Step cfg udpFrameSize crypto client s (.send k)
        { s.setCall k ack (afterSend ack) with toServer := s.toServer ++ [(k, packet)] }
  | cancel {s} (k : Nat) (h : s.calls k = some ⟨true, .waiting⟩) :
      Step cfg udpFrameSize crypto client s (.cancel k) (s.setCall k true .cancelled)
  | network {s} (toServer toClient : List (Nat × Bytes)) (h : toServer ⊆ s.toServer)
      (h' : toClient ⊆ s.toClient) :
      Step cfg udpFrameSize crypto client s .network
        { s with toServer := toServer, toClient := toClient }
  | serve {s} (k : Nat) (packet : Bytes) (rest : List (Nat × Bytes)) (h : List ServerEvent)
      (hs : s.toServer = (k, packet) :: rest)
      (hr : Prog.Run (handleUdpDatagram cfg (recvFrom udpFrameSize packet)) h (.ret ())) :
      Step cfg udpFrameSize crypto client s .serve
        { s with
          toServer := rest
          toClient := s.toClient ++ (replies h).map (k, ·)
          accepted := s.accepted ∪ {j | j = k ∧ Accepted h} }
  | reply {s} (k : Nat) (datagram : Bytes) (rest : List (Nat × Bytes))
      (h : s.toClient = (k, datagram) :: rest) :
      Step cfg udpFrameSize crypto client s .arrive
        { s with toClient := rest, buffer := s.buffer ++ [.reply k datagram] }
  | foreign {s} (datagram : Bytes) :
      Step cfg udpFrameSize crypto client s .arrive
        { s with buffer := s.buffer ++ [.foreign datagram] }
  | skip {s} (k : Nat) (datagram : Bytes) (rest : List Arrival)
      (h : s.calls k = some ⟨true, .waiting⟩) (hb : s.buffer = .foreign datagram :: rest) :
      Step cfg udpFrameSize crypto client s (.skip k) { s with buffer := rest }
  | take {s} (k j : Nat) (datagram : Bytes) (rest : List Arrival)
      (h : s.calls k = some ⟨true, .waiting⟩) (hb : s.buffer = .reply j datagram :: rest) :
      Step cfg udpFrameSize crypto client s (.take k)
        { s.setCall k true (.returned (UdpClient.readAck datagram)) with buffer := rest }
  | recvError {s} (k : Nat) (e : Error) (h : s.calls k = some ⟨true, .waiting⟩) :
      Step cfg udpFrameSize crypto client s (.recvError k)
        (s.setCall k true (.returned (.error e)))

/-- An acknowledgement that a call finds first in the socket is of its own datagram. -/
def OwnReply (s : Exchange) : Label → Prop
  | .take k => ∀ j rest, s.buffer = .reply j (udpReply responseOk) :: rest → j = k
  | _ => True

/-- A confirmed publish that returned `Ok` was accepted. -/
def Truthful (s : Exchange) : Prop :=
  ∀ k, s.calls k = some ⟨true, .returned (.ok ())⟩ → k ∈ s.accepted

theorem readAck_udpReply {code : UInt8} (h : UdpClient.readAck (udpReply code) = .ok ()) :
    code = responseOk := by
  have hcode : UdpClient.readAck (udpReply code) =
      if code = responseOk then .ok () else .error (.serverResponse code) := rfl
  rw [hcode] at h
  split_ifs at h with hok
  exact hok

theorem accepted_of_readAck {cfg : Config} {frame : Bytes} {h : List ServerEvent}
    (hr : Prog.Run (handleUdpDatagram cfg frame) h (.ret ())) {reply : Bytes}
    (hmem : reply ∈ replies h) (hack : UdpClient.readAck reply = .ok ()) :
    reply = udpReply responseOk ∧ Accepted h := by
  have hdiscipline : ReplyDiscipline cfg frame h :=
    Monitor.history_run (wp_handleUdpDatagram_watch frame) hr
  have hok : reply = udpReply responseOk := by
    by_contra hne
    rcases (hdiscipline.error reply hmem hne).1 with rfl | rfl
    · exact absurd (readAck_udpReply hack) (by decide)
    · exact absurd (readAck_udpReply hack) (by decide)
  refine ⟨hok, ?_⟩
  rw [hok] at hmem
  exact (hdiscipline.ok.mp hmem).2

structure Inv (s : Exchange) : Prop where
  toClient : ∀ k datagram, (k, datagram) ∈ s.toClient → UdpClient.readAck datagram = .ok () →
    datagram = udpReply responseOk ∧ k ∈ s.accepted
  buffer : ∀ k datagram, .reply k datagram ∈ s.buffer → UdpClient.readAck datagram = .ok () →
    datagram = udpReply responseOk ∧ k ∈ s.accepted
  truthful : Truthful s

theorem inv_initial : Inv initial where
  toClient k datagram h := absurd h List.not_mem_nil
  buffer k datagram h := absurd h List.not_mem_nil
  truthful k h := by cases h

section
variable {s : Exchange}

theorem calls_setCall (k : Nat) (ack : Bool) (progress : Progress) :
    (s.setCall k ack progress).calls = Function.update s.calls k (some ⟨ack, progress⟩) := rfl

theorem truthful_setCall (ht : Truthful s) {k : Nat} {ack : Bool} {progress : Progress}
    (hk : (⟨ack, progress⟩ : Call) = ⟨true, .returned (.ok ())⟩ → k ∈ s.accepted) :
    Truthful (s.setCall k ack progress) := by
  intro j hj
  rw [calls_setCall] at hj
  by_cases hjk : j = k
  · subst hjk
    rw [Function.update_self, Option.some.injEq] at hj
    exact hk hj
  · rw [Function.update_of_ne hjk] at hj
    exact ht j hj

theorem Inv.setCall (hi : Inv s) {k : Nat} {ack : Bool} {progress : Progress}
    (hk : (⟨ack, progress⟩ : Call) = ⟨true, .returned (.ok ())⟩ → k ∈ s.accepted) :
    Inv (s.setCall k ack progress) where
  toClient := hi.toClient
  buffer := hi.buffer
  truthful := truthful_setCall hi.truthful hk

theorem Inv.serve {cfg : Config} {frame : Bytes} {h : List ServerEvent} (hi : Inv s) (k : Nat)
    (rest : List (Nat × Bytes)) (hr : Prog.Run (handleUdpDatagram cfg frame) h (.ret ())) :
    Inv { s with
      toServer := rest
      toClient := s.toClient ++ (replies h).map (k, ·)
      accepted := s.accepted ∪ {j | j = k ∧ Accepted h} } where
  toClient j datagram hmem hack := by
    rcases List.mem_append.mp hmem with hold | hnew
    · exact (hi.toClient j datagram hold hack).imp_right .inl
    · obtain ⟨reply, hreply, heq⟩ := List.mem_map.mp hnew
      obtain ⟨rfl, rfl⟩ := Prod.mk.inj heq
      exact (accepted_of_readAck hr hreply hack).imp_right fun ha => .inr ⟨rfl, ha⟩
  buffer j datagram hmem hack := (hi.buffer j datagram hmem hack).imp_right .inl
  truthful j hj := .inl (hi.truthful j hj)

theorem Inv.take (hi : Inv s) {k j : Nat} {datagram : Bytes} {rest : List Arrival}
    (hb : s.buffer = .reply j datagram :: rest) (hm : OwnReply s (.take k)) :
    Inv { s.setCall k true (.returned (UdpClient.readAck datagram)) with buffer := rest } := by
  have hcall : Inv (s.setCall k true (.returned (UdpClient.readAck datagram))) := by
    apply hi.setCall
    intro heq
    have hack : UdpClient.readAck datagram = .ok () :=
      Progress.returned.inj (Call.mk.inj heq).2
    obtain ⟨rfl, haccepted⟩ := hi.buffer j datagram (hb ▸ List.mem_cons_self ..) hack
    have hown : j = k := hm j rest hb
    rw [← hown]
    exact haccepted
  exact ⟨hcall.toClient, fun i d hmem => hi.buffer i d (hb ▸ List.mem_cons_of_mem _ hmem),
    hcall.truthful⟩

theorem Inv.step {cfg : Config} {udpFrameSize : Nat} {crypto : Crypto} {client : UdpClient}
    {l : Label} {s' : Exchange} (hi : Inv s) (hm : OwnReply s l)
    (h : Step cfg udpFrameSize crypto client s l s') : Inv s' := by
  cases h with
  | fail k ack e h => exact hi.setCall fun heq => by cases heq
  | send k topic message ack nonce packet h hp =>
    have hcall : Inv (s.setCall k ack (afterSend ack)) := by
      -- a call that asks for an acknowledgement has not returned yet
      apply hi.setCall
      cases ack with
      | true => exact fun heq => by cases heq
      | false => exact fun heq => by cases heq
    exact ⟨hcall.toClient, hcall.buffer, hcall.truthful⟩
  | cancel k h => exact hi.setCall fun heq => by cases heq
  | network toServer toClient h h' =>
    exact ⟨fun k datagram hmem => hi.toClient k datagram (h' hmem), hi.buffer, hi.truthful⟩
  | serve k packet rest h hs hr => exact hi.serve k rest hr
  | reply k datagram rest h =>
    refine ⟨fun j d hmem => hi.toClient j d (h ▸ List.mem_cons_of_mem _ hmem), ?_, hi.truthful⟩
    intro j d hmem
    rcases List.mem_append.mp hmem with hold | hnew
    · exact hi.buffer j d hold
    · obtain ⟨rfl, rfl⟩ := Arrival.reply.inj (List.mem_singleton.mp hnew)
      exact hi.toClient j d (h ▸ List.mem_cons_self ..)
  | foreign datagram =>
    refine ⟨hi.toClient, ?_, hi.truthful⟩
    intro j d hmem
    rcases List.mem_append.mp hmem with hold | hnew
    · exact hi.buffer j d hold
    · cases List.mem_singleton.mp hnew
  | skip k datagram rest h hb =>
    exact ⟨hi.toClient, fun j d hmem => hi.buffer j d (hb ▸ List.mem_cons_of_mem _ hmem),
      hi.truthful⟩
  | take k j datagram rest h hb => exact hi.take hb hm
  | recvError k e h => exact hi.setCall fun heq => by cases heq

end

abbrev Reachable (cfg : Config) (udpFrameSize : Nat) (crypto : Crypto) (client : UdpClient) :
    (Exchange → Label → Prop) → Exchange → Prop :=
  Transition.Reachable (· = initial) (Step cfg udpFrameSize crypto client)

/-- Whatever is cancelled, lost, repeated or reordered: as long as no call takes the acknowledgement
of another call for its own, a confirmed publish returns `Ok` only if the server accepted it. -/
theorem confirmed_is_accepted {cfg : Config} {udpFrameSize : Nat} {crypto : Crypto}
    {client : UdpClient} {s : Exchange}
    (h : Reachable cfg udpFrameSize crypto client OwnReply s) : Truthful s := by
  have hinv : Inv s := by
    apply Transition.Reachable.invariant ?_ (fun s l s' hi hm hs => hi.step hm hs) h
    rintro _ rfl
    exact inv_initial
  exact hinv.truthful

def sent (progress : Progress) : Exchange :=
  { initial.setCall 0 true progress with toServer := [(0, sampleDatagram)] }

def acknowledged (progress : Progress) : Exchange :=
  { initial.setCall 0 true progress with
    buffer := [.reply 0 (udpReply responseOk)]
    accepted := {0} }

theorem packet_sample : UdpClient.connect.packet sampleCrypto (.ok []) ['a'] [1] true =
    .ok sampleDatagram := rfl

theorem accepted_sampleTurn : Accepted sampleTurn := by
  have hmem : udpReply responseOk ∈ replies sampleTurn := by
    rw [replies_sampleTurn]
    exact List.mem_singleton_self _
  exact (accepted_of_readAck run_sampleTurn hmem rfl).2

section
variable {Meets : Exchange → Label → Prop} (hMeets : ∀ s l, (∀ k, l ≠ .take k) → Meets s l)
include hMeets

theorem reachable_sent :
    Reachable sampleConfig 4096 sampleCrypto UdpClient.connect Meets (sent .waiting) := by
  have hinitial : Reachable sampleConfig 4096 sampleCrypto UdpClient.connect Meets initial :=
    .init rfl
  apply hinitial.step
  · exact Step.send 0 ['a'] [1] true (.ok []) sampleDatagram rfl packet_sample
  · exact hMeets _ _ nofun

theorem reachable_acknowledged {progress : Progress}
    (h : Reachable sampleConfig 4096 sampleCrypto UdpClient.connect Meets (sent progress)) :
    Reachable sampleConfig 4096 sampleCrypto UdpClient.connect Meets (acknowledged progress) := by
  have hserve := Transition.Reachable.step h
    (Step.serve 0 sampleDatagram [] sampleTurn rfl run_sampleTurn) (hMeets _ _ nofun)
  rw [replies_sampleTurn] at hserve
  have harrive := Transition.Reachable.step hserve
    (Step.reply 0 (udpReply responseOk) [] rfl) (hMeets _ _ nofun)
  have haccepted : (∅ : Set Nat) ∪ {j | j = 0 ∧ Accepted sampleTurn} = {0} := by
    ext j
    simp [accepted_sampleTurn]
  change Reachable sampleConfig 4096 sampleCrypto UdpClient.connect Meets
    { initial.setCall 0 true progress with
      buffer := [.reply 0 (udpReply responseOk)]
      accepted := ∅ ∪ {j | j = 0 ∧ Accepted sampleTurn} } at harrive
  rw [haccepted] at harrive
  exact harrive

end

theorem confirmed_is_accepted_sample :
    ∃ s, Reachable sampleConfig 4096 sampleCrypto UdpClient.connect OwnReply s ∧
      s.calls 0 = some ⟨true, .returned (.ok ())⟩ ∧ 0 ∈ s.accepted := by
  have hMeets : ∀ s l, (∀ k, l ≠ .take k) → OwnReply s l := by
    intro s l hl
    cases l with
    | take k => exact absurd rfl (hl k)
    | _ => trivial
  have htake := Transition.Reachable.step (reachable_acknowledged hMeets (reachable_sent hMeets))
    (Step.take 0 0 (udpReply responseOk) [] rfl rfl)
    (fun j rest h => (Arrival.reply.inj (List.cons.inj h).1).1.symm)
  exact ⟨_, htake, rfl, confirmed_is_accepted htake 0 rfl⟩

/-- The second call, whose datagram is still on its way, returns with the acknowledgement of the
first, which was cancelled. -/
theorem stale_acknowledgement :
    ∃ s, Reachable sampleConfig 4096 sampleCrypto UdpClient.connect (fun _ _ => True) s ∧
      s.calls 0 = some ⟨true, .cancelled⟩ ∧
      s.calls 1 = some ⟨true, .returned (.ok ())⟩ ∧ 1 ∉ s.accepted ∧ ¬ Truthful s := by
  have hMeets : ∀ (s : Exchange) (l : Label), (∀ k, l ≠ .take k) → True := fun _ _ _ => trivial
  have hcancel := Transition.Reachable.step (reachable_sent hMeets) (Step.cancel 0 rfl) trivial
  have hcalls : (sent .waiting).setCall 0 true .cancelled = sent .cancelled := by
    unfold sent Exchange.setCall
    rw [Function.update_idem]
  rw [hcalls] at hcancel
  have hsend := Transition.Reachable.step (reachable_acknowledged hMeets hcancel)
    (Step.send 1 ['a'] [1] true (.ok []) sampleDatagram rfl packet_sample) trivial
  have htake := Transition.Reachable.step hsend
    (Step.take 1 0 (udpReply responseOk) [] rfl rfl) trivial
  have hlost : 1 ∉ ({0} : Set Nat) := Nat.one_ne_zero
  exact ⟨_, htake, rfl, rfl, hlost, fun ht => hlost (ht 1 rfl)⟩

end Psrt.Confirmed

import Psrt.DataChannel.Channels

/-! No orphan data stream: a data task that is alive reads the channel under which publishers find
its client. -/

namespace Psrt.DataChannel
open Wire

variable {capacity : Nat} {s s' : State} {l : Label}

def Proc.MidOperation : Proc → Prop
  | session _ left => left = true
  | requested _ => True
  | launching _ _ _ => True
  | visiting _ _ _ => True
  | pushing _ _ _ _ _ _ => True
  | _ => False

namespace State

def Quiescent (s : State) : Prop := ∀ i p, s.procs i = some p → ¬ p.MidOperation

def DropPending (s : State) (c : ServerClient) (i : Nat) : Prop :=
  ∃ src m ch rest, s.procs i = some (.pushing src m c ch rest .dropped)

/-- A request is in the middle whose data task is still to come, or is alive and not yet
registered. -/
def InTheMaking (s : State) (c : ServerClient) (ch : ChannelId) : Prop :=
  ∃ i pc, s.procs i = some (.launching c ch pc) ∧
    ∀ j, pc = .dataSpawned j → ∃ dpc, s.procs j = some (.data c ch dpc) ∧ s.aborted j = false

end State

def NoOrphan (s : State) : Prop :=
  s.Quiescent → ∀ i c ch pc, s.Registered c → s.procs i = some (.data c ch pc) →
    s.aborted i = false → s.dataChannel c = some ch

/-- The step drops a channel together with its stream: an unregister hits no other channel (unless
an abort for that client is on its way), and the last abort on its way finds no request in the
middle whose channel is dropped already. -/
def DropsStream (s : State) (l : Label) : Prop :=
  match l.before with
  | some (.pushing _ _ c _ _ .full) => ∀ c', s.clientsByToken c.token = some c' →
      c' = c ∨ s.dataChannel c' = none ∨ ∃ k, s.DropPending c' k
  | some (.data c ch .failing) => ∀ c', s.clientsByToken c.token = some c' →
      (c' = c ∧ s.dataChannel c = some ch) ∨ s.dataChannel c' = none ∨ ∃ k, s.DropPending c' k
  | some (.pushing _ _ c _ _ .dropped) => s.Registered c →
      (∃ k, k ≠ l.id ∧ s.DropPending c k) ∨ ∀ ch, s.InTheMaking c ch → s.dataChannel c = some ch
  | _ => True

/-- Whoever looks after a channel of a registered client: publishers find that channel, or a push is
about to abort the client's tasks. -/
def Followed (s : State) : Prop :=
  ∀ i c ch, s.Registered c → s.LooksAfter c ch i →
    s.dataChannel c = some ch ∨ ∃ k, s.DropPending c k

theorem noOrphan_of_followed (h : Followed s) : NoOrphan s := by
  intro hquiet i c ch pc hreg hi halive
  rcases h i c ch hreg (.inr ⟨pc, hi, halive⟩) with hcell | ⟨k, src, m, ch', rest, hk⟩
  · exact hcell
  · exact absurd trivial (hquiet k _ hk)

theorem Step.dropPending_cases (h : Step capacity s l s') {c : ServerClient} {k : Nat}
    (hk : s.DropPending c k) : s'.DropPending c k ∨ k = l.id ∧ l.effect = .abortTasks c ∧
      ∃ src m ch rest, l.before = some (.pushing src m c ch rest .dropped) := by
  obtain ⟨src, m, ch, rest, hk⟩ := hk
  by_cases hne : k = l.id
  · subst hne
    right
    have hbefore := h.before_eq.symm.trans hk
    refine ⟨rfl, ?_, src, m, ch, rest, hbefore⟩
    cases h with
    | start => cases hbefore
    | move i p eff p' hp hmove =>
      obtain rfl := Option.some.inj hbefore
      cases hmove with
      | abortFull => rfl
  · exact .inl ⟨src, m, ch, rest, h.procs_of_ne hk hne⟩

/-- An unregister that takes the channel away comes from a push that will abort, or from the data
task of that channel, which ends with it. -/
theorem Step.pending_of_unregister (h : Step capacity s l s') (hch : Channels s)
    (hdrops : DropsStream s l) {i : Nat} {c : ServerClient} {ch : ChannelId} {token : Token}
    (hi : s.LooksAfter c ch i) (hi' : s'.LooksAfter c ch i) (hcell : s.dataChannel c = some ch)
    (heff : l.effect = .unregisterDataChannel token) (htoken : s.clientsByToken token = some c) :
    ∃ k, s'.DropPending c k := by
  have hstays : ∀ k, s.DropPending c k → ∃ k, s'.DropPending c k := by
    intro k hk
    rcases h.dropPending_cases hk with hk' | ⟨-, habort, -⟩
    · exact ⟨k, hk'⟩
    · rw [heff] at habort
      cases habort
  unfold DropsStream at hdrops
  rcases h.unregister_cases heff with
    ⟨src, m, c', ch', rest, rfl, hbefore, hafter⟩ | ⟨c', ch', rfl, hbefore, hafter⟩
  · rw [hbefore] at hdrops
    rcases hdrops c htoken with rfl | hnone | ⟨k, hk⟩
    · refine ⟨l.id, src, m, ch', rest, ?_⟩
      rw [h.procs_after, hafter]
    · rw [hcell] at hnone
      cases hnone
    · exact hstays k hk
  · rw [hbefore] at hdrops
    rcases hdrops c htoken with ⟨rfl, hown⟩ | hnone | ⟨k, hk⟩
    · -- the receiver is held once, and its holder has finished
      rw [hcell] at hown
      obtain rfl := Option.some.inj hown
      obtain ⟨p, hp, hrecv⟩ := hi.holdsReceiver
      have hl : s.procs l.id = some (.data c ch .failing) := h.before_eq.trans hbefore
      obtain rfl := hch.receiver_unique i l.id p _ ch hp hl hrecv rfl
      obtain ⟨q, hq, hrecv'⟩ := hi'.holdsReceiver
      rw [h.procs_after, hafter] at hq
      obtain rfl := Option.some.inj hq
      exact hrecv'.elim
    · rw [hcell] at hnone
      cases hnone
    · exact hstays k hk

theorem Step.followed_of_abort (h : Step capacity s l s') (hch : Channels s)
    (hdrops : DropsStream s l) {i : Nat} {c : ServerClient} {ch : ChannelId}
    (hreg : s.Registered c) (hi : s.LooksAfter c ch i) (hi' : s'.LooksAfter c ch i)
    (heff : l.effect = .abortTasks c)
    (hbefore : ∃ src m ch rest, l.before = some (.pushing src m c ch rest .dropped)) :
    s'.dataChannel c = some ch ∨ ∃ k, s'.DropPending c k := by
  obtain ⟨src, m, ch', rest, hbefore⟩ := hbefore
  unfold DropsStream at hdrops
  rw [hbefore] at hdrops
  rcases hdrops hreg with ⟨k, hne, hk⟩ | hmaking
  · rcases h.dropPending_cases hk with hk' | ⟨hkl, -, -⟩
    · exact .inr ⟨k, hk'⟩
    · exact absurd hkl hne
  · left
    rw [h.dataChannel_eq, heff]
    apply hmaking
    rcases hi with ⟨pc, hi, hpc⟩ | ⟨pc, hi, halive⟩
    · exact ⟨i, pc, hi, fun j hj => absurd hj (hpc j)⟩
    · rcases hch.attached i c ch pc hreg hi halive with hmem | ⟨k, hk⟩
      · have hdead := h.aborted_of_task (.inl heff) hmem
        rcases hi' with ⟨pc', hi', hpc'⟩ | ⟨pc', -, halive'⟩
        · obtain ⟨p, hp, hdata⟩ := h.dataOf ⟨_, hi, ⟨rfl, rfl⟩⟩
          rw [hi'] at hp
          obtain rfl := Option.some.inj hp
          exact hdata.elim
        · rw [hdead] at halive'
          cases halive'
      · refine ⟨k, _, hk, fun j hj => ?_⟩
        obtain rfl := LaunchPc.dataSpawned.inj hj
        exact ⟨pc, hi, halive⟩

theorem Followed.step (hf : Followed s) (h : Step capacity s l s') (hwf : Wf s) (hch : Channels s)
    (hdrops : DropsStream s l) : Followed s' := by
  intro i c ch hreg' hi'
  rcases h.looksAfter_before hi' with hi | ⟨hi, q, heff⟩ | ⟨⟨token, heff⟩, hafter⟩
  · obtain ⟨p, hp, habout⟩ := hi.about
    have hnew := h.not_registerClient hwf hp habout
    have hreg := (h.registered hreg').resolve_right hnew
    rcases hf i c ch hreg hi with hcell | ⟨k, hk⟩
    · rcases h.dataChannel_kept hcell with hkept | ⟨token, heff, htoken⟩ | heff | heff
      · exact .inl hkept
      · exact .inr (h.pending_of_unregister hch hdrops hi hi' hcell heff htoken)
      · exact absurd heff hnew
      · exact absurd hreg (h.not_registered_of_drop heff)
    · rcases h.dropPending_cases hk with hk' | ⟨-, heff, hbefore⟩
      · exact .inr ⟨k, hk'⟩
      · exact h.followed_of_abort hch hdrops hreg hi hi' heff hbefore
  · obtain ⟨p, hp, habout⟩ := hi.about
    have hreg := (h.registered hreg').resolve_right (h.not_registerClient hwf hp habout)
    have hcells : s'.dataChannel = s.dataChannel := by
      rw [h.dataChannel_eq, heff]
      rfl
    rcases hf l.id c ch hreg hi with hcell | ⟨k, hk⟩
    · rw [hcells]
      exact .inl hcell
    · rcases h.dropPending_cases hk with hk' | ⟨-, habort, -⟩
      · exact .inr ⟨k, hk'⟩
      · rw [heff] at habort
        cases habort
  · left
    obtain ⟨c', hok, -, hafter'⟩ := h.registerDataChannel_cases heff
    rw [hafter] at hafter'
    obtain ⟨rfl, rfl, -⟩ := Proc.launching.inj hafter'
    rw [h.dataChannel_eq, apply_dataChannel, heff]
    dsimp only
    rw [(registerDataChannel_ok hok).2.2]
    exact Function.update_self ..

/-- In every run whose steps drop a channel together with its stream, no stream is left orphaned. -/
theorem no_orphan (h : Reachable capacity DropsStream s) : NoOrphan s := by
  apply noOrphan_of_followed
  apply h.invariant_with (J := fun s => Wf s ∧ Channels s)
    fun s hs => ⟨wf_of_reachable hs, channels_of_reachable hs⟩
  · intro s hs i c ch hreg
    rw [hs] at hreg
    cases hreg
  · intro s l s' hJ hf hdrops hstep
    exact hf.step hstep hJ.1 hJ.2 hdrops

theorem no_orphan_sample : ∃ s, Reachable 1 DropsStream s ∧ s.Quiescent ∧
    s.procs 3 = some (.data sampleClient 0 .waiting) ∧ s.aborted 3 = false ∧ NoOrphan s := by
  have h : Reachable 1 DropsStream _ :=
    .step (.init rfl) (.start 0 _ _ rfl (.login sampleClient rfl rfl)) trivial
  have h : Reachable 1 DropsStream _ :=
    .step h (.start 1 _ _ rfl (.request sampleClient.token)) trivial
  have h : Reachable 1 DropsStream _ :=
    .step h (.move 1 _ _ _ rfl (.register _ sampleClient rfl)) trivial
  have h : Reachable 1 DropsStream _ := .step h (.move 1 _ _ _ rfl (.reply _ _)) trivial
  have h : Reachable 1 DropsStream _ := .step h (.move 1 _ _ _ rfl (.spawnPinger _ _ 2 rfl)) trivial
  have h : Reachable 1 DropsStream _ := .step h (.move 1 _ _ _ rfl (.registerPinger _ _ _)) trivial
  have h : Reachable 1 DropsStream _ := .step h (.move 1 _ _ _ rfl (.spawnData _ _ 3 rfl)) trivial
  have h : Reachable 1 DropsStream _ := .step h (.move 1 _ _ _ rfl (.registerData _ _ _)) trivial
  refine ⟨_, h, ?_, rfl, rfl, no_orphan h⟩
  rintro (_ | _ | _ | _ | i) p hp hmid
  · obtain rfl := Option.some.inj hp
    cases hmid
  · obtain rfl := Option.some.inj hp
    exact hmid
  · obtain rfl := Option.some.inj hp
    exact hmid
  · obtain rfl := Option.some.inj hp
    exact hmid
  · cases hp

/-- The queue fills up and is dropped while the request still waits for its reply to be written: the
tasks it then spawns are never aborted. -/
theorem orphan_left : ∃ s, Reachable 1 (fun _ _ => True) s ∧ ¬ NoOrphan s := by
  let m : MessageFrame := emptyMessage
  have h : Reachable 1 (fun _ _ => True) _ :=
    .step (.init rfl) (.start 0 _ _ rfl (.login sampleClient rfl rfl)) trivial
  have h : Reachable 1 (fun _ _ => True) _ := .step h (.start 2 _ _ rfl .listener) trivial
  have h : Reachable 1 (fun _ _ => True) _ :=
    .step h (.start 1 _ _ rfl (.request sampleClient.token)) trivial
  have h : Reachable 1 (fun _ _ => True) _ :=
    .step h (.move 1 _ _ _ rfl (.register _ sampleClient rfl)) trivial
  have h : Reachable 1 (fun _ _ => True) _ :=
    .step h (.move 2 _ _ _ rfl (.publishUdp m _ (.singleton sampleClient rfl))) trivial
  have h : Reachable 1 (fun _ _ => True) _ := .step h (.move 2 _ _ _ rfl (.find _ _ _ _ 0 rfl)) trivial
  have h : Reachable 1 (fun _ _ => True) _ :=
    .step h (.move 2 _ _ _ rfl (.hasRoom _ _ _ _ _ Nat.one_pos)) trivial
  have h : Reachable 1 (fun _ _ => True) _ :=
    .step h (.move 2 _ _ _ rfl (.send _ _ _ _ _ ⟨1, _, rfl, rfl⟩ Nat.one_pos)) trivial
  have h : Reachable 1 (fun _ _ => True) _ := .step h (.move 2 _ _ _ rfl (.pushedUdp _)) trivial
  have h : Reachable 1 (fun _ _ => True) _ :=
    .step h (.move 2 _ _ _ rfl (.publishUdp m _ (.singleton sampleClient rfl))) trivial
  have h : Reachable 1 (fun _ _ => True) _ := .step h (.move 2 _ _ _ rfl (.find _ _ _ _ 0 rfl)) trivial
  have h : Reachable 1 (fun _ _ => True) _ :=
    .step h (.move 2 _ _ _ rfl (.isFull _ _ _ _ _ (Nat.le_refl 1))) trivial
  have h : Reachable 1 (fun _ _ => True) _ :=
    .step h (.move 2 _ _ _ rfl (.unregisterFull _ _ _ _ _)) trivial
  have h : Reachable 1 (fun _ _ => True) _ :=
    .step h (.move 2 _ _ _ rfl (.abortFull _ _ _ _ _)) trivial
  have h : Reachable 1 (fun _ _ => True) _ := .step h (.move 2 _ _ _ rfl (.pushedUdp _)) trivial
  have h : Reachable 1 (fun _ _ => True) _ := .step h (.move 1 _ _ _ rfl (.reply _ _)) trivial
  have h : Reachable 1 (fun _ _ => True) _ :=
    .step h (.move 1 _ _ _ rfl (.spawnPinger _ _ 3 rfl)) trivial
  have h : Reachable 1 (fun _ _ => True) _ :=
    .step h (.move 1 _ _ _ rfl (.registerPinger _ _ _)) trivial
  have h : Reachable 1 (fun _ _ => True) _ :=
    .step h (.move 1 _ _ _ rfl (.spawnData _ _ 4 rfl)) trivial
  have h : Reachable 1 (fun _ _ => True) _ :=
    .step h (.move 1 _ _ _ rfl (.registerData _ _ _)) trivial
  refine ⟨_, h, fun horphan => ?_⟩
  have hcell := horphan ?_ 4 sampleClient 0 .waiting rfl rfl rfl
  · cases hcell
  · rintro (_ | _ | _ | _ | _ | i) p hp hmid
    · obtain rfl := Option.some.inj hp
      cases hmid
    · obtain rfl := Option.some.inj hp
      exact hmid
    · obtain rfl := Option.some.inj hp
      exact hmid
    · obtain rfl := Option.some.inj hp
      exact hmid
    · obtain rfl := Option.some.inj hp
      exact hmid
    · cases hp

end Psrt.DataChannel

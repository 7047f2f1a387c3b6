import Psrt.DataChannel.Basic

/-! No dead data channel: a registered client without a data task and without a data-stream request
has no channel, so that it may ask for one. -/

namespace Psrt.DataChannel
open Wire

variable {capacity : Nat} {s s' : State} {l : Label}

namespace State

def DataTaskAlive (s : State) (c : ServerClient) : Prop :=
  ∃ i ch pc, s.procs i = some (.data c ch pc) ∧ s.aborted i = false

def RequestInProgress (s : State) (c : ServerClient) : Prop :=
  (∃ i, s.procs i = some (.requested c.token)) ∨
    ∃ i ch pc, s.procs i = some (.launching c ch pc)

/-- A data-stream request with the client's token is accepted, whatever channel it made. -/
def AcceptsRequest (s : State) (c : ServerClient) : Prop :=
  ∀ ch, (registerDataChannel s.clientsByToken s.dataChannel c.token ch).1 = .ok c

def Serves (s : State) (c : ServerClient) (ch : ChannelId) : Prop :=
  s.Registered c ∧ s.dataChannel c = some ch

end State

def NoDeadChannel (s : State) : Prop :=
  ∀ c, s.Registered c → ¬ s.DataTaskAlive c → ¬ s.RequestInProgress c →
    s.dataChannel c = none ∧ s.AcceptsRequest c

/-- The step does not leave the channel of a registered client behind: it is no lost reply to the
request of that channel, no end of its stream that counts as success, and no abort of a push that
hits the task of another channel than the one dropped. -/
def KeepsChannel (s : State) (l : Label) : Prop :=
  match l.before, l.after with
  | some (.launching c ch .replying), .finished => ¬ s.Serves c ch
  | some (.data c ch (.writing _)), .finished => s.aborted l.id = true ∨ ¬ s.Serves c ch
  | some (.pushing _ _ c _ _ .dropped), _ => ∀ j ∈ s.tasks c, ∀ ch pc,
      s.procs j = some (.data c ch pc) → s.aborted j = true ∨ ¬ s.Serves c ch
  | _, _ => True

def Owned (s : State) : Prop :=
  ∀ c ch, s.Serves c ch → ∃ i, s.LooksAfter c ch i

theorem State.acceptsRequest_of_none {c : ServerClient} (hc : s.Registered c)
    (hnone : s.dataChannel c = none) : s.AcceptsRequest c := by
  intro ch
  unfold registerDataChannel
  rw [hc]
  dsimp only
  rw [hnone]
  rfl

theorem noDeadChannel_of_owned (h : Owned s) : NoDeadChannel s := by
  intro c hc htask hrequest
  have hnone : s.dataChannel c = none := by
    apply Option.eq_none_iff_forall_not_mem.mpr
    intro ch hch
    obtain ⟨i, ⟨pc, hi, -⟩ | ⟨pc, hi, halive⟩⟩ := h c ch ⟨hc, hch⟩
    · exact hrequest (.inr ⟨i, ch, pc, hi⟩)
    · exact htask ⟨i, ch, pc, hi, halive⟩
  exact ⟨hnone, s.acceptsRequest_of_none hc hnone⟩

/-- A step that keeps the channel leaves the task that looks after it alone. -/
theorem Step.alive_of_keeps (h : Step capacity s l s') (hwf : Wf s) (hkeeps : KeepsChannel s l)
    {c : ServerClient} {ch : ChannelId} {i : Nat} {pc : DataPc} (hserves : s.Serves c ch)
    (hi : s.procs i = some (.data c ch pc)) (halive : s.aborted i = false) :
    s'.aborted i = false := by
  by_contra hdead
  rcases h.aborted_cases (Bool.not_eq_false _ ▸ hdead) with hdead | ⟨c', heff, hmem⟩
  · rw [halive] at hdead
    cases hdead
  · obtain ⟨p, hp, htask⟩ := hwf.tasks c' i hmem
    rw [hi] at hp
    obtain rfl := Option.some.inj hp
    have hcc : c = c' := htask
    subst hcc
    rcases h.abort_cases hwf heff with hleft | ⟨src, m, ch', rest, hbefore⟩
    · exact hleft hserves.1
    · unfold KeepsChannel at hkeeps
      rw [hbefore] at hkeeps
      rcases hkeeps i hmem ch pc hi with hdead | hother
      · rw [halive] at hdead
        cases hdead
      · exact hother hserves

theorem Step.looksAfter_launching (h : Step capacity s l s') (hkeeps : KeepsChannel s l)
    {c : ServerClient} {ch : ChannelId} {pc : LaunchPc} (hserves : s.Serves c ch)
    (hi : s.procs l.id = some (.launching c ch pc)) (hpc : ∀ j, pc ≠ .dataSpawned j) :
    ∃ j, s'.LooksAfter c ch j := by
  have hafter := h.procs_after
  have hspawn : ∀ j q, l.effect = .spawn j q → s'.procs j = some q :=
    fun j q heff => h.procs_of_spawn heff
  have heq := h.aborted_eq
  cases h with
  | start i eff p hfree hstart =>
    rw [hfree] at hi
    cases hi
  | move i p eff p' hp hmove =>
    rw [hp] at hi
    obtain rfl := Option.some.inj hi
    cases hmove with
    | reply => exact ⟨i, .inl ⟨_, hafter, nofun⟩⟩
    | replyFailed => exact absurd hserves hkeeps
    | spawnPinger => exact ⟨i, .inl ⟨_, hafter, nofun⟩⟩
    | registerPinger => exact ⟨i, .inl ⟨_, hafter, nofun⟩⟩
    | spawnData c ch j hj =>
      refine ⟨j, .inr ⟨_, hspawn j _ rfl, ?_⟩⟩
      rw [heq, apply_aborted]
      exact Function.update_self ..
    | registerData c ch j => exact absurd rfl (hpc j)

theorem Step.looksAfter_data (h : Step capacity s l s') (hwf : Wf s) (hkeeps : KeepsChannel s l)
    {c : ServerClient} {ch : ChannelId} {pc : DataPc} (hserves : s.Serves c ch)
    (hserves' : s'.Serves c ch) (hi : s.procs l.id = some (.data c ch pc))
    (halive : s.aborted l.id = false) : ∃ j, s'.LooksAfter c ch j := by
  have hafter := h.procs_after
  have halive' := h.alive_of_keeps hwf hkeeps hserves hi halive
  have hcell := hserves'.2
  rw [h.dataChannel_eq, apply_dataChannel] at hcell
  cases h with
  | start i eff p hfree hstart =>
    rw [hfree] at hi
    cases hi
  | move i p eff p' hp hmove =>
    rw [hp] at hi
    obtain rfl := Option.some.inj hi
    cases hmove with
    | recv => exact ⟨i, .inr ⟨_, hafter, halive'⟩⟩
    | recvClosed c ch hempty hclosed => exact absurd (.inl ⟨c, hserves.2⟩) hclosed
    | written => exact ⟨i, .inr ⟨_, hafter, halive'⟩⟩
    | writeEof =>
      rcases hkeeps with hdead | hother
      · rw [halive] at hdead
        cases hdead
      · exact absurd hserves hother
    | writeError => exact ⟨i, .inr ⟨_, hafter, halive'⟩⟩
    | unregisterFailed => exact absurd hserves.1 (unregisterDataChannel_of_some hcell).2
    | dataStopped c ch pc hpc hdead =>
      rw [halive] at hdead
      cases hdead

theorem Step.served_before (h : Step capacity s l s') (hwf : Wf s) {c : ServerClient}
    {ch : ChannelId} (hserves : s'.Serves c ch) :
    s.Serves c ch ∨ l.after = .launching c ch .replying := by
  obtain ⟨hreg, hcell⟩ := hserves
  rcases h.dataChannel_cases hwf hcell with hold | ⟨-, -, -, -, hafter⟩
  · rcases h.registered hreg with hreg | heff
    · exact .inl ⟨hreg, hold⟩
    · rw [h.dataChannel_eq, apply_dataChannel, heff] at hcell
      dsimp only at hcell
      rw [Function.update_self] at hcell
      cases hcell
  · exact .inr hafter

theorem Owned.step (howned : Owned s) (h : Step capacity s l s') (hwf : Wf s)
    (hkeeps : KeepsChannel s l) : Owned s' := by
  intro c ch hserves'
  rcases h.served_before hwf hserves' with hserves | hafter
  · obtain ⟨i, hi⟩ := howned c ch hserves
    by_cases hne : i = l.id
    · subst hne
      rcases hi with ⟨pc, hi, hpc⟩ | ⟨pc, hi, halive⟩
      · exact h.looksAfter_launching hkeeps hserves hi hpc
      · exact h.looksAfter_data hwf hkeeps hserves hserves' hi halive
    · rcases hi with ⟨pc, hi, hpc⟩ | ⟨pc, hi, halive⟩
      · exact ⟨i, .inl ⟨pc, h.procs_of_ne hi hne, hpc⟩⟩
      · exact ⟨i, .inr ⟨pc, h.procs_of_ne hi hne, h.alive_of_keeps hwf hkeeps hserves hi halive⟩⟩
  · refine ⟨l.id, .inl ⟨.replying, ?_, nofun⟩⟩
    rw [h.procs_after, hafter]

/-- In every run whose steps keep the channels of registered clients, no channel is left dead. -/
theorem no_dead_channel (h : Reachable capacity KeepsChannel s) : NoDeadChannel s := by
  apply noDeadChannel_of_owned
  apply h.invariant_with (J := Wf) fun s hs => wf_of_reachable hs
  · intro s hs c ch hserves
    rw [hs] at hserves
    cases hserves.2
  · intro s l s' hwf howned hkeeps hstep
    exact howned.step hstep hwf hkeeps

theorem no_dead_channel_sample : ∃ s, Reachable 1 KeepsChannel s ∧ s.Registered sampleClient ∧
    ¬ s.DataTaskAlive sampleClient ∧ ¬ s.RequestInProgress sampleClient ∧ NoDeadChannel s := by
  have h : Reachable 1 KeepsChannel _ :=
    .step (.init rfl) (.start 0 _ _ rfl (.login sampleClient rfl rfl)) trivial
  have h : Reachable 1 KeepsChannel _ :=
    .step h (.start 1 _ _ rfl (.request sampleClient.token)) trivial
  have h : Reachable 1 KeepsChannel _ :=
    .step h (.move 1 _ _ _ rfl (.register _ sampleClient rfl)) trivial
  have h : Reachable 1 KeepsChannel _ := .step h (.move 1 _ _ _ rfl (.reply _ _)) trivial
  have h : Reachable 1 KeepsChannel _ := .step h (.move 1 _ _ _ rfl (.spawnPinger _ _ 2 rfl)) trivial
  have h : Reachable 1 KeepsChannel _ := .step h (.move 1 _ _ _ rfl (.registerPinger _ _ _)) trivial
  have h : Reachable 1 KeepsChannel _ := .step h (.move 1 _ _ _ rfl (.spawnData _ _ 3 rfl)) trivial
  have h : Reachable 1 KeepsChannel _ := .step h (.move 1 _ _ _ rfl (.registerData _ _ _)) trivial
  have h : Reachable 1 KeepsChannel _ :=
    .step h (.move 2 _ _ _ rfl (.ping _ _ ⟨3, _, rfl, rfl⟩ Nat.one_pos)) trivial
  have h : Reachable 1 KeepsChannel _ := .step h (.move 3 _ _ _ rfl (.recv _ _ _ _ rfl)) trivial
  have h : Reachable 1 KeepsChannel _ := .step h (.move 3 _ _ _ rfl (.writeError _ _ _)) trivial
  have h : Reachable 1 KeepsChannel _ := .step h (.move 3 _ _ _ rfl (.unregisterFailed _ _)) trivial
  refine ⟨_, h, rfl, ?_, ?_, no_dead_channel h⟩
  · rintro ⟨_ | _ | _ | _ | i, ch, pc, hi, -⟩
    all_goals cases hi
  · rintro (⟨_ | _ | _ | _ | i, hi⟩ | ⟨_ | _ | _ | _ | i, ch, pc, hi⟩)
    all_goals cases hi

/-- The reply to the request is lost; or the first write finds the connection closed. -/
theorem dead_channel_left :
    (∃ s, Reachable 1 (fun _ _ => True) s ∧ s.dataChannel sampleClient = some 0 ∧
      ¬ NoDeadChannel s) ∧
    ∃ s, Reachable 1 (fun _ _ => True) s ∧ s.dataChannel sampleClient = some 0 ∧
      ¬ NoDeadChannel s := by
  have h : Reachable 1 (fun _ _ => True) _ :=
    .step (.init rfl) (.start 0 _ _ rfl (.login sampleClient rfl rfl)) trivial
  have h : Reachable 1 (fun _ _ => True) _ :=
    .step h (.start 1 _ _ rfl (.request sampleClient.token)) trivial
  have h : Reachable 1 (fun _ _ => True) _ :=
    .step h (.move 1 _ _ _ rfl (.register _ sampleClient rfl)) trivial
  constructor
  · have h : Reachable 1 (fun _ _ => True) _ :=
      .step h (.move 1 _ _ _ rfl (.replyFailed _ _)) trivial
    refine ⟨_, h, rfl, fun hdead => ?_⟩
    have hnone := (hdead sampleClient rfl ?_ ?_).1
    · cases hnone
    · rintro ⟨_ | _ | i, ch, pc, hi, -⟩
      all_goals cases hi
    · rintro (⟨_ | _ | i, hi⟩ | ⟨_ | _ | i, ch, pc, hi⟩)
      all_goals cases hi
  · have h : Reachable 1 (fun _ _ => True) _ := .step h (.move 1 _ _ _ rfl (.reply _ _)) trivial
    have h : Reachable 1 (fun _ _ => True) _ :=
      .step h (.move 1 _ _ _ rfl (.spawnPinger _ _ 2 rfl)) trivial
    have h : Reachable 1 (fun _ _ => True) _ :=
      .step h (.move 1 _ _ _ rfl (.registerPinger _ _ _)) trivial
    have h : Reachable 1 (fun _ _ => True) _ :=
      .step h (.move 1 _ _ _ rfl (.spawnData _ _ 3 rfl)) trivial
    have h : Reachable 1 (fun _ _ => True) _ :=
      .step h (.move 1 _ _ _ rfl (.registerData _ _ _)) trivial
    have h : Reachable 1 (fun _ _ => True) _ :=
      .step h (.move 2 _ _ _ rfl (.ping _ _ ⟨3, _, rfl, rfl⟩ Nat.one_pos)) trivial
    have h : Reachable 1 (fun _ _ => True) _ := .step h (.move 3 _ _ _ rfl (.recv _ _ _ _ rfl)) trivial
    have h : Reachable 1 (fun _ _ => True) _ := .step h (.move 3 _ _ _ rfl (.writeEof _ _ _)) trivial
    refine ⟨_, h, rfl, fun hdead => ?_⟩
    have hnone := (hdead sampleClient rfl ?_ ?_).1
    · cases hnone
    · rintro ⟨_ | _ | _ | _ | i, ch, pc, hi, -⟩
      all_goals cases hi
    · rintro (⟨_ | _ | _ | _ | i, hi⟩ | ⟨_ | _ | _ | _ | i, ch, pc, hi⟩)
      all_goals cases hi

end Psrt.DataChannel

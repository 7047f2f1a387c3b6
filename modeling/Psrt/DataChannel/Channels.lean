import Psrt.DataChannel.Basic

/-! Who holds a channel's receiver, and where the handles of the data tasks are. -/

namespace Psrt.DataChannel
open Wire

variable {capacity : Nat} {s s' : State} {l : Label}

def Proc.DataOf (client : ServerClient) (channel : ChannelId) : Proc → Prop
  | data c ch _ => c = client ∧ ch = channel
  | finished => True
  | _ => False

theorem Move.dataOf {i : Nat} {p p' : Proc} {eff : Effect} (h : Move capacity s i p eff p')
    {c : ServerClient} {ch : ChannelId} (hp : p.DataOf c ch) : p'.DataOf c ch := by
  cases h with
  | recv => exact hp
  | recvClosed => trivial
  | written => exact hp
  | writeEof => trivial
  | writeError => exact hp
  | unregisterFailed => trivial
  | dataStopped => trivial
  | _ => exact hp.elim

theorem Step.dataOf (h : Step capacity s l s') {j : Nat} {c : ServerClient} {ch : ChannelId}
    (hj : ∃ p, s.procs j = some p ∧ p.DataOf c ch) : ∃ p, s'.procs j = some p ∧ p.DataOf c ch := by
  obtain ⟨p, hp, hdata⟩ := hj
  by_cases hne : j = l.id
  · subst hne
    refine ⟨l.after, h.procs_after, ?_⟩
    cases h with
    | start i eff q hfree hstart =>
      rw [hfree] at hp
      cases hp
    | move i q eff q' hq hmove =>
      rw [hq] at hp
      obtain rfl := Option.some.inj hp
      exact hmove.dataOf hdata
  · exact ⟨p, h.procs_of_ne hp hne, hdata⟩

theorem Proc.holdsReceiver_iff {p : Proc} {ch : ChannelId} : p.HoldsReceiver ch ↔
    (∃ c pc, p = .launching c ch pc ∧ ∀ j, pc ≠ .dataSpawned j) ∨ ∃ c pc, p = .data c ch pc := by
  constructor
  · intro h
    cases p with
    | launching c ch' pc =>
      cases pc with
      | dataSpawned j => exact h.elim
      | _ => exact .inl ⟨c, _, congrArg (launching c · _) h, nofun⟩
    | data c ch' pc => exact .inr ⟨c, pc, congrArg (data c · pc) h⟩
    | _ => exact h.elim
  · rintro (⟨c, pc, rfl, hpc⟩ | ⟨c, pc, rfl⟩)
    · cases pc with
      | dataSpawned j => exact absurd rfl (hpc j)
      | _ => rfl
    · rfl

theorem Move.receiver {i : Nat} {p p' : Proc} {eff : Effect} (h : Move capacity s i p eff p')
    {ch : ChannelId} (hp : p'.HoldsReceiver ch) :
    p.HoldsReceiver ch ∨ (∃ token, eff = .registerDataChannel token) ∧ ch = s.nextChannel := by
  cases h with
  | register token c hok => exact .inr ⟨⟨token, rfl⟩, hp.symm⟩
  | reply => exact .inl hp
  | spawnPinger => exact .inl hp
  | registerPinger => exact .inl hp
  | recv => exact .inl hp
  | written => exact .inl hp
  | writeError => exact .inl hp
  | _ => exact hp.elim

/-- A receiver is held by who held it, by the request that makes the channel, or by the data task to
which the request has given it. -/
theorem Step.receiver_cases (h : Step capacity s l s') {i : Nat} {p : Proc} {ch : ChannelId}
    (hi : s'.procs i = some p) (hp : p.HoldsReceiver ch) :
    (∃ q, s.procs i = some q ∧ q.HoldsReceiver ch) ∨
      (i = l.id ∧ (∃ token, l.effect = .registerDataChannel token) ∧ ch = s.nextChannel) ∨
      l.effect = .spawn i p ∧ (∃ q, s.procs l.id = some q ∧ q.HoldsReceiver ch) ∧
        ¬ l.after.HoldsReceiver ch := by
  rcases h.procs_cases hi with ⟨rfl, rfl⟩ | ⟨-, hold⟩ | heff
  · cases h with
    | start i eff q hfree hstart =>
      cases hstart with
      | _ => exact hp.elim
    | move i q eff q' hq hmove =>
      rcases hmove.receiver hp with hold | ⟨heff, hch⟩
      · exact .inl ⟨q, hq, hold⟩
      · exact .inr (.inl ⟨rfl, heff, hch⟩)
  · exact .inl ⟨p, hold, hp⟩
  · obtain ⟨c, ch', -, ⟨-, rfl, -⟩ | ⟨hq, rfl, hafter⟩⟩ := h.spawn_cases heff
    · exact hp.elim
    · refine .inr (.inr ⟨heff, ⟨_, hq, hp⟩, ?_⟩)
      rw [hafter]
      exact id

structure Channels (s : State) : Prop where
  cell_lt : ∀ c ch, s.dataChannel c = some ch → ch < s.nextChannel
  cell_known : ∀ c ch, s.dataChannel c = some ch → c.id < s.nextClient
  receiver_lt : ∀ i p ch, s.procs i = some p → p.HoldsReceiver ch → ch < s.nextChannel
  receiver_unique : ∀ i j p q ch, s.procs i = some p → s.procs j = some q →
    p.HoldsReceiver ch → q.HoldsReceiver ch → i = j
  spawned : ∀ i c ch j, s.procs i = some (.launching c ch (.dataSpawned j)) →
    ∃ p, s.procs j = some p ∧ p.DataOf c ch
  attached : ∀ i c ch pc, s.Registered c → s.procs i = some (.data c ch pc) →
    s.aborted i = false → i ∈ s.tasks c ∨ ∃ k, s.procs k = some (.launching c ch (.dataSpawned i))

theorem channels_initial : Channels initial where
  cell_lt _ _ h := by cases h
  cell_known _ _ h := by cases h
  receiver_lt _ _ _ h := by cases h
  receiver_unique _ _ _ _ _ h := by cases h
  spawned _ _ _ _ h := by cases h
  attached _ _ _ _ _ h := by cases h

theorem apply_nextChannel (eff : Effect) : (s.apply eff).nextChannel = match eff with
    | .registerDataChannel _ => s.nextChannel + 1
    | _ => s.nextChannel := by
  cases eff with
  | _ => rfl

theorem Step.nextChannel_eq (h : Step capacity s l s') :
    s'.nextChannel = (s.apply l.effect).nextChannel := by
  rw [h.eq]
  rfl

theorem Step.nextChannel_le (h : Step capacity s l s') : s.nextChannel ≤ s'.nextChannel := by
  rw [h.nextChannel_eq, apply_nextChannel]
  cases l.effect with
  | registerDataChannel => exact Nat.le_succ _
  | _ => exact Nat.le_refl _

theorem Step.lt_of_registerDataChannel (h : Step capacity s l s') {token : Token}
    (heff : l.effect = .registerDataChannel token) : s.nextChannel < s'.nextChannel := by
  rw [h.nextChannel_eq, apply_nextChannel, heff]
  exact Nat.lt_succ_self _

theorem Step.aborted_of_aborted (h : Step capacity s l s') {i : Nat} {p : Proc}
    (hi : s.procs i = some p) (habort : s.aborted i = true) : s'.aborted i = true := by
  rw [h.aborted_eq, apply_aborted]
  cases heff : l.effect with
  | spawn j q =>
    have hj : i ≠ j := by
      intro hij
      rw [hij, h.free_of_spawn heff] at hi
      cases hi
    exact (Function.update_of_ne hj ..).trans habort
  | abortTasks c => exact Bool.or_eq_true_iff.mpr (.inl habort)
  | drop c => exact Bool.or_eq_true_iff.mpr (.inl habort)
  | _ => exact habort

theorem Step.aborted_of_task (h : Step capacity s l s') {i : Nat} {c : ServerClient}
    (heff : l.effect = .abortTasks c ∨ l.effect = .drop c) (hi : i ∈ s.tasks c) :
    s'.aborted i = true := by
  have hmem := List.contains_iff_mem.mpr hi
  rw [h.aborted_eq, apply_aborted]
  rcases heff with heff | heff
  · rw [heff]
    exact Bool.or_eq_true_iff.mpr (.inr hmem)
  · rw [heff]
    exact Bool.or_eq_true_iff.mpr (.inr hmem)

theorem Step.data_before (h : Step capacity s l s') {c : ServerClient} {ch : ChannelId} {pc : DataPc}
    (hafter : l.after = .data c ch pc) : ∃ pc', s.procs l.id = some (.data c ch pc') := by
  cases h with
  | start i eff p hfree hstart =>
    cases hstart with
    | _ => cases hafter
  | move i p eff p' hp hmove =>
    cases hmove with
    | recv =>
      obtain ⟨rfl, rfl, -⟩ := Proc.data.inj hafter
      exact ⟨_, hp⟩
    | written =>
      obtain ⟨rfl, rfl, -⟩ := Proc.data.inj hafter
      exact ⟨_, hp⟩
    | writeError =>
      obtain ⟨rfl, rfl, -⟩ := Proc.data.inj hafter
      exact ⟨_, hp⟩
    | _ => cases hafter

theorem Step.registers_data (h : Step capacity s l s') {c : ServerClient} {ch : ChannelId} {j : Nat}
    (hi : s.procs l.id = some (.launching c ch (.dataSpawned j))) :
    l.effect = .registerTask c j := by
  cases h with
  | start i eff p hfree hstart =>
    rw [hfree] at hi
    cases hi
  | move i p eff p' hp hmove =>
    rw [hp] at hi
    obtain rfl := Option.some.inj hi
    cases hmove with
    | registerData => rfl

theorem Step.tasks_cases (h : Step capacity s l s') {c : ServerClient} {j : Nat}
    (hj : j ∈ s.tasks c) :
    j ∈ s'.tasks c ∨ l.effect = .registerClient c ∨ l.effect = .abortTasks c ∨ l.effect = .drop c := by
  have htasks : s'.tasks = (s.apply l.effect).tasks := by
    rw [h.eq]
    rfl
  have hcleared : ∀ c', j ∈ Function.update s.tasks c' [] c ∨ c' = c := by
    intro c'
    by_cases hc : c = c'
    · exact .inr hc.symm
    · rw [Function.update_of_ne hc]
      exact .inl hj
  rw [htasks, apply_tasks]
  cases heff : l.effect with
  | registerClient c' => exact (hcleared c').imp_right fun hc => .inl (congrArg _ hc)
  | abortTasks c' => exact (hcleared c').imp_right fun hc => .inr (.inl (congrArg _ hc))
  | drop c' => exact (hcleared c').imp_right fun hc => .inr (.inr (congrArg _ hc))
  | registerTask c' j' =>
    left
    dsimp only
    by_cases hc : c = c'
    · rw [← hc, Function.update_self]
      exact List.mem_cons_of_mem _ hj
    · rw [Function.update_of_ne hc]
      exact hj
  | _ => exact .inl hj

theorem Step.mem_tasks_of_registerTask (h : Step capacity s l s') {c : ServerClient} {j : Nat}
    (heff : l.effect = .registerTask c j) : j ∈ s'.tasks c := by
  have htasks : s'.tasks = (s.apply l.effect).tasks := by
    rw [h.eq]
    rfl
  rw [htasks, apply_tasks, heff]
  dsimp only
  rw [Function.update_self]
  exact List.mem_cons_self

theorem Step.not_registerClient (h : Step capacity s l s') (hwf : Wf s) {i : Nat} {p : Proc}
    {c : ServerClient} (hi : s.procs i = some p) (hc : p.About c) :
    l.effect ≠ .registerClient c := by
  intro heff
  have hlt := hwf.about _ _ _ hi hc
  rw [(h.new_of_registerClient heff).1] at hlt
  exact Nat.lt_irrefl _ hlt

namespace Channels

theorem step_receiver_unique (hch : Channels s) (h : Step capacity s l s') {i j : Nat} {p q : Proc}
    {ch : ChannelId} (hi : s'.procs i = some p) (hj : s'.procs j = some q)
    (hp : p.HoldsReceiver ch) (hq : q.HoldsReceiver ch) : i = j := by
  have hfresh : ∀ k r, s.procs k = some r → r.HoldsReceiver ch → ch ≠ s.nextChannel :=
    fun k r hk hr => (hch.receiver_lt k r ch hk hr).ne
  -- the holder from whom a spawned task has the receiver has given it away
  have hgiven : ∀ k r, s'.procs k = some r → r.HoldsReceiver ch →
      ¬ l.after.HoldsReceiver ch → k ≠ l.id := by
    intro k r hk hr hafter hkl
    rw [hkl, h.procs_after] at hk
    exact hafter (Option.some.inj hk ▸ hr)
  rcases h.receiver_cases hi hp with ⟨p', hp', hold⟩ | ⟨hil, hreg, hnew⟩ | ⟨heff, hfrom, hafter⟩ <;>
    rcases h.receiver_cases hj hq with ⟨q', hq', hold'⟩ | ⟨hjl, hreg', hnew'⟩ | ⟨heff', hfrom', hafter'⟩
  · exact hch.receiver_unique i j p' q' ch hp' hq' hold hold'
  · exact absurd hnew' (hfresh i p' hp' hold)
  · obtain ⟨r, hr, hrch⟩ := hfrom'
    exact absurd (hch.receiver_unique i l.id p' r ch hp' hr hold hrch) (hgiven i p hi hp hafter')
  · exact absurd hnew (hfresh j q' hq' hold')
  · exact hil.trans hjl.symm
  · obtain ⟨token, hreg⟩ := hreg
    rw [heff'] at hreg
    cases hreg
  · obtain ⟨r, hr, hrch⟩ := hfrom
    exact absurd (hch.receiver_unique j l.id q' r ch hq' hr hold' hrch) (hgiven j q hj hq hafter)
  · obtain ⟨token, hreg⟩ := hreg'
    rw [heff] at hreg
    cases hreg
  · rw [heff] at heff'
    exact (Effect.spawn.inj heff').1

theorem step_receiver_lt (hch : Channels s) (h : Step capacity s l s') {i : Nat} {p : Proc}
    {ch : ChannelId} (hi : s'.procs i = some p) (hp : p.HoldsReceiver ch) :
    ch < s'.nextChannel := by
  rcases h.receiver_cases hi hp with ⟨q, hq, hold⟩ | ⟨-, ⟨token, heff⟩, hnew⟩ | ⟨-, ⟨q, hq, hold⟩, -⟩
  · exact (hch.receiver_lt i q ch hq hold).trans_le h.nextChannel_le
  · rw [hnew]
    exact h.lt_of_registerDataChannel heff
  · exact (hch.receiver_lt l.id q ch hq hold).trans_le h.nextChannel_le

theorem step_cell_lt (hch : Channels s) (h : Step capacity s l s') (hwf : Wf s) {c : ServerClient}
    {ch : ChannelId} (hc : s'.dataChannel c = some ch) : ch < s'.nextChannel := by
  rcases h.dataChannel_cases hwf hc with hold | ⟨heff, -, -, hnew, -⟩
  · exact (hch.cell_lt c ch hold).trans_le h.nextChannel_le
  · rw [hnew]
    exact h.lt_of_registerDataChannel heff

theorem step_cell_known (hch : Channels s) (h : Step capacity s l s') (hwf : Wf s)
    {c : ServerClient} {ch : ChannelId} (hc : s'.dataChannel c = some ch) :
    c.id < s'.nextClient := by
  rcases h.dataChannel_cases hwf hc with hold | ⟨-, hreg, -, -, -⟩
  · exact (hch.cell_known c ch hold).trans_le h.nextClient_le
  · exact (hwf.known _ _ hreg).trans_le h.nextClient_le

theorem step_spawned (hch : Channels s) (h : Step capacity s l s') {i j : Nat} {c : ServerClient}
    {ch : ChannelId} (hi : s'.procs i = some (.launching c ch (.dataSpawned j))) :
    ∃ p, s'.procs j = some p ∧ p.DataOf c ch := by
  rcases h.procs_cases hi with ⟨-, hafter⟩ | ⟨-, hold⟩ | heff
  · obtain ⟨q, heff, -⟩ := h.spawned_cases hafter.symm rfl
    refine ⟨q, h.procs_of_spawn heff, ?_⟩
    obtain ⟨c', ch', -, ⟨-, -, hpinger⟩ | ⟨-, rfl, hdata⟩⟩ := h.spawn_cases heff
    · rw [← hafter] at hpinger
      cases hpinger
    · rw [← hafter] at hdata
      obtain ⟨rfl, rfl, -⟩ := Proc.launching.inj hdata
      exact ⟨rfl, rfl⟩
  · exact h.dataOf (hch.spawned _ _ _ _ hold)
  · obtain ⟨c', ch', -, ⟨-, hq, -⟩ | ⟨-, hq, -⟩⟩ := h.spawn_cases heff
    · cases hq
    · cases hq

theorem step_attached_old (hch : Channels s) (h : Step capacity s l s') (hwf : Wf s) {i : Nat}
    {c : ServerClient} {ch : ChannelId} {pc : DataPc} (hreg : s'.Registered c)
    (hi : s.procs i = some (.data c ch pc)) (halive : s'.aborted i = false) :
    i ∈ s'.tasks c ∨ ∃ k, s'.procs k = some (.launching c ch (.dataSpawned i)) := by
  have hnew := h.not_registerClient hwf hi rfl
  have hreg' : s.Registered c := (h.registered hreg).resolve_right hnew
  have halive' : s.aborted i = false := by
    by_contra hdead
    rw [h.aborted_of_aborted hi (Bool.not_eq_false _ ▸ hdead)] at halive
    cases halive
  rcases hch.attached i c ch pc hreg' hi halive' with hmem | ⟨k, hk⟩
  · rcases h.tasks_cases hmem with hmem' | heff | heff
    · exact .inl hmem'
    · exact absurd heff hnew
    · rw [h.aborted_of_task heff hmem] at halive
      cases halive
  · by_cases hne : k = l.id
    · rw [hne] at hk
      exact .inl (h.mem_tasks_of_registerTask (h.registers_data hk))
    · exact .inr ⟨k, h.procs_of_ne hk hne⟩

theorem step_attached (hch : Channels s) (h : Step capacity s l s') (hwf : Wf s) {i : Nat}
    {c : ServerClient} {ch : ChannelId} {pc : DataPc} (hreg : s'.Registered c)
    (hi : s'.procs i = some (.data c ch pc)) (halive : s'.aborted i = false) :
    i ∈ s'.tasks c ∨ ∃ k, s'.procs k = some (.launching c ch (.dataSpawned i)) := by
  rcases h.procs_cases hi with ⟨rfl, hafter⟩ | ⟨-, hold⟩ | heff
  · obtain ⟨pc', hbefore⟩ := h.data_before hafter.symm
    exact hch.step_attached_old h hwf hreg hbefore halive
  · exact hch.step_attached_old h hwf hreg hold halive
  · obtain ⟨c', ch', -, ⟨-, hq, -⟩ | ⟨-, hq, hafter⟩⟩ := h.spawn_cases heff
    · cases hq
    · obtain ⟨rfl, rfl, -⟩ := Proc.data.inj hq
      refine .inr ⟨l.id, ?_⟩
      rw [h.procs_after, hafter]

theorem step (hch : Channels s) (h : Step capacity s l s') (hwf : Wf s) : Channels s' where
  cell_lt _ _ hc := hch.step_cell_lt h hwf hc
  cell_known _ _ hc := hch.step_cell_known h hwf hc
  receiver_lt _ _ _ hi hp := hch.step_receiver_lt h hi hp
  receiver_unique _ _ _ _ _ hi hj hp hq := hch.step_receiver_unique h hi hj hp hq
  spawned _ _ _ _ hi := hch.step_spawned h hi
  attached _ _ _ _ hreg hi halive := hch.step_attached h hwf hreg hi halive

end Channels

theorem channels_of_reachable {Meets : State → Label → Prop} (h : Reachable capacity Meets s) :
    Channels s := by
  apply h.invariant_with (J := Wf) fun s hs => wf_of_reachable hs
  · intro s hs
    rw [hs]
    exact channels_initial
  · intro s l s' hwf hch _ hstep
    exact hch.step hstep hwf

theorem Step.launching_before (h : Step capacity s l s') {c : ServerClient} {ch : ChannelId}
    {pc : LaunchPc} (hafter : l.after = .launching c ch pc) (hpc : ∀ j, pc ≠ .dataSpawned j) :
    (∃ token, l.effect = .registerDataChannel token) ∧ pc = .replying ∨
      ∃ pc', s.procs l.id = some (.launching c ch pc') ∧ ∀ j, pc' ≠ .dataSpawned j := by
  cases h with
  | start i eff p hfree hstart =>
    cases hstart with
    | _ => cases hafter
  | move i p eff p' hp hmove =>
    cases hmove with
    | register token c' hok =>
      obtain ⟨-, -, rfl⟩ := Proc.launching.inj hafter
      exact .inl ⟨⟨token, rfl⟩, rfl⟩
    | reply =>
      obtain ⟨rfl, rfl, -⟩ := Proc.launching.inj hafter
      exact .inr ⟨_, hp, nofun⟩
    | spawnPinger =>
      obtain ⟨rfl, rfl, -⟩ := Proc.launching.inj hafter
      exact .inr ⟨_, hp, nofun⟩
    | registerPinger =>
      obtain ⟨rfl, rfl, -⟩ := Proc.launching.inj hafter
      exact .inr ⟨_, hp, nofun⟩
    | spawnData c' ch' j =>
      obtain ⟨-, -, rfl⟩ := Proc.launching.inj hafter
      exact absurd rfl (hpc j)
    | _ => cases hafter

theorem State.LooksAfter.holdsReceiver {c : ServerClient} {ch : ChannelId} {i : Nat}
    (h : s.LooksAfter c ch i) : ∃ p, s.procs i = some p ∧ p.HoldsReceiver ch := by
  rcases h with ⟨pc, hi, hpc⟩ | ⟨pc, hi, -⟩
  · exact ⟨_, hi, Proc.holdsReceiver_iff.mpr (.inl ⟨c, pc, rfl, hpc⟩)⟩
  · exact ⟨_, hi, rfl⟩

theorem State.LooksAfter.about {c : ServerClient} {ch : ChannelId} {i : Nat}
    (h : s.LooksAfter c ch i) : ∃ p, s.procs i = some p ∧ p.About c := by
  rcases h with ⟨pc, hi, -⟩ | ⟨pc, hi, -⟩
  · exact ⟨_, hi, rfl⟩
  · exact ⟨_, hi, rfl⟩

/-- Who looks after a channel: the process that did before, the data task it has just spawned, or
the request that makes the channel. -/
theorem Step.looksAfter_before (h : Step capacity s l s') {c : ServerClient} {ch : ChannelId}
    {i : Nat} (hi : s'.LooksAfter c ch i) :
    s.LooksAfter c ch i ∨ (s.LooksAfter c ch l.id ∧ ∃ q, l.effect = .spawn i q) ∨
      (∃ token, l.effect = .registerDataChannel token) ∧ l.after = .launching c ch .replying := by
  rcases hi with ⟨pc, hi, hpc⟩ | ⟨pc, hi, halive⟩
  · rcases h.procs_cases hi with ⟨rfl, hafter⟩ | ⟨-, hold⟩ | heff
    · rcases h.launching_before hafter.symm hpc with ⟨heff, rfl⟩ | ⟨pc', hbefore, hpc'⟩
      · exact .inr (.inr ⟨heff, hafter.symm⟩)
      · exact .inl (.inl ⟨pc', hbefore, hpc'⟩)
    · exact .inl (.inl ⟨pc, hold, hpc⟩)
    · obtain ⟨c', ch', -, ⟨-, hq, -⟩ | ⟨-, hq, -⟩⟩ := h.spawn_cases heff
      · cases hq
      · cases hq
  · have hback : ∀ pc', s.procs i = some (.data c ch pc') → s.LooksAfter c ch i := by
      intro pc' hold
      refine .inr ⟨pc', hold, ?_⟩
      by_contra hdead
      rw [h.aborted_of_aborted hold (Bool.not_eq_false _ ▸ hdead)] at halive
      cases halive
    rcases h.procs_cases hi with ⟨rfl, hafter⟩ | ⟨-, hold⟩ | heff
    · obtain ⟨pc', hbefore⟩ := h.data_before hafter.symm
      exact .inl (hback pc' hbefore)
    · exact .inl (hback pc hold)
    · obtain ⟨c', ch', -, ⟨-, hq, -⟩ | ⟨hbefore, hq, -⟩⟩ := h.spawn_cases heff
      · cases hq
      · obtain ⟨rfl, rfl, -⟩ := Proc.data.inj hq
        exact .inr (.inl ⟨.inl ⟨_, hbefore, nofun⟩, _, heff⟩)

theorem wf_of_run {t : History} (h : Run capacity t s) : Wf s :=
  wf_of_reachable (h.reachable (fun _ _ => trivial) : Reachable capacity (fun _ _ => True) s)

theorem channels_of_run {t : History} (h : Run capacity t s) : Channels s :=
  channels_of_reachable (h.reachable (fun _ _ => trivial) : Reachable capacity (fun _ _ => True) s)

end Psrt.DataChannel

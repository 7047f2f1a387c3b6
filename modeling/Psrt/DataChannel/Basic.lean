import Psrt.DataChannel.Model

/-! What one step can do, and the invariants every run keeps. -/

namespace Psrt.DataChannel
open Wire

variable {capacity : Nat} {s s' : State} {l : Label}

theorem Step.eq (h : Step capacity s l s') : s' = (s.apply l.effect).setProc l.id l.after := by
  cases h with
  | start => rfl
  | move => rfl

theorem Step.procs_after (h : Step capacity s l s') : s'.procs l.id = some l.after := by
  rw [h.eq]
  exact Function.update_self ..

theorem apply_procs (eff : Effect) : (s.apply eff).procs = match eff with
    | .spawn task p => Function.update s.procs task (some p)
    | _ => s.procs := by
  cases eff with
  | _ => rfl

theorem Step.free_of_spawn (h : Step capacity s l s') {j : Nat} {q : Proc}
    (heff : l.effect = .spawn j q) : s.procs j = none := by
  cases h with
  | start i eff p hfree hstart =>
    cases hstart with
    | _ => cases heff
  | move i p eff p' hp hmove =>
    cases hmove with
    | spawnPinger c ch j' hj' =>
      obtain ⟨rfl, rfl⟩ := Effect.spawn.inj heff
      exact hj'
    | spawnData c ch j' hj' =>
      obtain ⟨rfl, rfl⟩ := Effect.spawn.inj heff
      exact hj'
    | _ => cases heff

theorem Step.procs_of_ne (h : Step capacity s l s') {k : Nat} {p : Proc}
    (hk : s.procs k = some p) (hne : k ≠ l.id) : s'.procs k = some p := by
  have hspawn : ∀ q, l.effect = .spawn k q → False := by
    intro q heff
    rw [h.free_of_spawn heff] at hk
    cases hk
  rw [h.eq]
  unfold State.setProc
  dsimp only
  rw [Function.update_of_ne hne, apply_procs]
  cases heff : l.effect with
  | spawn j q =>
    have hj : k ≠ j := by
      rintro rfl
      exact hspawn q heff
    exact (Function.update_of_ne hj ..).trans hk
  | _ => exact hk

theorem Step.procs_cases (h : Step capacity s l s') {k : Nat} {q : Proc}
    (hk : s'.procs k = some q) :
    (k = l.id ∧ q = l.after) ∨ (k ≠ l.id ∧ s.procs k = some q) ∨ l.effect = .spawn k q := by
  by_cases hne : k = l.id
  · subst hne
    rw [h.procs_after] at hk
    exact .inl ⟨rfl, (Option.some.inj hk).symm⟩
  · rw [h.eq] at hk
    unfold State.setProc at hk
    dsimp only at hk
    rw [Function.update_of_ne hne, apply_procs] at hk
    cases heff : l.effect with
    | spawn j p =>
      rw [heff] at hk
      dsimp only at hk
      by_cases hj : k = j
      · subst hj
        rw [Function.update_self] at hk
        obtain rfl := Option.some.inj hk
        exact .inr (.inr rfl)
      · rw [Function.update_of_ne hj] at hk
        exact .inr (.inl ⟨hne, hk⟩)
    | _ =>
      rw [heff] at hk
      exact .inr (.inl ⟨hne, hk⟩)

def Proc.TaskOf (client : ServerClient) : Proc → Prop
  | pinger c _ => c = client
  | data c _ _ => c = client
  | finished => True
  | _ => False

def LaunchPc.spawned : LaunchPc → Option Nat
  | pingerSpawned j => some j
  | dataSpawned j => some j
  | _ => none

theorem Move.taskOf {i : Nat} {p p' : Proc} {eff : Effect} (h : Move capacity s i p eff p')
    {c : ServerClient} (hp : p.TaskOf c) : p'.TaskOf c := by
  cases h with
  | ping => exact hp
  | pingFailed => trivial
  | pingerStopped => trivial
  | recv => exact hp
  | recvClosed => trivial
  | written => exact hp
  | writeEof => trivial
  | writeError => exact hp
  | unregisterFailed => trivial
  | dataStopped => trivial
  | _ => exact hp.elim

def Proc.About (client : ServerClient) : Proc → Prop
  | session c _ => c = client
  | launching c _ _ => c = client
  | pinger c _ => c = client
  | data c _ _ => c = client
  | visiting source _ rest => source = .session client ∨ client ∈ rest
  | pushing source _ c _ rest _ => source = .session client ∨ c = client ∨ client ∈ rest
  | _ => False

structure Wf (s : State) : Prop where
  token : ∀ t c, s.clientsByToken t = some c → c.token = t
  known : ∀ t c, s.clientsByToken t = some c → c.id < s.nextClient
  about : ∀ i p c, s.procs i = some p → p.About c → c.id < s.nextClient
  left : ∀ i c, s.procs i = some (.session c true) → ¬ s.Registered c
  tasks : ∀ c, ∀ j ∈ s.tasks c, ∃ p, s.procs j = some p ∧ p.TaskOf c
  spawned : ∀ i c ch pc j, s.procs i = some (.launching c ch pc) → pc.spawned = some j →
    ∃ p, s.procs j = some p ∧ p.TaskOf c

theorem wf_initial : Wf initial where
  token _ _ h := by cases h
  known _ _ h := by cases h
  about _ _ _ h := by cases h
  left _ _ h := by cases h
  tasks _ _ h := by cases h
  spawned _ _ _ _ _ h := by cases h

theorem Step.taskOf (h : Step capacity s l s') {j : Nat} {c : ServerClient}
    (hj : ∃ p, s.procs j = some p ∧ p.TaskOf c) : ∃ p, s'.procs j = some p ∧ p.TaskOf c := by
  obtain ⟨p, hp, htask⟩ := hj
  by_cases hne : j = l.id
  · subst hne
    refine ⟨l.after, h.procs_after, ?_⟩
    cases h with
    | start i eff q hfree hstart =>
      rw [hfree] at hp
      cases hp
    | move i q eff q' hq hmove =>
      rw [hq] at hp
      obtain rfl := Option.some.inj hp
      exact hmove.taskOf htask
  · exact ⟨p, h.procs_of_ne hp hne, htask⟩

theorem apply_clientsByToken (eff : Effect) : (s.apply eff).clientsByToken = match eff with
    | .registerClient c => Function.update s.clientsByToken c.token (some c)
    | .unregisterClient c => Function.update s.clientsByToken c.token none
    | _ => s.clientsByToken := by
  cases eff with
  | _ => rfl

theorem Step.registered (h : Step capacity s l s') {c : ServerClient} (hc : s'.Registered c) :
    s.Registered c ∨ l.effect = .registerClient c := by
  rw [h.eq] at hc
  unfold State.Registered State.setProc at hc
  dsimp only at hc
  rw [apply_clientsByToken] at hc
  cases heff : l.effect with
  | registerClient c' =>
    rw [heff] at hc
    dsimp only at hc
    by_cases ht : c.token = c'.token
    · rw [ht, Function.update_self] at hc
      rw [Option.some.inj hc]
      exact .inr rfl
    · rw [Function.update_of_ne ht] at hc
      exact .inl hc
  | unregisterClient c' =>
    rw [heff] at hc
    dsimp only at hc
    by_cases ht : c.token = c'.token
    · rw [ht, Function.update_self] at hc
      cases hc
    · rw [Function.update_of_ne ht] at hc
      exact .inl hc
  | _ =>
    rw [heff] at hc
    exact .inl hc

theorem mem_of_mem_cleared {tasks : ServerClient → List Nat} {c c' : ServerClient} {j : Nat}
    (hj : j ∈ Function.update tasks c' [] c) : j ∈ tasks c := by
  by_cases hc : c = c'
  · subst hc
    rw [Function.update_self] at hj
    cases hj
  · rw [Function.update_of_ne hc] at hj
    exact hj

theorem Step.new_of_registerClient (h : Step capacity s l s') {c : ServerClient}
    (heff : l.effect = .registerClient c) : c.id = s.nextClient ∧ s.clientsByToken c.token = none ∧
      l.after = .session c false := by
  cases h with
  | start i eff p hfree hstart =>
    cases hstart with
    | login c' hid htoken =>
      obtain rfl := Effect.registerClient.inj heff
      exact ⟨hid, htoken, rfl⟩
    | _ => cases heff
  | move i p eff p' hp hmove =>
    cases hmove with
    | _ => cases heff

theorem nextClient_le_apply (s : State) (eff : Effect) :
    s.nextClient ≤ (s.apply eff).nextClient := by
  cases eff with
  | registerClient => exact Nat.le_succ _
  | _ => exact Nat.le_refl _

theorem apply_tasks (eff : Effect) : (s.apply eff).tasks = match eff with
    | .registerClient c => Function.update s.tasks c []
    | .registerTask c j => Function.update s.tasks c (j :: s.tasks c)
    | .abortTasks c => Function.update s.tasks c []
    | .drop c => Function.update s.tasks c []
    | _ => s.tasks := by
  cases eff with
  | _ => rfl

theorem Step.nextClient_le (h : Step capacity s l s') : s.nextClient ≤ s'.nextClient := by
  rw [h.eq]
  exact nextClient_le_apply s l.effect

theorem Step.id_lt_of_registerClient (h : Step capacity s l s') {c : ServerClient}
    (heff : l.effect = .registerClient c) : c.id < s'.nextClient := by
  have hnext : s'.nextClient = s.nextClient + 1 := by
    rw [h.eq, heff]
    rfl
  rw [(h.new_of_registerClient heff).1, hnext]
  exact Nat.lt_succ_self _

theorem Move.about {i : Nat} {p p' : Proc} {eff : Effect} (h : Move capacity s i p eff p')
    {c : ServerClient} (hc : p'.About c) : p.About c ∨ ∃ t, s.clientsByToken t = some c := by
  cases h with
  | register token c' hok =>
    have hcc : c' = c := hc
    rw [← hcc]
    exact .inr ⟨token, (registerDataChannel_ok hok).1⟩
  | publishControl c' m subscribers hsub =>
    rcases hc with hc | hc
    · exact .inl (Source.session.inj hc)
    · exact .inr ⟨_, hsub.registered c hc⟩
  | publishUdp m subscribers hsub =>
    rcases hc with hc | hc
    · cases hc
    · exact .inr ⟨_, hsub.registered c hc⟩
  | skip => exact .inl (hc.imp_right (List.mem_cons_of_mem _))
  | find =>
    rcases hc with hc | hc | hc
    · exact .inl (.inl hc)
    · exact .inl (.inr (hc ▸ List.mem_cons_self))
    · exact .inl (.inr (List.mem_cons_of_mem _ hc))
  | abortFull => exact .inl (hc.imp_right .inr)
  | send => exact .inl (hc.imp_right .inr)
  | sendFailed => exact .inl (hc.imp_right .inr)
  | pushedControl c' m => exact .inl (.inl (congrArg _ hc))
  | _ => first | exact .inl hc | exact hc.elim

theorem Step.about_cases (h : Step capacity s l s') {c : ServerClient} (hc : l.after.About c) :
    (∃ p, s.procs l.id = some p ∧ p.About c) ∨ (∃ t, s.clientsByToken t = some c) ∨
      l.effect = .registerClient c := by
  cases h with
  | start i eff p hfree hstart =>
    cases hstart with
    | login c' =>
      have hcc : c' = c := hc
      rw [hcc]
      exact .inr (.inr rfl)
    | request => exact hc.elim
    | listener => exact hc.elim
    | drop => exact hc.elim
  | move i p eff p' hp hmove =>
    rcases hmove.about hc with hold | hreg
    · exact .inl ⟨p, hp, hold⟩
    · exact .inr (.inl hreg)

/-- A session has left when it has unregistered its client. -/
theorem Step.left_cases (h : Step capacity s l s') {c : ServerClient}
    (hafter : l.after = .session c true) :
    s.procs l.id = some (.session c false) ∧ l.effect = .unregisterClient c := by
  cases h with
  | start i eff p hfree hstart =>
    cases hstart with
    | _ => cases hafter
  | move i p eff p' hp hmove =>
    cases hmove with
    | unregister c' =>
      obtain ⟨rfl, -⟩ := Proc.session.inj hafter
      exact ⟨hp, rfl⟩
    | _ => cases hafter

theorem Step.spawn_cases (h : Step capacity s l s') {j : Nat} {q : Proc}
    (heff : l.effect = .spawn j q) : ∃ c ch, j ≠ l.id ∧
      ((s.procs l.id = some (.launching c ch .replied) ∧ q = .pinger c ch ∧
          l.after = .launching c ch (.pingerSpawned j)) ∨
        (s.procs l.id = some (.launching c ch .pingerRegistered) ∧ q = .data c ch .waiting ∧
          l.after = .launching c ch (.dataSpawned j))) := by
  have hfree := h.free_of_spawn heff
  cases h with
  | start i eff p hfree' hstart =>
    cases hstart with
    | _ => cases heff
  | move i p eff p' hp hmove =>
    have hne : j ≠ i := by
      intro hji
      rw [hji, hp] at hfree
      cases hfree
    cases hmove with
    | spawnPinger c ch j' hj' =>
      obtain ⟨rfl, rfl⟩ := Effect.spawn.inj heff
      exact ⟨c, ch, hne, .inl ⟨hp, rfl, rfl⟩⟩
    | spawnData c ch j' hj' =>
      obtain ⟨rfl, rfl⟩ := Effect.spawn.inj heff
      exact ⟨c, ch, hne, .inr ⟨hp, rfl, rfl⟩⟩
    | _ => cases heff

theorem Step.procs_of_spawn (h : Step capacity s l s') {j : Nat} {q : Proc}
    (heff : l.effect = .spawn j q) : s'.procs j = some q := by
  obtain ⟨c, ch, hne, -⟩ := h.spawn_cases heff
  rw [h.eq]
  unfold State.setProc
  dsimp only
  rw [Function.update_of_ne hne, apply_procs, heff]
  exact Function.update_self ..

theorem Step.registerTask_cases (h : Step capacity s l s') {c : ServerClient} {j : Nat}
    (heff : l.effect = .registerTask c j) : ∃ ch pc, s.procs l.id = some (.launching c ch pc) ∧
      pc.spawned = some j := by
  cases h with
  | start i eff p hfree hstart =>
    cases hstart with
    | _ => cases heff
  | move i p eff p' hp hmove =>
    cases hmove with
    | registerPinger c' ch j' =>
      obtain ⟨rfl, rfl⟩ := Effect.registerTask.inj heff
      exact ⟨ch, _, hp, rfl⟩
    | registerData c' ch j' =>
      obtain ⟨rfl, rfl⟩ := Effect.registerTask.inj heff
      exact ⟨ch, _, hp, rfl⟩
    | _ => cases heff

theorem Step.spawned_cases (h : Step capacity s l s') {c : ServerClient} {ch : ChannelId}
    {pc : LaunchPc} {j : Nat} (hafter : l.after = .launching c ch pc) (hj : pc.spawned = some j) :
    ∃ q, l.effect = .spawn j q ∧ q.TaskOf c := by
  cases h with
  | start i eff p hfree hstart =>
    cases hstart with
    | _ => cases hafter
  | move i p eff p' hp hmove =>
    cases hmove with
    | spawnPinger c' ch' j' hj' =>
      obtain ⟨rfl, rfl, rfl⟩ := Proc.launching.inj hafter
      obtain rfl := Option.some.inj hj
      exact ⟨_, rfl, rfl⟩
    | spawnData c' ch' j' hj' =>
      obtain ⟨rfl, rfl, rfl⟩ := Proc.launching.inj hafter
      obtain rfl := Option.some.inj hj
      exact ⟨_, rfl, rfl⟩
    | register token c' hok =>
      obtain ⟨rfl, rfl, rfl⟩ := Proc.launching.inj hafter
      cases hj
    | reply c' ch' =>
      obtain ⟨rfl, rfl, rfl⟩ := Proc.launching.inj hafter
      cases hj
    | registerPinger c' ch' j' =>
      obtain ⟨rfl, rfl, rfl⟩ := Proc.launching.inj hafter
      cases hj
    | _ => cases hafter

theorem Step.not_registered_of_unregister (h : Step capacity s l s') {c : ServerClient}
    (heff : l.effect = .unregisterClient c) : ¬ s'.Registered c := by
  intro hc
  rw [h.eq] at hc
  unfold State.Registered State.setProc at hc
  dsimp only at hc
  rw [apply_clientsByToken, heff] at hc
  dsimp only at hc
  rw [Function.update_self] at hc
  cases hc

namespace Wf

theorem step_token (hwf : Wf s) (h : Step capacity s l s') {t : Token} {c : ServerClient}
    (hc : s'.clientsByToken t = some c) : c.token = t := by
  rw [h.eq] at hc
  unfold State.setProc at hc
  dsimp only at hc
  rw [apply_clientsByToken] at hc
  cases heff : l.effect with
  | registerClient c' =>
    rw [heff] at hc
    dsimp only at hc
    by_cases ht : t = c'.token
    · rw [ht, Function.update_self] at hc
      rw [← Option.some.inj hc, ht]
    · rw [Function.update_of_ne ht] at hc
      exact hwf.token t c hc
  | unregisterClient c' =>
    rw [heff] at hc
    dsimp only at hc
    by_cases ht : t = c'.token
    · rw [ht, Function.update_self] at hc
      cases hc
    · rw [Function.update_of_ne ht] at hc
      exact hwf.token t c hc
  | _ =>
    rw [heff] at hc
    exact hwf.token t c hc

theorem step_known (hwf : Wf s) (h : Step capacity s l s') {t : Token} {c : ServerClient}
    (hc : s'.clientsByToken t = some c) : c.id < s'.nextClient := by
  have hreg : s'.Registered c := by
    unfold State.Registered
    rw [hwf.step_token h hc]
    exact hc
  rcases h.registered hreg with hold | heff
  · exact (hwf.known _ _ hold).trans_le h.nextClient_le
  · exact h.id_lt_of_registerClient heff

theorem step_about (hwf : Wf s) (h : Step capacity s l s') {i : Nat} {p : Proc} {c : ServerClient}
    (hi : s'.procs i = some p) (hc : p.About c) : c.id < s'.nextClient := by
  rcases h.procs_cases hi with ⟨-, rfl⟩ | ⟨-, hold⟩ | heff
  · rcases h.about_cases hc with ⟨q, hq, hold⟩ | ⟨t, hold⟩ | heff
    · exact (hwf.about _ _ _ hq hold).trans_le h.nextClient_le
    · exact (hwf.known _ _ hold).trans_le h.nextClient_le
    · exact h.id_lt_of_registerClient heff
  · exact (hwf.about _ _ _ hold hc).trans_le h.nextClient_le
  · obtain ⟨c', ch, -, ⟨hp, rfl, -⟩ | ⟨hp, rfl, -⟩⟩ := h.spawn_cases heff
    · exact (hwf.about _ _ _ hp hc).trans_le h.nextClient_le
    · exact (hwf.about _ _ _ hp hc).trans_le h.nextClient_le

theorem step_left (hwf : Wf s) (h : Step capacity s l s') {i : Nat} {c : ServerClient}
    (hi : s'.procs i = some (.session c true)) : ¬ s'.Registered c := by
  rcases h.procs_cases hi with ⟨-, hafter⟩ | ⟨-, hold⟩ | heff
  · exact h.not_registered_of_unregister (h.left_cases hafter.symm).2
  · intro hc
    rcases h.registered hc with hc | heff
    · exact hwf.left _ _ hold hc
    · have hid := (h.new_of_registerClient heff).1
      exact absurd (hwf.about _ _ _ hold rfl) (hid ▸ Nat.lt_irrefl _)
  · obtain ⟨c', ch, -, ⟨-, hq, -⟩ | ⟨-, hq, -⟩⟩ := h.spawn_cases heff
    · cases hq
    · cases hq

theorem step_tasks (hwf : Wf s) (h : Step capacity s l s') {c : ServerClient} {j : Nat}
    (hj : j ∈ s'.tasks c) : ∃ p, s'.procs j = some p ∧ p.TaskOf c := by
  apply h.taskOf
  have htasks : s'.tasks = (s.apply l.effect).tasks := by
    rw [h.eq]
    rfl
  rw [htasks, apply_tasks] at hj
  cases heff : l.effect with
  | registerTask c' j' =>
    rw [heff] at hj
    dsimp only at hj
    by_cases hc : c = c'
    · subst hc
      rw [Function.update_self, List.mem_cons] at hj
      rcases hj with hj | hj
      · -- the new handle is of the task the same request has just spawned
        subst hj
        obtain ⟨ch, pc, hp, hspawned⟩ := h.registerTask_cases heff
        exact hwf.spawned _ _ _ _ _ hp hspawned
      · exact hwf.tasks c j hj
    · rw [Function.update_of_ne hc] at hj
      exact hwf.tasks c j hj
  | registerClient c' =>
    rw [heff] at hj
    exact hwf.tasks c j (mem_of_mem_cleared hj)
  | abortTasks c' =>
    rw [heff] at hj
    exact hwf.tasks c j (mem_of_mem_cleared hj)
  | drop c' =>
    rw [heff] at hj
    exact hwf.tasks c j (mem_of_mem_cleared hj)
  | _ =>
    rw [heff] at hj
    exact hwf.tasks c j hj

theorem step_spawned (hwf : Wf s) (h : Step capacity s l s') {i : Nat} {c : ServerClient}
    {ch : ChannelId} {pc : LaunchPc} {j : Nat} (hi : s'.procs i = some (.launching c ch pc))
    (hj : pc.spawned = some j) : ∃ p, s'.procs j = some p ∧ p.TaskOf c := by
  rcases h.procs_cases hi with ⟨-, hafter⟩ | ⟨-, hold⟩ | heff
  · obtain ⟨q, heff, hq⟩ := h.spawned_cases hafter.symm hj
    exact ⟨q, h.procs_of_spawn heff, hq⟩
  · exact h.taskOf (hwf.spawned _ _ _ _ _ hold hj)
  · obtain ⟨c', ch', -, ⟨-, hq, -⟩ | ⟨-, hq, -⟩⟩ := h.spawn_cases heff
    · cases hq
    · cases hq

theorem step (hwf : Wf s) (h : Step capacity s l s') : Wf s' where
  token _ _ hc := hwf.step_token h hc
  known _ _ hc := hwf.step_known h hc
  about _ _ _ hi hc := hwf.step_about h hi hc
  left _ _ hi := hwf.step_left h hi
  tasks _ _ hj := hwf.step_tasks h hj
  spawned _ _ _ _ _ hi hj := hwf.step_spawned h hi hj

end Wf

theorem wf_of_reachable {Meets : State → Label → Prop} (h : Reachable capacity Meets s) : Wf s := by
  apply h.invariant
  · intro s hs
    rw [hs]
    exact wf_initial
  · intro s l s' hwf _ hstep
    exact hwf.step hstep

theorem apply_dataChannel (eff : Effect) : (s.apply eff).dataChannel = match eff with
    | .registerClient c => Function.update s.dataChannel c none
    | .registerDataChannel token =>
      (Psrt.registerDataChannel s.clientsByToken s.dataChannel token s.nextChannel).2
    | .unregisterDataChannel token =>
      Psrt.unregisterDataChannel s.clientsByToken s.dataChannel token
    | .drop c => Function.update s.dataChannel c none
    | _ => s.dataChannel := by
  cases eff with
  | _ => rfl

theorem Step.dataChannel_eq (h : Step capacity s l s') :
    s'.dataChannel = (s.apply l.effect).dataChannel := by
  rw [h.eq]
  rfl

theorem Step.registerDataChannel_cases (h : Step capacity s l s') {token : Token}
    (heff : l.effect = .registerDataChannel token) :
    ∃ c, (registerDataChannel s.clientsByToken s.dataChannel token s.nextChannel).1 = .ok c ∧
      s.procs l.id = some (.requested token) ∧ l.after = .launching c s.nextChannel .replying := by
  cases h with
  | start i eff p hfree hstart =>
    cases hstart with
    | _ => cases heff
  | move i p eff p' hp hmove =>
    cases hmove with
    | register token' c hok =>
      obtain rfl := Effect.registerDataChannel.inj heff
      exact ⟨c, hok, hp, rfl⟩
    | _ => cases heff

theorem some_of_cleared {dataChannel : ServerClient → Option ChannelId} {c c' : ServerClient}
    {ch : ChannelId} (h : Function.update dataChannel c' none c = some ch) :
    c ≠ c' ∧ dataChannel c = some ch := by
  by_cases hc : c = c'
  · rw [hc, Function.update_self] at h
    cases h
  · rw [Function.update_of_ne hc] at h
    exact ⟨hc, h⟩

theorem Step.dataChannel_cases (h : Step capacity s l s') (hwf : Wf s) {c : ServerClient}
    {ch : ChannelId} (hc : s'.dataChannel c = some ch) : s.dataChannel c = some ch ∨
      l.effect = .registerDataChannel c.token ∧ s.Registered c ∧ s.dataChannel c = none ∧
        ch = s.nextChannel ∧ l.after = .launching c ch .replying := by
  rw [h.dataChannel_eq, apply_dataChannel] at hc
  cases heff : l.effect with
  | registerDataChannel token =>
    obtain ⟨c', hok, -, hafter⟩ := h.registerDataChannel_cases heff
    obtain ⟨hreg, hnone, hset⟩ := registerDataChannel_ok hok
    rw [heff] at hc
    dsimp only at hc
    rw [hset] at hc
    -- the token of the request is that of the client it was given for
    by_cases hcc : c = c'
    · subst hcc
      rw [Function.update_self] at hc
      obtain rfl := Option.some.inj hc
      obtain rfl := hwf.token _ _ hreg
      exact .inr ⟨rfl, hreg, hnone, rfl, hafter⟩
    · rw [Function.update_of_ne hcc] at hc
      exact .inl hc
  | registerClient c' =>
    rw [heff] at hc
    exact .inl (some_of_cleared hc).2
  | unregisterDataChannel token =>
    rw [heff] at hc
    exact .inl (unregisterDataChannel_of_some hc).1
  | drop c' =>
    rw [heff] at hc
    exact .inl (some_of_cleared hc).2
  | _ =>
    rw [heff] at hc
    exact .inl hc

theorem apply_aborted (eff : Effect) : (s.apply eff).aborted = match eff with
    | .spawn j _ => Function.update s.aborted j false
    | .abortTasks c => fun j => s.aborted j || (s.tasks c).contains j
    | .drop c => fun j => s.aborted j || (s.tasks c).contains j
    | _ => s.aborted := by
  cases eff with
  | _ => rfl

theorem Step.aborted_eq (h : Step capacity s l s') :
    s'.aborted = (s.apply l.effect).aborted := by
  rw [h.eq]
  rfl

theorem Step.aborted_cases (h : Step capacity s l s') {j : Nat} (hj : s'.aborted j = true) :
    s.aborted j = true ∨
      ∃ c, (l.effect = .abortTasks c ∨ l.effect = .drop c) ∧ j ∈ s.tasks c := by
  rw [h.aborted_eq, apply_aborted] at hj
  cases heff : l.effect with
  | spawn j' q =>
    rw [heff] at hj
    dsimp only at hj
    by_cases hjj : j = j'
    · rw [hjj, Function.update_self] at hj
      cases hj
    · rw [Function.update_of_ne hjj] at hj
      exact .inl hj
  | abortTasks c =>
    rw [heff] at hj
    rcases Bool.or_eq_true_iff.mp hj with hj | hj
    · exact .inl hj
    · exact .inr ⟨c, .inl rfl, List.contains_iff_mem.mp hj⟩
  | drop c =>
    rw [heff] at hj
    rcases Bool.or_eq_true_iff.mp hj with hj | hj
    · exact .inl hj
    · exact .inr ⟨c, .inr rfl, List.contains_iff_mem.mp hj⟩
  | _ =>
    rw [heff] at hj
    exact .inl hj

theorem Step.abortTasks_cases (h : Step capacity s l s') {c : ServerClient}
    (heff : l.effect = .abortTasks c) : l.before = some (.session c true) ∨
      ∃ src m ch rest, l.before = some (.pushing src m c ch rest .dropped) := by
  cases h with
  | start i eff p hfree hstart =>
    cases hstart with
    | _ => cases heff
  | move i p eff p' hp hmove =>
    cases hmove with
    | abortOwn c' =>
      obtain rfl := Effect.abortTasks.inj heff
      exact .inl rfl
    | abortFull src m c' ch rest =>
      obtain rfl := Effect.abortTasks.inj heff
      exact .inr ⟨src, m, ch, rest, rfl⟩
    | _ => cases heff

theorem Step.not_registered_of_drop (h : Step capacity s l s') {c : ServerClient}
    (heff : l.effect = .drop c) : ¬ s.Registered c := by
  cases h with
  | start i eff p hfree hstart =>
    cases hstart with
    | drop c' hreg hheld =>
      obtain rfl := Effect.drop.inj heff
      exact hreg
    | _ => cases heff
  | move i p eff p' hp hmove =>
    cases hmove with
    | _ => cases heff

theorem Step.before_eq (h : Step capacity s l s') : s.procs l.id = l.before := by
  cases h with
  | start i eff p hfree hstart => exact hfree
  | move i p eff p' hp hmove => exact hp

theorem Step.abort_cases (h : Step capacity s l s') (hwf : Wf s) {c : ServerClient}
    (heff : l.effect = .abortTasks c ∨ l.effect = .drop c) : ¬ s.Registered c ∨
      ∃ src m ch rest, l.before = some (.pushing src m c ch rest .dropped) := by
  rcases heff with heff | heff
  · rcases h.abortTasks_cases heff with hsession | hpush
    · exact .inl (hwf.left _ _ (h.before_eq.trans hsession))
    · exact .inr hpush
  · exact .inl (h.not_registered_of_drop heff)

theorem Step.unregister_cases (h : Step capacity s l s') {token : Token}
    (heff : l.effect = .unregisterDataChannel token) :
    (∃ src m c ch rest, token = c.token ∧
      l.before = some (.pushing src m c ch rest .full) ∧
      l.after = .pushing src m c ch rest .dropped) ∨
    ∃ c ch, token = c.token ∧ l.before = some (.data c ch .failing) ∧ l.after = .finished := by
  cases h with
  | start i eff p hfree hstart =>
    cases hstart with
    | _ => cases heff
  | move i p eff p' hp hmove =>
    cases hmove with
    | unregisterFull src m c ch rest =>
      obtain rfl := Effect.unregisterDataChannel.inj heff
      exact .inl ⟨src, m, c, ch, rest, rfl, rfl, rfl⟩
    | unregisterFailed c ch =>
      obtain rfl := Effect.unregisterDataChannel.inj heff
      exact .inr ⟨c, ch, rfl, rfl, rfl⟩
    | _ => cases heff

/-- Process `i` looks after the channel: the request that made it, until it has spawned the data
task, then that task. -/
def State.LooksAfter (s : State) (c : ServerClient) (ch : ChannelId) (i : Nat) : Prop :=
  (∃ pc, s.procs i = some (.launching c ch pc) ∧ ∀ j, pc ≠ .dataSpawned j) ∨
    ∃ pc, s.procs i = some (.data c ch pc) ∧ s.aborted i = false

/-- A channel leaves its cell by an unregister under the client's token, or with the client. -/
theorem Step.dataChannel_kept (h : Step capacity s l s') {c : ServerClient} {ch : ChannelId}
    (hc : s.dataChannel c = some ch) : s'.dataChannel c = some ch ∨
      (∃ token, l.effect = .unregisterDataChannel token ∧ s.clientsByToken token = some c) ∨
      l.effect = .registerClient c ∨ l.effect = .drop c := by
  rw [h.dataChannel_eq, apply_dataChannel]
  cases heff : l.effect with
  | registerClient c' =>
    by_cases hcc : c = c'
    · exact .inr (.inr (.inl (congrArg _ hcc.symm)))
    · exact .inl ((Function.update_of_ne hcc ..).trans hc)
  | registerDataChannel token => exact .inl (registerDataChannel_of_some hc)
  | unregisterDataChannel token =>
    by_cases hcc : s.clientsByToken token = some c
    · exact .inr (.inl ⟨token, rfl, hcc⟩)
    · exact .inl (unregisterDataChannel_of_ne hcc hc)
  | drop c' =>
    by_cases hcc : c = c'
    · exact .inr (.inr (.inr (congrArg _ hcc.symm)))
    · exact .inl ((Function.update_of_ne hcc ..).trans hc)
  | _ => exact .inl hc

def sampleClient : ServerClient := ⟨0, [], [], .replicate 0, []⟩

theorem State.Subscribers.singleton (c : ServerClient) (h : s.Registered c) :
    s.Subscribers [c] where
  registered _ hc := List.mem_singleton.mp hc ▸ h
  distinct := List.pairwise_singleton _ _

end Psrt.DataChannel

import Psrt.Lib.Interaction
import Mathlib.Logic.Function.Basic

/-! Processes that run interactive programs over a shared world, their steps interleaved in any order.
What each process exchanged is a run of its own program, so a monitor of the program holds of it
whatever the others do. -/

namespace Interaction

variable {ι κ W S : Type} {Op : Type} {Resp : Op → Type} {ε α : Type}

structure Entry (ι W Op : Type) (Resp : Op → Type) where
  process : ι
  world : W
  event : Event Op Resp

structure Process (κ Op : Type) (Resp : Op → Type) (ε α : Type) where
  kind : κ
  rest : Prog Op Resp ε α

structure System (ι κ W Op : Type) (Resp : Op → Type) (ε α : Type) where
  world : W
  processes : ι → Option (Process κ Op Resp ε α)
  /-- Oldest entry first. -/
  trace : List (Entry ι W Op Resp)

namespace System

variable [DecidableEq ι]

def history (trace : List (Entry ι W Op Resp)) (i : ι) : List (Event Op Resp) :=
  (trace.filter fun e => e.process = i).map Entry.event

theorem history_append_self (trace : List (Entry ι W Op Resp)) (i : ι) (w : W)
    (e : Event Op Resp) : history (trace ++ [⟨i, w, e⟩]) i = history trace i ++ [e] := by
  unfold history
  simp only [List.filter_append, List.filter_cons, decide_true, if_true, List.filter_nil,
    List.map_append, List.map_cons, List.map_nil]

theorem history_append_of_ne (trace : List (Entry ι W Op Resp)) {i j : ι} (h : i ≠ j) (w : W)
    (e : Event Op Resp) : history (trace ++ [⟨i, w, e⟩]) j = history trace j := by
  unfold history
  simp only [List.filter_append, List.filter_cons, h, decide_false, Bool.false_eq_true, if_false,
    List.filter_nil, List.append_nil]

theorem history_append_others {trace others : List (Entry ι W Op Resp)} {i : ι}
    (h : ∀ e ∈ others, e.process ≠ i) : history (trace ++ others) i = history trace i := by
  have hnone : others.filter (fun e => e.process = i) = [] :=
    List.filter_eq_nil_iff.mpr fun e he => by simpa only [decide_eq_true_eq] using h e he
  unfold history
  rw [List.filter_append, hnone, List.append_nil]

theorem history_split (before after : List (Entry ι W Op Resp)) (i : ι) (w : W)
    (e : Event Op Resp) :
    history (before ++ ⟨i, w, e⟩ :: after) i = history before i ++ e :: history after i := by
  unfold history
  simp only [List.filter_append, List.filter_cons, decide_true, if_true, List.map_append,
    List.map_cons]

theorem mem_history {trace : List (Entry ι W Op Resp)} {i : ι} {e : Event Op Resp} :
    e ∈ history trace i ↔ ∃ w, ⟨i, w, e⟩ ∈ trace := by
  unfold history
  simp only [List.mem_map, List.mem_filter, decide_eq_true_eq]
  constructor
  · rintro ⟨⟨j, w, e⟩, ⟨hmem, rfl⟩, rfl⟩
    exact ⟨w, hmem⟩
  · rintro ⟨w, hmem⟩
    exact ⟨_, ⟨hmem, rfl⟩, rfl⟩

/-- `body` starts the processes, `Exec` performs their operations, `Env` changes the world
otherwise. -/
inductive Step (body : κ → Prog Op Resp ε α) (Exec : W → (o : Op) → Resp o → W → Prop)
    (Env : W → W → Prop) : System ι κ W Op Resp ε α → System ι κ W Op Resp ε α → Prop
  | spawn {s} (i : ι) (k : κ) (h : s.processes i = none) :
      Step body Exec Env s
        { s with processes := Function.update s.processes i (some ⟨k, body k⟩) }
  | act {s} (i : ι) (k : κ) (o : Op) (f : Resp o → Prog Op Resp ε α) (r : Resp o) (w : W)
      (h : s.processes i = some ⟨k, .call o f⟩) (he : Exec s.world o r w) :
      Step body Exec Env s
        { world := w
          processes := Function.update s.processes i (some ⟨k, f r⟩)
          trace := s.trace ++ [⟨i, s.world, ⟨o, r⟩⟩] }
  | env {s} (w : W) (h : Env s.world w) : Step body Exec Env s { s with world := w }

inductive Reachable (body : κ → Prog Op Resp ε α) (Exec : W → (o : Op) → Resp o → W → Prop)
    (Env : W → W → Prop) (Init : W → Prop) : System ι κ W Op Resp ε α → Prop
  | init {w} (h : Init w) : Reachable body Exec Env Init ⟨w, fun _ => none, []⟩
  | step {s s'} (hr : Reachable body Exec Env Init s) (hs : Step body Exec Env s s') :
      Reachable body Exec Env Init s'

variable {body : κ → Prog Op Resp ε α} {Exec : W → (o : Op) → Resp o → W → Prop}
  {Env : W → W → Prop} {Init : W → Prop} {s : System ι κ W Op Resp ε α}

theorem history_of_not_started (hr : Reachable body Exec Env Init s) {i : ι}
    (h : s.processes i = none) : history s.trace i = [] := by
  induction hr with
  | init _ => rfl
  | step _ hs ih =>
    cases hs with
    | spawn j k _ =>
      by_cases hj : i = j
      · subst hj
        simp only [Function.update_self, reduceCtorEq] at h
      · exact ih (by simpa only [Function.update_of_ne hj] using h)
    | act j k o f r w _ _ =>
      by_cases hj : i = j
      · subst hj
        simp only [Function.update_self, reduceCtorEq] at h
      · rw [history_append_of_ne _ (Ne.symm hj)]
        exact ih (by simpa only [Function.update_of_ne hj] using h)
    | env w _ => exact ih h

/-- Whatever the interleaving, a process has run its own program. -/
theorem run_history (hr : Reachable body Exec Env Init s) {i : ι} {k : κ}
    {p : Prog Op Resp ε α} (h : s.processes i = some ⟨k, p⟩) :
    Prog.Run (body k) (history s.trace i) p := by
  induction hr generalizing p with
  | init _ => cases h
  | step hr hs ih =>
    cases hs with
    | spawn j k' hnone =>
      by_cases hj : i = j
      · subst hj
        simp only [Function.update_self, Option.some.injEq, Process.mk.injEq] at h
        obtain ⟨rfl, rfl⟩ := h
        rw [history_of_not_started hr hnone]
        exact .nil _
      · exact ih (by simpa only [Function.update_of_ne hj] using h)
    | act j k' o f r w hj _ =>
      by_cases heq : i = j
      · subst heq
        simp only [Function.update_self, Option.some.injEq, Process.mk.injEq] at h
        obtain ⟨rfl, rfl⟩ := h
        rw [history_append_self]
        exact (ih hj).snoc (.call o f r)
      · rw [history_append_of_ne _ (Ne.symm heq)]
        exact ih (by simpa only [Function.update_of_ne heq] using h)
    | env w _ => exact ih h

theorem exec_of_mem_trace (hr : Reachable body Exec Env Init s) {e : Entry ι W Op Resp}
    (h : e ∈ s.trace) : ∃ w, Exec e.world e.event.op e.event.resp w := by
  induction hr with
  | init _ => cases h
  | step _ hs ih =>
    cases hs with
    | spawn _ _ _ => exact ih h
    | act i k o f r w _ he =>
      rcases List.mem_append.mp h with hold | hnew
      · exact ih hold
      · obtain rfl := List.mem_singleton.mp hnew
        exact ⟨w, he⟩
    | env _ _ => exact ih h

theorem started_of_mem_trace (hr : Reachable body Exec Env Init s) {e : Entry ι W Op Resp}
    (h : e ∈ s.trace) : ∃ k p, s.processes e.process = some ⟨k, p⟩ := by
  cases hp : s.processes e.process with
  | none =>
    have hnone := history_of_not_started hr hp
    have hmem : e.event ∈ history s.trace e.process := mem_history.mpr ⟨e.world, h⟩
    rw [hnone] at hmem
    cases hmem
  | some p => exact ⟨p.kind, p.rest, rfl⟩

theorem reachable_eval {σ : Type} {answer : σ → (o : Op) → Resp o × σ} {P : Op → Prop} {w : W}
    (hexec : ∀ t o, P o → Exec w o (answer t o).1 w) {i : ι} {k : κ} {p : Prog Op Resp ε α}
    (hp : p.Calls P) (hr : Reachable body Exec Env Init s) (hw : s.world = w)
    (h : s.processes i = some ⟨k, p⟩) (t : σ) :
    ∃ s', Reachable body Exec Env Init s' ∧
      s'.trace = s.trace ++ (Prog.eval answer p t).1.map (fun e => ⟨i, w, e⟩) ∧
      ∀ j, j ≠ i → s'.processes j = s.processes j := by
  induction p generalizing s t with
  | ret a => exact ⟨s, hr, (List.append_nil _).symm, fun _ _ => rfl⟩
  | throw e => exact ⟨s, hr, (List.append_nil _).symm, fun _ _ => rfl⟩
  | hang => exact ⟨s, hr, (List.append_nil _).symm, fun _ _ => rfl⟩
  | call o f ih =>
    subst hw
    have hstep := Reachable.step hr (.act i k o f (answer t o).1 s.world h (hexec t o hp.1))
    obtain ⟨s', hr', htrace, hothers⟩ := ih (answer t o).1 (hp.2 _) hstep rfl
      (Function.update_self ..) (answer t o).2
    refine ⟨s', hr', ?_, fun j hj => ?_⟩
    · rw [htrace, List.append_assoc]
      rfl
    · rw [hothers j hj]
      exact Function.update_of_ne hj ..

inductive Execs (Exec : W → (o : Op) → Resp o → W → Prop) : W → List (Event Op Resp) → W → Prop
  | nil (w) : Execs Exec w [] w
  | cons {w w' w''} {e : Event Op Resp} {h} :
      Exec w e.op e.resp w' → Execs Exec w' h w'' → Execs Exec w (e :: h) w''

theorem Execs.append {w w' w'' : W} {h h' : List (Event Op Resp)} (hfirst : Execs Exec w h w')
    (hrest : Execs Exec w' h' w'') : Execs Exec w (h ++ h') w'' := by
  induction hfirst with
  | nil w => exact hrest
  | cons he _ ih => exact .cons he (ih hrest)

theorem Execs.split {w w'' : W} {h h' : List (Event Op Resp)} (hall : Execs Exec w (h ++ h') w'') :
    ∃ w', Execs Exec w h w' ∧ Execs Exec w' h' w'' := by
  induction h generalizing w with
  | nil => exact ⟨w, .nil w, hall⟩
  | cons e h ih =>
    cases hall with
    | cons he hrest =>
      obtain ⟨w', hfirst, hlast⟩ := ih hrest
      exact ⟨w', .cons he hfirst, hlast⟩

/-- What every operation preserves, where it may be performed after what was performed before. -/
theorem Execs.invariant {I : List (Event Op Resp) → W → Prop}
    {allowed : List (Event Op Resp) → Op → Prop}
    (hstep : ∀ h w (e : Event Op Resp) w', I h w → allowed h e.op → Exec w e.op e.resp w' →
      I (h ++ [e]) w')
    {w w' : W} {h : List (Event Op Resp)} (hexec : Execs Exec w h w') :
    ∀ {before}, I before w → (Monitor.history allowed).Accepts before h → I (before ++ h) w' := by
  induction hexec with
  | nil w =>
    intro before hi _
    rwa [List.append_nil]
  | cons he _ ih =>
    intro before hi haccepts
    have hnext := ih (hstep _ _ _ _ hi haccepts.1 he) haccepts.2
    rwa [List.append_assoc] at hnext

theorem reachable_run {i : ι} {k : κ} {p q : Prog Op Resp ε α} {h : List (Event Op Resp)} {w : W}
    (hrun : Prog.Run p h q) (hexec : Execs Exec s.world h w)
    (hr : Reachable body Exec Env Init s) (hp : s.processes i = some ⟨k, p⟩) :
    ∃ s', Reachable body Exec Env Init s' ∧ s'.processes i = some ⟨k, q⟩ ∧ s'.world = w ∧
      history s'.trace i = history s.trace i ++ h ∧
      ∀ j, j ≠ i → s'.processes j = s.processes j := by
  generalize hw : s.world = w₀ at hexec
  induction hrun generalizing s w₀ with
  | nil p =>
    cases hexec
    exact ⟨s, hr, hp, hw, (List.append_nil _).symm, fun _ _ => rfl⟩
  | cons hs _ ih =>
    cases hs with
    | call o f r =>
      cases hexec with
      | cons he hrest =>
        subst hw
        have hstep := Reachable.step hr (.act i k o f r _ hp he)
        obtain ⟨s', hr', hp', hw', hh, hothers⟩ := ih hstep (Function.update_self ..) _ rfl hrest
        refine ⟨s', hr', hp', hw', ?_, fun j hj => ?_⟩
        · rw [hh, history_append_self, List.append_assoc]
          rfl
        · rw [hothers j hj]
          exact Function.update_of_ne hj ..

/-- A monitor the programs keep to holds of every process's history. -/
theorem accepts_history {k : κ} {M : Monitor Op Resp S} {s₀ : S} {Q : α → S → Prop}
    {E : ε → S → Prop} (hwp : M.wp (body k) Q E s₀) (hr : Reachable body Exec Env Init s) {i : ι}
    {p : Prog Op Resp ε α} (h : s.processes i = some ⟨k, p⟩)
    (hadmits : M.Admits s₀ (history s.trace i)) :
    M.Accepts s₀ (history s.trace i) ∧ M.wp p Q E (M.after s₀ (history s.trace i)) :=
  Monitor.wp_run hwp (run_history hr h) hadmits

end System

end Interaction

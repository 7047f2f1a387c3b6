import Mathlib.Data.List.Basic

/-! Labelled transitions: the states that runs come to whose steps all meet a condition, and runs
with their histories. -/

namespace Transition

variable {S L : Type}

inductive Reachable (Init : S → Prop) (Step : S → L → S → Prop) (Meets : S → L → Prop) : S → Prop
  | init {s} (h : Init s) : Reachable Init Step Meets s
  | step {s l s'} (hr : Reachable Init Step Meets s) (hs : Step s l s') (hm : Meets s l) :
      Reachable Init Step Meets s'

variable {Init : S → Prop} {Step : S → L → S → Prop} {Meets Meets' : S → L → Prop}

/-- The invariant rule: what holds at the start and is kept by every step that meets the condition
holds in every state a run comes to. -/
theorem Reachable.invariant {I : S → Prop} (hinit : ∀ s, Init s → I s)
    (hstep : ∀ s l s', I s → Meets s l → Step s l s' → I s') {s : S}
    (h : Reachable Init Step Meets s) : I s := by
  induction h with
  | init h => exact hinit _ h
  | step _ hs hm ih => exact hstep _ _ _ ih hm hs

theorem Reachable.invariant_with {I J : S → Prop} (hJ : ∀ s, Reachable Init Step Meets s → J s)
    (hinit : ∀ s, Init s → I s)
    (hstep : ∀ s l s', J s → I s → Meets s l → Step s l s' → I s') {s : S}
    (h : Reachable Init Step Meets s) : I s := by
  induction h with
  | init h => exact hinit _ h
  | step hr hs hm ih => exact hstep _ _ _ (hJ _ hr) ih hm hs

/-- A run with its history: every step with the state it was taken in, the latest first. -/
inductive Run (Init : S → Prop) (Step : S → L → S → Prop) : List (S × L) → S → Prop
  | init {s} (h : Init s) : Run Init Step [] s
  | step {t s l s'} (hr : Run Init Step t s) (hs : Step s l s') : Run Init Step ((s, l) :: t) s'

theorem Run.reachable {t : List (S × L)} {s : S} (h : Run Init Step t s)
    (hm : ∀ e ∈ t, Meets e.1 e.2) : Reachable Init Step Meets s := by
  induction h with
  | init h => exact .init h
  | step _ hs ih =>
    obtain ⟨hm, hrest⟩ := List.forall_mem_cons.mp hm
    exact .step (ih hrest) hs hm

/-- The invariant rule for what a state and its history have to do with each other. -/
theorem Run.invariant {I : List (S × L) → S → Prop} (hinit : ∀ s, Init s → I [] s)
    (hstep : ∀ t s l s', Run Init Step t s → I t s → Step s l s' → I ((s, l) :: t) s')
    {t : List (S × L)} {s : S} (h : Run Init Step t s) : I t s := by
  induction h with
  | init h => exact hinit _ h
  | step hr hs ih => exact hstep _ _ _ _ hr ih hs

end Transition

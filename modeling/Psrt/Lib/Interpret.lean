import Psrt.Lib.Duplex

/-! Programs put in for operations: the laws of interpretation, what a run of a sequence is made of, and
monitors of the whole from monitors of the parts. -/

namespace Interaction

variable {Op Op' : Type} {Resp : Op → Type} {Resp' : Op' → Type} {ε ε' α β S : Type}

structure Renaming (Op : Type) (Resp : Op → Type) (Op' : Type) (Resp' : Op' → Type) where
  op : Op → Op'
  into : (o : Op) → Resp o → Resp' (op o)
  back : (o : Op) → Resp' (op o) → Resp o
  into_back : ∀ o r, into o (back o r) = r
  back_into : ∀ o r, back o (into o r) = r

def Renaming.event (ren : Renaming Op Resp Op' Resp') (e : Event Op Resp) : Event Op' Resp' :=
  ⟨ren.op e.op, ren.into e.op e.resp⟩

namespace Prog

def interpret (f : (o : Op) → Prog Op' Resp' ε (Resp o)) : Prog Op Resp ε α → Prog Op' Resp' ε α
  | ret a => ret a
  | throw e => throw e
  | call o k => (f o).bind fun r => (k r).interpret f
  | hang => hang

def rename (ren : Renaming Op Resp Op' Resp') : Prog Op Resp ε α → Prog Op' Resp' ε α
  | ret a => ret a
  | throw e => throw e
  | call o k => call (ren.op o) fun r => (k (ren.back o r)).rename ren
  | hang => hang

theorem interpret_bind (f : (o : Op) → Prog Op' Resp' ε (Resp o)) (p : Prog Op Resp ε α)
    (g : α → Prog Op Resp ε β) :
    (p.bind g).interpret f = (p.interpret f).bind fun a => (g a).interpret f := by
  induction p with
  | ret a => rfl
  | throw e => rfl
  | call o k ih =>
    simp only [call_bind, interpret, bind_assoc]
    exact congrArg (f o).bind (funext ih)
  | hang => rfl

theorem rename_bind (ren : Renaming Op Resp Op' Resp') (p : Prog Op Resp ε α)
    (g : α → Prog Op Resp ε β) :
    (p.bind g).rename ren = (p.rename ren).bind fun a => (g a).rename ren := by
  induction p with
  | ret a => rfl
  | throw e => rfl
  | call o k ih => exact congrArg (call (ren.op o)) (funext fun r => ih (ren.back o r))
  | hang => rfl

theorem rename_ofExcept (ren : Renaming Op Resp Op' Resp') (r : Except ε α) :
    (ofExcept r : Prog Op Resp ε α).rename ren = ofExcept r := by
  cases r with
  | ok a => rfl
  | error e => rfl

theorem rename_attempt (ren : Renaming Op Resp Op' Resp') (p : Prog Op Resp ε α) :
    (p.attempt : Prog Op Resp ε' (Except ε α)).rename ren = (p.rename ren).attempt := by
  induction p with
  | ret a => rfl
  | throw e => rfl
  | call o k ih => exact congrArg (call (ren.op o)) (funext fun r => ih (ren.back o r))
  | hang => rfl

theorem rename_loop (ren : Renaming Op Resp Op' Resp') (body : Prog Op Resp ε (Option α)) (n : Nat) :
    (loop body n).rename ren = loop (body.rename ren) n := by
  induction n with
  | zero => rfl
  | succ n ih =>
    rw [loop, loop, rename_bind]
    refine congrArg (body.rename ren).bind (funext fun r => ?_)
    cases r with
    | some a => rfl
    | none => exact ih

theorem StopsOn.rename {ren : Renaming Op Resp Op' Resp'} {Broke : (o : Op') → Resp' o → Prop}
    {p : Prog Op Resp ε α} (hp : p.StopsOn fun o r => Broke (ren.op o) (ren.into o r)) :
    (p.rename ren).StopsOn Broke := by
  induction p with
  | ret a => trivial
  | throw e => trivial
  | call o k ih =>
    intro r
    refine ⟨fun hbroke => ?_, ih _ (hp _).2⟩
    rw [← ren.into_back o r] at hbroke
    obtain ⟨e, he⟩ := (hp _).1 hbroke
    exact ⟨e, congrArg (Prog.rename ren) he⟩
  | hang => trivial

theorem Calls.rename {ren : Renaming Op Resp Op' Resp'} {P : Op' → Prop} {p : Prog Op Resp ε α}
    (hp : p.Calls fun o => P (ren.op o)) : (p.rename ren).Calls P := by
  induction p with
  | ret a => trivial
  | throw e => trivial
  | call o k ih => exact ⟨hp.1, fun r => ih _ (hp.2 _)⟩
  | hang => trivial

theorem attempt_bind_ofExcept (p : Prog Op Resp ε α) (g : α → Prog Op Resp ε β) :
    ((p.attempt : Prog Op Resp ε (Except ε α)).bind fun r => (ofExcept r).bind g) = p.bind g := by
  induction p with
  | ret a => rfl
  | throw e => rfl
  | call o k ih => exact congrArg (call o) (funext ih)
  | hang => rfl

theorem Calls.interpret_eq {ren : Renaming Op Resp Op' Resp'}
    {f : (o : Op) → Prog Op' Resp' ε (Resp o)} {p : Prog Op Resp ε α}
    (hp : p.Calls fun o => f o = call (ren.op o) fun r => ret (ren.back o r)) :
    p.interpret f = p.rename ren := by
  induction p with
  | ret a => rfl
  | throw e => rfl
  | call o k ih =>
    rw [interpret, hp.1]
    exact congrArg (call (ren.op o)) (funext fun r => ih _ (hp.2 _))
  | hang => rfl

theorem Run.of_nil {p q : Prog Op Resp ε α} (hr : Run p [] q) : q = p := by
  cases hr
  rfl

theorem Run.of_ret {a : α} {h : List (Event Op Resp)} {q : Prog Op Resp ε α}
    (hr : Run (ret a) h q) : h = [] ∧ q = ret a := by
  cases hr with
  | nil => exact ⟨rfl, rfl⟩
  | cons hs _ => cases hs

theorem Run.of_throw {e : ε} {h : List (Event Op Resp)} {q : Prog Op Resp ε α}
    (hr : Run (throw e) h q) : h = [] ∧ q = throw e := by
  cases hr with
  | nil => exact ⟨rfl, rfl⟩
  | cons hs _ => cases hs

theorem Run.split {p q : Prog Op Resp ε α} {h h' : List (Event Op Resp)} (hr : Run p (h ++ h') q) :
    ∃ p', Run p h p' ∧ Run p' h' q := by
  induction h generalizing p with
  | nil => exact ⟨p, .nil p, hr⟩
  | cons e h ih =>
    cases hr with
    | cons hs hrest =>
      obtain ⟨p', hfirst, hlast⟩ := ih hrest
      exact ⟨p', .cons hs hfirst, hlast⟩

theorem Run.of_bind {p : Prog Op Resp ε α} {f : α → Prog Op Resp ε β}
    {h : List (Event Op Resp)} {q : Prog Op Resp ε β} (hr : Run (p.bind f) h q) :
    (∃ p', Run p h p' ∧ q = p'.bind f) ∨
      ∃ h₁ h₂ a, h = h₁ ++ h₂ ∧ Run p h₁ (ret a) ∧ Run (f a) h₂ q := by
  induction h generalizing p with
  | nil =>
    cases hr
    exact .inl ⟨p, .nil p, rfl⟩
  | cons e h ih =>
    cases p with
    | ret a => exact .inr ⟨[], e :: h, a, rfl, .nil _, hr⟩
    | throw err => exact absurd hr.of_throw.1 (List.cons_ne_nil _ _)
    | hang =>
      cases hr with
      | cons hs _ => cases hs
    | call o k =>
      cases hr with
      | cons hs hrest =>
        cases hs with
        | call o _ r =>
          rcases ih hrest with ⟨p', hp', rfl⟩ | ⟨h₁, h₂, a, rfl, h₁run, h₂run⟩
          · exact .inl ⟨p', .call r hp', rfl⟩
          · exact .inr ⟨⟨o, r⟩ :: h₁, h₂, a, rfl, .call r h₁run, h₂run⟩

theorem Run.rename {ren : Renaming Op Resp Op' Resp'} {p q : Prog Op Resp ε α}
    {h : List (Event Op Resp)} (hr : Run p h q) :
    Run (p.rename ren) (h.map ren.event) (q.rename ren) := by
  induction hr with
  | nil p => exact .nil _
  | cons hs _ ih =>
    cases hs with
    | call o k r =>
      have hstep := Step.call (ren.op o) (fun r => (k (ren.back o r)).rename ren) (ren.into o r)
      rw [ren.back_into] at hstep
      exact .cons hstep ih

theorem Run.of_attempt {p : Prog Op Resp ε α} {h : List (Event Op Resp)}
    {q : Prog Op Resp ε' (Except ε α)} (hr : Run p.attempt h q) :
    ∃ q', Run p h q' ∧ q = q'.attempt := by
  induction h generalizing p with
  | nil =>
    cases hr
    exact ⟨p, .nil p, rfl⟩
  | cons e h ih =>
    cases p with
    | ret a => exact absurd hr.of_ret.1 (List.cons_ne_nil _ _)
    | throw err => exact absurd hr.of_ret.1 (List.cons_ne_nil _ _)
    | hang =>
      cases hr with
      | cons hs _ => cases hs
    | call o k =>
      cases hr with
      | cons hs hrest =>
        cases hs with
        | call _ _ r =>
          obtain ⟨q', hq', rfl⟩ := ih hrest
          exact ⟨q', .call _ hq', rfl⟩

/-- A run of a loop is made of whole turns and a last one. -/
theorem Run.of_loop {body : Prog Op Resp ε (Option α)} {n : Nat} {h : List (Event Op Resp)}
    {q : Prog Op Resp ε α} (hr : Run (loop body n) h q) :
    ∃ (turns : List (List (Event Op Resp))) (last : List (Event Op Resp)),
      h = turns.flatten ++ last ∧ (∀ turn ∈ turns, Run body turn (ret none)) ∧
        ∃ q', Run body last q' := by
  induction n generalizing h with
  | zero =>
    cases hr with
    | nil => exact ⟨[], [], rfl, fun _ hm => absurd hm List.not_mem_nil, body, .nil body⟩
    | cons hs _ => cases hs
  | succ n ih =>
    rcases hr.of_bind with ⟨q', hq', -⟩ | ⟨h₁, h₂, r, rfl, h₁run, h₂run⟩
    · exact ⟨[], h, rfl, fun _ hm => absurd hm List.not_mem_nil, q', hq'⟩
    · cases r with
      | some a =>
        obtain ⟨rfl, -⟩ := h₂run.of_ret
        exact ⟨[], h₁, List.append_nil h₁, fun _ hm => absurd hm List.not_mem_nil, _, h₁run⟩
      | none =>
        obtain ⟨turns, last, rfl, hturns, hlast⟩ := ih h₂run
        exact ⟨h₁ :: turns, last, (List.append_assoc h₁ turns.flatten last).symm,
          List.forall_mem_cons.mpr ⟨h₁run, hturns⟩, hlast⟩

end Prog

namespace Monitor
variable {Q : α → S → Prop} {E : ε → S → Prop} {s : S}

theorem invariant_after (M : Monitor Op Resp S) {I : S → Prop}
    (hM : ∀ s o r, M.allowed s o → I (M.next s o r)) {h : List (Event Op Resp)} (hs : I s)
    (haccepts : M.Accepts s h) : I (M.after s h) := by
  induction h generalizing s with
  | nil => exact hs
  | cons e h ih => exact ih (hM s e.op e.resp haccepts.1) haccepts.2

theorem admits_append (M : Monitor Op Resp S) (s : S) (h h' : List (Event Op Resp)) :
    M.Admits s (h ++ h') ↔ M.Admits s h ∧ M.Admits (M.after s h) h' := by
  induction h generalizing s with
  | nil => simp only [List.nil_append, Admits, after, true_and]
  | cons e h ih => simp only [List.cons_append, Admits, after, ih, and_assoc]

instance decidableAdmits (M : Monitor Op Resp S) [∀ s o r, Decidable (M.possible s o r)] :
    (s : S) → (h : List (Event Op Resp)) → Decidable (M.Admits s h)
  | _, [] => isTrue trivial
  | s, e :: h =>
    have := decidableAdmits M (M.next s e.op e.resp) h
    inferInstanceAs (Decidable (M.possible s e.op e.resp ∧ M.Admits (M.next s e.op e.resp) h))

/-- What a monitor of the renamed operations says of those with the old names. -/
def pull (ren : Renaming Op Resp Op' Resp') (M : Monitor Op' Resp' S) : Monitor Op Resp S where
  allowed s o := M.allowed s (ren.op o)
  possible s o r := M.possible s (ren.op o) (ren.into o r)
  next s o r := M.next s (ren.op o) (ren.into o r)

theorem wp_rename (ren : Renaming Op Resp Op' Resp') {M : Monitor Op' Resp' S}
    {p : Prog Op Resp ε α} (h : (M.pull ren).wp p Q E s) : M.wp (p.rename ren) Q E s := by
  induction p generalizing s with
  | ret a => exact h
  | throw e => exact h
  | call o k ih =>
    refine ⟨h.1, fun r hr => ?_⟩
    have hback := h.2 (ren.back o r)
    simp only [pull, ren.into_back] at hback
    exact ih _ (hback hr)
  | hang => trivial

/-- The rule of interpretation: every operation is carried out as its own monitor allows for. -/
theorem wp_interpret {M : Monitor Op Resp S} {M' : Monitor Op' Resp' S}
    {f : (o : Op) → Prog Op' Resp' ε (Resp o)}
    (hf : ∀ s o, M.allowed s o →
      M'.wp (f o) (fun r s' => M.possible s o r ∧ s' = M.next s o r) E s)
    {p : Prog Op Resp ε α} (h : M.wp p Q E s) : M'.wp (p.interpret f) Q E s := by
  induction p generalizing s with
  | ret a => exact h
  | throw e => exact h
  | call o k ih =>
    rw [Prog.interpret, wp_bind]
    refine wp_mono (fun r s' hr => ?_) (fun _ _ he => he) (hf s o h.1)
    obtain ⟨hpossible, rfl⟩ := hr
    exact ih r (h.2 r hpossible)
  | hang => trivial

end Monitor

end Interaction

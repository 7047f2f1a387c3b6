import Psrt.Lib.Clock

/-! Loops that are woken by ticks, and write when they have not done so for a while: how long the stream
they write may be silent. -/

namespace Interaction

variable {Op : Type} {Resp : Op → Type} {ε α S : Type}

namespace Prog

def loopFrom (body : S → Prog Op Resp ε (Option S)) : Nat → S → Prog Op Resp ε Unit
  | 0, _ => hang
  | n + 1, s => (body s).bind fun
    | some s' => loopFrom body n s'
    | none => ret ()

end Prog

def Goes (a : Option S) (b : Option Unit) : Prop := a.isSome = b.isNone

theorem ErasesUpTo.loopFrom {reads : Op → Bool} {body : S → ClockProg Op Resp ε (Option S)}
    {body' : Prog Op Resp ε (Option Unit)}
    (h : ∀ s, ErasesUpTo reads Goes (body s) body') (n : Nat) (s : S) :
    ErasesUpTo reads Eq (Prog.loopFrom body n s) (Prog.loop body' n) := by
  induction n generalizing s with
  | zero => exact .hang
  | succ n ih =>
    refine (h s).bind fun a b hab => ?_
    rcases a with _ | s' <;> rcases b with _ | u
    · cases hab
    · exact .ret rfl
    · exact ih s'
    · cases hab

theorem Monitor.wp_loopFrom {T : Type} {M : Monitor Op Resp T} {E : ε → T → Prop}
    {body : S → Prog Op Resp ε (Option S)} {I : S → T → Prop}
    (hbody : ∀ s t, I s t → M.wp (body s) (fun r t' => ∀ s', r = some s' → I s' t') E t) (n : Nat)
    {s : S} {t : T} (h : I s t) :
    M.wp (Prog.loopFrom body n s) (fun _ _ => True) E t := by
  induction n generalizing s t with
  | zero => trivial
  | succ n ih =>
    rw [Prog.loopFrom, wp_bind]
    refine wp_mono (fun r t' hr => ?_) (fun _ _ he => he) (hbody s t h)
    cases r with
    | none => trivial
    | some s' => exact ih (hr s' rfl)

theorem waited_loopFrom {starts : ClockEvent Op Resp → Bool} {limit : Nat}
    {body : S → ClockProg Op Resp ε (Option S)} (htakes : ∀ s, Takes limit (body s))
    (hstarts : ∀ s e h q, Prog.Run (body s) (e :: h) q → starts e = true) {n : Nat} {s : S}
    {h : List (ClockEvent Op Resp)} {q : ClockProg Op Resp ε Unit} {clock : Nat}
    (hr : Prog.Run (Prog.loopFrom body n s) h q) (ht : KeepsTime clock h) :
    waited h ≤ limit * h.countP starts := by
  have hturn : ∀ {s h q clock}, Prog.Run (body s) h q → KeepsTime clock h →
      waited h ≤ limit * h.countP starts := by
    intro s h q clock hrun htime
    cases h with
    | nil => exact Nat.zero_le _
    | cons e h =>
      have hone : 1 ≤ (e :: h).countP starts :=
        List.countP_pos_iff.mpr ⟨e, List.mem_cons_self .., hstarts s e h q hrun⟩
      exact ((htakes s).waited_le hrun htime).trans (Nat.le_mul_of_pos_right limit hone)
  induction n generalizing s h clock with
  | zero =>
    cases hr with
    | nil => exact Nat.zero_le _
    | cons hs _ => cases hs
  | succ n ih =>
    rcases hr.of_bind with ⟨p', hp', -⟩ | ⟨h₁, h₂, r, rfl, h₁run, h₂run⟩
    · exact hturn hp' ht
    · obtain ⟨h₁time, clock', h₂time⟩ := keepsTime_append ht
      have hrest : waited h₂ ≤ limit * h₂.countP starts := by
        cases r with
        | none =>
          obtain ⟨rfl, -⟩ := h₂run.of_ret
          exact Nat.zero_le _
        | some s' => exact ih h₂run h₂time
      rw [waited_append, List.countP_append, Nat.mul_add]
      exact Nat.add_le_add (hturn h₁run h₁time) hrest

theorem waited_now_loopFrom {starts : ClockEvent Op Resp → Bool} {limit : Nat}
    {body : Nat → ClockProg Op Resp ε (Option Nat)} (htakes : ∀ s, Takes limit (body s))
    (hstarts : ∀ s e h q, Prog.Run (body s) (e :: h) q → starts e = true) {n clock : Nat}
    {h : List (ClockEvent Op Resp)} {q : ClockProg Op Resp ε Unit}
    (hr : Prog.Run (ClockProg.now.bind fun s => Prog.loopFrom body n s) h q)
    (ht : KeepsTime clock h) : waited h ≤ limit * h.countP starts := by
  cases hr with
  | nil => exact Nat.zero_le _
  | @cons _ _ _ e h hs hrest =>
    cases hs with
    | call o k t =>
      obtain ⟨-, clock', hrestTime⟩ := keepsTime_append (h := [⟨.now, t⟩]) ht
      have hloop : waited h ≤ limit * h.countP starts :=
        waited_loopFrom htakes hstarts hrest hrestTime
      calc waited (⟨.now, t⟩ :: h) = waited h := Nat.zero_add _
        _ ≤ limit * h.countP starts := hloop
        _ ≤ limit * (⟨.now, t⟩ :: h : List (ClockEvent Op Resp)).countP starts :=
          Nat.mul_le_mul_left limit ((List.sublist_cons_self _ h).countP_le)

/-- Which operations write the stream, which wait for something to do, and which answers to these are a
tick; and how the surroundings keep time: a tick comes within a period of the last one, and the clock is
read, and anything else done, with a delay of `slack` at most. -/
structure Tempo (Op : Type) (Resp : Op → Type) where
  isWrite : Op → Bool
  awaits : Op → Bool
  isTick : (o : Op) → Resp o → Bool
  period : Nat
  slack : Nat

structure Beat where
  clock : Nat
  wrote : Nat
  ticked : Nat

namespace Tempo
variable (T : Tempo Op Resp)

def next (s : Beat) : (o : ClockOp Op) → o.Answer Resp → Beat
  | .now, t => { s with clock := t }
  | .within _ o, r =>
    { clock := s.clock + r.1
      wrote := if T.isWrite o then s.clock + r.1 else s.wrote
      ticked := if T.isTick o r.2 then s.clock + r.1 else s.ticked }

def Prompt (s : Beat) : (o : ClockOp Op) → o.Answer Resp → Prop
  | .now, t => s.clock ≤ t ∧ t ≤ s.clock + T.slack
  | .within (some limit) _, r => r.1 ≤ limit
  | .within none o, r =>
    if T.awaits o then s.clock + r.1 ≤ max s.clock (s.ticked + T.period) else r.1 ≤ T.slack

instance (s : Beat) : (o : ClockOp Op) → (r : o.Answer Resp) → Decidable (T.Prompt s o r)
  | .now, t => inferInstanceAs (Decidable (s.clock ≤ t ∧ t ≤ s.clock + T.slack))
  | .within (some limit) _, r => inferInstanceAs (Decidable (r.1 ≤ limit))
  | .within none o, r => inferInstanceAs (Decidable
      (if T.awaits o then s.clock + r.1 ≤ max s.clock (s.ticked + T.period) else r.1 ≤ T.slack))

/-- The monitor of programs that let the stream be silent for `bound` at most. -/
abbrev silence (bound : Nat) : Monitor (ClockOp Op) (ClockOp.Answer Resp) Beat :=
  Monitor.keeps T.Prompt T.next fun s => s.clock ≤ s.wrote + bound

def KeepsPace (clock : Nat) (h : List (ClockEvent Op Resp)) : Prop :=
  (T.silence 0).Admits ⟨clock, clock, clock⟩ h

instance (clock : Nat) (h : List (ClockEvent Op Resp)) : Decidable (T.KeepsPace clock h) :=
  have (s : Beat) (o : ClockOp Op) (r : o.Answer Resp) :
      Decidable ((T.silence 0).possible s o r) := inferInstanceAs (Decidable (T.Prompt s o r))
  Monitor.decidableAdmits (T.silence 0) ⟨clock, clock, clock⟩ h

def silentFor (clock : Nat) (h : List (ClockEvent Op Resp)) : Nat :=
  ((T.silence 0).after ⟨clock, clock, clock⟩ h).clock -
    ((T.silence 0).after ⟨clock, clock, clock⟩ h).wrote

variable {T} {bound : Nat} {s : Beat} {Q : α → Beat → Prop} {E : ε → Beat → Prop}

theorem wp_now {k : Nat → ClockProg Op Resp ε α} (hs : s.clock + T.slack ≤ s.wrote + bound)
    (hk : ∀ t, s.clock ≤ t → t ≤ s.clock + T.slack →
      (T.silence bound).wp (k t) Q E { s with clock := t }) :
    (T.silence bound).wp (.call .now k) Q E s :=
  Monitor.wp_keeps_call fun t ht => ⟨ht.2.trans hs, hk t ht.1 ht.2⟩

theorem wp_write {limit : Nat} {o : Op} {k : Nat × Resp o → ClockProg Op Resp ε α}
    (hwrite : T.isWrite o = true) (htick : ∀ r, T.isTick o r = false)
    (hk : ∀ r t, s.clock ≤ t → t ≤ s.clock + limit →
      (T.silence bound).wp (k r) Q E ⟨t, t, s.ticked⟩) :
    (T.silence bound).wp (.call (.within (some limit) o) k) Q E s := by
  refine Monitor.wp_keeps_call fun r hr => ?_
  have hnext : T.next s (.within (some limit) o) r = ⟨s.clock + r.1, s.clock + r.1, s.ticked⟩ := by
    simp only [next, hwrite, htick, if_true, Bool.false_eq_true, if_false]
  rw [hnext]
  exact ⟨Nat.le_add_right .., hk r _ (Nat.le_add_right ..) (Nat.add_le_add_left hr _)⟩

theorem wp_read {limit : Nat} {o : Op} {k : Nat × Resp o → ClockProg Op Resp ε α}
    (hwrite : T.isWrite o = false) (htick : ∀ r, T.isTick o r = false)
    (hs : s.clock + limit ≤ s.wrote + bound)
    (hk : ∀ r t, s.clock ≤ t → t ≤ s.clock + limit →
      (T.silence bound).wp (k r) Q E { s with clock := t }) :
    (T.silence bound).wp (.call (.within (some limit) o) k) Q E s := by
  refine Monitor.wp_keeps_call fun r hr => ?_
  have hr : r.1 ≤ limit := hr
  have hnext : T.next s (.within (some limit) o) r = { s with clock := s.clock + r.1 } := by
    simp only [next, hwrite, htick, Bool.false_eq_true, if_false]
  rw [hnext]
  exact ⟨(Nat.add_le_add_left hr _).trans hs,
    hk r _ (Nat.le_add_right ..) (Nat.add_le_add_left hr _)⟩

theorem wp_other {o : Op} {k : Nat × Resp o → ClockProg Op Resp ε α} (hwrite : T.isWrite o = false)
    (htick : ∀ r, T.isTick o r = false) (hawaits : T.awaits o = false)
    (hs : s.clock + T.slack ≤ s.wrote + bound)
    (hk : ∀ r t, s.clock ≤ t → t ≤ s.clock + T.slack →
      (T.silence bound).wp (k r) Q E { s with clock := t }) :
    (T.silence bound).wp (.call (.within none o) k) Q E s := by
  refine Monitor.wp_keeps_call fun r hr => ?_
  simp only [Prompt, hawaits, Bool.false_eq_true, if_false] at hr
  have hnext : T.next s (.within none o) r = { s with clock := s.clock + r.1 } := by
    simp only [next, hwrite, htick, Bool.false_eq_true, if_false]
  rw [hnext]
  exact ⟨(Nat.add_le_add_left hr _).trans hs,
    hk r _ (Nat.le_add_right ..) (Nat.add_le_add_left hr _)⟩

theorem wp_await {o : Op} {k : Nat × Resp o → ClockProg Op Resp ε α} (hwrite : T.isWrite o = false)
    (hawaits : T.awaits o = true) (hclock : s.clock ≤ s.wrote + bound)
    (hticked : s.ticked + T.period ≤ s.wrote + bound)
    (hk : ∀ r t ticked, s.clock ≤ t → t ≤ max s.clock (s.ticked + T.period) →
      ticked ≤ max t s.ticked → (T.silence bound).wp (k r) Q E ⟨t, s.wrote, ticked⟩) :
    (T.silence bound).wp (.call (.within none o) k) Q E s := by
  refine Monitor.wp_keeps_call fun r hr => ?_
  simp only [Prompt, hawaits, if_true] at hr
  have hnext : T.next s (.within none o) r =
      ⟨s.clock + r.1, s.wrote, if T.isTick o r.2 then s.clock + r.1 else s.ticked⟩ := by
    simp only [next, hwrite, Bool.false_eq_true, if_false]
  rw [hnext]
  refine ⟨hr.trans (max_le hclock hticked), hk r _ _ (Nat.le_add_right ..) hr ?_⟩
  split_ifs
  · exact le_max_left ..
  · exact le_max_right ..

/-- Whatever the bound, the monitor sees the same. -/
theorem silent_le {clock : Nat} {p q : ClockProg Op Resp ε α} {h : List (ClockEvent Op Resp)}
    (hwp : (T.silence bound).wp p Q E ⟨clock, clock, clock⟩) (hr : Prog.Run p h q)
    (hpace : T.KeepsPace clock h) : T.silentFor clock h ≤ bound := by
  have hadmits : ∀ {s : Beat} {h : List (ClockEvent Op Resp)}, (T.silence 0).Admits s h →
      (T.silence bound).Admits s h ∧ (T.silence bound).after s h = (T.silence 0).after s h := by
    intro s h
    induction h generalizing s with
    | nil => exact fun _ => ⟨trivial, rfl⟩
    | cons e h ih => exact fun ha => ⟨⟨ha.1, (ih ha.2).1⟩, (ih ha.2).2⟩
  obtain ⟨hadmitted, hafter⟩ := hadmits hpace
  have hkept : ((T.silence bound).after ⟨clock, clock, clock⟩ h).clock ≤
      ((T.silence bound).after ⟨clock, clock, clock⟩ h).wrote + bound :=
    Monitor.keeps_after (I := fun s : Beat => s.clock ≤ s.wrote + bound) (Nat.le_add_right ..)
      (Monitor.wp_run hwp hr hadmitted).1 hadmitted
  rw [hafter] at hkept
  exact Nat.sub_le_iff_le_add'.mpr hkept

end Tempo

end Interaction

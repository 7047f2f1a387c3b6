import Mathlib.Order.Nat
import Psrt.Lib.Interpret

/-! Programs with a clock: readings of it, operations that are given up after a limit, what is left of
such a program when its clock is taken away, and how long it may be kept waiting. -/

namespace Interaction

variable {Op : Type} {Resp : Op → Type} {ε ε' α β γ δ : Type}

inductive ClockOp (Op : Type) where
  | now
  | within (limit : Option Nat) (o : Op)

/-- An operation answers after some time, of which the program is not told. -/
abbrev ClockOp.Answer (Resp : Op → Type) : ClockOp Op → Type
  | now => Nat
  | within _ o => Nat × Resp o

abbrev ClockProg (Op : Type) (Resp : Op → Type) (ε α : Type) :=
  Prog (ClockOp Op) (ClockOp.Answer Resp) ε α

abbrev ClockEvent (Op : Type) (Resp : Op → Type) := Event (ClockOp Op) (ClockOp.Answer Resp)

namespace ClockProg

def now : ClockProg Op Resp ε Nat := .op ClockOp.now

def within (limit : Option Nat) (o : Op) : ClockProg Op Resp ε (Resp o) :=
  .call (.within limit o) fun r => .ret r.2

def limited (limit : Op → Option Nat) (p : Prog Op Resp ε α) : ClockProg Op Resp ε α :=
  p.interpret fun o => within (limit o) o

theorem limited_bind (limit : Op → Option Nat) (p : Prog Op Resp ε α) (f : α → Prog Op Resp ε β) :
    limited limit (p.bind f) = (limited limit p).bind fun a => limited limit (f a) :=
  Prog.interpret_bind _ p f

def reduceTimeout (timeout start : Nat) : ClockProg Op Resp ε Nat :=
  now.bind fun t => .ret (if timeout < t - start then 0 else timeout - (t - start))

end ClockProg

/-- Without its clock and its limits, a program does what another does. The operations of that one that
`reads` marks stand for a reading of the clock; the results are related by `R`. -/
inductive ErasesUpTo (reads : Op → Bool) (R : α → β → Prop) :
    ClockProg Op Resp ε α → Prog Op Resp ε β → Prop
  | ret {a : α} {b : β} (h : R a b) : ErasesUpTo reads R (.ret a) (.ret b)
  | throw (e : ε) : ErasesUpTo reads R (.throw e) (.throw e)
  | hang : ErasesUpTo reads R .hang .hang
  | now {k : Nat → ClockProg Op Resp ε α} {q : Prog Op Resp ε β}
      (h : ∀ t, ErasesUpTo reads R (k t) q) : ErasesUpTo reads R (.call .now k) q
  | reading {o : Op} {k : Nat → ClockProg Op Resp ε α} {k' : Resp o → Prog Op Resp ε β}
      (ho : reads o = true) (answer : Nat → Resp o)
      (h : ∀ t, ErasesUpTo reads R (k t) (k' (answer t))) :
      ErasesUpTo reads R (.call .now k) (.call o k')
  | within {limit : Option Nat} {o : Op} {k : Nat × Resp o → ClockProg Op Resp ε α}
      {k' : Resp o → Prog Op Resp ε β} (ho : reads o = false)
      (h : ∀ r, ErasesUpTo reads R (k r) (k' r.2)) :
      ErasesUpTo reads R (.call (.within limit o) k) (.call o k')

def ClockEvent.untimed : ClockEvent Op Resp → Option (Event Op Resp)
  | ⟨.now, _⟩ => none
  | ⟨.within _ o, r⟩ => some ⟨o, r.2⟩

def untimed (h : List (ClockEvent Op Resp)) : List (Event Op Resp) :=
  h.filterMap ClockEvent.untimed

theorem untimed_append (h h' : List (ClockEvent Op Resp)) :
    untimed (h ++ h') = untimed h ++ untimed h' := List.filterMap_append

namespace ErasesUpTo
variable {reads : Op → Bool} {R : α → β → Prop} {R' : γ → δ → Prop}

theorem bind {p : ClockProg Op Resp ε α} {q : Prog Op Resp ε β} {f : α → ClockProg Op Resp ε γ}
    {g : β → Prog Op Resp ε δ} (h : ErasesUpTo reads R p q)
    (hf : ∀ a b, R a b → ErasesUpTo reads R' (f a) (g b)) :
    ErasesUpTo reads R' (p.bind f) (q.bind g) := by
  induction h with
  | ret h => exact hf _ _ h
  | throw e => exact .throw e
  | hang => exact .hang
  | now _ ih => exact .now ih
  | reading ho answer _ ih => exact .reading ho answer ih
  | within ho _ ih => exact .within ho ih

theorem op (limit : Option Nat) {o : Op} (ho : reads o = false) :
    ErasesUpTo reads Eq (ClockProg.within limit o : ClockProg Op Resp ε (Resp o)) (.op o) :=
  .within ho fun _ => .ret rfl

theorem ofExcept (r : Except ε α) :
    ErasesUpTo reads Eq (.ofExcept r : ClockProg Op Resp ε α) (.ofExcept r) := by
  cases r with
  | ok a => exact .ret rfl
  | error e => exact .throw e

theorem reduce {timeout start : Nat} {f : Nat → ClockProg Op Resp ε α} {q : Prog Op Resp ε β}
    (h : ∀ limit, ErasesUpTo reads R (f limit) q) :
    ErasesUpTo reads R ((ClockProg.reduceTimeout timeout start).bind f) q :=
  .now (k := fun t => (Prog.ret (if timeout < t - start then 0 else timeout - (t - start))).bind f)
    fun _ => h _

/-- Every run with the clock is a run without it, up to the readings of the clock. -/
theorem run {p p' : ClockProg Op Resp ε α} {q : Prog Op Resp ε β} {h : List (ClockEvent Op Resp)}
    (he : ErasesUpTo reads R p q) (hr : Prog.Run p h p') :
    ∃ h' q', Prog.Run q h' q' ∧ ErasesUpTo reads R p' q' ∧
      h'.filter (fun e => !reads e.op) = untimed h := by
  induction hr generalizing q with
  | nil p => exact ⟨[], q, .nil q, he, rfl⟩
  | cons hs _ ih =>
    cases hs with
    | call o k r =>
      cases he with
      | now hk => exact ih (hk r)
      | reading ho answer hk =>
        obtain ⟨h', q', hrun, herases, hevents⟩ := ih (hk r)
        refine ⟨⟨_, answer r⟩ :: h', q', .call _ hrun, herases, ?_⟩
        rw [List.filter_cons_of_neg]
        · exact hevents
        · simp only [ho, Bool.not_true, Bool.false_eq_true, not_false_eq_true]
      | within ho hk =>
        obtain ⟨h', q', hrun, herases, hevents⟩ := ih (hk r)
        refine ⟨⟨_, r.2⟩ :: h', q', .call r.2 hrun, herases, ?_⟩
        rw [List.filter_cons_of_pos]
        · exact congrArg (_ :: ·) hevents
        · simp only [ho, Bool.not_false]

/-- Without its clock, a history is one of `q` less what in that one stands for a reading of the clock. -/
def UntimedRun (reads : Op → Bool) (q : Prog Op Resp ε β) (h : List (ClockEvent Op Resp)) : Prop :=
  ∃ h' q', Prog.Run q h' q' ∧ h'.filter (fun e => !reads e.op) = untimed h

theorem untimedRun {p p' : ClockProg Op Resp ε α} {q : Prog Op Resp ε β}
    {h : List (ClockEvent Op Resp)} (he : ErasesUpTo reads R p q) (hr : Prog.Run p h p') :
    UntimedRun reads q h := by
  obtain ⟨h', q', hrun, -, hevents⟩ := he.run hr
  exact ⟨h', q', hrun, hevents⟩

end ErasesUpTo

abbrev Erases (p : ClockProg Op Resp ε α) (q : Prog Op Resp ε α) : Prop :=
  ErasesUpTo (fun _ => false) Eq p q

namespace Erases

theorem bind {p : ClockProg Op Resp ε α} {q : Prog Op Resp ε α} {f : α → ClockProg Op Resp ε γ}
    {g : α → Prog Op Resp ε γ} (h : Erases p q) (hf : ∀ a, Erases (f a) (g a)) :
    Erases (p.bind f) (q.bind g) :=
  ErasesUpTo.bind h fun a _ hab => hab ▸ hf a

theorem attempt {p : ClockProg Op Resp ε α} {q : Prog Op Resp ε α} (h : Erases p q) :
    Erases (p.attempt : ClockProg Op Resp ε' (Except ε α)) q.attempt := by
  induction h with
  | ret h => exact .ret (congrArg Except.ok h)
  | throw e => exact .ret rfl
  | hang => exact .hang
  | now _ ih => exact .now ih
  | reading ho => cases ho
  | within ho _ ih => exact .within ho ih

theorem loop {body : ClockProg Op Resp ε (Option α)} {body' : Prog Op Resp ε (Option α)}
    (h : Erases body body') (n : Nat) : Erases (Prog.loop body n) (Prog.loop body' n) := by
  induction n with
  | zero => exact .hang
  | succ n ih =>
    refine h.bind fun r => ?_
    cases r with
    | some a => exact .ret rfl
    | none => exact ih

theorem limited (limit : Op → Option Nat) (p : Prog Op Resp ε α) :
    Erases (ClockProg.limited limit p) p := by
  induction p with
  | ret a => exact .ret rfl
  | throw e => exact .throw e
  | call o k ih => exact .within rfl fun r => ih r.2
  | hang => exact .hang

theorem run {p p' : ClockProg Op Resp ε α} {q : Prog Op Resp ε α} {h : List (ClockEvent Op Resp)}
    (he : Erases p q) (hr : Prog.Run p h p') :
    ∃ q', Prog.Run q (untimed h) q' ∧ Erases p' q' := by
  obtain ⟨h', q', hrun, herases, hevents⟩ := ErasesUpTo.run he hr
  have hall : h'.filter (fun _ => !false) = h' := List.filter_eq_self.mpr fun _ _ => rfl
  exact ⟨q', (hall.symm.trans hevents) ▸ hrun, herases⟩

end Erases

structure Timing where
  clock : Nat
  waited : Nat

namespace Timing

def next (s : Timing) : (o : ClockOp Op) → o.Answer Resp → Timing
  | .now, t => ⟨t, s.waited⟩
  | .within (some _) _, r => ⟨s.clock + r.1, s.waited + r.1⟩
  | .within none _, r => ⟨s.clock + r.1, s.waited⟩

/-- The clock does not go back, and no operation outlasts its limit. -/
def Timely (s : Timing) : (o : ClockOp Op) → o.Answer Resp → Prop
  | .now, t => s.clock ≤ t
  | .within (some limit) _, r => r.1 ≤ limit
  | .within none _, _ => True

instance (s : Timing) : (o : ClockOp Op) → (r : o.Answer Resp) → Decidable (s.Timely o r)
  | .now, t => inferInstanceAs (Decidable (s.clock ≤ t))
  | .within (some limit) _, r => inferInstanceAs (Decidable (r.1 ≤ limit))
  | .within none _, _ => isTrue trivial

end Timing

abbrev waits (bound : Nat) : Monitor (ClockOp Op) (ClockOp.Answer Resp) Timing :=
  Monitor.keeps Timing.Timely Timing.next fun s => s.waited ≤ bound

def ClockEvent.waited : ClockEvent Op Resp → Nat
  | ⟨.now, _⟩ => 0
  | ⟨.within (some _) _, r⟩ => r.1
  | ⟨.within none _, _⟩ => 0

def waited : List (ClockEvent Op Resp) → Nat
  | [] => 0
  | e :: h => e.waited + waited h

def KeepsTime (clock : Nat) (h : List (ClockEvent Op Resp)) : Prop :=
  (waits 0).Admits ⟨clock, 0⟩ h

instance (clock : Nat) (h : List (ClockEvent Op Resp)) : Decidable (KeepsTime clock h) :=
  have (s : Timing) (o : ClockOp Op) (r : o.Answer Resp) :
      Decidable ((waits 0).possible s o r) := inferInstanceAs (Decidable (s.Timely o r))
  Monitor.decidableAdmits (waits 0) ⟨clock, 0⟩ h

section
variable {s : Timing} {h h' : List (ClockEvent Op Resp)}

theorem waited_append (h h' : List (ClockEvent Op Resp)) :
    waited (h ++ h') = waited h + waited h' := by
  induction h with
  | nil => simp only [List.nil_append, waited, Nat.zero_add]
  | cons e h ih => simp only [List.cons_append, waited, ih, Nat.add_assoc]

theorem waited_next (s : Timing) (e : ClockEvent Op Resp) :
    (s.next e.op e.resp).waited = s.waited + e.waited := by
  obtain ⟨o, r⟩ := e
  cases o with
  | now => rfl
  | within limit o =>
    cases limit with
    | none => rfl
    | some limit => rfl

theorem waited_after (bound : Nat) (s : Timing) (h : List (ClockEvent Op Resp)) :
    ((waits bound).after s h).waited = s.waited + waited h := by
  induction h generalizing s with
  | nil => rfl
  | cons e h ih =>
    have hnext := ih (s.next e.op e.resp)
    rw [waited_next, Nat.add_assoc] at hnext
    exact hnext

/-- Whether time passed as it can does not depend on what was waited before, nor on the bound. -/
theorem admits_waits {bound : Nat} {s t : Timing} (hclock : s.clock = t.clock) :
    (waits bound).Admits s h ↔ (waits 0).Admits t h := by
  induction h generalizing s t with
  | nil => exact Iff.rfl
  | cons e h ih =>
    obtain ⟨o, r⟩ := e
    have hnext : (s.next o r).clock = (t.next o r).clock := by
      rcases o with _ | ⟨_ | limit, o⟩
      · rfl
      · exact congrArg (· + r.1) hclock
      · exact congrArg (· + r.1) hclock
    have hfirst : s.Timely o r ↔ t.Timely o r := by
      rcases o with _ | ⟨_ | limit, o⟩
      · exact Iff.of_eq (congrArg (· ≤ r) hclock)
      · exact Iff.rfl
      · exact Iff.rfl
    exact and_congr hfirst (ih hnext)

theorem keepsTime_append {clock : Nat} (ht : KeepsTime clock (h ++ h')) :
    KeepsTime clock h ∧ ∃ clock', KeepsTime clock' h' := by
  obtain ⟨hfirst, hrest⟩ := (Monitor.admits_append ..).mp ht
  let clock' := ((waits 0).after ⟨clock, 0⟩ h).clock
  have hclock : ((waits 0).after ⟨clock, 0⟩ h).clock = (⟨clock', 0⟩ : Timing).clock := rfl
  exact ⟨hfirst, clock', (admits_waits hclock).mp hrest⟩

end

/-- A program that waits for `limit` at most, however it ends, and no longer than time passes. -/
def Takes (limit : Nat) (p : ClockProg Op Resp ε α) : Prop :=
  ∀ bound s, s.waited + limit ≤ bound →
    (waits bound).wp p
      (fun _ s' => s'.waited ≤ s.waited + limit ∧ s'.waited + s.clock ≤ s.waited + s'.clock)
      (fun _ s' => s'.waited ≤ s.waited + limit ∧ s'.waited + s.clock ≤ s.waited + s'.clock) s

/-- Of an operation begun at `start`, after a wait of `base` in all: the program was kept waiting for
`bound` at most since, and no longer than time has passed. -/
structure Due (start base bound : Nat) (s : Timing) : Prop where
  waited : s.waited ≤ base + bound
  passed : s.waited + start ≤ base + s.clock

def Meets (start base bound bound' : Nat) (p : ClockProg Op Resp ε α) : Prop :=
  ∀ s, Due start base bound s →
    (waits (base + bound')).wp p (fun _ => Due start base bound') (fun _ => Due start base bound') s

theorem KeepsTime.of_mem_flatten {turns : List (List (ClockEvent Op Resp))}
    {last : List (ClockEvent Op Resp)} {clock : Nat} (ht : KeepsTime clock (turns.flatten ++ last)) :
    (∀ turn ∈ turns, ∃ clock', KeepsTime clock' turn) ∧ ∃ clock', KeepsTime clock' last := by
  induction turns generalizing clock with
  | nil => exact ⟨fun _ hm => absurd hm List.not_mem_nil, clock, ht⟩
  | cons turn turns ih =>
    rw [List.flatten_cons, List.append_assoc] at ht
    obtain ⟨hturn, clock', hrest⟩ := keepsTime_append ht
    exact ⟨List.forall_mem_cons.mpr ⟨⟨clock, hturn⟩, (ih hrest).1⟩, (ih hrest).2⟩

theorem Takes.waited_le {limit clock : Nat} {p q : ClockProg Op Resp ε α}
    {h : List (ClockEvent Op Resp)} (hp : Takes limit p) (hr : Prog.Run p h q)
    (ht : KeepsTime clock h) : waited h ≤ limit := by
  have hwp := hp limit ⟨clock, 0⟩ (Nat.zero_add limit).le
  have hadmits : (waits limit).Admits ⟨clock, 0⟩ h := (admits_waits rfl).mpr ht
  have hafter : ((waits limit).after ⟨clock, 0⟩ h).waited ≤ limit :=
    Monitor.keeps_after (I := fun s : Timing => s.waited ≤ limit) (Nat.zero_le limit)
      (Monitor.wp_run hwp hr hadmits).1 hadmits
  rwa [waited_after, Nat.zero_add] at hafter

section
variable {start base bound bound' bound'' limit : Nat} {p : ClockProg Op Resp ε α}
  {f : α → ClockProg Op Resp ε β}

theorem Due.mono {s : Timing} (h : Due start base bound s) (hle : bound ≤ bound') :
    Due start base bound' s :=
  ⟨h.waited.trans (Nat.add_le_add_left hle base), h.passed⟩

theorem wp_waits_mono {Q : α → Timing → Prop} {E : ε → Timing → Prop} {s : Timing}
    (hle : bound ≤ bound') (h : (waits bound).wp p Q E s) : (waits bound').wp p Q E s := by
  induction p generalizing s with
  | ret a => exact h
  | throw e => exact h
  | call o k ih => exact ⟨fun r hr => (h.1 r hr).trans hle, fun r hr => ih r (h.2 r hr)⟩
  | hang => trivial

theorem Meets.mono (h : Meets start base bound bound' p) (hle : bound' ≤ bound'') :
    Meets start base bound bound'' p := fun s hs =>
  Monitor.wp_mono (fun _ _ hd => hd.mono hle) (fun _ _ hd => hd.mono hle)
    (wp_waits_mono (Nat.add_le_add_left hle base) (h s hs))

theorem Meets.bind (hp : Meets start base bound bound' p)
    (hf : ∀ a, Meets start base bound' bound'' (f a)) (hle : bound' ≤ bound'') :
    Meets start base bound bound'' (p.bind f) := by
  intro s hs
  rw [Monitor.wp_bind]
  exact Monitor.wp_mono (fun a s' hd => hf a s' hd) (fun _ _ hd => hd.mono hle)
    (wp_waits_mono (Nat.add_le_add_left hle base) (hp s hs))

theorem meets_ret (a : α) : Meets start base bound bound (.ret a : ClockProg Op Resp ε α) :=
  fun _ hs => hs

theorem meets_throw (e : ε) : Meets start base bound bound (.throw e : ClockProg Op Resp ε α) :=
  fun _ hs => hs

theorem meets_hang : Meets start base bound bound (.hang : ClockProg Op Resp ε α) :=
  fun _ _ => trivial

theorem meets_ofExcept (r : Except ε α) :
    Meets start base bound bound (.ofExcept r : ClockProg Op Resp ε α) := by
  cases r with
  | ok a => exact meets_ret a
  | error e => exact meets_throw e

theorem meets_now {f : Nat → ClockProg Op Resp ε α} (hf : ∀ t, Meets start base bound bound' (f t))
    (hle : bound ≤ bound') : Meets start base bound bound' (ClockProg.now.bind f) := by
  intro s hs
  refine Monitor.wp_keeps_call fun t ht => ⟨(hs.mono hle).waited, ?_⟩
  have ht : s.clock ≤ t := ht
  exact hf t _ ⟨hs.waited, hs.passed.trans (Nat.add_le_add_left ht base)⟩

theorem meets_loop {body : ClockProg Op Resp ε (Option α)} (h : Meets start base bound bound body)
    (n : Nat) : Meets start base bound bound (Prog.loop body n) := by
  induction n with
  | zero => exact meets_hang
  | succ n ih =>
    refine h.bind (fun r => ?_) le_rfl
    cases r with
    | some a => exact meets_ret a
    | none => exact ih

theorem Meets.attempt (h : Meets start base bound bound' p) :
    Meets start base bound bound' (p.attempt : ClockProg Op Resp ε' (Except ε α)) := by
  intro s hs
  rw [Monitor.wp_attempt]
  exact h s hs

theorem meets_within_none (o : Op) :
    Meets start base bound bound (ClockProg.within none o : ClockProg Op Resp ε (Resp o)) :=
  fun _ hs => Monitor.wp_keeps_call fun _ _ =>
    ⟨hs.waited, hs.waited, hs.passed.trans (Nat.add_le_add_left (Nat.le_add_right ..) base)⟩

theorem meets_limited_of_calls {limit : Op → Option Nat} {p : Prog Op Resp ε α}
    (hp : p.Calls fun o => limit o = none) :
    Meets start base bound bound (ClockProg.limited limit p) := by
  induction p with
  | ret a => exact meets_ret a
  | throw e => exact meets_throw e
  | call o k ih =>
    show Meets start base bound bound
      ((ClockProg.within (limit o) o).bind fun r => ClockProg.limited limit (k r))
    rw [hp.1]
    exact (meets_within_none o).bind (fun r => ih r (hp.2 r)) le_rfl
  | hang => exact meets_hang

theorem Takes.meets (h : Takes limit p) (hle : bound + limit ≤ bound') :
    Meets start base bound bound' p := by
  intro s hs
  have hwaited := hs.waited
  have hpassed := hs.passed
  have hbound : s.waited + limit ≤ base + bound' := by omega
  refine Monitor.wp_mono (fun _ s' hd => ?_) (fun _ s' hd => ?_) (h _ s hbound)
  · exact ⟨hd.1.trans hbound, by have := hd.2; omega⟩
  · exact ⟨hd.1.trans hbound, by have := hd.2; omega⟩

/-- The deadline rule: with the rest of a timeout for its limit, a part of the operation does not raise
what was waited above the timeout. -/
theorem meets_reduce {timeout : Nat} {f : Nat → ClockProg Op Resp ε α}
    (hf : ∀ limit, Takes limit (f limit)) (hle : timeout ≤ bound) :
    Meets start base bound bound ((ClockProg.reduceTimeout timeout start).bind f) := by
  intro s hs
  refine Monitor.wp_keeps_call fun t ht => ⟨hs.waited, ?_⟩
  have ht : s.clock ≤ t := ht
  have hpassed := hs.passed
  have hwaited := hs.waited
  have hbound : s.waited + (if timeout < t - start then 0 else timeout - (t - start)) ≤ base + bound := by
    split_ifs <;> omega
  refine Monitor.wp_mono (fun _ s' hd => ?_) (fun _ s' hd => ?_) (hf _ (base + bound) ⟨t, s.waited⟩ hbound)
  · exact ⟨hd.1.trans hbound, by have := hd.2; simp only at this; omega⟩
  · exact ⟨hd.1.trans hbound, by have := hd.2; simp only at this; omega⟩

theorem takes_now {f : Nat → ClockProg Op Resp ε α}
    (hf : ∀ start base, Meets start base 0 limit (f start)) :
    Takes limit (ClockProg.now.bind f) := by
  intro bound s hbound
  refine Monitor.wp_keeps_call fun t ht => ⟨by simp only [Timing.next]; omega, ?_⟩
  have ht : s.clock ≤ t := ht
  have hdue : Due t s.waited 0 ⟨t, s.waited⟩ := ⟨Nat.le_refl _, Nat.le_refl _⟩
  refine Monitor.wp_mono (fun _ s' hd => ?_) (fun _ s' hd => ?_)
    (wp_waits_mono hbound (hf t s.waited _ hdue))
  · exact ⟨hd.waited, by have := hd.passed; omega⟩
  · exact ⟨hd.waited, by have := hd.passed; omega⟩

theorem takes_within (limit : Nat) (o : Op) :
    Takes limit (ClockProg.within (some limit) o : ClockProg Op Resp ε (Resp o)) := by
  intro bound s hbound
  refine Monitor.wp_keeps_call fun r hr => ?_
  have hr : r.1 ≤ limit := hr
  simp only [Timing.next, Monitor.wp_ret]
  omega

theorem takes_of_meets (h : ∀ start base, Meets start base 0 limit p) : Takes limit p := by
  intro bound s hbound
  have hdue : Due s.clock s.waited 0 s := ⟨Nat.le_refl _, Nat.le_refl _⟩
  exact Monitor.wp_mono (fun _ _ hd => ⟨hd.waited, hd.passed⟩) (fun _ _ hd => ⟨hd.waited, hd.passed⟩)
    (wp_waits_mono hbound (h s.clock s.waited s hdue))

end

end Interaction

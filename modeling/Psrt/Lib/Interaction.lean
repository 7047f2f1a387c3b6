import Mathlib.Logic.Basic

/-! Programs that call operations of their surroundings and wait for the answers, and the rules
by which a property of every run of such a program is proved. -/

namespace Interaction

/-- A program calls operations, goes on with the answers, and ends with a value or an error. A loop
is unrolled a number of turns; `hang` is an unrolling whose turns are used up. -/
inductive Prog (Op : Type) (Resp : Op → Type) (ε α : Type) where
  | ret (a : α)
  | throw (e : ε)
  | call (o : Op) (k : Resp o → Prog Op Resp ε α)
  | hang

structure Event (Op : Type) (Resp : Op → Type) where
  op : Op
  resp : Resp op

variable {Op : Type} {Resp : Op → Type} {ε ε' α β γ S σ : Type}

namespace Prog

def bind : Prog Op Resp ε α → (α → Prog Op Resp ε β) → Prog Op Resp ε β
  | ret a, f => f a
  | throw e, _ => throw e
  | call o k, f => call o fun r => (k r).bind f
  | hang, _ => hang

instance : Monad (Prog Op Resp ε) where
  pure := ret
  bind := bind

def op (o : Op) : Prog Op Resp ε (Resp o) := call o ret

def ofExcept : Except ε α → Prog Op Resp ε α
  | .ok a => ret a
  | .error e => throw e

def orThrow (e : ε) : Option α → Prog Op Resp ε α
  | some a => ret a
  | none => throw e

def attempt : Prog Op Resp ε α → Prog Op Resp ε' (Except ε α)
  | ret a => ret (.ok a)
  | throw e => ret (.error e)
  | call o k => call o fun r => (k r).attempt
  | hang => hang

def mapError (f : ε → ε') : Prog Op Resp ε α → Prog Op Resp ε' α
  | ret a => ret a
  | throw e => throw (f e)
  | call o k => call o fun r => (k r).mapError f
  | hang => hang

/-- The program when the answers that are known already are put in. -/
def resolve (known : (o : Op) → Option (Resp o)) : Prog Op Resp ε α → Prog Op Resp ε α
  | ret a => ret a
  | throw e => throw e
  | call o k =>
    match known o with
    | some r => (k r).resolve known
    | none => call o fun r => (k r).resolve known
  | hang => hang

def loop (body : Prog Op Resp ε (Option α)) : Nat → Prog Op Resp ε α
  | 0 => hang
  | n + 1 => body.bind fun
    | some a => ret a
    | none => loop body n

@[simp] theorem pure_eq (a : α) : (pure a : Prog Op Resp ε α) = ret a := rfl

@[simp] theorem bind_eq (p : Prog Op Resp ε α) (f : α → Prog Op Resp ε β) :
    (p >>= f) = p.bind f := rfl

@[simp] theorem ret_bind (a : α) (f : α → Prog Op Resp ε β) : (ret a).bind f = f a := rfl

@[simp] theorem throw_bind (e : ε) (f : α → Prog Op Resp ε β) :
    (throw e : Prog Op Resp ε α).bind f = throw e := rfl

@[simp] theorem call_bind (o : Op) (k : Resp o → Prog Op Resp ε α) (f : α → Prog Op Resp ε β) :
    (call o k).bind f = call o fun r => (k r).bind f := rfl

@[simp] theorem hang_bind (f : α → Prog Op Resp ε β) :
    (hang : Prog Op Resp ε α).bind f = hang := rfl

@[simp] theorem op_bind (o : Op) (f : Resp o → Prog Op Resp ε β) :
    (op o).bind f = call o f := rfl

@[simp] theorem ofExcept_ok (a : α) : (ofExcept (.ok a) : Prog Op Resp ε α) = ret a := rfl

@[simp] theorem ofExcept_error (e : ε) : (ofExcept (.error e) : Prog Op Resp ε α) = throw e := rfl

@[simp] theorem orThrow_some (e : ε) (a : α) :
    (orThrow e (some a) : Prog Op Resp ε α) = ret a := rfl

@[simp] theorem orThrow_none (e : ε) : (orThrow e none : Prog Op Resp ε α) = throw e := rfl

@[simp] theorem ret_mapError (f : ε → ε') (a : α) :
    (ret a : Prog Op Resp ε α).mapError f = ret a := rfl

@[simp] theorem throw_mapError (f : ε → ε') (e : ε) :
    (throw e : Prog Op Resp ε α).mapError f = throw (f e) := rfl

theorem bind_assoc (p : Prog Op Resp ε α) (f : α → Prog Op Resp ε β)
    (g : β → Prog Op Resp ε γ) : (p.bind f).bind g = p.bind fun a => (f a).bind g := by
  induction p with
  | ret a => rfl
  | throw e => rfl
  | call o k ih => exact congrArg (call o) (funext ih)
  | hang => rfl

theorem bind_mapError (p : Prog Op Resp ε α) (f : α → Prog Op Resp ε β) (g : ε → ε') :
    (p.bind f).mapError g = (p.mapError g).bind fun a => (f a).mapError g := by
  induction p with
  | ret a => rfl
  | throw e => rfl
  | call o k ih => exact congrArg (call o) (funext ih)
  | hang => rfl

section
variable {known : (o : Op) → Option (Resp o)}

theorem resolve_call_some {o : Op} {r : Resp o} (h : known o = some r)
    (k : Resp o → Prog Op Resp ε α) : (call o k).resolve known = (k r).resolve known := by
  rw [resolve, h]

theorem resolve_call_none {o : Op} (h : known o = none) (k : Resp o → Prog Op Resp ε α) :
    (call o k).resolve known = call o fun r => (k r).resolve known := by
  rw [resolve, h]

end

def Calls (P : Op → Prop) : Prog Op Resp ε α → Prop
  | ret _ => True
  | throw _ => True
  | call o k => P o ∧ ∀ r, (k r).Calls P
  | hang => True

section
variable {P P' : Op → Prop}

theorem Calls.mono {p : Prog Op Resp ε α} (h : p.Calls P) (hP : ∀ o, P o → P' o) :
    p.Calls P' := by
  induction p with
  | ret a => trivial
  | throw e => trivial
  | call o k ih => exact ⟨hP o h.1, fun r => ih r (h.2 r)⟩
  | hang => trivial

theorem Calls.bind {p : Prog Op Resp ε α} {f : α → Prog Op Resp ε β} (hp : p.Calls P)
    (hf : ∀ a, (f a).Calls P) : (p.bind f).Calls P := by
  induction p with
  | ret a => exact hf a
  | throw e => trivial
  | call o k ih => exact ⟨hp.1, fun r => ih r (hp.2 r)⟩
  | hang => trivial

theorem calls_ofExcept (r : Except ε α) : (ofExcept r : Prog Op Resp ε α).Calls P := by
  cases r with
  | ok a => trivial
  | error e => trivial

theorem calls_op {o : Op} (h : P o) : (op o : Prog Op Resp ε (Resp o)).Calls P :=
  ⟨h, fun _ => trivial⟩

theorem Calls.attempt {p : Prog Op Resp ε α} (hp : p.Calls P) :
    (p.attempt : Prog Op Resp ε' (Except ε α)).Calls P := by
  induction p with
  | ret a => trivial
  | throw e => trivial
  | call o k ih => exact ⟨hp.1, fun r => ih r (hp.2 r)⟩
  | hang => trivial

theorem Calls.resolve_eq {known : (o : Op) → Option (Resp o)} {p : Prog Op Resp ε α}
    (hp : p.Calls fun o => known o = none) : p.resolve known = p := by
  induction p with
  | ret a => rfl
  | throw e => rfl
  | call o k ih =>
    rw [resolve_call_none hp.1]
    exact congrArg (call o) (funext fun r => ih r (hp.2 r))
  | hang => rfl

theorem Calls.mapError {p : Prog Op Resp ε α} (hp : p.Calls P) (f : ε → ε') :
    (p.mapError f).Calls P := by
  induction p with
  | ret a => trivial
  | throw e => trivial
  | call o k ih => exact ⟨hp.1, fun r => ih r (hp.2 r)⟩
  | hang => trivial

theorem calls_loop {body : Prog Op Resp ε (Option α)} (hbody : body.Calls P) (n : Nat) :
    (loop body n).Calls P := by
  induction n with
  | zero => trivial
  | succ n ih =>
    refine Calls.bind hbody fun r => ?_
    cases r with
    | some a => trivial
    | none => exact ih

end

inductive Step : Prog Op Resp ε α → Event Op Resp → Prog Op Resp ε α → Prop
  | call (o : Op) (k : Resp o → Prog Op Resp ε α) (r : Resp o) : Step (call o k) ⟨o, r⟩ (k r)

/-- `Run p h q`: having exchanged the events of `h`, program `p` goes on as `q`. -/
inductive Run : Prog Op Resp ε α → List (Event Op Resp) → Prog Op Resp ε α → Prop
  | nil (p : Prog Op Resp ε α) : Run p [] p
  | cons {p q r : Prog Op Resp ε α} {e : Event Op Resp} {h : List (Event Op Resp)} :
      Step p e q → Run q h r → Run p (e :: h) r

theorem Run.call {o : Op} {k : Resp o → Prog Op Resp ε α} {q : Prog Op Resp ε α}
    {h : List (Event Op Resp)} (r : Resp o) (hr : Run (k r) h q) :
    Run (Prog.call o k) (⟨o, r⟩ :: h) q :=
  .cons (.call o k r) hr

theorem Run.snoc {p q r : Prog Op Resp ε α} {h : List (Event Op Resp)} {e : Event Op Resp}
    (hr : Run p h q) (hs : Step q e r) : Run p (h ++ [e]) r := by
  induction hr with
  | nil p => exact .cons hs (.nil _)
  | cons hs' _ ih => exact .cons hs' (ih hs)

theorem Run.bind {p : Prog Op Resp ε α} {h h' : List (Event Op Resp)} {a : α}
    {f : α → Prog Op Resp ε β} {q : Prog Op Resp ε β} (hp : Run p h (ret a)) (hf : Run (f a) h' q) :
    Run (p.bind f) (h ++ h') q := by
  generalize hr : ret a = r at hp
  induction hp with
  | nil p =>
    subst hr
    exact hf
  | cons hs _ ih =>
    cases hs with
    | call o k r => exact .cons (.call o _ r) (ih hr)

theorem Run.bind_left {p q : Prog Op Resp ε α} {h : List (Event Op Resp)} (hp : Run p h q)
    (f : α → Prog Op Resp ε β) : Run (p.bind f) h (q.bind f) := by
  induction hp with
  | nil p => exact .nil _
  | cons hs _ ih =>
    cases hs with
    | call o k r => exact .call r ih

theorem run_call_iff {o : Op} {k : Resp o → Prog Op Resp ε α} {h : List (Event Op Resp)}
    {q : Prog Op Resp ε α} :
    Run (call o k) h q ↔ (h = [] ∧ q = call o k) ∨ ∃ r h', h = ⟨o, r⟩ :: h' ∧ Run (k r) h' q := by
  constructor
  · intro hr
    cases hr with
    | nil => exact .inl ⟨rfl, rfl⟩
    | cons hs hrest =>
      cases hs with
      | call o k r => exact .inr ⟨r, _, rfl, hrest⟩
  · rintro (⟨rfl, rfl⟩ | ⟨r, h', rfl, hrest⟩)
    · exact .nil _
    · exact .call r hrest

theorem Calls.of_run {P : Op → Prop} {p q : Prog Op Resp ε α} {h : List (Event Op Resp)}
    (hp : p.Calls P) (hr : Run p h q) : ∀ e ∈ h, P e.op := by
  induction hr with
  | nil p =>
    intro e he
    exact absurd he List.not_mem_nil
  | cons hs _ ih =>
    cases hs with
    | call o k r => exact List.forall_mem_cons.mpr ⟨hp.1, ih (hp.2 r)⟩

theorem Run.of_mapError {p : Prog Op Resp ε α} {f : ε → ε'} {h : List (Event Op Resp)}
    {q : Prog Op Resp ε' α} (hr : Run (p.mapError f) h q) : ∃ q', Run p h q' ∧ q = q'.mapError f := by
  induction h generalizing p with
  | nil =>
    cases hr
    exact ⟨p, .nil p, rfl⟩
  | cons e h ih =>
    cases hr with
    | cons hs hrest =>
      cases p with
      | ret a => cases hs
      | throw err => cases hs
      | call o k =>
        cases hs
        obtain ⟨q', hq', rfl⟩ := ih hrest
        exact ⟨q', .call _ hq', rfl⟩
      | hang => cases hs

theorem Run.attempt {p q : Prog Op Resp ε α} {h : List (Event Op Resp)} (hp : Run p h q) :
    Run (p.attempt : Prog Op Resp ε' (Except ε α)) h q.attempt := by
  induction hp with
  | nil p => exact .nil _
  | cons hs _ ih =>
    cases hs with
    | call o k r => exact .call r ih

end Prog

/-- A monitor watches a program's events with a state of its own: it says which operation may be called
(`allowed`), and which answers the surroundings may give (`possible`). -/
structure Monitor (Op : Type) (Resp : Op → Type) (S : Type) where
  allowed : S → Op → Prop
  possible : S → (o : Op) → Resp o → Prop
  next : S → (o : Op) → Resp o → S

namespace Monitor

def after (M : Monitor Op Resp S) : S → List (Event Op Resp) → S
  | s, [] => s
  | s, e :: h => M.after (M.next s e.op e.resp) h

def Admits (M : Monitor Op Resp S) : S → List (Event Op Resp) → Prop
  | _, [] => True
  | s, e :: h => M.possible s e.op e.resp ∧ M.Admits (M.next s e.op e.resp) h

def Accepts (M : Monitor Op Resp S) : S → List (Event Op Resp) → Prop
  | _, [] => True
  | s, e :: h => M.allowed s e.op ∧ M.Accepts (M.next s e.op e.resp) h

theorem after_append (M : Monitor Op Resp S) (s : S) (h h' : List (Event Op Resp)) :
    M.after s (h ++ h') = M.after (M.after s h) h' := by
  induction h generalizing s with
  | nil => rfl
  | cons e h ih => exact ih _

theorem after_snoc (M : Monitor Op Resp S) (s : S) (h : List (Event Op Resp))
    (e : Event Op Resp) : M.after s (h ++ [e]) = M.next (M.after s h) e.op e.resp := by
  rw [after_append]
  rfl

theorem after_flatMap {M : Monitor Op Resp S} {B : Type} {f : S → List B}
    {g : Event Op Resp → List B} (hnext : ∀ s e, f (M.next s e.op e.resp) = f s ++ g e) (s : S)
    (h : List (Event Op Resp)) : f (M.after s h) = f s ++ h.flatMap g := by
  induction h generalizing s with
  | nil => exact (List.append_nil _).symm
  | cons e h ih =>
    rw [List.flatMap_cons, ← List.append_assoc, ← hnext]
    exact ih _

theorem accepts_append (M : Monitor Op Resp S) (s : S) (h h' : List (Event Op Resp)) :
    M.Accepts s (h ++ h') ↔ M.Accepts s h ∧ M.Accepts (M.after s h) h' := by
  induction h generalizing s with
  | nil => simp only [List.nil_append, Accepts, after, true_and]
  | cons e h ih => simp only [List.cons_append, Accepts, after, ih, and_assoc]

theorem admits_of_forall {M : Monitor Op Resp S} {h : List (Event Op Resp)}
    (hpossible : ∀ e ∈ h, ∀ s, M.possible s e.op e.resp) (s : S) : M.Admits s h := by
  induction h generalizing s with
  | nil => trivial
  | cons e h ih =>
    obtain ⟨hfirst, hrest⟩ := List.forall_mem_cons.mp hpossible
    exact ⟨hfirst s, ih hrest _⟩

theorem op_of_accepts {M : Monitor Op Resp S} {P : Op → Prop} (hP : ∀ s o, M.allowed s o → P o)
    {s : S} {h : List (Event Op Resp)} (ha : M.Accepts s h) : ∀ e ∈ h, P e.op := by
  induction h generalizing s with
  | nil =>
    intro e he
    exact absurd he List.not_mem_nil
  | cons e h ih => exact List.forall_mem_cons.mpr ⟨hP s e.op ha.1, ih ha.2⟩

theorem accepts_snoc (M : Monitor Op Resp S) (s : S) (h : List (Event Op Resp))
    (e : Event Op Resp) :
    M.Accepts s (h ++ [e]) ↔ M.Accepts s h ∧ M.allowed (M.after s h) e.op := by
  rw [accepts_append]
  exact and_congr_right fun _ => and_iff_left trivial

/-- From monitor state `s` every run of the program keeps to the monitor, and ends in `Q` or `E`. -/
def wp (M : Monitor Op Resp S) :
    Prog Op Resp ε α → (α → S → Prop) → (ε → S → Prop) → S → Prop
  | .ret a, Q, _, s => Q a s
  | .throw e, _, E, s => E e s
  | .call o k, Q, E, s =>
    M.allowed s o ∧ ∀ r, M.possible s o r → M.wp (k r) Q E (M.next s o r)
  | .hang, _, _, _ => True

variable {M : Monitor Op Resp S} {Q Q' : α → S → Prop} {E E' : ε → S → Prop} {s : S}

@[simp] theorem wp_ret (a : α) :
    M.wp (.ret a : Prog Op Resp ε α) Q E s ↔ Q a s := Iff.rfl

@[simp] theorem wp_throw (e : ε) :
    M.wp (.throw e : Prog Op Resp ε α) Q E s ↔ E e s := Iff.rfl

@[simp] theorem wp_call (o : Op) (k : Resp o → Prog Op Resp ε α) :
    M.wp (.call o k) Q E s ↔
      M.allowed s o ∧ ∀ r, M.possible s o r → M.wp (k r) Q E (M.next s o r) := Iff.rfl

@[simp] theorem wp_hang : M.wp (.hang : Prog Op Resp ε α) Q E s := trivial

theorem wp_bind (p : Prog Op Resp ε α) (f : α → Prog Op Resp ε β) {Q : β → S → Prop} :
    M.wp (p.bind f) Q E s ↔ M.wp p (fun a => M.wp (f a) Q E) E s := by
  induction p generalizing s with
  | ret a => rfl
  | throw e => rfl
  | call o k ih => simp only [Prog.call_bind, wp_call, ih]
  | hang => rfl

theorem wp_mono {p : Prog Op Resp ε α} (hQ : ∀ a s, Q a s → Q' a s) (hE : ∀ e s, E e s → E' e s)
    (h : M.wp p Q E s) : M.wp p Q' E' s := by
  induction p generalizing s with
  | ret a => exact hQ a s h
  | throw e => exact hE e s h
  | call o k ih => exact ⟨h.1, fun r hr => ih r (h.2 r hr)⟩
  | hang => trivial

theorem wp_attempt (p : Prog Op Resp ε α) {Q : Except ε α → S → Prop} {E : ε' → S → Prop} :
    M.wp p.attempt Q E s ↔ M.wp p (fun a => Q (.ok a)) (fun e => Q (.error e)) s := by
  induction p generalizing s with
  | ret a => rfl
  | throw e => rfl
  | call o k ih => simp only [Prog.attempt, wp_call, ih]
  | hang => rfl

theorem wp_mapError (p : Prog Op Resp ε α) (f : ε → ε') {E : ε' → S → Prop} :
    M.wp (p.mapError f) Q E s ↔ M.wp p Q (fun e => E (f e)) s := by
  induction p generalizing s with
  | ret a => rfl
  | throw e => rfl
  | call o k ih => simp only [Prog.mapError, wp_call, ih]
  | hang => rfl

/-- The loop rule: an invariant of the monitor state that every turn keeps. -/
theorem wp_loop {body : Prog Op Resp ε (Option α)} {I : S → Prop}
    (hbody : ∀ s, I s → M.wp body (fun r s' => match r with
      | some a => Q a s'
      | none => I s') E s) (n : Nat) (hs : I s) : M.wp (Prog.loop body n) Q E s := by
  induction n generalizing s with
  | zero => trivial
  | succ n ih =>
    rw [Prog.loop, wp_bind]
    refine wp_mono (fun r s' hr => ?_) (fun _ _ he => he) (hbody s hs)
    cases r with
    | some a => exact hr
    | none => exact ih hr

/-- The rule for programs known only by what they call: an invariant of the monitor state. -/
theorem wp_of_calls {P : Op → Prop} {I : S → Prop}
    (hstep : ∀ s o r, I s → P o → M.possible s o r → I (M.next s o r))
    (hallowed : ∀ s o, I s → P o → M.allowed s o) {p : Prog Op Resp ε α} (hp : p.Calls P)
    (hs : I s) : M.wp p (fun _ s' => I s') (fun _ s' => I s') s := by
  induction p generalizing s with
  | ret a => exact hs
  | throw e => exact hs
  | call o k ih =>
    exact ⟨hallowed s o hs hp.1, fun r hr => ih r (hp.2 r) (hstep s o r hs hp.1 hr)⟩
  | hang => trivial

def Safe (M : Monitor Op Resp S) (p : Prog Op Resp ε α) : Prop :=
  ∀ s, M.wp p (fun _ _ => True) (fun _ _ => True) s

theorem safe_of_calls {P : Op → Prop} (h : ∀ s o, P o → M.allowed s o) {p : Prog Op Resp ε α}
    (hp : p.Calls P) : M.Safe p := fun _ =>
  wp_of_calls (I := fun _ => True) (fun _ _ _ _ _ _ => trivial) (fun s o _ ho => h s o ho) hp
    trivial

theorem safe_ofExcept (r : Except ε α) : M.Safe (Prog.ofExcept r : Prog Op Resp ε α) :=
  safe_of_calls (P := fun _ => False) (fun _ _ ho => ho.elim) (Prog.calls_ofExcept r)

theorem Safe.bind {p : Prog Op Resp ε α} {f : α → Prog Op Resp ε β} (hp : M.Safe p)
    (hf : ∀ a, M.Safe (f a)) : M.Safe (p.bind f) := by
  intro s
  rw [wp_bind]
  exact wp_mono (fun a s' _ => hf a s') (fun _ _ he => he) (hp s)

theorem Safe.attempt {p : Prog Op Resp ε α} (hp : M.Safe p) :
    M.Safe (p.attempt : Prog Op Resp ε' (Except ε α)) := by
  intro s
  rw [wp_attempt]
  exact hp s

theorem Safe.mapError {p : Prog Op Resp ε α} (hp : M.Safe p) (f : ε → ε') :
    M.Safe (p.mapError f) := by
  intro s
  rw [wp_mapError]
  exact hp s

theorem safe_loop {body : Prog Op Resp ε (Option α)} (hbody : M.Safe body) (n : Nat) :
    M.Safe (Prog.loop body n) := by
  intro s
  refine wp_loop (I := fun _ => True) (fun s' _ => ?_) n trivial
  refine wp_mono (fun r _ _ => ?_) (fun _ _ he => he) (hbody s')
  cases r with
  | some a => trivial
  | none => trivial

theorem wp_step {p q : Prog Op Resp ε α} {e : Event Op Resp} (h : M.wp p Q E s)
    (hs : Prog.Step p e q) (he : M.possible s e.op e.resp) :
    M.allowed s e.op ∧ M.wp q Q E (M.next s e.op e.resp) := by
  cases hs with
  | call o k r => exact ⟨h.1, h.2 r he⟩

/-- What `wp` promises of a run: the operations were allowed, and it goes on as promised. -/
theorem wp_run {p q : Prog Op Resp ε α} {h : List (Event Op Resp)} (hwp : M.wp p Q E s)
    (hr : Prog.Run p h q) (ha : M.Admits s h) :
    M.Accepts s h ∧ M.wp q Q E (M.after s h) := by
  induction hr generalizing s with
  | nil p => exact ⟨trivial, hwp⟩
  | cons hs _ ih =>
    have hnext := wp_step hwp hs ha.1
    have hrest := ih hnext.2 ha.2
    exact ⟨⟨hnext.1, hrest.1⟩, hrest.2⟩

section
variable {possible : S → (o : Op) → Resp o → Prop} {next : S → (o : Op) → Resp o → S}
  {I : S → Prop}

/-- The monitor that lets an operation be called when every answer to it keeps the invariant. -/
def keeps (possible : S → (o : Op) → Resp o → Prop) (next : S → (o : Op) → Resp o → S)
    (I : S → Prop) : Monitor Op Resp S where
  allowed s o := ∀ r, possible s o r → I (next s o r)
  possible := possible
  next := next

theorem wp_keeps_call {o : Op} {k : Resp o → Prog Op Resp ε α}
    (h : ∀ r, possible s o r → I (next s o r) ∧
      (keeps possible next I).wp (k r) Q E (next s o r)) :
    (keeps possible next I).wp (.call o k) Q E s :=
  ⟨fun r hr => (h r hr).1, fun r hr => (h r hr).2⟩

theorem keeps_after {h : List (Event Op Resp)} (hs : I s)
    (haccepts : (keeps possible next I).Accepts s h)
    (hadmits : (keeps possible next I).Admits s h) : I ((keeps possible next I).after s h) := by
  induction h generalizing s with
  | nil => exact hs
  | cons e h ih => exact ih (haccepts.1 e.resp hadmits.1) haccepts.2 hadmits.2

end

/-- The monitor whose state is what has happened so far; any answer is possible. -/
def history (allowed : List (Event Op Resp) → Op → Prop) :
    Monitor Op Resp (List (Event Op Resp)) where
  allowed := allowed
  possible _ _ _ := True
  next h o r := h ++ [⟨o, r⟩]

section
variable {allowed : List (Event Op Resp) → Op → Prop}

theorem history_after (h h' : List (Event Op Resp)) :
    (history allowed).after h h' = h ++ h' := by
  induction h' generalizing h with
  | nil => rw [List.append_nil]; rfl
  | cons e h' ih =>
    have hstep := ih (h ++ [e])
    rw [List.append_assoc, List.singleton_append] at hstep
    exact hstep

theorem history_admits (s h : List (Event Op Resp)) : (history allowed).Admits s h :=
  admits_of_forall (fun _ _ _ => trivial) s

/-- An event of a run the monitor accepts was allowed by what had happened before it. -/
theorem history_allowed {h : List (Event Op Resp)} {e : Event Op Resp}
    (ha : (history allowed).Accepts [] h) (he : e ∈ h) :
    ∃ before after, h = before ++ e :: after ∧ allowed before e.op := by
  obtain ⟨before, after, rfl⟩ := List.append_of_mem he
  rw [accepts_append, history_after, List.nil_append] at ha
  exact ⟨before, after, rfl, ha.2.1⟩

theorem history_run {p q : Prog Op Resp ε α} {h : List (Event Op Resp)}
    {Q : α → List (Event Op Resp) → Prop} {E : ε → List (Event Op Resp) → Prop}
    (hwp : (history allowed).wp p Q E []) (hr : Prog.Run p h q) :
    (history allowed).wp q Q E h := by
  have hend := (wp_run hwp hr (history_admits [] h)).2
  rwa [history_after, List.nil_append] at hend

end

end Monitor

namespace Prog

/-- Run a program against surroundings with a state of their own; the events it exchanged, the
state it left, and its result (none for a used-up unrolling). -/
def eval (answer : σ → (o : Op) → Resp o × σ) :
    Prog Op Resp ε α → σ → List (Event Op Resp) × σ × Option (Except ε α)
  | ret a, s => ([], s, some (.ok a))
  | throw e, s => ([], s, some (.error e))
  | call o k, s =>
    let out := eval answer (k (answer s o).1) (answer s o).2
    (⟨o, (answer s o).1⟩ :: out.1, out.2)
  | hang, s => ([], s, none)

variable {answer : σ → (o : Op) → Resp o × σ}

@[simp] theorem eval_ret (a : α) (s : σ) :
    eval answer (ret a : Prog Op Resp ε α) s = ([], s, some (.ok a)) := rfl

@[simp] theorem eval_throw (e : ε) (s : σ) :
    eval answer (throw e : Prog Op Resp ε α) s = ([], s, some (.error e)) := rfl

@[simp] theorem eval_call (o : Op) (k : Resp o → Prog Op Resp ε α) (s : σ) :
    eval answer (call o k) s =
      (⟨o, (answer s o).1⟩ :: (eval answer (k (answer s o).1) (answer s o).2).1,
        (eval answer (k (answer s o).1) (answer s o).2).2) := rfl

theorem eval_bind (p : Prog Op Resp ε α) (f : α → Prog Op Resp ε β) (s : σ) :
    eval answer (p.bind f) s = match eval answer p s with
      | (h, s', some (.ok a)) => (h ++ (eval answer (f a) s').1, (eval answer (f a) s').2)
      | (h, s', some (.error e)) => (h, s', some (.error e))
      | (h, s', none) => (h, s', none) := by
  induction p generalizing s with
  | ret a => rfl
  | throw e => rfl
  | call o k ih =>
    rw [call_bind, eval_call, ih, eval_call]
    obtain ⟨h, s', r⟩ := eval answer (k (answer s o).1) (answer s o).2
    rcases r with _ | e | a
    · rfl
    · rfl
    · rfl
  | hang => rfl

theorem eval_attempt (p : Prog Op Resp ε α) (s : σ) :
    eval answer (p.attempt : Prog Op Resp ε' (Except ε α)) s =
      ((eval answer p s).1, (eval answer p s).2.1, (eval answer p s).2.2.map .ok) := by
  induction p generalizing s with
  | ret a => rfl
  | throw e => rfl
  | call o k ih => simp only [attempt, eval_call, ih]
  | hang => rfl

theorem eval_bind_ret (p : Prog Op Resp ε α) (g : α → β) (s : σ) :
    (eval answer (p.bind fun a => ret (g a)) s).1 = (eval answer p s).1 := by
  induction p generalizing s with
  | ret a => rfl
  | throw e => rfl
  | call o k ih => simp only [call_bind, eval_call, ih]
  | hang => rfl

theorem run_eval (answer : σ → (o : Op) → Resp o × σ) (p : Prog Op Resp ε α) (s : σ) :
    ∃ q, Run p (eval answer p s).1 q := by
  induction p generalizing s with
  | ret a => exact ⟨_, .nil _⟩
  | throw e => exact ⟨_, .nil _⟩
  | call o k ih =>
    obtain ⟨q, hq⟩ := ih (answer s o).1 (answer s o).2
    exact ⟨q, .cons (.call o k _) hq⟩
  | hang => exact ⟨_, .nil _⟩

theorem run_eval_end {p : Prog Op Resp ε α} {s : σ} {r : Except ε α}
    (h : (eval answer p s).2.2 = some r) : Run p (eval answer p s).1 (ofExcept r) := by
  induction p generalizing s with
  | ret a =>
    obtain rfl := Option.some.inj h
    exact .nil _
  | throw e =>
    obtain rfl := Option.some.inj h
    exact .nil _
  | call o k ih => exact .cons (.call o k _) (ih _ h)
  | hang => cases h

theorem admits_eval {M : Monitor Op Resp S} (h : ∀ s t o, M.possible t o (answer s o).1)
    (p : Prog Op Resp ε α) (s : σ) (t : S) : M.Admits t (eval answer p s).1 := by
  induction p generalizing s t with
  | ret a => trivial
  | throw e => trivial
  | call o k ih => exact ⟨h s t o, ih _ _ _⟩
  | hang => trivial

end Prog

end Interaction

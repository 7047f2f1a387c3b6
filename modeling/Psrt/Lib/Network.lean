import Psrt.Lib.Concurrent
import Psrt.Lib.Interpret
import Mathlib.Logic.Function.Basic
import Mathlib.Logic.Relation

/-! Programs of different kinds that run side by side, joined by streams. A stream carries octets from one
program to another, in order; it may break at any place, and then what was under way is lost. -/

namespace Interaction

variable {A D W Op : Type} {Resp : Op → Type} {ε α : Type}

namespace Port
variable (port : Port Op Resp A)

structure Sends (e : Event Op Resp) (more : List A) : Prop where
  part : more <+: port.offer e.op
  whole : ¬ port.Broke e.op e.resp → more = port.offer e.op

def Receives (e : Event Op Resp) (incoming rest : List A) : Prop :=
  ¬ port.Broke e.op e.resp → incoming = port.take e.op e.resp ++ rest

structure Idle (o : Op) : Prop where
  offer : port.offer o = []
  take : ∀ r, port.take o r = []
  broke : ∀ r, ¬ port.Broke o r

def Broken (h : List (Event Op Resp)) : Prop := ∃ e ∈ h, port.Broke e.op e.resp

theorem broken_snoc {h : List (Event Op Resp)} {e : Event Op Resp} :
    port.Broken (h ++ [e]) ↔ port.Broken h ∨ port.Broke e.op e.resp := by
  unfold Broken
  simp only [List.mem_append, List.mem_singleton, or_and_right, exists_or, exists_eq_left]

/-- The program leaves a stream alone once it was told that it broke. -/
def Careful (p : Prog Op Resp ε α) : Prop :=
  ∀ h o k, Prog.Run p h (.call o k) → port.Broken h → port.Idle o

def watch : Monitor Op Resp Prop where
  allowed broken o := broken → port.Idle o
  possible _ _ _ := True
  next broken o r := broken ∨ port.Broke o r

variable {port}

theorem after_watch (b : Prop) (h : List (Event Op Resp)) :
    port.watch.after b h ↔ b ∨ port.Broken h := by
  induction h generalizing b with
  | nil => simp only [Monitor.after, Broken, List.not_mem_nil, false_and, exists_false, or_false]
  | cons e h ih =>
    rw [Monitor.after, ih]
    simp only [watch, Broken, List.mem_cons, or_and_right, exists_or, exists_eq_left, or_assoc]

theorem careful_of_wp {p : Prog Op Resp ε α} {Q : α → Prop → Prop} {E : ε → Prop → Prop}
    (h : port.watch.wp p Q E False) : port.Careful p := by
  intro history o k hr hbroken
  have hadmits : port.watch.Admits False history :=
    Monitor.admits_of_forall (fun _ _ _ => trivial) _
  have hcall := (Monitor.wp_run h hr hadmits).2
  exact hcall.1 ((after_watch False history).mpr (.inr hbroken))

theorem wp_watch_of_stopsOn {p : Prog Op Resp ε α} (hp : p.StopsOn port.Broke) {b : Prop}
    (hb : ¬ b) : port.watch.wp p (fun _ b => ¬ b) (fun _ _ => True) b := by
  induction p generalizing b with
  | ret a => exact hb
  | throw e => trivial
  | call o k ih =>
    refine ⟨fun h => absurd h hb, fun r _ => ?_⟩
    by_cases hbroke : port.Broke o r
    · obtain ⟨e, he⟩ := (hp r).1 hbroke
      rw [he]
      trivial
    · exact ih r (hp r).2 fun h => h.elim hb hbroke
  | hang => trivial

theorem careful_of_stopsOn {p : Prog Op Resp ε α} (hp : p.StopsOn port.Broke) : port.Careful p :=
  careful_of_wp (wp_watch_of_stopsOn hp id)

theorem careful_loop {body : Prog Op Resp ε (Option α)}
    (hbody : port.watch.wp body (fun r b => r = none → ¬ b) (fun _ _ => True) False) (n : Nat) :
    port.Careful (Prog.loop body n) := by
  refine careful_of_wp (Q := fun _ _ => True) (E := fun _ _ => True)
    (Monitor.wp_loop (I := fun b => ¬ b) (fun b hb => ?_) n id)
  rw [eq_false hb]
  refine Monitor.wp_mono (fun r b' hr => ?_) (fun _ _ => id) hbody
  cases r with
  | some a => trivial
  | none => exact hr rfl

theorem throw_of_broken {p q : Prog Op Resp ε α} {h : List (Event Op Resp)}
    (hp : p.StopsOn port.Broke) (hr : Prog.Run p h q) (hbroken : port.Broken h) :
    ∃ e, q = .throw e := by
  induction hr with
  | nil p =>
    obtain ⟨e, he, _⟩ := hbroken
    exact absurd he List.not_mem_nil
  | cons hs hrest ih =>
    obtain ⟨hq, hthrow⟩ := hp.step hs
    obtain ⟨e, he, hbroke⟩ := hbroken
    rcases List.mem_cons.mp he with rfl | he
    · obtain ⟨err, rfl⟩ := hthrow hbroke
      exact ⟨err, hrest.of_throw.2⟩
    · exact ih hq ⟨e, he, hbroke⟩

theorem Careful.bind {β : Type} {p : Prog Op Resp ε α} {f : α → Prog Op Resp ε β}
    (hp : p.StopsOn port.Broke) (hf : ∀ a, port.Careful (f a)) : port.Careful (p.bind f) := by
  intro h o k hr hbroken
  rcases hr.of_bind with ⟨p', hp', hcall⟩ | ⟨h₁, h₂, a, rfl, h₁run, h₂run⟩
  · obtain ⟨e, rfl⟩ := throw_of_broken hp hp' hbroken
    cases hcall
  · apply hf a h₂ o k h₂run
    obtain ⟨e, he, hbroke⟩ := hbroken
    rcases List.mem_append.mp he with he | he
    · obtain ⟨err, hret⟩ := throw_of_broken hp h₁run ⟨e, he, hbroke⟩
      cases hret
    · exact ⟨e, he, hbroke⟩

end Port

structure Node (A D W : Type) where
  Op : Type
  Resp : Op → Type
  Err : Type
  Val : Type
  body : Prog Op Resp Err Val
  port : D → Port Op Resp A
  Exec : W → (o : Op) → Resp o → W → Prop

variable {ι : Type} {node : ι → Node A D W}

structure Wiring (D ι : Type) where
  src : D → ι
  dst : D → ι
  ne : ∀ d, src d ≠ dst d

/-- What every program has exchanged and what is left of it, the world, and the streams. -/
structure Net (node : ι → Node A D W) where
  world : W
  rest : (i : ι) → Prog (node i).Op (node i).Resp (node i).Err (node i).Val
  history : (i : ι) → List (Event (node i).Op (node i).Resp)
  streams : D → Stream A

namespace Net

inductive Carries (wiring : Wiring D ι) (i : ι) (e : Event (node i).Op (node i).Resp) (d : D) :
    Stream A → Stream A → Prop
  | send {stream} (h : wiring.src d = i) (more : List A) (hs : ((node i).port d).Sends e more) :
      Carries wiring i e d stream (stream.put more)
  | receive {stream} (h : wiring.dst d = i) (rest : List A)
      (hr : ((node i).port d).Receives e stream.unread rest) :
      Carries wiring i e d stream { stream with unread := rest }
  | pass {stream} (hs : wiring.src d ≠ i) (hd : wiring.dst d ≠ i) :
      Carries wiring i e d stream stream

variable [DecidableEq ι] {wiring : Wiring D ι} {Env : W → W → Prop} {Init : W → Prop}

inductive Step (wiring : Wiring D ι) (Env : W → W → Prop) : Net node → Net node → Prop
  | act {s} (i : ι) (e : Event (node i).Op (node i).Resp)
      (q : Prog (node i).Op (node i).Resp (node i).Err (node i).Val) (world : W)
      (streams : D → Stream A) (hs : Prog.Step (s.rest i) e q)
      (hw : (node i).Exec s.world e.op e.resp world)
      (hc : ∀ d, Carries wiring i e d (s.streams d) (streams d)) :
      Step wiring Env s
        { world, streams
          rest := Function.update s.rest i q
          history := Function.update s.history i (s.history i ++ [e]) }
  | env {s} (world : W) (h : Env s.world world) : Step wiring Env s { s with world := world }

inductive Reachable (wiring : Wiring D ι) (Env : W → W → Prop) (Init : W → Prop) :
    Net node → Prop
  | init {world} (h : Init world) :
      Reachable wiring Env Init ⟨world, fun i => (node i).body, fun _ => [], fun _ => ⟨[], []⟩⟩
  | step {s s'} (hr : Reachable wiring Env Init s) (hs : Step wiring Env s s') :
      Reachable wiring Env Init s'

variable {s s' : Net node}

theorem Reachable.invariant {I : Net node → Prop}
    (hinit : ∀ world, Init world →
      I ⟨world, fun i => (node i).body, fun _ => [], fun _ => ⟨[], []⟩⟩)
    (hstep : ∀ s s', Reachable wiring Env Init s → I s → Step wiring Env s s' → I s')
    (h : Reachable wiring Env Init s) : I s := by
  induction h with
  | init h => exact hinit _ h
  | step hr hs ih => exact hstep _ _ hr ih hs

abbrev Later (wiring : Wiring D ι) (Env : W → W → Prop) : Net node → Net node → Prop :=
  Relation.ReflTransGen (Step wiring Env)

theorem Reachable.later (hr : Reachable wiring Env Init s) (h : Later wiring Env s s') :
    Reachable wiring Env Init s' := by
  induction h with
  | refl => exact hr
  | tail _ hs ih => exact ih.step hs

theorem Reachable.run (h : Reachable wiring Env Init s) (i : ι) :
    Prog.Run (node i).body (s.history i) (s.rest i) := by
  refine h.invariant (I := fun s => Prog.Run (node i).body (s.history i) (s.rest i))
    (fun _ _ => .nil _) ?_
  intro s s' _ hrun hs
  cases hs with
  | env world h => exact hrun
  | act j e q world streams hs hw hc =>
    by_cases hij : i = j
    · subst hij
      simp only [Function.update_self]
      exact hrun.snoc hs
    · simp only [Function.update_of_ne hij]
      exact hrun

theorem Reachable.exec (h : Reachable wiring Env Init s) (i : ι) :
    ∀ e ∈ s.history i, ∃ w w', (node i).Exec w e.op e.resp w' := by
  refine h.invariant (I := fun s => ∀ e ∈ s.history i, ∃ w w', (node i).Exec w e.op e.resp w')
    (fun _ _ e he => absurd he List.not_mem_nil) ?_
  intro s s' _ hexec hs
  cases hs with
  | env world h => exact hexec
  | act j e q world streams hs hw hc =>
    by_cases hij : i = j
    · subst hij
      simp only [Function.update_self]
      exact List.forall_mem_append.mpr ⟨hexec, List.forall_mem_singleton.mpr ⟨_, _, hw⟩⟩
    · simp only [Function.update_of_ne hij]
      exact hexec

def offered (wiring : Wiring D ι) (s : Net node) (d : D) : List A :=
  ((node (wiring.src d)).port d).offered (s.history (wiring.src d))

def taken (wiring : Wiring D ι) (s : Net node) (d : D) : List A :=
  ((node (wiring.dst d)).port d).taken (s.history (wiring.dst d))

structure Flow (wiring : Wiring D ι) (s : Net node) (d : D) : Prop where
  written : (s.streams d).written <+: offered wiring s d
  whole : ¬ ((node (wiring.src d)).port d).Broken (s.history (wiring.src d)) →
    (s.streams d).written = offered wiring s d
  taken : taken wiring s d <+: (s.streams d).written
  kept : ¬ ((node (wiring.dst d)).port d).Broken (s.history (wiring.dst d)) →
    Net.taken wiring s d ++ (s.streams d).unread = (s.streams d).written

/-- Both ends of every stream leave it alone when it broke, and a broken read gives nothing. -/
structure FailStop (node : ι → Node A D W) (wiring : Wiring D ι) : Prop where
  src : ∀ d, ((node (wiring.src d)).port d).Careful (node (wiring.src d)).body
  dst : ∀ d, ((node (wiring.dst d)).port d).Careful (node (wiring.dst d)).body
  nothing : ∀ d o r, ((node (wiring.dst d)).port d).Broke o r →
    ((node (wiring.dst d)).port d).take o r = []

section
variable {d : D}

omit [DecidableEq ι] in
theorem Flow.send (hstop : FailStop node wiring) (hf : Flow wiring s d)
    {e : Event (node (wiring.src d)).Op (node (wiring.src d)).Resp}
    {q : Prog (node (wiring.src d)).Op (node (wiring.src d)).Resp _ _}
    (hrun : Prog.Run (node (wiring.src d)).body (s.history (wiring.src d)) (s.rest (wiring.src d)))
    (hs : Prog.Step (s.rest (wiring.src d)) e q) {more : List A}
    (hsends : ((node (wiring.src d)).port d).Sends e more) (hd : s'.streams d = (s.streams d).put more)
    (hsrc : s'.history (wiring.src d) = s.history (wiring.src d) ++ [e])
    (hdst : s'.history (wiring.dst d) = s.history (wiring.dst d)) : Flow wiring s' d := by
  have hoffered : offered wiring s' d =
      offered wiring s d ++ ((node (wiring.src d)).port d).offer e.op := by
    unfold offered
    rw [hsrc, Port.offered_append, Port.offered_singleton]
  have htaken : Net.taken wiring s' d = Net.taken wiring s d := by
    unfold Net.taken
    rw [hdst]
  -- after a break the program does not write here any more
  have hmore : ((node (wiring.src d)).port d).Broken (s.history (wiring.src d)) → more = [] := by
    intro hbroken
    generalize hrest : s.rest (wiring.src d) = p at hrun hs
    cases hs with
    | call o k r =>
      have hidle := hstop.src d _ o k hrun hbroken
      have hpart := hsends.part
      rw [hidle.offer] at hpart
      exact List.prefix_nil.mp hpart
  refine ⟨?_, fun hsound => ?_, ?_, fun hsound => ?_⟩
  · rw [hd, hoffered]
    by_cases hbroken : ((node (wiring.src d)).port d).Broken (s.history (wiring.src d))
    · rw [hmore hbroken]
      simp only [Stream.put, List.append_nil]
      exact hf.written.trans (List.prefix_append ..)
    · simp only [Stream.put]
      rw [hf.whole hbroken]
      exact (List.prefix_append_right_inj _).mpr hsends.part
  · rw [hsrc, Port.broken_snoc, not_or] at hsound
    rw [hd, hoffered]
    simp only [Stream.put]
    rw [hf.whole hsound.1, hsends.whole hsound.2]
  · rw [hd, htaken]
    exact hf.taken.trans (List.prefix_append ..)
  · rw [hdst] at hsound
    rw [hd, htaken]
    simp only [Stream.put]
    rw [← List.append_assoc, hf.kept hsound]

omit [DecidableEq ι] in
theorem Flow.receive (hstop : FailStop node wiring) (hf : Flow wiring s d)
    {e : Event (node (wiring.dst d)).Op (node (wiring.dst d)).Resp}
    {q : Prog (node (wiring.dst d)).Op (node (wiring.dst d)).Resp _ _}
    (hrun : Prog.Run (node (wiring.dst d)).body (s.history (wiring.dst d)) (s.rest (wiring.dst d)))
    (hs : Prog.Step (s.rest (wiring.dst d)) e q) {rest : List A}
    (hreceives : ((node (wiring.dst d)).port d).Receives e (s.streams d).unread rest)
    (hd : s'.streams d = { s.streams d with unread := rest })
    (hsrc : s'.history (wiring.src d) = s.history (wiring.src d))
    (hdst : s'.history (wiring.dst d) = s.history (wiring.dst d) ++ [e]) : Flow wiring s' d := by
  have hoffered : offered wiring s' d = offered wiring s d := by
    unfold offered
    rw [hsrc]
  have htaken : Net.taken wiring s' d =
      Net.taken wiring s d ++ ((node (wiring.dst d)).port d).take e.op e.resp := by
    unfold Net.taken
    rw [hdst, Port.taken_append, Port.taken_singleton]
  have hnothing : ((node (wiring.dst d)).port d).Broken (s'.history (wiring.dst d)) →
      ((node (wiring.dst d)).port d).take e.op e.resp = [] := by
    intro hbroken
    rw [hdst, Port.broken_snoc] at hbroken
    rcases hbroken with hbefore | hnow
    · generalize hrest : s.rest (wiring.dst d) = p at hrun hs
      cases hs with
      | call o k r => exact (hstop.dst d _ o k hrun hbefore).take r
    · exact hstop.nothing d _ _ hnow
  refine ⟨?_, fun hsound => ?_, ?_, fun hsound => ?_⟩
  · rw [hd, hoffered]
    exact hf.written
  · rw [hsrc] at hsound
    rw [hd, hoffered]
    exact hf.whole hsound
  · by_cases hbroken : ((node (wiring.dst d)).port d).Broken (s'.history (wiring.dst d))
    · rw [htaken, hnothing hbroken, List.append_nil, hd]
      exact hf.taken
    · rw [hdst, Port.broken_snoc, not_or] at hbroken
      have hkept := hf.kept hbroken.1
      rw [hreceives hbroken.2, ← List.append_assoc] at hkept
      rw [htaken, hd]
      simp only
      rw [← hkept]
      exact List.prefix_append ..
  · rw [hdst, Port.broken_snoc, not_or] at hsound
    have hkept := hf.kept hsound.1
    rw [hreceives hsound.2, ← List.append_assoc] at hkept
    rw [htaken, hd]
    exact hkept

omit [DecidableEq ι] in
theorem Flow.pass (hf : Flow wiring s d) (hd : s'.streams d = s.streams d)
    (hsrc : s'.history (wiring.src d) = s.history (wiring.src d))
    (hdst : s'.history (wiring.dst d) = s.history (wiring.dst d)) : Flow wiring s' d := by
  have hoffered : offered wiring s' d = offered wiring s d := by
    unfold offered
    rw [hsrc]
  have htaken : Net.taken wiring s' d = Net.taken wiring s d := by
    unfold Net.taken
    rw [hdst]
  refine ⟨?_, fun hsound => ?_, ?_, fun hsound => ?_⟩
  · rw [hd, hoffered]
    exact hf.written
  · rw [hsrc] at hsound
    rw [hd, hoffered]
    exact hf.whole hsound
  · rw [hd, htaken]
    exact hf.taken
  · rw [hdst] at hsound
    rw [hd, htaken]
    exact hf.kept hsound

end

/-- In every state that the programs can come to, each stream has carried what was written to it. -/
theorem Reachable.flow (hstop : FailStop node wiring) (h : Reachable wiring Env Init s) (d : D) :
    Flow wiring s d := by
  refine h.invariant (I := fun s => Flow wiring s d) ?_ ?_
  · intro world _
    exact ⟨List.nil_prefix, fun _ => rfl, List.nil_prefix, fun _ => rfl⟩
  · intro s s' hr hf hs
    cases hs with
    | env world h => exact hf.pass rfl rfl rfl
    | act i e q world streams hs hw hc =>
      have hcd := hc d
      have hself : Function.update s.history i (s.history i ++ [e]) i = s.history i ++ [e] :=
        Function.update_self ..
      have hother : ∀ {j}, j ≠ i →
          Function.update s.history i (s.history i ++ [e]) j = s.history j :=
        fun hj => Function.update_of_ne hj ..
      generalize hstream : s.streams d = stream at hcd
      generalize hstream' : streams d = stream' at hcd
      cases hcd with
      | send hi more hsends =>
        subst hi
        subst hstream
        exact hf.send hstop (hr.run _) hs hsends hstream' hself (hother (wiring.ne d).symm)
      | receive hi rest hreceives =>
        subst hi
        subst hstream
        exact hf.receive hstop (hr.run _) hs hreceives hstream' (hother (wiring.ne d)) hself
      | pass hsrc hdst =>
        exact hf.pass (hstream'.trans hstream.symm) (hother hsrc) (hother hdst)

theorem Reachable.taken_prefix (hstop : FailStop node wiring) (h : Reachable wiring Env Init s)
    (d : D) : taken wiring s d <+: offered wiring s d :=
  (h.flow hstop d).taken.trans (h.flow hstop d).written

theorem Reachable.unread (hstop : FailStop node wiring) (h : Reachable wiring Env Init s) {d : D}
    (hsrc : ¬ ((node (wiring.src d)).port d).Broken (s.history (wiring.src d)))
    (hdst : ¬ ((node (wiring.dst d)).port d).Broken (s.history (wiring.dst d))) :
    taken wiring s d ++ (s.streams d).unread = offered wiring s d := by
  have hflow := h.flow hstop d
  rw [hflow.kept hdst, hflow.whole hsrc]

structure Solo (wiring : Wiring D ι) (i : ι) (h : List (Event (node i).Op (node i).Resp))
    (s s' : Net node) : Prop where
  history : s'.history i = s.history i ++ h
  others : ∀ j, j ≠ i → s'.rest j = s.rest j ∧ s'.history j = s.history j
  written : ∀ d, wiring.src d = i →
    (s'.streams d).unread = (s.streams d).unread ++ ((node i).port d).offered h
  read : ∀ d, wiring.dst d = i →
    (s.streams d).unread = ((node i).port d).taken h ++ (s'.streams d).unread
  passed : ∀ d, wiring.src d ≠ i → wiring.dst d ≠ i → (s'.streams d).unread = (s.streams d).unread

/-- A program may run alone as far as it finds enough to read. -/
theorem later_solo (wiring : Wiring D ι) (Env : W → W → Prop) (i : ι)
    {h : List (Event (node i).Op (node i).Resp)}
    {p q : Prog (node i).Op (node i).Resp (node i).Err (node i).Val} {world : W}
    (hrun : Prog.Run p h q) (hexec : System.Execs (node i).Exec s.world h world) (hp : s.rest i = p)
    (hsound : ∀ d, ∀ e ∈ h, ¬ ((node i).port d).Broke e.op e.resp)
    (hread : ∀ d, wiring.dst d = i → ((node i).port d).taken h <+: (s.streams d).unread) :
    ∃ s', Later wiring Env s s' ∧ s'.world = world ∧ s'.rest i = q ∧ Solo wiring i h s s' := by
  generalize hw : s.world = w at hexec
  induction hrun generalizing s w with
  | nil p =>
    cases hexec
    exact ⟨s, .refl, hw, hp, (List.append_nil _).symm, fun _ _ => ⟨rfl, rfl⟩,
      fun _ _ => (List.append_nil _).symm, fun _ _ => rfl, fun _ _ _ => rfl⟩
  | @cons p p₁ q e h hs hrest ih =>
    cases hexec with
    | @cons _ w₁ _ _ _ he hexec =>
      subst hw
      obtain ⟨hsoundFirst, hsoundRest⟩ : (∀ d, ¬ ((node i).port d).Broke e.op e.resp) ∧
          ∀ d, ∀ e ∈ h, ¬ ((node i).port d).Broke e.op e.resp :=
        ⟨fun d => hsound d e (List.mem_cons_self ..),
          fun d e' he' => hsound d e' (List.mem_cons_of_mem _ he')⟩
      have htaken : ∀ d, ((node i).port d).taken (e :: h) =
          ((node i).port d).take e.op e.resp ++ ((node i).port d).taken h := fun d => rfl
      let streams : D → Stream A := fun d =>
        if wiring.src d = i then (s.streams d).put (((node i).port d).offer e.op)
        else if wiring.dst d = i then
          { s.streams d with
            unread := (s.streams d).unread.drop (((node i).port d).take e.op e.resp).length }
        else s.streams d
      have hfirst : ∀ d, wiring.dst d = i → (s.streams d).unread =
          ((node i).port d).take e.op e.resp ++ (streams d).unread := by
        intro d hd
        have hsrc : wiring.src d ≠ i := fun h => wiring.ne d (h.trans hd.symm)
        obtain ⟨rest, hrest⟩ := hread d hd
        rw [htaken, List.append_assoc] at hrest
        simp only [streams, if_neg hsrc, if_pos hd]
        rw [← hrest, List.drop_left]
      have hcarries : ∀ d, Carries wiring i e d (s.streams d) (streams d) := by
        intro d
        by_cases hsrc : wiring.src d = i
        · simp only [streams, if_pos hsrc]
          exact .send hsrc _ ⟨List.prefix_rfl, fun _ => rfl⟩
        · by_cases hdst : wiring.dst d = i
          · simp only [streams, if_neg hsrc, if_pos hdst]
            have hunread := hfirst d hdst
            simp only [streams, if_neg hsrc, if_pos hdst] at hunread
            exact .receive hdst _ fun _ => hunread
          · simp only [streams, if_neg hsrc, if_neg hdst]
            exact .pass hsrc hdst
      subst hp
      have hstep : Step wiring Env s _ := .act i e p₁ w₁ streams hs he hcarries
      have hread' : ∀ d, wiring.dst d = i → ((node i).port d).taken h <+: (streams d).unread := by
        intro d hd
        have hbefore := hread d hd
        rw [hfirst d hd, htaken, List.prefix_append_right_inj] at hbefore
        exact hbefore
      obtain ⟨s', hlater, hworld, hend, hsolo⟩ := ih (s := ⟨w₁, Function.update s.rest i p₁,
        Function.update s.history i (s.history i ++ [e]), streams⟩) (Function.update_self ..)
        hsoundRest hread' w₁ rfl hexec
      refine ⟨s', .head hstep hlater, hworld, hend, ?_, fun j hj => ?_, fun d hd => ?_, fun d hd => ?_,
        fun d hsrc hdst => ?_⟩
      · rw [hsolo.history]
        simp only [Function.update_self, List.append_assoc, List.singleton_append]
      · obtain ⟨hrestj, hhistory⟩ := hsolo.others j hj
        rw [hrestj, hhistory]
        exact ⟨Function.update_of_ne hj .., Function.update_of_ne hj ..⟩
      · rw [hsolo.written d hd]
        simp only [streams, if_pos hd, Stream.put, Port.offered, List.flatMap_cons,
          List.append_assoc]
      · rw [hfirst d hd, htaken, List.append_assoc]
        exact congrArg _ (hsolo.read d hd)
      · rw [hsolo.passed d hsrc hdst]
        simp only [streams, if_neg hsrc, if_neg hdst]

end Net

end Interaction

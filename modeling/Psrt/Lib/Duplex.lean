import Psrt.Lib.Interaction
import Mathlib.Data.List.Basic

/-! Two parties, each a program that is repeated turn after turn, joined by a stream in each direction.
A stream may break at any place of what is written or read; a party that is told so stops. -/

namespace Interaction

variable {A W Op Op' : Type} {Resp : Op → Type} {Resp' : Op' → Type} {ε ε' α β : Type}

structure Port (Op : Type) (Resp : Op → Type) (A : Type) where
  offer : Op → List A
  take : (o : Op) → Resp o → List A
  /-- The answers that report a broken stream. -/
  Broke : (o : Op) → Resp o → Prop

namespace Port
variable (port : Port Op Resp A)

def offered (h : List (Event Op Resp)) : List A := h.flatMap fun e => port.offer e.op

def taken (h : List (Event Op Resp)) : List A := h.flatMap fun e => port.take e.op e.resp

/-- An event, what is to be read before and after it, and what it writes. A broken stream loses some of
the one, and carries only the beginning of the other. -/
inductive Moves (e : Event Op Resp) : List A → List A → List A → Prop
  | whole (h : ¬ port.Broke e.op e.resp) (rest : List A) :
      Moves e (port.take e.op e.resp ++ rest) rest (port.offer e.op)
  | broke (h : port.Broke e.op e.resp) (incoming rest written : List A)
      (hw : written <+: port.offer e.op) : Moves e incoming rest written

theorem offered_append (h h' : List (Event Op Resp)) :
    port.offered (h ++ h') = port.offered h ++ port.offered h' := List.flatMap_append

theorem taken_append (h h' : List (Event Op Resp)) :
    port.taken (h ++ h') = port.taken h ++ port.taken h' := List.flatMap_append

theorem offered_flatten (turns : List (List (Event Op Resp))) :
    port.offered turns.flatten = turns.flatMap port.offered := by
  unfold offered
  rw [← List.flatMap_id, List.flatMap_assoc]
  rfl

theorem taken_flatten (turns : List (List (Event Op Resp))) :
    port.taken turns.flatten = turns.flatMap port.taken := by
  unfold taken
  rw [← List.flatMap_id, List.flatMap_assoc]
  rfl

theorem offered_singleton (e : Event Op Resp) : port.offered [e] = port.offer e.op :=
  List.append_nil _

theorem taken_singleton (e : Event Op Resp) : port.taken [e] = port.take e.op e.resp :=
  List.append_nil _

end Port

namespace Prog
variable {Broke : (o : Op) → Resp o → Prop}

def StopsOn (Broke : (o : Op) → Resp o → Prop) : Prog Op Resp ε α → Prop
  | ret _ => True
  | throw _ => True
  | call o k => ∀ r, (Broke o r → ∃ e, k r = throw e) ∧ (k r).StopsOn Broke
  | hang => True

theorem StopsOn.bind {p : Prog Op Resp ε α} {f : α → Prog Op Resp ε β} (hp : p.StopsOn Broke)
    (hf : ∀ a, (f a).StopsOn Broke) : (p.bind f).StopsOn Broke := by
  induction p with
  | ret a => exact hf a
  | throw e => trivial
  | call o k ih =>
    intro r
    refine ⟨fun hbroke => ?_, ih r (hp r).2⟩
    obtain ⟨e, he⟩ := (hp r).1 hbroke
    exact ⟨e, congrArg (Prog.bind · f) he⟩
  | hang => trivial

theorem StopsOn.call {o : Op} {k : Resp o → Prog Op Resp ε α} (ho : ∀ r, ¬ Broke o r)
    (hk : ∀ r, (k r).StopsOn Broke) : (Prog.call o k).StopsOn Broke :=
  fun r => ⟨fun hbroke => absurd hbroke (ho r), hk r⟩

theorem stopsOn_ofExcept (r : Except ε α) :
    (ofExcept r : Prog Op Resp ε α).StopsOn Broke := by
  cases r with
  | ok a => trivial
  | error e => trivial

theorem StopsOn.step {p q : Prog Op Resp ε α} {e : Event Op Resp} (hp : p.StopsOn Broke)
    (hs : Step p e q) : q.StopsOn Broke ∧ (Broke e.op e.resp → ∃ err, q = throw err) := by
  cases hs with
  | call o k r => exact ⟨(hp r).2, (hp r).1⟩

end Prog

structure Party (Op : Type) (Resp : Op → Type) (ε α : Type) where
  finished : List (List (Event Op Resp))
  current : List (Event Op Resp)
  rest : Prog Op Resp ε (Option α)

namespace Party
variable {body : Prog Op Resp ε (Option α)} {p p' : Party Op Resp ε α} {e : Event Op Resp}

def start (body : Prog Op Resp ε (Option α)) : Party Op Resp ε α := ⟨[], [], body⟩

def turns (p : Party Op Resp ε α) : List (List (Event Op Resp)) := p.finished ++ [p.current]

def history (p : Party Op Resp ε α) : List (Event Op Resp) := p.turns.flatten

def again (body : Prog Op Resp ε (Option α)) (p : Party Op Resp ε α) : Party Op Resp ε α :=
  ⟨p.turns, [], body⟩

inductive Acts : Party Op Resp ε α → Event Op Resp → Party Op Resp ε α → Prop
  | act {p q : Prog Op Resp ε (Option α)} {e : Event Op Resp}
      (finished : List (List (Event Op Resp))) (current : List (Event Op Resp))
      (h : Prog.Step p e q) : Acts ⟨finished, current, p⟩ e ⟨finished, current ++ [e], q⟩

/-- The party was not told that a stream broke, and did not give up otherwise. -/
def Live (p : Party Op Resp ε α) : Prop := ∀ e, p.rest ≠ .throw e

theorem history_again : (p.again body).history = p.history := by
  unfold history again turns
  rw [List.flatten_append]
  exact List.append_nil _

theorem Acts.history_eq (h : Acts p e p') : p'.history = p.history ++ [e] := by
  cases h with
  | act finished current h =>
    unfold history turns
    simp only [List.flatten_append, List.flatten_singleton, List.append_assoc]

theorem Acts.live (h : Acts p e p') : p.Live := by
  cases h with
  | act finished current h =>
    cases h with
    | call o k r => exact fun err heq => by cases heq

structure Sound (body : Prog Op Resp ε (Option α)) (p : Party Op Resp ε α) : Prop where
  finished : ∀ t ∈ p.finished, Prog.Run body t (.ret none)
  current : Prog.Run body p.current p.rest

theorem sound_start : (start body : Party Op Resp ε α).Sound body :=
  ⟨fun _ ht => absurd ht List.not_mem_nil, .nil body⟩

theorem Sound.acts (hp : p.Sound body) (h : Acts p e p') : p'.Sound body := by
  cases h with
  | act finished current h => exact ⟨hp.finished, hp.current.snoc h⟩

theorem Sound.again (hp : p.Sound body) (h : p.rest = .ret none) : (p.again body).Sound body := by
  refine ⟨fun t ht => ?_, .nil body⟩
  rcases List.mem_append.mp ht with hold | hnew
  · exact hp.finished t hold
  · obtain rfl := List.mem_singleton.mp hnew
    rw [← h]
    exact hp.current

theorem Sound.run_loop (hp : p.Sound body) {n : Nat} (hn : p.finished.length < n) :
    ∃ q, Prog.Run (Prog.loop body n) p.history q := by
  obtain ⟨finished, current, rest⟩ := p
  unfold history turns
  induction finished generalizing n with
  | nil =>
    obtain ⟨n, rfl⟩ := Nat.exists_eq_succ_of_ne_zero (Nat.ne_of_gt hn)
    rw [List.nil_append, List.flatten_singleton]
    exact ⟨_, hp.current.bind_left _⟩
  | cons t finished ih =>
    obtain ⟨n, rfl⟩ := Nat.exists_eq_succ_of_ne_zero (Nat.ne_of_gt (Nat.zero_lt_of_lt hn))
    obtain ⟨hfirst, hrest⟩ := List.forall_mem_cons.mp hp.finished
    obtain ⟨q, hq⟩ := ih ⟨hrest, hp.current⟩ (Nat.lt_of_succ_lt_succ hn)
    exact ⟨q, hfirst.bind hq⟩

end Party

structure Side (W A Op : Type) (Resp : Op → Type) (ε α : Type) where
  body : Prog Op Resp ε (Option α)
  port : Port Op Resp A
  Exec : W → (o : Op) → Resp o → W → Prop

structure Stream (A : Type) where
  written : List A
  unread : List A

def Stream.put (stream : Stream A) (more : List A) : Stream A :=
  ⟨stream.written ++ more, stream.unread ++ more⟩

structure Duplex (W A Op : Type) (Resp : Op → Type) (ε α Op' : Type) (Resp' : Op' → Type)
    (ε' α' : Type) where
  world : W
  left : Party Op Resp ε α
  right : Party Op' Resp' ε' α'
  /-- Written by the left party, read by the right one. -/
  toRight : Stream A
  toLeft : Stream A

namespace Duplex
variable {α' : Type} {l : Side W A Op Resp ε α} {r : Side W A Op' Resp' ε' α'} {Env : W → W → Prop}
  {Init : W → Prop}

inductive Step (l : Side W A Op Resp ε α) (r : Side W A Op' Resp' ε' α') (Env : W → W → Prop) :
    Duplex W A Op Resp ε α Op' Resp' ε' α' → Duplex W A Op Resp ε α Op' Resp' ε' α' → Prop
  | left {s} (e : Event Op Resp) (left : Party Op Resp ε α) (world : W) (unread more : List A)
      (hs : Party.Acts s.left e left) (hw : l.Exec s.world e.op e.resp world)
      (hm : l.port.Moves e s.toLeft.unread unread more) :
      Step l r Env s
        { world, left, right := s.right
          toRight := s.toRight.put more
          toLeft := { s.toLeft with unread := unread } }
  | right {s} (e : Event Op' Resp') (right : Party Op' Resp' ε' α') (world : W)
      (unread more : List A) (hs : Party.Acts s.right e right)
      (hw : r.Exec s.world e.op e.resp world)
      (hm : r.port.Moves e s.toRight.unread unread more) :
      Step l r Env s
        { world, right, left := s.left
          toRight := { s.toRight with unread := unread }
          toLeft := s.toLeft.put more }
  | leftAgain {s} (h : s.left.rest = .ret none) :
      Step l r Env s { s with left := s.left.again l.body }
  | rightAgain {s} (h : s.right.rest = .ret none) :
      Step l r Env s { s with right := s.right.again r.body }
  | env {s} (world : W) (h : Env s.world world) : Step l r Env s { s with world := world }

inductive Reachable (l : Side W A Op Resp ε α) (r : Side W A Op' Resp' ε' α') (Env : W → W → Prop)
    (Init : W → Prop) : Duplex W A Op Resp ε α Op' Resp' ε' α' → Prop
  | init {world} (h : Init world) :
      Reachable l r Env Init ⟨world, .start l.body, .start r.body, ⟨[], []⟩, ⟨[], []⟩⟩
  | step {s s'} (hr : Reachable l r Env Init s) (hs : Step l r Env s s') :
      Reachable l r Env Init s'

/-- What has become of a stream: the reader has read a part of what was written, and as long as
neither was told of a break, nothing is lost. -/
structure Flow (port : Port Op Resp A) (port' : Port Op' Resp' A) (writer : Party Op Resp ε α)
    (reader : Party Op' Resp' ε' α') (stream : Stream A) : Prop where
  written : stream.written <+: port.offered writer.history
  whole : writer.Live → stream.written = port.offered writer.history
  taken : port'.taken reader.history <+: stream.written
  kept : reader.Live → port'.taken reader.history ++ stream.unread = stream.written

section
variable {port : Port Op Resp A} {port' : Port Op' Resp' A} {writer writer' : Party Op Resp ε α}
  {reader reader' : Party Op' Resp' ε' α'} {stream : Stream A}

theorem flow_start (body : Prog Op Resp ε (Option α)) (body' : Prog Op' Resp' ε' (Option α')) :
    Flow port port' (.start body) (.start body') ⟨[], []⟩ :=
  ⟨List.nil_prefix, fun _ => rfl, List.nil_prefix, fun _ => rfl⟩

theorem Flow.of_history (h : Flow port port' writer reader stream)
    (hw : writer'.history = writer.history) (hlive : writer'.Live → writer.Live)
    (hr : reader'.history = reader.history) (hlive' : reader'.Live → reader.Live) :
    Flow port port' writer' reader' stream where
  written := by
    rw [hw]
    exact h.written
  whole hl := by
    rw [hw]
    exact h.whole (hlive hl)
  taken := by
    rw [hr]
    exact h.taken
  kept hl := by
    rw [hr]
    exact h.kept (hlive' hl)

theorem Flow.write (h : Flow port port' writer reader stream) {e : Event Op Resp}
    (hs : Party.Acts writer e writer') (hstop : port.Broke e.op e.resp → ¬ writer'.Live)
    {incoming rest more : List A} (hm : port.Moves e incoming rest more) :
    Flow port port' writer' reader (stream.put more) := by
  have hhistory : port.offered writer'.history = stream.written ++ port.offer e.op := by
    rw [hs.history_eq, port.offered_append, port.offered_singleton, h.whole hs.live]
  have hread : port'.taken reader.history <+: stream.written ++ more :=
    h.taken.trans (List.prefix_append ..)
  have hkept : reader.Live →
      port'.taken reader.history ++ (stream.unread ++ more) = stream.written ++ more := by
    intro hl
    rw [← List.append_assoc, h.kept hl]
  cases hm with
  | whole hwhole => exact ⟨hhistory ▸ List.prefix_rfl, fun _ => hhistory.symm, hread, hkept⟩
  | broke hbroke _ _ _ hmore =>
    refine ⟨?_, fun hl => absurd hl (hstop hbroke), hread, hkept⟩
    rw [hhistory]
    exact (List.prefix_append_right_inj _).mpr hmore

theorem Flow.read (h : Flow port port' writer reader stream) {e : Event Op' Resp'}
    (hs : Party.Acts reader e reader') (hstop : port'.Broke e.op e.resp → ¬ reader'.Live)
    (hnone : port'.Broke e.op e.resp → port'.take e.op e.resp = []) {unread more : List A}
    (hm : port'.Moves e stream.unread unread more) :
    Flow port port' writer reader' { stream with unread := unread } := by
  have hwritten : port'.taken reader.history ++ stream.unread = stream.written := h.kept hs.live
  have hhistory : port'.taken reader'.history =
      port'.taken reader.history ++ port'.take e.op e.resp := by
    rw [hs.history_eq, port'.taken_append, port'.taken_singleton]
  generalize hunread : stream.unread = incoming at hm hwritten
  cases hm with
  | whole hwhole =>
    rw [← List.append_assoc, ← hhistory] at hwritten
    refine ⟨h.written, h.whole, ?_, fun _ => hwritten⟩
    rw [← hwritten]
    exact List.prefix_append ..
  | broke hbroke =>
    refine ⟨h.written, h.whole, ?_, fun hl => absurd hl (hstop hbroke)⟩
    rw [hhistory, hnone hbroke, List.append_nil]
    exact h.taken

end

end Duplex

structure Side.FailStop (side : Side W A Op Resp ε α) : Prop where
  stops : side.body.StopsOn side.port.Broke
  nothing : ∀ o r, side.port.Broke o r → side.port.take o r = []

namespace Party
variable {side : Side W A Op Resp ε α} {p p' : Party Op Resp ε α} {e : Event Op Resp}

structure Proper (side : Side W A Op Resp ε α) (p : Party Op Resp ε α) : Prop
    extends p.Sound side.body where
  stops : p.rest.StopsOn side.port.Broke
  exec : ∀ e ∈ p.history, ∃ w w', side.Exec w e.op e.resp w'

theorem proper_start (hside : side.FailStop) : (start side.body).Proper side where
  toSound := sound_start
  stops := hside.stops
  exec _ he := absurd he List.not_mem_nil

theorem Proper.acts (hp : p.Proper side) (h : Acts p e p') {w w' : W}
    (he : side.Exec w e.op e.resp w') : p'.Proper side where
  toSound := hp.toSound.acts h
  stops := by
    have hstops := hp.stops
    cases h with
    | act finished current h => exact (hstops.step h).1
  exec := by
    rw [h.history_eq]
    exact List.forall_mem_append.mpr ⟨hp.exec, List.forall_mem_singleton.mpr ⟨w, w', he⟩⟩

theorem Proper.again (hside : side.FailStop) (hp : p.Proper side) (h : p.rest = .ret none) :
    (p.again side.body).Proper side where
  toSound := hp.toSound.again h
  stops := hside.stops
  exec := by
    rw [history_again]
    exact hp.exec

theorem Proper.not_live (hp : p.Proper side) (h : Acts p e p')
    (hbroke : side.port.Broke e.op e.resp) : ¬ p'.Live := by
  have hstops := hp.stops
  cases h with
  | act finished current h =>
    obtain ⟨err, herr⟩ := (hstops.step h).2 hbroke
    exact fun hl => hl err herr

theorem live_of_ret {r : Option α} (h : p.rest = .ret r) : p.Live := by
  intro e heq
  rw [h] at heq
  cases heq

end Party

namespace Duplex
variable {α' : Type} {l : Side W A Op Resp ε α} {r : Side W A Op' Resp' ε' α'} {Env : W → W → Prop}
  {Init : W → Prop}

structure Proper (l : Side W A Op Resp ε α) (r : Side W A Op' Resp' ε' α')
    (s : Duplex W A Op Resp ε α Op' Resp' ε' α') : Prop where
  left : s.left.Proper l
  right : s.right.Proper r
  toRight : Flow l.port r.port s.left s.right s.toRight
  toLeft : Flow r.port l.port s.right s.left s.toLeft

theorem Proper.step {s s' : Duplex W A Op Resp ε α Op' Resp' ε' α'} (hl : l.FailStop)
    (hr : r.FailStop) (hp : Proper l r s) (hs : Step l r Env s s') : Proper l r s' := by
  cases hs with
  | left e left world unread more hs hw hm =>
    exact ⟨hp.left.acts hs hw, hp.right, hp.toRight.write hs (hp.left.not_live hs) hm,
      hp.toLeft.read hs (hp.left.not_live hs) (hl.nothing e.op e.resp) hm⟩
  | right e right world unread more hs hw hm =>
    exact ⟨hp.left, hp.right.acts hs hw,
      hp.toRight.read hs (hp.right.not_live hs) (hr.nothing e.op e.resp) hm,
      hp.toLeft.write hs (hp.right.not_live hs) hm⟩
  | leftAgain h =>
    have hlive : s.left.Live := Party.live_of_ret h
    exact ⟨hp.left.again hl h, hp.right,
      hp.toRight.of_history Party.history_again (fun _ => hlive) rfl id,
      hp.toLeft.of_history rfl id Party.history_again (fun _ => hlive)⟩
  | rightAgain h =>
    have hlive : s.right.Live := Party.live_of_ret h
    exact ⟨hp.left, hp.right.again hr h,
      hp.toRight.of_history rfl id Party.history_again (fun _ => hlive),
      hp.toLeft.of_history Party.history_again (fun _ => hlive) rfl id⟩
  | env world h => exact ⟨hp.left, hp.right, hp.toRight, hp.toLeft⟩

theorem Reachable.invariant {I : Duplex W A Op Resp ε α Op' Resp' ε' α' → Prop}
    (hinit : ∀ world, Init world → I ⟨world, .start l.body, .start r.body, ⟨[], []⟩, ⟨[], []⟩⟩)
    (hstep : ∀ s s', I s → Step l r Env s s' → I s')
    {s : Duplex W A Op Resp ε α Op' Resp' ε' α'} (h : Reachable l r Env Init s) : I s := by
  induction h with
  | init h => exact hinit _ h
  | step _ hs ih => exact hstep _ _ ih hs

theorem Reachable.proper (hl : l.FailStop) (hr : r.FailStop)
    {s : Duplex W A Op Resp ε α Op' Resp' ε' α'} (h : Reachable l r Env Init s) :
    Proper l r s := by
  apply h.invariant
  · intro world _
    exact ⟨Party.proper_start hl, Party.proper_start hr, flow_start .., flow_start ..⟩
  · intro s s' hp hs
    exact hp.step hl hr hs

section
variable {s : Duplex W A Op Resp ε α Op' Resp' ε' α'} {world : W} {unread : List A}

theorem Reachable.left (h : Reachable l r Env Init s) {o : Op}
    {k : Resp o → Prog Op Resp ε (Option α)} (hrest : s.left.rest = .call o k) (a : Resp o)
    (hw : l.Exec s.world o a world) (hbroke : ¬ l.port.Broke o a)
    (hread : s.toLeft.unread = l.port.take o a ++ unread) :
    Reachable l r Env Init
      { world, right := s.right
        left := ⟨s.left.finished, s.left.current ++ [⟨o, a⟩], k a⟩
        toRight := s.toRight.put (l.port.offer o)
        toLeft := { s.toLeft with unread := unread } } := by
  have hacts : Party.Acts s.left ⟨o, a⟩ ⟨s.left.finished, s.left.current ++ [⟨o, a⟩], k a⟩ :=
    .act _ _ (hrest ▸ .call o k a)
  have hmoves : l.port.Moves ⟨o, a⟩ s.toLeft.unread unread (l.port.offer o) :=
    hread ▸ .whole hbroke unread
  exact .step h (.left _ _ world unread _ hacts hw hmoves)

theorem Reachable.right (h : Reachable l r Env Init s) {o : Op'}
    {k : Resp' o → Prog Op' Resp' ε' (Option α')} (hrest : s.right.rest = .call o k) (a : Resp' o)
    (hw : r.Exec s.world o a world) (hbroke : ¬ r.port.Broke o a)
    (hread : s.toRight.unread = r.port.take o a ++ unread) :
    Reachable l r Env Init
      { world, left := s.left
        right := ⟨s.right.finished, s.right.current ++ [⟨o, a⟩], k a⟩
        toRight := { s.toRight with unread := unread }
        toLeft := s.toLeft.put (r.port.offer o) } := by
  have hacts : Party.Acts s.right ⟨o, a⟩ ⟨s.right.finished, s.right.current ++ [⟨o, a⟩], k a⟩ :=
    .act _ _ (hrest ▸ .call o k a)
  have hmoves : r.port.Moves ⟨o, a⟩ s.toRight.unread unread (r.port.offer o) :=
    hread ▸ .whole hbroke unread
  exact .step h (.right _ _ world unread _ hacts hw hmoves)

end

end Duplex

end Interaction

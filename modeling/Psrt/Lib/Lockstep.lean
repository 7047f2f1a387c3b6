import Mathlib.Data.List.Infix

/-! Requests and replies over two streams. Neither stream says where a request or its replies end; what
each party does in a turn keeps the turns of one paired with the turns of the other. -/

namespace Lockstep

variable {C A T : Type}

structure Protocol (C A : Type) where
  octets : C → List A → List A
  Finished : C → List A → Prop
  octets_mono : ∀ {c r r'}, r <+: r' → octets c r <+: octets c r'
  finished_unique : ∀ {c r r'}, Finished c r → Finished c r' → r <+: r' → r = r'

structure Round (C A : Type) where
  request : C
  offered : List A
  taken : List A

structure View (T A : Type) where
  taken : T → List A
  offered : T → List A
  Done : T → Prop

def Fits (a b : List A) : Prop := a <+: b ∨ b <+: a

theorem fits_of_prefix {a b l : List A} (ha : a <+: l) (hb : b <+: l) : Fits a b :=
  List.prefix_or_prefix_of_prefix ha hb

namespace Protocol
variable (P : Protocol C A)

def Partial (c : C) (r : List A) : Prop := ∃ r', P.Finished c r' ∧ r <+: r'

/-- The rounds of a requester; only in the last of them something may be missing. -/
inductive Asks : List (Round C A) → Prop
  | nil : Asks []
  | last (round : Round C A) (ho : round.offered <+: P.octets round.request round.taken)
      (hp : P.Partial round.request round.taken) : Asks [round]
  | cons (round : Round C A) (rounds : List (Round C A))
      (ho : round.offered = P.octets round.request round.taken)
      (hf : P.Finished round.request round.taken) (hs : Asks rounds) : Asks (round :: rounds)

variable (V : View T A) (Executes : C → T → Prop)

/-- Input that agrees with what is to be sent for `c` is taken for `c`, and when the turn has ended, so
has `c`. -/
def Serves (c : C) (input : List A) (t : T) : Prop :=
  V.taken t <+: input →
    (∀ r, r <+: V.offered t → P.Partial c r → Fits input (P.octets c r)) →
    P.Partial c (V.offered t) ∧ Executes c t ∧
      (V.Done t → P.Finished c (V.offered t) ∧ V.taken t = P.octets c (V.offered t))

/-- Each turn of the server serves the round of its own place, and is the one it is answered by. -/
inductive Paired : List (Round C A) → List T → Prop
  | unanswered {rounds : List (Round C A)} (h : ∀ round ∈ rounds, round.taken = []) :
      Paired rounds []
  | idle {t : T} (h : V.taken t = []) : Paired [] [t]
  | cons {round : Round C A} {t : T} {rounds : List (Round C A)} {turns : List T}
      (he : Executes round.request t) (hp : P.Partial round.request (V.offered t))
      (hd : V.Done t → P.Finished round.request (V.offered t))
      (ht : round.taken <+: V.offered t) (hs : Paired rounds turns) :
      Paired (round :: rounds) (t :: turns)

variable {P V Executes}

theorem Partial.mono {c : C} {r r' : List A} (h : P.Partial c r') (hr : r <+: r') :
    P.Partial c r := by
  obtain ⟨r'', hf, hr''⟩ := h
  exact ⟨r'', hf, hr.trans hr''⟩

theorem Partial.eq_of_finished {c : C} {r r' : List A} (h : P.Partial c r')
    (hf : P.Finished c r) (hr : r <+: r') : r = r' := by
  obtain ⟨r'', hf', hr''⟩ := h
  have heq : r = r'' := P.finished_unique hf hf' (hr.trans hr'')
  rw [← heq] at hr''
  exact hr.eq_of_length_le hr''.length_le

theorem fits_last {round : Round C A} (ho : round.offered <+: P.octets round.request round.taken)
    {offered : List A} (hreplies : round.taken <+: offered) {r : List A} (hr : r <+: offered) :
    Fits round.offered (P.octets round.request r) := by
  rcases fits_of_prefix hr hreplies with hle | hge
  · exact fits_of_prefix ho (P.octets_mono hle)
  · exact .inl (ho.trans (P.octets_mono hge))

theorem fits_whole {round : Round C A} (ho : round.offered = P.octets round.request round.taken)
    (hf : P.Finished round.request round.taken) {offered input : List A}
    (hinput : round.offered <+: input) (hreplies : round.taken <+: offered) {r : List A}
    (hr : r <+: offered) (hp : P.Partial round.request r) :
    Fits input (P.octets round.request r) := by
  rcases fits_of_prefix hr hreplies with hle | hge
  · refine .inr (List.IsPrefix.trans ?_ hinput)
    rw [ho]
    exact P.octets_mono hle
  · obtain rfl := hp.eq_of_finished hf hge
    rw [← ho]
    exact .inr hinput

theorem Partial.taken_prefix {c : C} {taken offered rest : List A} (hp : P.Partial c taken)
    (hf : P.Finished c offered) (h : taken <+: offered ++ rest) : taken <+: offered := by
  rcases fits_of_prefix h (List.prefix_append ..) with hle | hge
  · exact hle
  · rw [hp.eq_of_finished hf hge]

theorem eq_nil_of_append_prefix {a b : List A} (h : a ++ b <+: a) : b = [] := by
  have hlength := h.length_le
  rw [List.length_append] at hlength
  exact List.eq_nil_of_length_eq_zero (by omega)

theorem paired_idle {turns : List T} {last : T} (hreads : ∀ t ∈ turns, V.taken t ≠ [])
    (hnone : (turns ++ [last]).flatMap V.taken = []) :
    Paired P V Executes [] (turns ++ [last]) := by
  rw [List.flatMap_eq_nil_iff] at hnone
  cases turns with
  | nil => exact .idle (hnone last (List.mem_singleton_self _))
  | cons t turns =>
    exact absurd (hnone t (List.mem_cons_self ..)) (hreads t (List.mem_cons_self ..))

theorem serves_last {round : Round C A} {t : T} {rest more : List A}
    (ho : round.offered <+: P.octets round.request round.taken)
    (hround : P.Partial round.request round.taken)
    (hserves : P.Serves V Executes round.request round.offered t) (hdone : V.Done t)
    (hrequests : V.taken t ++ rest <+: round.offered)
    (hreplies : round.taken <+: V.offered t ++ more) :
    Executes round.request t ∧ P.Finished round.request (V.offered t) ∧
      round.taken <+: V.offered t ∧ rest = [] := by
  have hfits : ∀ r, r <+: V.offered t → P.Partial round.request r →
      Fits round.offered (P.octets round.request r) :=
    fun r hr _ => fits_last ho hreplies (hr.trans (List.prefix_append ..))
  obtain ⟨_, he, hd⟩ := hserves ((List.prefix_append ..).trans hrequests) hfits
  obtain ⟨hf, htaken⟩ := hd hdone
  have hanswered : round.taken <+: V.offered t := hround.taken_prefix hf hreplies
  have hwhole : round.offered <+: V.taken t := by
    rw [htaken]
    exact ho.trans (P.octets_mono hanswered)
  exact ⟨he, hf, hanswered, eq_nil_of_append_prefix (hrequests.trans hwhole)⟩

theorem serves_whole {round : Round C A} {t : T} {rest more : List A}
    (ho : round.offered = P.octets round.request round.taken)
    (hf : P.Finished round.request round.taken)
    (hserves : P.Serves V Executes round.request (round.offered ++ rest) t) (hdone : V.Done t)
    (hrequests : V.taken t <+: round.offered ++ rest)
    (hreplies : round.taken <+: V.offered t ++ more) :
    Executes round.request t ∧ V.taken t = round.offered ∧ V.offered t = round.taken := by
  have hfits : ∀ r, r <+: V.offered t → P.Partial round.request r →
      Fits (round.offered ++ rest) (P.octets round.request r) :=
    fun r hr => fits_whole ho hf (List.prefix_append ..) hreplies (hr.trans (List.prefix_append ..))
  obtain ⟨hp, he, hd⟩ := hserves hrequests hfits
  obtain ⟨hfinished, htaken⟩ := hd hdone
  have hround : P.Partial round.request round.taken := ⟨round.taken, hf, List.prefix_rfl⟩
  have heq : round.taken = V.offered t :=
    hp.eq_of_finished hf (hround.taken_prefix hfinished hreplies)
  refine ⟨he, ?_, heq.symm⟩
  rw [htaken, ho, heq]

/-- Parties that keep to the protocol turn by turn are in step over whole runs. -/
theorem Asks.paired {rounds : List (Round C A)} (ha : P.Asks rounds) {turns : List T} {last : T}
    (hserves : ∀ round ∈ rounds, ∀ input, ∀ t ∈ turns ++ [last],
      P.Serves V Executes round.request input t)
    (hdone : ∀ t ∈ turns, V.Done t) (hreads : ∀ t ∈ turns, V.taken t ≠ [])
    (hrequests : (turns ++ [last]).flatMap V.taken <+: rounds.flatMap Round.offered)
    (hreplies : rounds.flatMap Round.taken <+: (turns ++ [last]).flatMap V.offered) :
    Paired P V Executes rounds (turns ++ [last]) := by
  induction ha generalizing turns with
  | nil => exact paired_idle hreads (List.prefix_nil.mp hrequests)
  | last round ho hround =>
    rw [List.flatMap_singleton] at hrequests hreplies
    cases turns with
    | nil =>
      simp only [List.nil_append, List.flatMap_singleton] at hrequests hreplies
      obtain ⟨hp, he, hd⟩ := hserves round (List.mem_cons_self ..) _ last (List.mem_cons_self ..)
        hrequests fun r hr _ => fits_last ho hreplies hr
      exact .cons he hp (fun h => (hd h).1) hreplies (.unanswered fun _ h => absurd h List.not_mem_nil)
    | cons t turns =>
      simp only [List.cons_append, List.flatMap_cons] at hrequests hreplies
      obtain ⟨he, hf, hanswered, hnone⟩ := serves_last ho hround
        (hserves round (List.mem_cons_self ..) _ t (List.mem_cons_self ..))
        (hdone t (List.mem_cons_self ..)) hrequests hreplies
      exact .cons he ⟨_, hf, List.prefix_rfl⟩ (fun _ => hf) hanswered
        (paired_idle (fun t ht => hreads t (List.mem_cons_of_mem _ ht)) hnone)
  | cons round rounds ho hf hs ih =>
    rw [List.flatMap_cons] at hrequests hreplies
    have hanswer : round.taken <+: (turns ++ [last]).flatMap V.offered :=
      (List.prefix_append ..).trans hreplies
    cases turns with
    | nil =>
      simp only [List.nil_append, List.flatMap_singleton] at hrequests hreplies hanswer
      obtain ⟨hp, he, hd⟩ := hserves round (List.mem_cons_self ..) _ last (List.mem_cons_self ..)
        hrequests fun r hr => fits_whole ho hf (List.prefix_append ..) hanswer hr
      have heq : round.taken = V.offered last := hp.eq_of_finished hf hanswer
      have hnone : rounds.flatMap Round.taken = [] := by
        rw [← heq] at hreplies
        exact eq_nil_of_append_prefix hreplies
      exact .cons he hp (fun h => (hd h).1) hanswer (.unanswered (List.flatMap_eq_nil_iff.mp hnone))
    | cons t turns =>
      simp only [List.cons_append, List.flatMap_cons] at hrequests hreplies hanswer
      obtain ⟨he, hsame, heq⟩ := serves_whole ho hf
        (hserves round (List.mem_cons_self ..) _ t (List.mem_cons_self ..))
        (hdone t (List.mem_cons_self ..)) ((List.prefix_append ..).trans hrequests) hanswer
      -- both streams stand at the next request, so the rest is paired as the whole is
      rw [hsame, List.prefix_append_right_inj] at hrequests
      rw [heq, List.prefix_append_right_inj] at hreplies
      have hfinished : P.Finished round.request (V.offered t) := by
        rw [heq]
        exact hf
      have hanswered : round.taken <+: V.offered t := by
        rw [heq]
      have hrest := ih
        (fun r hr input t ht => hserves r (List.mem_cons_of_mem _ hr) input t
          (List.mem_cons_of_mem _ ht))
        (fun t ht => hdone t (List.mem_cons_of_mem _ ht))
        (fun t ht => hreads t (List.mem_cons_of_mem _ ht)) hrequests hreplies
      exact .cons he ⟨_, hfinished, List.prefix_rfl⟩ (fun _ => hfinished) hanswered hrest

theorem Paired.executes {rounds : List (Round C A)} {turns : List T}
    (h : Paired P V Executes rounds turns) {i : Nat} {round : Round C A} {t : T}
    (hround : rounds[i]? = some round) (ht : turns[i]? = some t) :
    Executes round.request t ∧ P.Partial round.request (V.offered t) ∧
      round.taken <+: V.offered t := by
  induction h generalizing i with
  | unanswered h => cases ht
  | idle h => cases hround
  | cons he hp hd htaken hs ih =>
    cases i with
    | zero =>
      obtain rfl := Option.some.inj hround
      obtain rfl := Option.some.inj ht
      exact ⟨he, hp, htaken⟩
    | succ i => exact ih hround ht

/-- The turns that act serve the first requests, each its own. -/
theorem Paired.exists_forall₂ {finished : List T} {last : T} {acts : T → Bool}
    (hidle : V.taken last = [] → acts last = false) :
    ∀ {rounds : List (Round C A)}, (∀ t ∈ finished, acts t = true) →
      Paired P V Executes rounds (finished ++ [last]) →
      ∃ requests, requests <+: rounds.map Round.request ∧
        List.Forall₂ Executes requests ((finished ++ [last]).filter acts) := by
  induction finished with
  | nil =>
    intro rounds _ h
    rw [List.nil_append] at h ⊢
    cases h with
    | idle h =>
      rw [List.filter_singleton, hidle h]
      exact ⟨[], List.nil_prefix, .nil⟩
    | cons he hp hd ht hs =>
      rw [List.filter_singleton]
      cases acts last with
      | true => exact ⟨[_], List.prefix_append [_] _, .cons he .nil⟩
      | false => exact ⟨[], List.nil_prefix, .nil⟩
  | cons t finished ih =>
    intro rounds hacts h
    obtain ⟨hfirst, hrest⟩ := List.forall_mem_cons.mp hacts
    rw [List.cons_append] at h ⊢
    rw [List.filter_cons_of_pos hfirst]
    generalize hturns : finished ++ [last] = turns at h
    cases h with
    | idle h => exact absurd hturns (List.append_ne_nil_of_right_ne_nil _ (List.cons_ne_nil _ _))
    | cons he hp hd ht hs =>
      subst hturns
      obtain ⟨requests, hprefix, hall⟩ := ih hrest hs
      exact ⟨_ :: requests, List.cons_prefix_cons.mpr ⟨rfl, hprefix⟩, .cons he hall⟩

theorem Paired.finished_of_done {rounds : List (Round C A)} {turns : List T}
    (h : Paired P V Executes rounds turns) {t : T} (ht : t ∈ turns) (hd : V.Done t)
    (hread : V.taken t ≠ []) : ∃ c, P.Finished c (V.offered t) := by
  induction h with
  | unanswered h => exact absurd ht List.not_mem_nil
  | idle h =>
    obtain rfl := List.mem_singleton.mp ht
    exact absurd h hread
  | cons he hp hf htaken hs ih =>
    rcases List.mem_cons.mp ht with rfl | hmem
    · exact ⟨_, hf hd⟩
    · exact ih hmem

theorem Paired.exists_turn {rounds : List (Round C A)} {turns : List T}
    (h : Paired P V Executes rounds turns) {i : Nat} {round : Round C A}
    (hround : rounds[i]? = some round) (htaken : round.taken ≠ []) : ∃ t, turns[i]? = some t := by
  induction h generalizing i with
  | unanswered h => exact absurd (h round (List.mem_of_getElem? hround)) htaken
  | idle h => cases hround
  | cons he hp hd _ hs ih =>
    cases i with
    | zero => exact ⟨_, rfl⟩
    | succ i => exact ih hround

end Protocol

end Lockstep

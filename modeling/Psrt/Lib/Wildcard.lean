import Mathlib.Data.List.Forall2
import Mathlib.Data.Set.Finite.Lemmas
import Mathlib.Data.Set.Finite.List

/-! Words over an alphabet, and patterns for them: letters, places that take any one letter, and at
the end possibly any non-empty remainder. When one pattern matches only what others match. -/

namespace Wildcard

variable {α ι : Type}

inductive Piece (α : Type) where
  | letter (a : α)
  | one
  deriving DecidableEq

namespace Piece

def Matches : Piece α → α → Prop
  | letter a, x => x = a
  | one, _ => True

def Covers (p q : Piece α) : Prop := p = one ∨ p = q

theorem Covers.antisymm {p q : Piece α} (h : p.Covers q) (h' : q.Covers p) : p = q := by
  rcases h with rfl | rfl
  · rcases h' with rfl | rfl
    · rfl
    · rfl
  · rfl

def fill (x : α) : Piece α → α
  | letter a => a
  | one => x

theorem matches_fill (x : α) (p : Piece α) : p.Matches (p.fill x) := by
  cases p with
  | letter a => rfl
  | one => trivial

theorem Covers.matches {p q : Piece α} (h : p.Covers q) {x : α} (hq : q.Matches x) :
    p.Matches x := by
  rcases h with rfl | rfl
  · trivial
  · exact hq

/-- A part that is not the letter `x` takes `x` only where it takes any letter. -/
theorem covers_iff {p q : Piece α} {x : α} (hx : p ≠ letter x) :
    p.Covers q ↔ p.Matches (q.fill x) := by
  constructor
  · intro h
    exact h.matches (matches_fill x q)
  · intro h
    cases p with
    | one => exact .inl rfl
    | letter a =>
      cases q with
      | letter b =>
        have hb : b = a := h
        rw [hb]
        exact .inr rfl
      | one =>
        have ha : x = a := h
        exact absurd (congrArg letter ha.symm) hx

end Piece

structure Pattern (α : Type) where
  parts : List (Piece α)
  /-- Any non-empty remainder follows. -/
  rest : Bool

namespace Pattern

/-- What the pattern says of the words of length `n`: a part for each place. -/
def row (p : Pattern α) (n : Nat) : Option (List (Piece α)) :=
  if p.rest then
    if p.parts.length < n then some (p.parts ++ List.replicate (n - p.parts.length) .one) else none
  else if p.parts.length = n then some p.parts else none

def Matches (p : Pattern α) (w : List α) : Prop :=
  ∃ ps, p.row w.length = some ps ∧ List.Forall₂ Piece.Matches ps w

def Covers (p : Pattern α) (qs : List (Piece α)) : Prop :=
  ∃ ps, p.row qs.length = some ps ∧ List.Forall₂ Piece.Covers ps qs

theorem length_of_row {p : Pattern α} {n : Nat} {ps : List (Piece α)} (h : p.row n = some ps) :
    ps.length = n := by
  unfold row at h
  split_ifs at h with hrest hlt heq
  · obtain rfl := Option.some.inj h
    rw [List.length_append, List.length_replicate]
    omega
  · obtain rfl := Option.some.inj h
    exact heq

theorem letter_of_mem_row {p : Pattern α} {n : Nat} {ps : List (Piece α)} (h : p.row n = some ps)
    {a : α} (ha : .letter a ∈ ps) : .letter a ∈ p.parts := by
  unfold row at h
  split_ifs at h
  · obtain rfl := Option.some.inj h
    rcases List.mem_append.mp ha with hparts | hones
    · exact hparts
    · cases List.eq_of_mem_replicate hones
  · obtain rfl := Option.some.inj h
    exact ha

theorem letter_mem_of_matches {ps : List (Piece α)} {w : List α}
    (h : List.Forall₂ Piece.Matches ps w) {a : α} (ha : .letter a ∈ ps) : a ∈ w := by
  induction h with
  | nil => exact absurd ha List.not_mem_nil
  | cons hx _ ih =>
    rcases List.mem_cons.mp ha with rfl | hmem
    · have hxa : _ = a := hx
      rw [hxa]
      exact List.mem_cons_self ..
    · exact List.mem_cons_of_mem _ (ih hmem)

theorem row_exact (ps : List (Piece α)) (n : Nat) :
    (⟨ps, false⟩ : Pattern α).row n = if ps.length = n then some ps else none := rfl

theorem row_rest (ps : List (Piece α)) (n : Nat) :
    (⟨ps, true⟩ : Pattern α).row n =
      if ps.length < n then some (ps ++ List.replicate (n - ps.length) .one) else none := rfl

@[simp] theorem matches_nil_exact (w : List α) : (⟨[], false⟩ : Pattern α).Matches w ↔ w = [] := by
  constructor
  · rintro ⟨ps, hrow, _⟩
    rw [row_exact] at hrow
    split_ifs at hrow with hlen
    exact List.eq_nil_of_length_eq_zero hlen.symm
  · rintro rfl
    exact ⟨[], rfl, .nil⟩

@[simp] theorem matches_nil_rest (w : List α) : (⟨[], true⟩ : Pattern α).Matches w ↔ w ≠ [] := by
  constructor
  · rintro ⟨ps, hrow, _⟩ rfl
    cases hrow
  · intro hw
    have hpos : ([] : List (Piece α)).length < w.length := List.length_pos_iff.mpr hw
    refine ⟨List.replicate w.length .one, ?_, ?_⟩
    · rw [row_rest, if_pos hpos]
      rfl
    · rw [List.forall₂_iff_get]
      refine ⟨List.length_replicate, fun i hi _ => ?_⟩
      rw [List.get_eq_getElem, List.getElem_replicate]
      trivial

theorem row_cons (p : Piece α) (ps : List (Piece α)) (rest : Bool) (n : Nat) :
    (⟨p :: ps, rest⟩ : Pattern α).row (n + 1) = ((⟨ps, rest⟩ : Pattern α).row n).map (p :: ·) := by
  unfold row
  simp only [List.length_cons, Nat.add_lt_add_iff_right, Nat.add_sub_add_right,
    Nat.add_right_cancel_iff, List.cons_append]
  split_ifs <;> rfl

@[simp] theorem not_matches_cons_nil (p : Piece α) (ps : List (Piece α)) (rest : Bool) :
    ¬ (⟨p :: ps, rest⟩ : Pattern α).Matches [] := by
  rintro ⟨qs, hrow, hqs⟩
  cases hqs
  have hlen := hrow
  unfold row at hlen
  split_ifs at hlen with _ hlt heq
  · exact Nat.not_lt_zero _ hlt
  · cases hlen

@[simp] theorem matches_cons (p : Piece α) (ps : List (Piece α)) (rest : Bool) (x : α)
    (w : List α) : (⟨p :: ps, rest⟩ : Pattern α).Matches (x :: w) ↔
      p.Matches x ∧ (⟨ps, rest⟩ : Pattern α).Matches w := by
  unfold Matches
  rw [List.length_cons, row_cons]
  constructor
  · rintro ⟨qs, hrow, hqs⟩
    obtain ⟨qs', hrow', rfl⟩ := Option.map_eq_some_iff.mp hrow
    have hcons := List.forall₂_cons.mp hqs
    exact ⟨hcons.1, qs', hrow', hcons.2⟩
  · rintro ⟨hp, qs, hrow, hqs⟩
    exact ⟨p :: qs, by rw [hrow]; rfl, .cons hp hqs⟩

theorem Covers.matches {p : Pattern α} {qs : List (Piece α)} (h : p.Covers qs) {w : List α}
    (hw : List.Forall₂ Piece.Matches qs w) : p.Matches w := by
  obtain ⟨ps, hrow, hcovers⟩ := h
  refine ⟨ps, by rw [← hw.length_eq, hrow], ?_⟩
  clear hrow
  induction hcovers generalizing w with
  | nil => exact hw
  | cons hpq _ ih =>
    cases hw with
    | cons hx hrest => exact .cons (hpq.matches hx) (ih hrest)

/-- One word decides whether a pattern covers a row: the row with a letter the pattern does not
have at every open place. -/
theorem covers_iff {p : Pattern α} {x : α} (hx : .letter x ∉ p.parts) (qs : List (Piece α)) :
    p.Covers qs ↔ p.Matches (qs.map (Piece.fill x)) := by
  unfold Covers Matches
  rw [List.length_map]
  refine exists_congr fun ps => and_congr_right fun hrow => ?_
  rw [List.forall₂_map_right_iff]
  have hps : ∀ a, .letter a ∈ ps → a ≠ x := by
    rintro a ha rfl
    exact hx (letter_of_mem_row hrow ha)
  clear hrow
  induction ps generalizing qs with
  | nil => cases qs <;> simp only [List.forall₂_nil_left_iff]
  | cons q ps ih =>
    have hq : q ≠ .letter x := by
      rintro rfl
      exact hps x (List.mem_cons_self ..) rfl
    cases qs with
    | nil => simp only [List.forall₂_nil_right_iff]
    | cons q' qs =>
      have hrest := @ih qs fun a ha => hps a (List.mem_cons_of_mem _ ha)
      rw [List.forall₂_cons, List.forall₂_cons]
      exact and_congr (Piece.covers_iff hq) hrest

theorem covers_row {p : Pattern α} {n : Nat} {ps : List (Piece α)} (h : p.row n = some ps) :
    p.Covers ps := by
  refine ⟨ps, ?_, List.forall₂_same.mpr fun _ _ => .inr rfl⟩
  rw [length_of_row h, h]

theorem eq_of_row_eq {p q : Pattern α} (h : ∀ n, p.row n = q.row n) : p = q := by
  obtain ⟨ps, prest⟩ := p
  obtain ⟨qs, qrest⟩ := q
  -- a length that only a pattern with a remainder has a row for
  have hfar := h (ps.length + qs.length + 1)
  cases prest with
  | false =>
    cases qrest with
    | false =>
      have hrow := h ps.length
      rw [row_exact, row_exact, if_pos rfl] at hrow
      split_ifs at hrow
      rw [Option.some.inj hrow]
    | true =>
      rw [row_exact, row_rest, if_neg (by omega), if_pos (by omega)] at hfar
      cases hfar
  | true =>
    cases qrest with
    | false =>
      rw [row_exact, row_rest, if_pos (by omega), if_neg (by omega)] at hfar
      cases hfar
    | true =>
      have hp := h (ps.length + 1)
      have hq := h (qs.length + 1)
      rw [row_rest, row_rest, if_pos (Nat.lt_succ_self _)] at hp
      rw [row_rest, row_rest, if_pos (Nat.lt_succ_self qs.length)] at hq
      split_ifs at hp hq
      have hlen : ps.length = qs.length := by omega
      rw [(List.append_inj (Option.some.inj hp) hlen).1]

theorem eq_of_covers {p q : Pattern α} (h : ∀ n qs, q.row n = some qs → p.Covers qs)
    (h' : ∀ n ps, p.row n = some ps → q.Covers ps) : p = q := by
  apply eq_of_row_eq
  intro n
  cases hq : q.row n with
  | none =>
    cases hp : p.row n with
    | none => rfl
    | some ps =>
      obtain ⟨qs, hrow, _⟩ := h' n ps hp
      rw [length_of_row hp, hq] at hrow
      cases hrow
  | some qs =>
    obtain ⟨ps, hp, hpq⟩ := h n qs hq
    rw [length_of_row hq] at hp
    obtain ⟨qs', hq', hqp⟩ := h' n ps hp
    rw [length_of_row hp, hq] at hq'
    obtain rfl := Option.some.inj hq'
    have hsame : List.Forall₂ (· = ·) ps qs :=
      List.Forall₂.mp (fun _ _ h h' => h.antisymm h') hpq hqp.flip
    rw [List.forall₂_eq_eq_eq] at hsame
    rw [hp, hsame]

/-- A letter foreign to both tells two patterns apart: a word of one that the other does not take. -/
theorem eq_of_matches {p q : Pattern α} {x : α} (hp : .letter x ∉ p.parts)
    (hq : .letter x ∉ q.parts)
    (h : ∀ n qs, q.row n = some qs → p.Matches (qs.map (Piece.fill x)))
    (h' : ∀ n ps, p.row n = some ps → q.Matches (ps.map (Piece.fill x))) : p = q :=
  eq_of_covers (fun n qs hrow => (covers_iff hp qs).mpr (h n qs hrow))
    (fun n ps hrow => (covers_iff hq ps).mpr (h' n ps hrow))

/-- Where the word of a letter foreign to all the patterns is among the words that count, the row is
contained in their union only if one of them covers it. -/
theorem contained_iff {S : Finset ι} {pattern : ι → Pattern α} {qs : List (Piece α)}
    {W : Set (List α)} {x : α} (hx : ∀ i ∈ S, .letter x ∉ (pattern i).parts)
    (hW : qs.map (Piece.fill x) ∈ W) :
    (∀ w ∈ W, List.Forall₂ Piece.Matches qs w → ∃ i ∈ S, (pattern i).Matches w) ↔
      ∃ i ∈ S, (pattern i).Covers qs := by
  constructor
  · intro h
    have hfill : List.Forall₂ Piece.Matches qs (qs.map (Piece.fill x)) := by
      rw [List.forall₂_map_right_iff]
      exact List.forall₂_same.mpr fun q _ => Piece.matches_fill x q
    obtain ⟨i, hi, hmatches⟩ := h _ hW hfill
    exact ⟨i, hi, (covers_iff (hx i hi) qs).mpr hmatches⟩
  · rintro ⟨i, hi, hcovers⟩ w _ hw
    exact ⟨i, hi, hcovers.matches hw⟩

theorem exists_foreign (S : Finset ι) (pattern : ι → Pattern α) {A : Set α} (hA : A.Infinite) :
    ∃ x ∈ A, ∀ i ∈ S, .letter x ∉ (pattern i).parts := by
  have hletters : (⋃ i ∈ S, Set.preimage Piece.letter {q | q ∈ (pattern i).parts}).Finite := by
    apply Set.Finite.biUnion S.finite_toSet
    intro i _
    apply (List.finite_toSet _).preimage
    intro a _ b _ hab
    exact Piece.letter.inj hab
  obtain ⟨x, hxA, hx⟩ := hA.exists_notMem_finite hletters
  refine ⟨x, hxA, fun i hi hmem => hx ?_⟩
  exact Set.mem_biUnion hi hmem

end Pattern

end Wildcard

import Psrt.Protocol.Basic

/-! Topics: `prepare_topic` of `pubsub.rs`, and the form of the topics it returns. -/

namespace Psrt
open Wire

def topicInvalidSymbols : List Char := ['#', '+']

def containsInvalidSymbols (topic : Str) : Bool := topic.any (topicInvalidSymbols.contains ·)

def containsDoubleSlash : Str → Bool
  | '/' :: '/' :: _ => true
  | _ :: s => containsDoubleSlash s
  | [] => false

/-- `str::replace("//", "/")`: one pass from the left over non-overlapping occurrences. -/
def replaceDoubleSlash : Str → Str
  | '/' :: '/' :: s => '/' :: replaceDoubleSlash s
  | c :: s => c :: replaceDoubleSlash s
  | [] => []

theorem sublist_replaceDoubleSlash (s : Str) : (replaceDoubleSlash s).Sublist s := by
  fun_induction replaceDoubleSlash s with
  | case1 s ih => exact (ih.cons '/').cons_cons '/'
  | case2 c s _ ih => exact ih.cons_cons c
  | case3 => exact .slnil

theorem length_replaceDoubleSlash_lt {s : Str} (h : containsDoubleSlash s = true) :
    (replaceDoubleSlash s).length < s.length := by
  fun_induction containsDoubleSlash s with
  | case1 s =>
    have hs := (sublist_replaceDoubleSlash s).length_le
    simp only [replaceDoubleSlash, List.length_cons]
    omega
  | case2 c s hc ih =>
    have hs := ih h
    rw [replaceDoubleSlash]
    · simpa only [List.length_cons, Nat.add_lt_add_iff_right] using hs
    · exact hc
  | case3 => cases h

/-- The `while` loop of `prepare_topic`. -/
def collapseSlashes (s : Str) : Str :=
  if _h : containsDoubleSlash s = true then collapseSlashes (replaceDoubleSlash s) else s
termination_by s.length
decreasing_by exact length_replaceDoubleSlash_lt _h

def stripLeadingSlash : Str → Str
  | '/' :: s => s
  | s => s

def prepareTopic (maxTopicDepth : Nat) (topic : Str) : Except Error Str :=
  let result := stripLeadingSlash (collapseSlashes topic)
  if result.count '/' > maxTopicDepth then .error (.invalidData "the topic is too deep")
  else .ok result

theorem sublist_collapseSlashes (s : Str) : (collapseSlashes s).Sublist s := by
  fun_induction collapseSlashes s with
  | case1 s _ ih => exact ih.trans (sublist_replaceDoubleSlash s)
  | case2 s _ => exact .refl s

theorem containsDoubleSlash_collapseSlashes (s : Str) :
    containsDoubleSlash (collapseSlashes s) = false := by
  fun_induction collapseSlashes s with
  | case1 s _ ih => exact ih
  | case2 s h => exact Bool.eq_false_of_not_eq_true h

theorem collapseSlashes_of_simple {s : Str} (h : containsDoubleSlash s = false) :
    collapseSlashes s = s := by
  rw [collapseSlashes, dif_neg (Bool.eq_false_iff.mp h)]

theorem stripLeadingSlash_of_head {s : Str} (h : s.head? ≠ some '/') : stripLeadingSlash s = s := by
  unfold stripLeadingSlash
  split
  · exact absurd rfl h
  · rfl

theorem sublist_stripLeadingSlash (s : Str) : (stripLeadingSlash s).Sublist s := by
  unfold stripLeadingSlash
  split
  · exact List.sublist_cons_self ..
  · exact .refl _

/-- What `prepare_topic` returns when it does not refuse the topic as too deep. -/
theorem prepareTopic_eq_ok {d : Nat} {topic t : Str} :
    prepareTopic d topic = .ok t ↔
      t = stripLeadingSlash (collapseSlashes topic) ∧ t.count '/' ≤ d := by
  simp only [prepareTopic]
  split_ifs with h
  · simp only [false_iff, not_and]
    rintro rfl
    omega
  · simp only [Except.ok.injEq]
    constructor
    · rintro rfl
      exact ⟨rfl, Nat.le_of_not_lt h⟩
    · rintro ⟨rfl, _⟩
      rfl

theorem sublist_of_prepareTopic {d : Nat} {topic t : Str} (h : prepareTopic d topic = .ok t) :
    t.Sublist topic := by
  rw [(prepareTopic_eq_ok.mp h).1]
  exact (sublist_stripLeadingSlash _).trans (sublist_collapseSlashes topic)

theorem prepareTopic_of_simple {d : Nat} {t : Str} (hd : containsDoubleSlash t = false)
    (hs : t.head? ≠ some '/') (hc : t.count '/' ≤ d) : prepareTopic d t = .ok t := by
  have hform : stripLeadingSlash (collapseSlashes t) = t := by
    rw [collapseSlashes_of_simple hd, stripLeadingSlash_of_head hs]
  exact prepareTopic_eq_ok.mpr ⟨hform.symm, hc⟩

end Psrt

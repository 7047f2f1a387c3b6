import Psrt.Subscribe.Filter

/-! What a path mask stands for, read off its text place by place, and that an access list matches
just that. -/

namespace Psrt
open Wire Wildcard

def StandsFor (mask topic : List Str) (i : Nat) : Prop :=
  mask[i]? = some ['+'] ∨ mask[i]? = topic[i]?

instance (mask topic : List Str) (i : Nat) : Decidable (StandsFor mask topic i) :=
  inferInstanceAs (Decidable (mask[i]? = some ['+'] ∨ mask[i]? = topic[i]?))

/-- The chunks of a mask's text against those of a topic, by the place of the first `#`. -/
def MaskMeans (mask topic : List Str) : Prop :=
  match mask.idxOf? ['#'] with
  | some k => k < topic.length ∧ ∀ i < k, StandsFor mask topic i
  | none => mask.length = topic.length ∧ ∀ i < mask.length, StandsFor mask topic i

def SameToHash (s s' : Str) : Prop :=
  s = s' ∨ ∃ start rest rest',
    s.splitOn '/' = start ++ ['#'] :: rest ∧ s'.splitOn '/' = start ++ ['#'] :: rest'

theorem maskMeans_nil (topic : List Str) : MaskMeans [] topic ↔ topic = [] := by
  have hnone : ([] : List Str).idxOf? ['#'] = none := rfl
  unfold MaskMeans
  rw [hnone]
  simp [eq_comm]

theorem maskMeans_hash (mask topic : List Str) : MaskMeans (['#'] :: mask) topic ↔ topic ≠ [] := by
  have hfirst : (['#'] :: mask : List Str).idxOf? ['#'] = some 0 := by
    simp [List.idxOf?_cons]
  unfold MaskMeans
  rw [hfirst]
  simp [List.length_pos_iff]

theorem not_maskMeans_cons_nil {chunk : Str} (h : chunk ≠ ['#']) (mask : List Str) :
    ¬ MaskMeans (chunk :: mask) [] := by
  have hidx : (chunk :: mask).idxOf? ['#'] = (mask.idxOf? ['#']).map (· + 1) := by
    simp [List.idxOf?_cons, h]
  unfold MaskMeans
  rw [hidx]
  cases mask.idxOf? ['#'] with
  | none => simp
  | some k => simp

theorem maskMeans_cons {chunk : Str} (h : chunk ≠ ['#']) (mask : List Str) (c : Str)
    (topic : List Str) :
    MaskMeans (chunk :: mask) (c :: topic) ↔
      (chunk = ['+'] ∨ c = chunk) ∧ MaskMeans mask topic := by
  have hidx : (chunk :: mask).idxOf? ['#'] = (mask.idxOf? ['#']).map (· + 1) := by
    simp [List.idxOf?_cons, h]
  have hzero : StandsFor (chunk :: mask) (c :: topic) 0 ↔ chunk = ['+'] ∨ c = chunk := by
    simp [StandsFor, eq_comm]
  have hsucc : ∀ i, StandsFor (chunk :: mask) (c :: topic) (i + 1) ↔ StandsFor mask topic i := by
    intro i
    simp [StandsFor]
  unfold MaskMeans
  rw [hidx]
  cases mask.idxOf? ['#'] with
  | none =>
    simp only [Option.map_none, List.length_cons, Nat.add_right_cancel_iff,
      Nat.forall_lt_succ_left, hzero, hsucc]
    tauto
  | some k =>
    simp only [Option.map_some, List.length_cons, Nat.add_lt_add_iff_right,
      Nat.forall_lt_succ_left, hzero, hsucc]
    tauto

theorem maskMeans_iff (mask topic : List Str) :
    MaskMeans mask topic ↔ (chunkPattern mask).Matches topic := by
  induction mask generalizing topic with
  | nil => rw [maskMeans_nil, chunkPattern, Pattern.matches_nil_exact]
  | cons chunk mask ih =>
    unfold chunkPattern PathMask.isStrAny
    by_cases hhash : chunk = ['#']
    · subst hhash
      simp [maskMeans_hash]
    · simp only [beq_iff_eq, hhash, if_false]
      cases topic with
      | nil => simp [not_maskMeans_cons_nil hhash]
      | cons c topic => rw [maskMeans_cons hhash, Pattern.matches_cons, chunkPart_matches, ih]

theorem chunkPattern_hash (start rest rest' : List Str) :
    chunkPattern (start ++ ['#'] :: rest) = chunkPattern (start ++ ['#'] :: rest') := by
  induction start with
  | nil => rfl
  | cons chunk start ih =>
    rw [List.cons_append, List.cons_append, chunkPattern, chunkPattern, ih]

theorem SameToHash.chunkPattern_eq {s s' : Str} (h : SameToHash s s') :
    chunkPattern (s.splitOn '/') = chunkPattern (s'.splitOn '/') := by
  rcases h with rfl | ⟨start, rest, rest', hs, hs'⟩
  · rfl
  · rw [hs, hs', chunkPattern_hash]

theorem SameToHash.ne_nil {s s' : Str} (h : SameToHash s s') (hs : s ≠ []) : s' ≠ [] := by
  rintro rfl
  rcases h with heq | ⟨start, rest, rest', _, hs'⟩
  · exact hs heq
  · have hmem : ['#'] ∈ ([] : Str).splitOn '/' := by
      rw [hs']
      simp
    exact absurd hmem (by decide)

theorem forall_ne_nil {masks masks' : List Str} (h : List.Forall₂ SameToHash masks masks')
    (hne : ∀ s ∈ masks, s ≠ []) : ∀ s ∈ masks', s ≠ [] := by
  induction h with
  | nil => exact hne
  | cons hsame _ ih =>
    rw [List.forall_mem_cons] at hne ⊢
    exact ⟨hsame.ne_nil hne.1, ih hne.2⟩

theorem chunkPattern_keepChunks (chunks : List Str) :
    chunkPattern (PathMask.keepChunks chunks) = chunkPattern chunks := by
  induction chunks with
  | nil => rfl
  | cons chunk chunks ih =>
    unfold PathMask.keepChunks
    by_cases hhash : PathMask.isStrAny chunk = true
    · have hpattern : chunkPattern (chunk :: chunks) = ⟨[], true⟩ := by
        rw [chunkPattern, if_pos hhash]
      rw [if_pos hhash, hpattern]
      rfl
    · rw [if_neg hhash, chunkPattern, chunkPattern, if_neg hhash, if_neg hhash, ih]

theorem pattern_of_fromStr {s : Str} {mask : PathMask} (h : PathMask.fromStr s = .ok mask) :
    mask.pattern = chunkPattern (s.splitOn '/') := by
  unfold PathMask.fromStr at h
  split_ifs at h with hempty hany
  · obtain rfl := Except.ok.inj h
    rw [eq_of_beq hany]
    rfl
  · obtain rfl := Except.ok.inj h
    exact chunkPattern_keepChunks _

theorem fromStr_of_ne_nil {s : Str} (h : s ≠ []) : ∃ mask, PathMask.fromStr s = .ok mask := by
  unfold PathMask.fromStr
  rw [if_neg (by simpa using h)]
  split_ifs
  · exact ⟨_, rfl⟩
  · exact ⟨_, rfl⟩

theorem matchesSplit_of_fromStr {s : Str} {mask : PathMask} (h : PathMask.fromStr s = .ok mask)
    (topic : Str) :
    mask.matchesSplit (topic.splitOn '/') = true ↔
      MaskMeans (s.splitOn '/') (topic.splitOn '/') := by
  rw [mask.matchesSplit_iff (List.splitOn_ne_nil _ _), pattern_of_fromStr h, maskMeans_iff]

namespace PathMaskList

theorem fromStrList_spec {masks : List Str} (h : ∀ s ∈ masks, s ≠ []) :
    ∃ list, fromStrList masks = .ok list ∧
      ∀ mask, mask ∈ list.pathMasks ↔ ∃ s ∈ masks, PathMask.fromStr s = .ok mask := by
  induction masks with
  | nil => exact ⟨⟨∅⟩, rfl, by simp⟩
  | cons s masks ih =>
    obtain ⟨hs, hmasks⟩ := List.forall_mem_cons.mp h
    obtain ⟨mask, hmask⟩ := fromStr_of_ne_nil hs
    obtain ⟨list, hlist, hmem⟩ := ih hmasks
    refine ⟨⟨insert mask list.pathMasks⟩, ?_, fun mask' => ?_⟩
    · simp only [fromStrList, hmask, hlist]
    · rw [Finset.mem_insert, hmem, List.exists_mem_cons_iff, hmask, Except.ok.injEq,
        eq_comm (a := mask')]

theorem matches_of_fromStrList {masks : List Str} (h : ∀ s ∈ masks, s ≠ []) :
    ∃ list, fromStrList masks = .ok list ∧ ∀ topic, list.matches topic = true ↔
      ∃ s ∈ masks, MaskMeans (s.splitOn '/') (topic.splitOn '/') := by
  obtain ⟨list, hlist, hmem⟩ := fromStrList_spec h
  refine ⟨list, hlist, fun topic => ?_⟩
  unfold PathMaskList.matches
  rw [decide_eq_true_iff]
  constructor
  · rintro ⟨mask, hmask, hmatches⟩
    obtain ⟨s, hs, hparsed⟩ := (hmem mask).mp hmask
    exact ⟨s, hs, (matchesSplit_of_fromStr hparsed topic).mp hmatches⟩
  · rintro ⟨s, hs, hmeans⟩
    obtain ⟨mask, hparsed⟩ := fromStr_of_ne_nil (h s hs)
    exact ⟨mask, (hmem mask).mpr ⟨s, hs, hparsed⟩,
      (matchesSplit_of_fromStr hparsed topic).mpr hmeans⟩

/-- An access list matches a topic if and only if the text of one of its masks stands for it, and what
follows the first `#` of a mask makes no difference. -/
theorem path_mask_list_matches_iff (masks : List Str) (hne : ∀ s ∈ masks, s ≠ []) :
    ∃ list, fromStrList masks = .ok list ∧
      (∀ topic, list.matches topic = true ↔
        ∃ s ∈ masks, MaskMeans (s.splitOn '/') (topic.splitOn '/')) ∧
      ∀ masks', List.Forall₂ SameToHash masks masks' →
        ∃ list', fromStrList masks' = .ok list' ∧
          ∀ topic, list'.matches topic = list.matches topic := by
  obtain ⟨list, hlist, hmatches⟩ := matches_of_fromStrList hne
  refine ⟨list, hlist, hmatches, fun masks' hsame => ?_⟩
  obtain ⟨list', hlist', hmatches'⟩ := matches_of_fromStrList (forall_ne_nil hsame hne)
  refine ⟨list', hlist', fun topic => ?_⟩
  have hpatterns : masks.map (fun s => chunkPattern (s.splitOn '/')) =
      masks'.map fun s => chunkPattern (s.splitOn '/') := by
    rw [← List.forall₂_eq_eq_eq, List.forall₂_map_left_iff, List.forall₂_map_right_iff]
    exact hsame.imp fun _ _ h => h.chunkPattern_eq
  have hexists : ∀ texts : List Str,
      (∃ s ∈ texts, MaskMeans (s.splitOn '/') (topic.splitOn '/')) ↔
        ∃ p ∈ texts.map fun s => chunkPattern (s.splitOn '/'), p.Matches (topic.splitOn '/') := by
    intro texts
    simp [maskMeans_iff]
  rw [Bool.eq_iff_iff, hmatches, hmatches', hexists, hexists, hpatterns]

theorem path_mask_list_matches_sample :
    ∃ list, fromStrList [['a', '/', '#', '/', 'b']] = .ok list ∧
      list.matches ['a', '/', 'x', '/', 'y'] = true ∧ list.matches ['a'] = false := by
  obtain ⟨list, hlist, hmatches, _⟩ :=
    path_mask_list_matches_iff [['a', '/', '#', '/', 'b']] (by simp)
  have hmeans : 1 < 3 ∧ ∀ i < 1,
      StandsFor [['a'], ['#'], ['b']] [['a'], ['x'], ['y']] i := by decide
  have hnot : ¬ (1 < 1 ∧ ∀ i < 1, StandsFor [['a'], ['#'], ['b']] [['a']] i) := by decide
  refine ⟨list, hlist, (hmatches _).mpr ⟨_, List.mem_singleton_self _, hmeans⟩, ?_⟩
  rw [Bool.eq_false_iff, ne_eq, hmatches]
  rintro ⟨s, hs, hmeans⟩
  obtain rfl := List.mem_singleton.mp hs
  exact hnot hmeans

end PathMaskList

end Psrt

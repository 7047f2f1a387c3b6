import Psrt.Access.Masks

/-! The text of a path mask: how masks are compared, printed and read back, alone and in lists. -/

namespace Psrt
open Wire Wildcard

def HashLed (s : Str) : Prop := ∃ rest, s = '#' :: '/' :: rest

namespace PathMask

def eq (a b : PathMask) : Bool := a.chunks == b.chunks

def cmp (a b : PathMask) : Ordering := compare a.chunks b.chunks

/-- What `Hash` writes to the hasher: the form, the number of chunks, and each chunk with the octet
that ends a text. -/
def hashInput (mask : PathMask) : Bytes :=
  match mask.chunks with
  | none => leBytes 8 0
  | some chunks =>
    leBytes 8 1 ++ (leBytes 8 chunks.length ++ chunks.flatMap fun chunk => utf8 chunk ++ [0xFF])

def toString (mask : PathMask) : Str :=
  match mask.chunks with
  | some chunks => ['/'].intercalate chunks
  | none => ['#']

def SameTopics (a b : PathMask) : Prop :=
  ∀ topic : Str, a.matchesSplit (topic.splitOn '/') = b.matchesSplit (topic.splitOn '/')

theorem eq_iff (a b : PathMask) : a.eq b = true ↔ a = b := by
  obtain ⟨chunks⟩ := a
  obtain ⟨chunks'⟩ := b
  simp [eq]

theorem cmp_iff (a b : PathMask) : a.cmp b = .eq ↔ a = b := by
  obtain ⟨chunks⟩ := a
  obtain ⟨chunks'⟩ := b
  simp [cmp]

theorem end_not_mem_utf8 (s : Str) : 0xFF ∉ utf8 s := by
  have hchar : ∀ c : Char, 0xFF ∉ String.utf8EncodeChar c := by
    intro c
    rw [String.utf8EncodeChar]
    split_ifs <;> simp only [List.mem_cons, List.not_mem_nil, or_false, ← UInt8.toNat_inj,
      UInt8.toNat_ofNat', UInt8.reduceToNat] <;> omega
  simp [utf8, hchar]

theorem flatMap_end_injective {chunks chunks' : List Str}
    (h : (chunks.flatMap fun chunk => utf8 chunk ++ [0xFF]) =
      chunks'.flatMap fun chunk => utf8 chunk ++ [0xFF]) : chunks = chunks' := by
  induction chunks generalizing chunks' with
  | nil =>
    cases chunks' with
    | nil => rfl
    | cons c' chunks' => simp at h
  | cons c chunks ih =>
    cases chunks' with
    | nil => simp at h
    | cons c' chunks' =>
      have hsplit := congrArg (splitFirst 0xFF) h
      simp only [List.flatMap_cons, List.append_assoc, List.singleton_append,
        splitFirst_append (end_not_mem_utf8 _), Prod.mk.injEq, Option.some.injEq] at hsplit
      rw [utf8_injective hsplit.1, ih hsplit.2]

theorem hashInput_iff (a b : PathMask) : a.hashInput = b.hashInput ↔ a = b := by
  refine ⟨fun h => ?_, congrArg hashInput⟩
  obtain ⟨chunks⟩ := a
  obtain ⟨chunks'⟩ := b
  cases chunks with
  | none =>
    cases chunks' with
    | none => rfl
    | some chunks' => simp [hashInput, leBytes] at h
  | some chunks =>
    cases chunks' with
    | none => simp [hashInput, leBytes] at h
    | some chunks' =>
      have hrest := List.append_inj_right h rfl
      have htexts := List.append_inj_right hrest (by simp)
      rw [flatMap_end_injective htexts]

theorem keepChunks_eq (chunks : List Str) :
    keepChunks chunks = (chunkPattern chunks).parts.map (Piece.fill ['+']) ++
      if (chunkPattern chunks).rest then [['#']] else [] := by
  induction chunks with
  | nil => rfl
  | cons chunk chunks ih =>
    have hfill : ∀ c : Str, (chunkPiece c).fill ['+'] = c := by
      intro c
      unfold chunkPiece
      split_ifs with hplus
      · exact (eq_of_beq hplus).symm
      · rfl
    unfold keepChunks chunkPattern
    by_cases hhash : isStrAny chunk = true
    · rw [if_pos hhash, if_pos hhash]
      rfl
    · rw [if_neg hhash, if_neg hhash, ih, List.map_cons, hfill]
      rfl

theorem keepChunks_eq_iff (chunks chunks' : List Str) :
    keepChunks chunks = keepChunks chunks' ↔ chunkPattern chunks = chunkPattern chunks' := by
  constructor
  · intro h
    rw [← chunkPattern_keepChunks chunks, h, chunkPattern_keepChunks]
  · intro h
    rw [keepChunks_eq, h, ← keepChunks_eq]

theorem keepChunks_keepChunks (chunks : List Str) :
    keepChunks (keepChunks chunks) = keepChunks chunks := by
  rw [keepChunks_eq_iff, chunkPattern_keepChunks]

theorem mem_of_mem_keepChunks {chunks : List Str} {c : Str} (h : c ∈ keepChunks chunks) :
    c ∈ chunks := by
  induction chunks with
  | nil => exact h
  | cons chunk chunks ih =>
    unfold keepChunks at h
    split_ifs at h with hhash
    · rw [List.mem_singleton.mp h, eq_of_beq hhash]
      exact List.mem_cons_self ..
    · rcases List.mem_cons.mp h with rfl | hmem
      · exact List.mem_cons_self ..
      · exact List.mem_cons_of_mem _ (ih hmem)

theorem keepChunks_eq_nil {chunks : List Str} : keepChunks chunks = [] ↔ chunks = [] := by
  cases chunks with
  | nil => simp [keepChunks]
  | cons chunk chunks =>
    unfold keepChunks
    split_ifs <;> simp

theorem splitOn_toString (s : Str) :
    (['/'].intercalate (keepChunks (s.splitOn '/'))).splitOn '/' = keepChunks (s.splitOn '/') := by
  apply List.splitOn_intercalate
  · intro c hc
    exact slash_not_mem_chunk (mem_of_mem_keepChunks hc)
  · rw [ne_eq, keepChunks_eq_nil]
    exact List.splitOn_ne_nil _ _

theorem toString_ne_nil {s : Str} (h : s ≠ []) :
    ['/'].intercalate (keepChunks (s.splitOn '/')) ≠ [] := by
  intro hnil
  have hsplit := splitOn_toString s
  rw [hnil] at hsplit
  have hchunks : s.splitOn '/' = [[]] := by
    cases hs : s.splitOn '/' with
    | nil => exact absurd hs (List.splitOn_ne_nil _ _)
    | cons c chunks =>
      rw [hs, keepChunks] at hsplit
      split_ifs at hsplit with hhash
      · simp at hsplit
      · obtain ⟨hc, hchunks⟩ := List.cons.inj hsplit
        rw [← hc, keepChunks_eq_nil.mp hchunks.symm]
        rfl
  have hjoin : ['/'].intercalate (s.splitOn '/') = s := List.intercalate_splitOn '/'
  rw [hchunks] at hjoin
  exact h hjoin.symm

theorem keepChunks_eq_hash {s : Str} (h : s ≠ ['#']) :
    keepChunks (s.splitOn '/') = [['#']] ↔ HashLed s := by
  induction s using chunk_induction '/' with
  | last c hc =>
    have hled : ¬ HashLed c := by
      rintro ⟨rest, rfl⟩
      simp at hc
    simp [List.splitOn_eq_singleton hc, keepChunks, isStrAny, h, hled]
  | cons c t hc _ =>
    rw [List.splitOn_append_cons_self_of_not_mem hc, keepChunks]
    by_cases hhash : isStrAny c = true
    · rw [if_pos hhash, eq_of_beq hhash]
      simp [HashLed]
    · have hled : ¬ HashLed (c ++ '/' :: t) := by
        rintro ⟨rest, heq⟩
        rcases c with _ | ⟨a, _ | ⟨b, c⟩⟩
        · simp at heq
        · simp at heq
          simp [isStrAny, heq.1] at hhash
        · simp at heq
          simp [heq.2.1] at hc
      rw [if_neg hhash]
      simp only [hled, iff_false]
      intro heq
      rw [(List.cons.inj heq).1] at hhash
      exact hhash rfl

theorem fromStr_eq_ok {s : Str} {mask : PathMask} (h : fromStr s = .ok mask) :
    s ≠ [] ∧ mask = if s = ['#'] then newAny else ⟨some (keepChunks (s.splitOn '/'))⟩ := by
  unfold fromStr isStrAny at h
  simp only [beq_iff_eq] at h
  split_ifs at h with hempty hany
  · exact ⟨by simpa using hempty, (Except.ok.inj h).symm.trans (if_pos hany).symm⟩
  · exact ⟨by simpa using hempty, (Except.ok.inj h).symm.trans (if_neg hany).symm⟩

section
variable {s₁ s₂ s : Str} {m₁ m₂ mask : PathMask}

theorem matches_row (h : fromStr s = .ok mask) {n : Nat} {ps : List (Piece Str)}
    (hrow : mask.pattern.row n = some ps) :
    mask.matchesSplit ((spell ps).splitOn '/') = true ∧
      (spell ps).splitOn '/' = ps.map (Piece.fill ['+']) := by
  have hpattern := pattern_of_fromStr h
  have hletters : ∀ a, .letter a ∈ ps → '/' ∉ a := by
    intro a ha
    have hmem := Pattern.letter_of_mem_row hrow ha
    rw [hpattern] at hmem
    exact slash_not_mem_chunk (letter_mem_chunkPattern hmem)
  have hne : ps ≠ [] := by
    rw [hpattern] at hrow
    exact ne_nil_of_row (List.splitOn_ne_nil _ _) hrow
  have hsplit : (spell ps).splitOn '/' = ps.map (Piece.fill ['+']) :=
    splitOn_fill hne hletters (by decide)
  refine ⟨?_, hsplit⟩
  rw [mask.matchesSplit_iff (List.splitOn_ne_nil _ _), hsplit]
  exact (Pattern.covers_iff mask.plus_not_mem_pattern ps).mp (Pattern.covers_row hrow)

theorem sameTopics_iff (h₁ : fromStr s₁ = .ok m₁) (h₂ : fromStr s₂ = .ok m₂) :
    m₁.SameTopics m₂ ↔ m₁.pattern = m₂.pattern := by
  constructor
  · intro hsame
    apply Pattern.eq_of_matches m₁.plus_not_mem_pattern m₂.plus_not_mem_pattern
    · intro n qs hrow
      obtain ⟨hmatches, hsplit⟩ := matches_row h₂ hrow
      rw [← hsplit, ← m₁.matchesSplit_iff (List.splitOn_ne_nil _ _), hsame]
      exact hmatches
    · intro n ps hrow
      obtain ⟨hmatches, hsplit⟩ := matches_row h₁ hrow
      rw [← hsplit, ← m₂.matchesSplit_iff (List.splitOn_ne_nil _ _), ← hsame]
      exact hmatches
  · intro heq topic
    rw [Bool.eq_iff_iff, m₁.matchesSplit_iff (List.splitOn_ne_nil _ _),
      m₂.matchesSplit_iff (List.splitOn_ne_nil _ _), heq]

/-- One of the two is the mask of everything, the other a text that has come down to it. -/
def OddPair (s₁ s₂ : Str) : Prop := (s₁ = ['#'] ∧ HashLed s₂) ∨ (HashLed s₁ ∧ s₂ = ['#'])

theorem pattern_eq_any (h : fromStr s = .ok mask) :
    mask.pattern = ⟨[], true⟩ ↔ s = ['#'] ∨ HashLed s := by
  by_cases hany : s = ['#']
  · obtain ⟨_, rfl⟩ := fromStr_eq_ok h
    have hpattern : newAny.pattern = ⟨[], true⟩ := rfl
    simp [hany, hpattern]
  · have hhash : chunkPattern [['#']] = ⟨[], true⟩ := rfl
    have hkeep : keepChunks [['#']] = [['#']] := rfl
    rw [pattern_of_fromStr h, ← keepChunks_eq_hash hany, ← hhash, ← keepChunks_eq_iff, hkeep]
    simp [hany]

theorem eq_iff_pattern_eq (h₁ : fromStr s₁ = .ok m₁) (h₂ : fromStr s₂ = .ok m₂) :
    m₁ = m₂ ↔ m₁.pattern = m₂.pattern ∧ ¬ OddPair s₁ s₂ := by
  have hled : ¬ HashLed ['#'] := by
    rintro ⟨rest, heq⟩
    simp at heq
  have hp₁ := pattern_eq_any h₁
  have hp₂ := pattern_eq_any h₂
  have hpattern : m₁.pattern = m₂.pattern ↔
      chunkPattern (s₁.splitOn '/') = chunkPattern (s₂.splitOn '/') := by
    rw [pattern_of_fromStr h₁, pattern_of_fromStr h₂]
  have hm₁ := (fromStr_eq_ok h₁).2
  have hm₂ := (fromStr_eq_ok h₂).2
  unfold OddPair
  by_cases hany₁ : s₁ = ['#']
  · by_cases hany₂ : s₂ = ['#']
    · simp [hm₁, hm₂, hany₁, hany₂, hled]
    · have hne : m₁ ≠ m₂ := by
        simp [hm₁, hm₂, hany₁, hany₂, newAny]
      rw [hp₁.mpr (.inl hany₁), eq_comm (b := m₂.pattern), hp₂]
      simp [hne, hany₁, hany₂]
  · by_cases hany₂ : s₂ = ['#']
    · have hne : m₁ ≠ m₂ := by
        simp [hm₁, hm₂, hany₁, hany₂, newAny]
      rw [hp₂.mpr (.inl hany₂), hp₁]
      simp [hne, hany₁, hany₂]
    · rw [hpattern, ← keepChunks_eq_iff]
      simp [hm₁, hm₂, hany₁, hany₂]

end

section
variable {s : Str} {mask : PathMask}

def reread (mask : PathMask) : PathMask := if mask = ⟨some [['#']]⟩ then newAny else mask

theorem fromStr_toString (h : fromStr s = .ok mask) :
    fromStr mask.toString = .ok mask.reread := by
  obtain ⟨hne, rfl⟩ := fromStr_eq_ok h
  by_cases hany : s = ['#']
  · rw [if_pos hany]
    rfl
  · rw [if_neg hany]
    have hsplit := splitOn_toString s
    have hhash : ['/'].intercalate (keepChunks (s.splitOn '/')) = ['#'] ↔
        keepChunks (s.splitOn '/') = [['#']] := by
      constructor
      · intro htext
        rw [htext] at hsplit
        exact hsplit.symm
      · intro hchunks
        rw [hchunks]
        rfl
    unfold toString fromStr reread isStrAny
    simp only [List.isEmpty_iff, toString_ne_nil hne, if_false, beq_iff_eq, hhash, hsplit,
      keepChunks_keepChunks, PathMask.mk.injEq, Option.some.injEq]
    split_ifs
    · rfl
    · rfl

/-- A mask that is not kept as it is printed: the text `#/…`. -/
theorem reread_eq_iff (h : fromStr s = .ok mask) : mask.reread = mask ↔ ¬ HashLed s := by
  obtain ⟨_, rfl⟩ := fromStr_eq_ok h
  unfold reread
  by_cases hany : s = ['#']
  · have hled : ¬ HashLed s := by
      rintro ⟨rest, heq⟩
      simp [hany] at heq
    rw [if_pos hany]
    simp [hled, newAny]
  · have hodd : (⟨some (keepChunks (s.splitOn '/'))⟩ : PathMask) = ⟨some [['#']]⟩ ↔ HashLed s := by
      rw [PathMask.mk.injEq, Option.some.injEq, keepChunks_eq_hash hany]
    rw [if_neg hany]
    split_ifs with hform
    · simp [hodd.mp hform, newAny]
    · simp [mt hodd.mpr hform]

theorem reread_eq_self (mask : PathMask) : mask.reread = mask ↔ mask ≠ ⟨some [['#']]⟩ := by
  unfold reread
  split_ifs with hform
  · simp [hform, newAny]
  · simp [hform]

theorem reread_ne (mask : PathMask) : mask.reread ≠ ⟨some [['#']]⟩ := by
  unfold reread
  split_ifs with hform
  · simp [newAny]
  · exact hform

end

end PathMask

/-- What a deserializer hands to a visitor: a text, a sequence, or a value of another kind. -/
inductive Content where
  | str (value : Str)
  | seq (elements : List Content)
  | other

def PathMask.deserialize : Content → Except String PathMask
  | .str value =>
    match fromStr value with
    | .ok mask => .ok mask
    | .error e => .error s!"{e.display}: {String.ofList value}"
  | .seq _ => .error "invalid type: sequence, expected a string-packed path mask"
  | .other => .error "invalid type, expected a string-packed path mask"

def PathMask.deserializeSet : List Content → Except String (Finset PathMask)
  | [] => .ok ∅
  | element :: elements =>
    match deserialize element with
    | .error e => .error e
    | .ok mask =>
      match deserializeSet elements with
      | .error e => .error e
      | .ok masks => .ok (insert mask masks)

namespace PathMaskList

def IsOrder (list : PathMaskList) (order : List PathMask) : Prop :=
  order.Nodup ∧ order.toFinset = list.pathMasks

def serialize (order : List PathMask) : Content := .seq (order.map fun mask => .str mask.toString)

def errNoVariant : String := "data did not match any variant of untagged enum PathMaskListYaml"

/-- `PathMaskListYaml::Many`, which is tried when `One` has failed. -/
def deserializeMany : Content → Except String PathMaskList
  | .seq elements =>
    match PathMask.deserializeSet elements with
    | .ok masks => .ok ⟨masks⟩
    | .error _ => .error errNoVariant
  | _ => .error errNoVariant

def deserialize (content : Content) : Except String PathMaskList :=
  match PathMask.deserialize content with
  | .ok mask => .ok ⟨{mask}⟩
  | .error _ => deserializeMany content

def Parsed (list : PathMaskList) : Prop :=
  ∀ mask ∈ list.pathMasks, ∃ s, PathMask.fromStr s = .ok mask

theorem deserialize_serialize {order : List PathMask}
    (h : ∀ mask ∈ order, ∃ s, PathMask.fromStr s = .ok mask) :
    deserialize (serialize order) = .ok ⟨order.toFinset.image PathMask.reread⟩ := by
  have hset : PathMask.deserializeSet (order.map fun mask => .str mask.toString) =
      .ok (order.toFinset.image PathMask.reread) := by
    induction order with
    | nil => rfl
    | cons mask order ih =>
      obtain ⟨⟨s, hs⟩, horder⟩ := List.forall_mem_cons.mp h
      simp only [List.map_cons, PathMask.deserializeSet, PathMask.deserialize,
        PathMask.fromStr_toString hs, ih horder, List.toFinset_cons, Finset.image_insert]
  simp only [deserialize, serialize, PathMask.deserialize, deserializeMany, hset]

theorem image_reread_eq_iff (masks : Finset PathMask) :
    masks.image PathMask.reread = masks ↔ ⟨some [['#']]⟩ ∉ masks := by
  constructor
  · intro himage hmem
    rw [← himage] at hmem
    obtain ⟨mask, _, hreread⟩ := Finset.mem_image.mp hmem
    exact mask.reread_ne hreread
  · intro hnot
    have hsame : ∀ mask ∈ masks, mask.reread = mask := by
      intro mask hmask
      rw [PathMask.reread_eq_self]
      rintro rfl
      exact hnot hmask
    rw [Finset.image_congr hsame, Finset.image_id']

theorem hash_not_mem_iff {list : PathMaskList} (h : list.Parsed) :
    ⟨some [['#']]⟩ ∉ list.pathMasks ↔
      ∀ mask ∈ list.pathMasks, ∀ s, PathMask.fromStr s = .ok mask → ¬ HashLed s := by
  constructor
  · intro hnot mask hmask s hs
    rw [← PathMask.reread_eq_iff hs, PathMask.reread_eq_self]
    rintro rfl
    exact hnot hmask
  · intro hled hmem
    obtain ⟨s, hs⟩ := h _ hmem
    have hreread := (PathMask.reread_eq_iff hs).mpr (hled _ hmem s hs)
    exact (PathMask.reread_eq_self _).mp hreread rfl

theorem deserialize_serialize_iff {list : PathMaskList} (h : list.Parsed) {order : List PathMask}
    (horder : list.IsOrder order) :
    deserialize (serialize order) = .ok list ↔
      ∀ mask ∈ list.pathMasks, ∀ s, PathMask.fromStr s = .ok mask → ¬ HashLed s := by
  have hparsed : ∀ mask ∈ order, ∃ s, PathMask.fromStr s = .ok mask := by
    intro mask hmask
    apply h
    rw [← horder.2]
    exact List.mem_toFinset.mpr hmask
  obtain ⟨masks⟩ := list
  rw [deserialize_serialize hparsed, horder.2, ← hash_not_mem_iff h, ← image_reread_eq_iff]
  simp

end PathMaskList

/-- Masks are equal if and only if they match the same topics, and a mask or a list of masks is read
back as it was printed, except where a text that begins with `#/` has come down to the chunk `#`. -/
theorem mask_equality_iff {s₁ s₂ : Str} {m₁ m₂ : PathMask} (h₁ : PathMask.fromStr s₁ = .ok m₁)
    (h₂ : PathMask.fromStr s₂ = .ok m₂) {list : PathMaskList} (hlist : list.Parsed)
    {order : List PathMask} (horder : list.IsOrder order) :
    (m₁.cmp m₂ = .eq ↔ m₁.eq m₂ = true) ∧ (m₁.hashInput = m₂.hashInput ↔ m₁.eq m₂ = true) ∧
    ((m₁.eq m₂ = true ↔ m₁.SameTopics m₂) ↔ ¬ PathMask.OddPair s₁ s₂) ∧
    (PathMask.fromStr m₁.toString = .ok m₁ ↔ ¬ HashLed s₁) ∧
    (PathMaskList.deserialize (PathMaskList.serialize order) = .ok list ↔
      ∀ mask ∈ list.pathMasks, ∀ s, PathMask.fromStr s = .ok mask → ¬ HashLed s) := by
  simp only [PathMask.cmp_iff, PathMask.hashInput_iff, PathMask.eq_iff, true_and]
  refine ⟨?_, ?_, PathMaskList.deserialize_serialize_iff hlist horder⟩
  · have hodd : PathMask.OddPair s₁ s₂ → m₁.pattern = m₂.pattern := by
      rintro (⟨hany, hled⟩ | ⟨hled, hany⟩)
      · rw [(PathMask.pattern_eq_any h₁).mpr (.inl hany), (PathMask.pattern_eq_any h₂).mpr (.inr hled)]
      · rw [(PathMask.pattern_eq_any h₁).mpr (.inr hled), (PathMask.pattern_eq_any h₂).mpr (.inl hany)]
    rw [PathMask.sameTopics_iff h₁ h₂, PathMask.eq_iff_pattern_eq h₁ h₂]
    tauto
  · rw [PathMask.fromStr_toString h₁, Except.ok.injEq, PathMask.reread_eq_iff h₁]

theorem mask_equality_sample :
    ¬ PathMask.SameTopics ⟨some [['a'], ['#']]⟩ ⟨some [['a'], ['+']]⟩ ∧
      PathMaskList.deserialize (PathMaskList.serialize [⟨some [['a'], ['#']]⟩]) =
        .ok ⟨{⟨some [['a'], ['#']]⟩}⟩ := by
  have hmask : PathMask.fromStr ['a', '/', '#'] = .ok ⟨some [['a'], ['#']]⟩ := by decide
  have hmask' : PathMask.fromStr ['a', '/', '+'] = .ok ⟨some [['a'], ['+']]⟩ := by decide
  have hparsed : PathMaskList.Parsed ⟨{⟨some [['a'], ['#']]⟩}⟩ := by
    intro mask hmem
    rw [Finset.mem_singleton.mp hmem]
    exact ⟨_, hmask⟩
  have horder : PathMaskList.IsOrder ⟨{⟨some [['a'], ['#']]⟩}⟩ [⟨some [['a'], ['#']]⟩] :=
    ⟨by decide, rfl⟩
  obtain ⟨_, _, hsame, _, hlist⟩ := mask_equality_iff hmask hmask' hparsed horder
  constructor
  · have hodd : ¬ PathMask.OddPair ['a', '/', '#'] ['a', '/', '+'] := by
      rintro (⟨heq, _⟩ | ⟨⟨_, heq⟩, _⟩)
      · simp at heq
      · simp at heq
    rw [← hsame.mpr hodd]
    decide
  · rw [hlist]
    intro mask hmem s hs
    rw [Finset.mem_singleton.mp hmem] at hs
    rw [← PathMask.reread_eq_iff hs]
    decide

/-- The masks `#` and `#/a` match every topic, and are not equal; the second is printed as the first. -/
theorem hash_slash_mask : ∃ m₁ m₂, PathMask.fromStr ['#'] = .ok m₁ ∧
    PathMask.fromStr ['#', '/', 'a'] = .ok m₂ ∧ m₁.SameTopics m₂ ∧ m₁.eq m₂ = false ∧
    PathMask.fromStr m₂.toString = .ok m₁ := by
  refine ⟨PathMask.newAny, ⟨some [['#']]⟩, by decide, by decide, ?_, by decide, by decide⟩
  intro topic
  have hne := List.splitOn_ne_nil '/' topic
  cases hchunks : topic.splitOn '/' with
  | nil => exact absurd hchunks hne
  | cons c chunks => rfl

end Psrt

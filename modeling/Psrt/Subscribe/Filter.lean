import Psrt.Lib.Wildcard
import Psrt.Server.Acl
import Psrt.Server.Registry
import Mathlib.Data.List.Infix

/-! Subscription filters against access lists: when an access list lets a client read all that a
filter brings. -/

namespace Psrt
open Wire Wildcard

theorem length_chunks (t : Str) : (t.splitOn '/').length = t.count '/' + 1 := by
  induction t using chunk_induction '/' with
  | last c hc =>
    rw [List.splitOn_eq_singleton hc, List.count_eq_zero.mpr hc]
    rfl
  | cons c t hc ih =>
    rw [List.splitOn_append_cons_self_of_not_mem hc, List.length_cons, ih, List.count_append,
      List.count_cons_self, List.count_eq_zero.mpr hc]
    omega

theorem slash_not_mem_chunk {t c : Str} (h : c ∈ t.splitOn '/') : '/' ∉ c :=
  not_mem_of_mem_splitOn h

theorem mem_iff_chunk {t : Str} {a : Char} (ha : a ≠ '/') :
    a ∈ t ↔ ∃ c ∈ t.splitOn '/', a ∈ c := by
  induction t using chunk_induction '/' with
  | last c hc =>
    rw [List.splitOn_eq_singleton hc]
    simp only [List.mem_singleton, exists_eq_left]
  | cons c t hc ih =>
    rw [List.splitOn_append_cons_self_of_not_mem hc]
    simp only [List.mem_append, List.mem_cons, ha, false_or, ih, exists_eq_or_imp]

theorem containsInvalidSymbols_eq_false {t : Str} :
    containsInvalidSymbols t = false ↔ '#' ∉ t ∧ '+' ∉ t := by
  unfold containsInvalidSymbols topicInvalidSymbols
  rw [List.any_eq_false]
  simp only [List.contains_cons, List.contains_nil, Bool.or_false, Bool.or_eq_true, beq_iff_eq,
    not_or]
  constructor
  · intro h
    exact ⟨fun hmem => (h _ hmem).1 rfl, fun hmem => (h _ hmem).2 rfl⟩
  · rintro ⟨hany, hone⟩ a ha
    exact ⟨fun heq => hany (heq ▸ ha), fun heq => hone (heq ▸ ha)⟩

theorem containsInvalidSymbols_chunks {t : Str} :
    containsInvalidSymbols t = false ↔ ∀ c ∈ t.splitOn '/', containsInvalidSymbols c = false := by
  have hany : '#' ∈ t ↔ ∃ c ∈ t.splitOn '/', '#' ∈ c := mem_iff_chunk (by decide)
  have hone : '+' ∈ t ↔ ∃ c ∈ t.splitOn '/', '+' ∈ c := mem_iff_chunk (by decide)
  simp only [containsInvalidSymbols_eq_false]
  rw [hany, hone]
  simp only [not_exists, not_and, forall_and]

def Normal (t : Str) : Prop := containsDoubleSlash t = false ∧ t.head? ≠ some '/'

theorem containsDoubleSlash_slash (t : Str) :
    containsDoubleSlash ('/' :: t) = false ↔ t.head? ≠ some '/' ∧ containsDoubleSlash t = false := by
  cases t with
  | nil => decide
  | cons a t =>
    by_cases ha : a = '/'
    · subst ha
      simp [containsDoubleSlash]
    · have hskip : containsDoubleSlash ('/' :: a :: t) = containsDoubleSlash (a :: t) := by
        rw [containsDoubleSlash]
        intro s _ heq
        exact ha (List.cons.inj heq).1
      simp [hskip, ha]

theorem containsDoubleSlash_append {c : Str} (hc : '/' ∉ c) (t : Str) :
    containsDoubleSlash (c ++ t) = containsDoubleSlash t := by
  induction c with
  | nil => rfl
  | cons a c ih =>
    rw [List.mem_cons, not_or] at hc
    rw [List.cons_append, containsDoubleSlash]
    · exact ih hc.2
    · rintro s rfl
      exact absurd rfl hc.1

theorem normal_iff (t : Str) : Normal t ↔ ∀ c ∈ (t.splitOn '/').dropLast, c ≠ [] := by
  unfold Normal
  induction t using chunk_induction '/' with
  | last c hc =>
    have hdouble : containsDoubleSlash c = false := by
      have happend := containsDoubleSlash_append hc []
      rwa [List.append_nil] at happend
    rw [List.splitOn_eq_singleton hc]
    refine iff_of_true ⟨hdouble, fun hhead => ?_⟩ fun c hmem => absurd hmem List.not_mem_nil
    exact hc (List.mem_of_mem_head? hhead)
  | cons c t hc ih =>
    have hhead : (c ++ '/' :: t).head? ≠ some '/' ↔ c ≠ [] := by
      cases c with
      | nil => simp
      | cons a c =>
        rw [List.mem_cons, not_or] at hc
        simp [Ne.symm hc.1]
    rw [List.splitOn_append_cons_self_of_not_mem hc, containsDoubleSlash_append hc,
      containsDoubleSlash_slash, hhead, List.dropLast_cons_of_ne_nil (List.splitOn_ne_nil _ _),
      List.forall_mem_cons, ← ih]
    tauto

theorem normal_of_prepareTopic {d : Nat} {raw t : Str} (h : prepareTopic d raw = .ok t) :
    Normal t := by
  have hcollapsed := containsDoubleSlash_collapseSlashes raw
  rw [(prepareTopic_eq_ok.mp h).1]
  unfold stripLeadingSlash
  split
  · next s heq =>
    rw [heq, containsDoubleSlash_slash] at hcollapsed
    exact ⟨hcollapsed.2, hcollapsed.1⟩
  · next hslash =>
    refine ⟨hcollapsed, fun hhead => ?_⟩
    obtain ⟨s, hs⟩ := List.head?_eq_some_iff.mp hhead
    exact hslash s hs

/-- The topics a publish may have: those `prepare_topic` returns, without wildcards. -/
def Publishable (maxTopicDepth : Nat) (t : Str) : Prop :=
  ∃ raw, prepareTopic maxTopicDepth raw = .ok t ∧ containsInvalidSymbols t = false

theorem publishable_iff {d : Nat} {t : Str} :
    Publishable d t ↔ Normal t ∧ t.count '/' ≤ d ∧ containsInvalidSymbols t = false := by
  constructor
  · rintro ⟨raw, hprepared, hvalid⟩
    exact ⟨normal_of_prepareTopic hprepared, (prepareTopic_eq_ok.mp hprepared).2, hvalid⟩
  · rintro ⟨hnormal, hdepth, hvalid⟩
    exact ⟨t, prepareTopic_of_simple hnormal.1 hnormal.2 hdepth, hvalid⟩

def chunkPiece (chunk : Str) : Piece Str :=
  if PathMask.isStrWildcard chunk then .one else .letter chunk

def chunkPattern : List Str → Pattern Str
  | [] => ⟨[], false⟩
  | chunk :: chunks =>
    if PathMask.isStrAny chunk then ⟨[], true⟩
    else ⟨chunkPiece chunk :: (chunkPattern chunks).parts, (chunkPattern chunks).rest⟩

theorem chunkPart_matches (chunk x : Str) :
    (chunkPiece chunk).Matches x ↔ chunk = ['+'] ∨ x = chunk := by
  unfold chunkPiece PathMask.isStrWildcard
  by_cases h : chunk = ['+']
  · simp [h, Piece.Matches]
  · simp [h, Piece.Matches]

theorem plus_not_mem_chunkPattern (chunks : List Str) :
    .letter ['+'] ∉ (chunkPattern chunks).parts := by
  induction chunks with
  | nil => exact List.not_mem_nil
  | cons chunk chunks ih =>
    unfold chunkPattern
    split_ifs
    · exact List.not_mem_nil
    · rw [List.mem_cons, not_or]
      refine ⟨fun heq => ?_, ih⟩
      unfold chunkPiece at heq
      split_ifs at heq with hplus
      obtain rfl := Piece.letter.inj heq
      exact hplus rfl

theorem matchesFilter_iff (filter chunks : List Str) :
    matchesFilter filter chunks = true ↔ (chunkPattern filter).Matches chunks := by
  induction filter generalizing chunks with
  | nil => cases chunks <;> simp [matchesFilter, chunkPattern]
  | cons f filter ih =>
    unfold chunkPattern PathMask.isStrAny
    by_cases hany : f = ['#']
    · cases chunks <;> simp [matchesFilter, hany]
    · cases chunks with
      | nil => simp [matchesFilter, hany]
      | cons t chunks =>
        simp only [matchesFilter, beq_iff_eq, hany, if_false, Pattern.matches_cons,
          chunkPart_matches, Bool.or_eq_true, Bool.and_eq_true, ih, false_or]
        rw [eq_comm (a := t)]

theorem matchesChunks_iff (mask chunks : List Str) :
    PathMask.matchesChunks mask chunks = true ↔ (chunkPattern mask).Matches chunks := by
  induction mask generalizing chunks with
  | nil => cases chunks <;> simp [PathMask.matchesChunks, chunkPattern]
  | cons k mask ih =>
    unfold chunkPattern PathMask.isStrAny
    by_cases hany : k = ['#']
    · cases chunks <;> simp [PathMask.matchesChunks, PathMask.isStrAny, hany]
    · cases chunks with
      | nil => simp [PathMask.matchesChunks, hany]
      | cons t chunks =>
        simp only [PathMask.matchesChunks, PathMask.isStrAny, PathMask.isStrWildcard, beq_iff_eq,
          hany, if_false, Pattern.matches_cons, chunkPart_matches]
        by_cases hone : k = ['+']
        · simp [hone, ih]
        · by_cases hchunk : t = k
          · simp [hone, hchunk, ih]
          · simp [hone, hchunk]

def PathMask.pattern (mask : PathMask) : Pattern Str :=
  match mask.chunks with
  | some chunks => chunkPattern chunks
  | none => ⟨[], true⟩

theorem PathMask.matchesSplit_iff (mask : PathMask) {chunks : List Str} (h : chunks ≠ []) :
    mask.matchesSplit chunks = true ↔ mask.pattern.Matches chunks := by
  unfold matchesSplit pattern
  cases mask.chunks with
  | some mask => exact matchesChunks_iff mask chunks
  | none => simp [h]

theorem PathMask.plus_not_mem_pattern (mask : PathMask) : .letter ['+'] ∉ mask.pattern.parts := by
  unfold pattern
  cases mask.chunks with
  | some chunks => exact plus_not_mem_chunkPattern chunks
  | none => exact List.not_mem_nil

def Acl.readMasks (acl : Acl) : Finset PathMask := acl.read.elim ∅ PathMaskList.pathMasks

theorem Acl.allowRead_iff (acl : Acl) (topic : Str) :
    acl.allowRead topic = true ↔
      ∃ mask ∈ acl.readMasks, mask.pattern.Matches (topic.splitOn '/') := by
  have hmask : ∀ mask : PathMask, mask.matchesSplit (topic.splitOn '/') = true ↔
      mask.pattern.Matches (topic.splitOn '/') := fun mask =>
    mask.matchesSplit_iff (List.splitOn_ne_nil _ _)
  unfold allowRead readMasks
  cases acl.read with
  | none => simp
  | some masks => simp [PathMaskList.matches, hmask]

def spell (parts : List (Piece Str)) : Str := ['/'].intercalate (parts.map (Piece.fill ['+']))

def plain (parts : List (Piece Str)) : Bool :=
  parts.all fun
    | .letter a => !containsInvalidSymbols a
    | .one => true

/-- The access list lets the prepared filter be read with its `#` written out as `+`, any number of
times that the depth of a topic has room for. -/
def FilterAllowed (maxTopicDepth : Nat) (acl : Acl) (filter : Str) : Prop :=
  ∀ n < maxTopicDepth + 2, ∀ parts ∈ (chunkPattern (filter.splitOn '/')).row n,
    plain parts = true → acl.allowRead (spell parts) = true

instance (maxTopicDepth : Nat) (acl : Acl) (filter : Str) :
    Decidable (FilterAllowed maxTopicDepth acl filter) :=
  inferInstanceAs (Decidable (∀ n < maxTopicDepth + 2, ∀ parts ∈ _, _ → _))

theorem plain_iff {parts : List (Piece Str)} :
    plain parts = true ↔ ∀ a, .letter a ∈ parts → containsInvalidSymbols a = false := by
  unfold plain
  rw [List.all_eq_true]
  constructor
  · intro h a ha
    simpa using h _ ha
  · intro h p hp
    cases p with
    | letter a => simpa using h a hp
    | one => rfl

theorem letter_mem_chunkPattern {chunks : List Str} {a : Str}
    (h : .letter a ∈ (chunkPattern chunks).parts) : a ∈ chunks := by
  induction chunks with
  | nil => exact absurd h List.not_mem_nil
  | cons chunk chunks ih =>
    unfold chunkPattern at h
    split_ifs at h
    · exact absurd h List.not_mem_nil
    · rcases List.mem_cons.mp h with heq | hmem
      · unfold chunkPiece at heq
        split_ifs at heq
        rw [Piece.letter.inj heq]
        exact List.mem_cons_self ..
      · exact List.mem_cons_of_mem _ (ih hmem)

theorem ne_nil_of_row {chunks : List Str} (h : chunks ≠ []) {n : Nat} {parts : List (Piece Str)}
    (hrow : (chunkPattern chunks).row n = some parts) : parts ≠ [] := by
  rintro rfl
  have hn : 0 = n := Pattern.length_of_row hrow
  subst hn
  have hmatches : (chunkPattern chunks).Matches [] := ⟨[], hrow, .nil⟩
  cases chunks with
  | nil => exact h rfl
  | cons chunk chunks =>
    unfold chunkPattern at hmatches
    split_ifs at hmatches
    · exact (Pattern.matches_nil_rest []).mp hmatches rfl
    · exact Pattern.not_matches_cons_nil _ _ _ hmatches

theorem letter_ne_nil_of_row {chunks : List Str} (h : ∀ c ∈ chunks.dropLast, c ≠ []) {n : Nat}
    {parts : List (Piece Str)} (hrow : (chunkPattern chunks).row n = some parts) :
    ∀ p ∈ parts.dropLast, p ≠ .letter [] := by
  -- the letter of a row comes from a chunk that is not the last, and those are not empty
  induction chunks generalizing n parts with
  | nil =>
    unfold chunkPattern at hrow
    rw [Pattern.row_exact] at hrow
    split_ifs at hrow
    obtain rfl := Option.some.inj hrow
    intro p hp
    exact absurd hp List.not_mem_nil
  | cons chunk chunks ih =>
    unfold chunkPattern at hrow
    split_ifs at hrow
    · rw [Pattern.row_rest] at hrow
      split_ifs at hrow
      obtain rfl := Option.some.inj hrow
      rintro p hp rfl
      cases List.eq_of_mem_replicate (List.mem_of_mem_dropLast hp)
    · cases n with
      | zero =>
        rw [List.eq_nil_of_length_eq_zero (Pattern.length_of_row hrow)]
        intro p hp
        exact absurd hp List.not_mem_nil
      | succ n =>
        rw [Pattern.row_cons] at hrow
        obtain ⟨parts', hrow', rfl⟩ := Option.map_eq_some_iff.mp hrow
        cases chunks with
        | nil =>
          unfold chunkPattern at hrow'
          rw [Pattern.row_exact] at hrow'
          split_ifs at hrow'
          obtain rfl := Option.some.inj hrow'
          intro p hp
          exact absurd hp List.not_mem_nil
        | cons chunk' chunks =>
          have hparts' := ne_nil_of_row (List.cons_ne_nil _ _) hrow'
          rw [List.dropLast_cons_of_ne_nil (List.cons_ne_nil _ _), List.forall_mem_cons] at h
          rw [List.dropLast_cons_of_ne_nil hparts', List.forall_mem_cons]
          refine ⟨fun heq => ?_, ih h.2 hrow'⟩
          unfold chunkPiece at heq
          split_ifs at heq
          exact h.1 (Piece.letter.inj heq)

def publishableChunks (maxTopicDepth : Nat) : Set (List Str) :=
  {chunks | ∃ t, Publishable maxTopicDepth t ∧ t.splitOn '/' = chunks}

theorem splitOn_fill {parts : List (Piece Str)} (hne : parts ≠ [])
    (hslash : ∀ a, .letter a ∈ parts → '/' ∉ a) {x : Str} (hx : '/' ∉ x) :
    (['/'].intercalate (parts.map (Piece.fill x))).splitOn '/' = parts.map (Piece.fill x) := by
  apply List.splitOn_intercalate
  · intro c hc
    obtain ⟨p, hp, rfl⟩ := List.mem_map.mp hc
    cases p with
    | letter a => exact hslash a hp
    | one => exact hx
  · exact fun hnil => hne (List.map_eq_nil_iff.mp hnil)

theorem fill_mem_publishableChunks {d : Nat} {parts : List (Piece Str)} (hne : parts ≠ [])
    (hslash : ∀ a, .letter a ∈ parts → '/' ∉ a) (hlast : ∀ p ∈ parts.dropLast, p ≠ .letter [])
    (hplain : plain parts = true) (hlen : parts.length < d + 2) {x : Str} (hx : '/' ∉ x)
    (hxne : x ≠ []) (hxplain : containsInvalidSymbols x = false) :
    parts.map (Piece.fill x) ∈ publishableChunks d := by
  have hsplit := splitOn_fill hne hslash hx
  refine ⟨_, publishable_iff.mpr ⟨?_, ?_, ?_⟩, hsplit⟩
  · rw [normal_iff, hsplit, ← List.map_dropLast]
    intro c hc
    obtain ⟨p, hp, rfl⟩ := List.mem_map.mp hc
    cases p with
    | letter a => exact fun hnil => hlast _ hp (congrArg Piece.letter hnil)
    | one => exact hxne
  · have hcount := length_chunks (['/'].intercalate (parts.map (Piece.fill x)))
    rw [hsplit, List.length_map] at hcount
    omega
  · rw [containsInvalidSymbols_chunks, hsplit]
    intro c hc
    obtain ⟨p, hp, rfl⟩ := List.mem_map.mp hc
    cases p with
    | letter a => exact plain_iff.mp hplain a hp
    | one => exact hxplain

/-- There is always a plain chunk that no mask of the access list mentions. -/
theorem exists_foreign_chunk (masks : Finset PathMask) :
    ∃ x : Str, '/' ∉ x ∧ x ≠ [] ∧ containsInvalidSymbols x = false ∧
      ∀ mask ∈ masks, .letter x ∉ mask.pattern.parts := by
  have hinfinite : {x : Str | '/' ∉ x ∧ x ≠ [] ∧ containsInvalidSymbols x = false}.Infinite := by
    apply Set.infinite_of_injective_forall_mem (f := fun n => List.replicate (n + 1) 'a')
    · intro n k heq
      have hlen := congrArg List.length heq
      simpa using hlen
    · intro n
      have honly : ∀ a, a ∈ List.replicate (n + 1) 'a' → a = 'a' := fun a =>
        List.eq_of_mem_replicate
      refine ⟨fun hmem => ?_, ?_, containsInvalidSymbols_eq_false.mpr ⟨fun hmem => ?_, fun hmem => ?_⟩⟩
      · exact absurd (honly _ hmem) (by decide)
      · exact List.cons_ne_nil _ _
      · exact absurd (honly _ hmem) (by decide)
      · exact absurd (honly _ hmem) (by decide)
  obtain ⟨x, ⟨hslash, hne, hplain⟩, hforeign⟩ :=
    Pattern.exists_foreign masks PathMask.pattern hinfinite
  exact ⟨x, hslash, hne, hplain, hforeign⟩

/-- For one length: the topics a row takes are readable when its text is. -/
theorem row_allowed_iff {d : Nat} {acl : Acl} {parts : List (Piece Str)} (hne : parts ≠ [])
    (hslash : ∀ a, .letter a ∈ parts → '/' ∉ a) (hlast : ∀ p ∈ parts.dropLast, p ≠ .letter [])
    (hplain : plain parts = true) (hlen : parts.length < d + 2) :
    (∀ chunks ∈ publishableChunks d, List.Forall₂ Piece.Matches parts chunks →
      ∃ mask ∈ acl.readMasks, mask.pattern.Matches chunks) ↔ acl.allowRead (spell parts) = true := by
  obtain ⟨x, hx, hxne, hxplain, hforeign⟩ := exists_foreign_chunk acl.readMasks
  have hmem := fill_mem_publishableChunks hne hslash hlast hplain hlen hx hxne hxplain
  have hsplit : (spell parts).splitOn '/' = parts.map (Piece.fill ['+']) :=
    splitOn_fill hne hslash (by decide)
  rw [Pattern.contained_iff hforeign hmem, Acl.allowRead_iff, hsplit]
  refine exists_congr fun mask => and_congr_right fun _ => ?_
  exact Pattern.covers_iff mask.plus_not_mem_pattern parts

theorem filterAllowed_iff {d : Nat} {acl : Acl} {filter : Str} (h : Normal filter) :
    FilterAllowed d acl filter ↔ ∀ t, Publishable d t →
      matchesFilter (filter.splitOn '/') (t.splitOn '/') = true → acl.allowRead t = true := by
  have hrow : ∀ n < d + 2, ∀ parts ∈ (chunkPattern (filter.splitOn '/')).row n,
      plain parts = true →
      ((∀ chunks ∈ publishableChunks d, List.Forall₂ Piece.Matches parts chunks →
        ∃ mask ∈ acl.readMasks, mask.pattern.Matches chunks) ↔
          acl.allowRead (spell parts) = true) := by
    intro n hn parts hrow hplain
    have hslash : ∀ a, .letter a ∈ parts → '/' ∉ a := fun a ha =>
      slash_not_mem_chunk (letter_mem_chunkPattern (Pattern.letter_of_mem_row hrow ha))
    have hlast := letter_ne_nil_of_row ((normal_iff filter).mp h) hrow
    have hlen : parts.length < d + 2 := by rwa [Pattern.length_of_row hrow]
    exact row_allowed_iff (ne_nil_of_row (List.splitOn_ne_nil _ _) hrow) hslash hlast hplain hlen
  constructor
  · intro hallowed t ht hmatch
    obtain ⟨parts, hparts, hforall⟩ := (matchesFilter_iff _ _).mp hmatch
    obtain ⟨_, hdepth, hvalid⟩ := publishable_iff.mp ht
    have hn : (t.splitOn '/').length < d + 2 := by
      rw [length_chunks]
      omega
    have hplain : plain parts = true := by
      rw [plain_iff]
      intro a ha
      have hchunk := Pattern.letter_mem_of_matches hforall ha
      exact containsInvalidSymbols_chunks.mp hvalid a hchunk
    rw [Acl.allowRead_iff]
    exact (hrow _ hn parts hparts hplain).mpr (hallowed _ hn parts hparts hplain) _ ⟨t, ht, rfl⟩
      hforall
  · intro hread n hn parts hparts hplain
    rw [← hrow n hn parts hparts hplain]
    rintro chunks ⟨t, ht, rfl⟩ hforall
    rw [← Acl.allowRead_iff]
    refine hread t ht ((matchesFilter_iff _ _).mpr ⟨parts, ?_, hforall⟩)
    rw [← hforall.length_eq, Pattern.length_of_row hparts]
    exact hparts

end Psrt

import Mathlib.Data.Nat.Basic
import Mathlib.Tactic.Ring

/-! Octet strings: UTF-8 text, little-endian integers, and splitting at the first separator. -/

namespace Wire

abbrev Bytes := List UInt8

/-- A text, as its sequence of Unicode scalar values. -/
abbrev Str := List Char

def utf8 (s : Str) : Bytes := s.flatMap String.utf8EncodeChar

def fromUtf8 (b : Bytes) : Option Str := b.toByteArray.utf8Decode?.map Array.toList

@[simp] theorem utf8_nil : utf8 [] = [] := rfl

@[simp] theorem utf8_cons (c : Char) (s : Str) :
    utf8 (c :: s) = String.utf8EncodeChar c ++ utf8 s := rfl

@[simp] theorem utf8_append (s t : Str) : utf8 (s ++ t) = utf8 s ++ utf8 t :=
  List.flatMap_append

theorem toByteArray_utf8 (s : Str) : (utf8 s).toByteArray = s.utf8Encode := rfl

@[simp] theorem fromUtf8_utf8 (s : Str) : fromUtf8 (utf8 s) = some s := by
  simp only [fromUtf8, toByteArray_utf8, List.utf8Decode?_utf8Encode, Option.map_some]

theorem utf8_of_fromUtf8 {b : Bytes} {s : Str} (h : fromUtf8 b = some s) : utf8 s = b := by
  obtain ⟨cs, hcs, rfl⟩ := Option.map_eq_some_iff.mp h
  obtain ⟨l, hl⟩ := ByteArray.isSome_utf8Decode?_iff.mp (Option.isSome_of_eq_some hcs)
  rw [hl, List.utf8Decode?_utf8Encode] at hcs
  obtain rfl := Option.some.inj hcs
  have hb := congrArg (fun a : ByteArray => a.data.toList) hl
  simpa only [List.toList_data_toByteArray, ← toByteArray_utf8] using hb.symm

theorem utf8_injective : Function.Injective utf8 := by
  intro s t h
  have hst := congrArg fromUtf8 h
  simpa only [fromUtf8_utf8, Option.some.injEq] using hst

theorem utf8_eq_nil {s : Str} : utf8 s = [] ↔ s = [] := by
  constructor
  · intro h
    exact utf8_injective h
  · rintro rfl
    rfl

/-- The zero octet encodes the zero character and occurs in no other encoding. -/
theorem zero_mem_utf8EncodeChar (c : Char) :
    0 ∈ String.utf8EncodeChar c ↔ c = Char.ofNat 0 := by
  have hc : c = Char.ofNat 0 ↔ c.val.toNat = 0 := by
    rw [Char.ext_iff, ← UInt32.toNat_inj]
    rfl
  have hlt := c.val.toNat_lt
  rw [hc, String.utf8EncodeChar]
  split_ifs <;> simp only [List.mem_cons, List.not_mem_nil, or_false, ← UInt8.toNat_inj,
    UInt8.toNat_ofNat', UInt8.toNat_zero] <;> omega

theorem zero_mem_utf8 (s : Str) : 0 ∈ utf8 s ↔ Char.ofNat 0 ∈ s := by
  simp only [utf8, List.mem_flatMap, zero_mem_utf8EncodeChar, exists_eq_right]

theorem length_utf8_le_of_sublist {s t : Str} (h : s.Sublist t) :
    (utf8 s).length ≤ (utf8 t).length := by
  induction h with
  | slnil => exact Nat.le_refl _
  | cons c _ ih =>
    rw [utf8_cons, List.length_append]
    omega
  | cons_cons c _ ih =>
    simp only [utf8_cons, List.length_append]
    omega

def leBytes : Nat → Nat → Bytes
  | 0, _ => []
  | w + 1, v => UInt8.ofNat v :: leBytes w (v / 256)

def leNat : Bytes → Nat
  | [] => 0
  | b :: bs => b.toNat + 256 * leNat bs

@[simp] theorem length_leBytes (w v : Nat) : (leBytes w v).length = w := by
  induction w generalizing v with
  | zero => rfl
  | succ w ih => simp only [leBytes, List.length_cons, ih]

theorem leNat_leBytes (w v : Nat) : leNat (leBytes w v) = v % 256 ^ w := by
  induction w generalizing v with
  | zero => simp only [leBytes, leNat, Nat.pow_zero, Nat.mod_one]
  | succ w ih =>
    have hb : (UInt8.ofNat v).toNat = v % 256 := UInt8.toNat_ofNat'
    rw [leBytes, leNat, ih, hb, Nat.pow_succ', Nat.mod_mul]

theorem leNat_leBytes_of_lt {w v : Nat} (h : v < 256 ^ w) : leNat (leBytes w v) = v := by
  rw [leNat_leBytes, Nat.mod_eq_of_lt h]

theorem leBytes_leNat (bs : Bytes) : leBytes bs.length (leNat bs) = bs := by
  induction bs with
  | nil => rfl
  | cons b bs ih =>
    have hb := b.toNat_lt
    have hlow : UInt8.ofNat (leNat (b :: bs)) = b := by
      rw [← UInt8.toNat_inj, UInt8.toNat_ofNat', leNat]
      omega
    have hhigh : leNat (b :: bs) / 256 = leNat bs := by
      rw [leNat]
      omega
    rw [List.length_cons, leBytes, hlow, hhigh, ih]

/-- One of the two goes on where the other ends. -/
def Along {α : Type} (as bs : List α) : Prop := as <+: bs ∨ bs <+: as

theorem along_append {α : Type} {as bs cs ds : List α} (h : Along (as ++ cs) (bs ++ ds))
    (hlen : as.length = bs.length) : as = bs ∧ Along cs ds := by
  rcases h with ⟨t, ht⟩ | ⟨t, ht⟩
  · rw [List.append_assoc] at ht
    obtain ⟨hhead, htail⟩ := List.append_inj ht hlen
    exact ⟨hhead, .inl ⟨t, htail⟩⟩
  · rw [List.append_assoc] at ht
    obtain ⟨hhead, htail⟩ := List.append_inj ht hlen.symm
    exact ⟨hhead.symm, .inr ⟨t, htail⟩⟩

theorem Along.of_prefix {α : Type} {as bs cs : List α} (h : Along bs cs) (has : as <+: bs) :
    Along as cs := by
  rcases h with h | h
  · exact .inl (has.trans h)
  · exact List.prefix_or_prefix_of_prefix has h

theorem leNat_lt (bs : Bytes) : leNat bs < 256 ^ bs.length := by
  induction bs with
  | nil => exact Nat.one_pos
  | cons b bs ih =>
    have hb := b.toNat_lt
    rw [leNat, List.length_cons, Nat.pow_succ']
    omega

variable {α : Type} [DecidableEq α]

/-- The elements before the first `sep` and, when there is one, those after it. -/
def splitFirst (sep : α) : List α → List α × Option (List α)
  | [] => ([], none)
  | a :: as => if a = sep then ([], some as) else (a :: (splitFirst sep as).1, (splitFirst sep as).2)

theorem splitFirst_append {sep : α} {as : List α} (h : sep ∉ as) (bs : List α) :
    splitFirst sep (as ++ sep :: bs) = (as, some bs) := by
  induction as with
  | nil => simp only [List.nil_append, splitFirst, if_true]
  | cons a as ih =>
    simp only [List.mem_cons, not_or] at h
    simp only [List.cons_append, splitFirst, ih h.2, if_neg (Ne.symm h.1)]

theorem splitFirst_of_not_mem {sep : α} {as : List α} (h : sep ∉ as) :
    splitFirst sep as = (as, none) := by
  induction as with
  | nil => rfl
  | cons a as ih =>
    simp only [List.mem_cons, not_or] at h
    simp only [splitFirst, ih h.2, if_neg (Ne.symm h.1)]

theorem not_mem_splitFirst (sep : α) (as : List α) : sep ∉ (splitFirst sep as).1 := by
  induction as with
  | nil => exact List.not_mem_nil
  | cons a as ih =>
    rw [splitFirst]
    split_ifs with h
    · exact List.not_mem_nil
    · exact List.not_mem_cons_of_ne_of_not_mem (Ne.symm h) ih

theorem eq_of_splitFirst_some {sep : α} {as bs cs : List α}
    (h : splitFirst sep as = (bs, some cs)) : as = bs ++ sep :: cs := by
  induction as generalizing bs with
  | nil => simp only [splitFirst, Prod.mk.injEq, reduceCtorEq, and_false] at h
  | cons a as ih =>
    rw [splitFirst] at h
    split_ifs at h with ha
    · simp only [Prod.mk.injEq, Option.some.injEq] at h
      rw [← h.1, ← h.2, ha, List.nil_append]
    · obtain ⟨rfl, h2⟩ := Prod.mk.inj h
      rw [List.cons_append, ← ih (Prod.ext rfl h2)]

theorem eq_of_splitFirst_none {sep : α} {as bs : List α}
    (h : splitFirst sep as = (bs, none)) : as = bs := by
  induction as generalizing bs with
  | nil => exact (Prod.mk.inj h).1
  | cons a as ih =>
    rw [splitFirst] at h
    split_ifs at h with ha
    · exact absurd (Prod.mk.inj h).2 (Option.some_ne_none as)
    · obtain ⟨rfl, h2⟩ := Prod.mk.inj h
      exact congrArg (List.cons a) (ih (Prod.ext rfl h2))

theorem exists_text_splitFirst (t : Str) (bs : Bytes) :
    ∃ name, (splitFirst 0 (utf8 t ++ 0 :: bs)).1 = utf8 name := by
  by_cases hzero : Char.ofNat 0 ∈ t
  · obtain ⟨name, rest, rfl, hname⟩ := List.eq_append_cons_of_mem hzero
    have hchar : String.utf8EncodeChar (Char.ofNat 0) = [0] := rfl
    refine ⟨name, ?_⟩
    rw [utf8_append, utf8_cons, hchar, List.append_assoc, List.append_assoc, List.singleton_append,
      splitFirst_append (mt (zero_mem_utf8 name).mp hname)]
  · exact ⟨t, by rw [splitFirst_append (mt (zero_mem_utf8 t).mp hzero)]⟩

theorem splitFirst_of_idxOf? {sep : α} {as : List α} {n : Nat} (h : as.idxOf? sep = some n) :
    splitFirst sep as = (as.take n, some (as.drop (n + 1))) := by
  induction as generalizing n with
  | nil => cases h
  | cons a as ih =>
    rw [List.idxOf?_cons] at h
    by_cases ha : a = sep
    · subst ha
      simp only [beq_self_eq_true, if_true, Option.some.injEq] at h
      subst h
      simp only [splitFirst, if_true, List.take_zero, List.drop_one, List.tail_cons, Nat.zero_add]
    · simp only [beq_iff_eq, ha, if_false] at h
      obtain ⟨m, hm, rfl⟩ := Option.map_eq_some_iff.mp h
      simp only [splitFirst, if_neg ha, ih hm, List.take_succ_cons, List.drop_succ_cons]

structure SplitN (α : Type) where
  rest : List α
  finished : Bool
  count : Nat

def splitn (n : Nat) (as : List α) : SplitN α := ⟨as, false, n⟩

namespace SplitN

def finish (it : SplitN α) : Option (List α) × SplitN α :=
  if it.finished then (none, it) else (some it.rest, { it with finished := true })

def split (sep : α) (it : SplitN α) : Option (List α) × SplitN α :=
  if it.finished then (none, it)
  else match it.rest.idxOf? sep with
    | none => it.finish
    | some n => (some (it.rest.take n), { it with rest := it.rest.drop (n + 1) })

def next (sep : α) (it : SplitN α) : Option (List α) × SplitN α :=
  match it.count with
  | 0 => (none, it)
  | 1 => { it with count := 0 }.finish
  | n + 2 => { it with count := n + 1 }.split sep

end SplitN

theorem splitn_two (sep : α) (as : List α) :
    ((splitn 2 as).next sep).1 = some (splitFirst sep as).1 ∧
      (((splitn 2 as).next sep).2.next sep).1 = (splitFirst sep as).2 := by
  cases h : as.idxOf? sep with
  | none =>
    rw [splitFirst_of_not_mem (List.idxOf?_eq_none_iff.mp h)]
    simp [splitn, SplitN.next, SplitN.split, SplitN.finish, h]
  | some n =>
    rw [splitFirst_of_idxOf? h]
    simp [splitn, SplitN.next, SplitN.split, SplitN.finish, h]

theorem chunk_induction (sep : α) {P : List α → Prop} (last : ∀ c, sep ∉ c → P c)
    (cons : ∀ c l, sep ∉ c → P l → P (c ++ sep :: l)) (l : List α) : P l := by
  induction hn : l.count sep generalizing l with
  | zero => exact last l (List.count_eq_zero.mp hn)
  | succ n ih =>
    have hmem : sep ∈ l := List.count_pos_iff.mp (by omega)
    obtain ⟨c, rest, rfl, hc⟩ := List.eq_append_cons_of_mem hmem
    apply cons c rest hc
    apply ih
    rw [List.count_append, List.count_cons_self, List.count_eq_zero.mpr hc] at hn
    omega

theorem not_mem_of_mem_splitOn {sep : α} {l c : List α} (h : c ∈ l.splitOn sep) : sep ∉ c := by
  induction l using chunk_induction sep with
  | last c' hc =>
    rw [List.splitOn_eq_singleton hc] at h
    rwa [List.mem_singleton.mp h]
  | cons c' l hc ih =>
    rw [List.splitOn_append_cons_self_of_not_mem hc] at h
    rcases List.mem_cons.mp h with rfl | hmem
    · exact hc
    · exact ih hmem

end Wire

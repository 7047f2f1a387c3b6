import Psrt.Subscribe.Filter
import Psrt.Server.Calls
import Psrt.Server.State
import Mathlib.Data.List.SplitBy
import Mathlib.Logic.Function.Iterate

/-! The slash normal form: what `prepare_topic` makes of a topic, and that topics of one normal form are
one topic to the server. -/

namespace Psrt
open Wire Interaction

/-- The maximal runs of slashes, and between them every other character for itself. -/
def slashRuns (t : Str) : List Str := t.splitBy fun a b => a == '/' && b == '/'

def oneSlash : Str → Str
  | '/' :: _ => ['/']
  | run => run

def collapseRuns (t : Str) : Str := (slashRuns t).flatMap oneSlash

def slashNormalForm (t : Str) : Str := stripLeadingSlash (collapseRuns t)

theorem collapseRuns_cons {c : Char} (h : c ≠ '/') (t : Str) :
    collapseRuns (c :: t) = c :: collapseRuns t := by
  have hruns : slashRuns (c :: t) = [c] :: slashRuns t := by
    unfold slashRuns
    rw [← List.singleton_append, List.splitBy_append]
    · rfl
    · simp [h]
  have hone : oneSlash [c] = [c] := by
    rw [oneSlash]
    intro s heq
    exact h (List.cons.inj heq).1
  unfold collapseRuns
  rw [hruns, List.flatMap_cons, hone]
  rfl

theorem collapseRuns_run (n : Nat) {t : Str} (h : t.head? ≠ some '/') :
    collapseRuns (List.replicate (n + 1) '/' ++ t) = '/' :: collapseRuns t := by
  have hrun : slashRuns (List.replicate (n + 1) '/') = [List.replicate (n + 1) '/'] := by
    unfold slashRuns
    apply List.splitBy_of_isChain
    · simp
    · exact List.isChain_replicate_of_rel _ rfl
  have hruns : slashRuns (List.replicate (n + 1) '/' ++ t) =
      List.replicate (n + 1) '/' :: slashRuns t := by
    unfold slashRuns at hrun ⊢
    rw [List.splitBy_append, hrun]
    · rfl
    · intro x _ y hy
      have hne : y ≠ '/' := by
        rintro rfl
        exact h hy
      simp [hne]
  unfold collapseRuns
  rw [hruns]
  rfl

theorem exists_leading_slashes (t : Str) :
    ∃ n rest, t = List.replicate n '/' ++ rest ∧ rest.head? ≠ some '/' := by
  induction t with
  | nil => exact ⟨0, [], rfl, by simp⟩
  | cons c t ih =>
    by_cases hc : c = '/'
    · obtain ⟨n, rest, rfl, hrest⟩ := ih
      exact ⟨n + 1, rest, by rw [hc, List.replicate_succ, List.cons_append], hrest⟩
    · exact ⟨0, c :: t, rfl, by simpa using hc⟩

theorem collapseRuns_slash (t : Str) :
    collapseRuns ('/' :: t) = '/' :: stripLeadingSlash (collapseRuns t) := by
  obtain ⟨n, rest, rfl, hrest⟩ := exists_leading_slashes t
  have hhead : (collapseRuns rest).head? ≠ some '/' := by
    cases rest with
    | nil => simp [collapseRuns, slashRuns]
    | cons c rest =>
      have hc : c ≠ '/' := by simpa using hrest
      rw [collapseRuns_cons hc]
      simpa using hc
  have hfirst := collapseRuns_run n hrest
  rw [List.replicate_succ, List.cons_append] at hfirst
  rw [hfirst]
  cases n with
  | zero => rw [List.replicate_zero, List.nil_append, stripLeadingSlash_of_head hhead]
  | succ n =>
    rw [collapseRuns_run n hrest]
    rfl

theorem collapseRuns_replaceDoubleSlash (t : Str) :
    collapseRuns (replaceDoubleSlash t) = collapseRuns t := by
  fun_induction replaceDoubleSlash t with
  | case1 t ih =>
    rw [collapseRuns_slash, ih, collapseRuns_slash, collapseRuns_slash]
    rfl
  | case2 c t _ ih =>
    by_cases hc : c = '/'
    · rw [hc, collapseRuns_slash, ih, ← collapseRuns_slash]
    · rw [collapseRuns_cons hc, ih, ← collapseRuns_cons hc]
  | case3 => rfl

theorem collapseRuns_of_simple {t : Str} (h : containsDoubleSlash t = false) :
    collapseRuns t = t := by
  induction t with
  | nil => rfl
  | cons c t ih =>
    by_cases hc : c = '/'
    · subst hc
      obtain ⟨hhead, hrest⟩ := (containsDoubleSlash_slash t).mp h
      rw [collapseRuns_slash, ih hrest, stripLeadingSlash_of_head hhead]
    · have hskip := containsDoubleSlash_append (c := [c]) (by simpa [eq_comm] using hc) t
      have hrest : containsDoubleSlash t = false := hskip.symm.trans h
      rw [collapseRuns_cons hc, ih hrest]

theorem collapseSlashes_eq (t : Str) : collapseSlashes t = collapseRuns t := by
  fun_induction collapseSlashes t with
  | case1 t _ ih => rw [ih, collapseRuns_replaceDoubleSlash]
  | case2 t h => rw [collapseRuns_of_simple (Bool.eq_false_of_not_eq_true h)]

/-- The turns of the loop: as long as there are two slashes in a row, and no longer. -/
theorem collapseSlashes_turns (t : Str) : ∃ k,
    (∀ j < k, containsDoubleSlash (replaceDoubleSlash^[j] t) = true) ∧
      containsDoubleSlash (replaceDoubleSlash^[k] t) = false ∧
      collapseSlashes t = replaceDoubleSlash^[k] t := by
  fun_induction collapseSlashes t with
  | case1 t h ih =>
    obtain ⟨k, hturns, hend, heq⟩ := ih
    refine ⟨k + 1, fun j hj => ?_, hend, heq⟩
    cases j with
    | zero => exact h
    | succ j => exact hturns j (Nat.lt_of_succ_lt_succ hj)
  | case2 t h => exact ⟨0, fun j hj => absurd hj (Nat.not_lt_zero j), by simpa using h, rfl⟩

theorem prepareTopic_eq (maxTopicDepth : Nat) (t : Str) :
    prepareTopic maxTopicDepth t =
      if (slashNormalForm t).count '/' ≤ maxTopicDepth then .ok (slashNormalForm t)
      else .error (.invalidData "the topic is too deep") := by
  have hresult : stripLeadingSlash (collapseSlashes t) = slashNormalForm t := by
    rw [collapseSlashes_eq]
    rfl
  by_cases hfits : (slashNormalForm t).count '/' ≤ maxTopicDepth
  · rw [if_pos hfits, prepareTopic_eq_ok, hresult]
    exact ⟨rfl, hfits⟩
  · rw [if_neg hfits]
    unfold prepareTopic
    rw [hresult]
    exact if_pos (Nat.lt_of_not_le hfits)

theorem prepareTopic_idem {maxTopicDepth : Nat} {t r : Str}
    (h : prepareTopic maxTopicDepth t = .ok r) : prepareTopic maxTopicDepth r = .ok r := by
  obtain ⟨hdouble, hhead⟩ := normal_of_prepareTopic h
  exact prepareTopic_of_simple hdouble hhead (prepareTopic_eq_ok.mp h).2

def Concerns (topic : Str) : ServerOp → Prop
  | .getSubscribers t => t = topic
  | .pushToSubscribers _ _ t _ _ => t = topic
  | .replicationPush _ t _ _ => t = topic
  | _ => True

/-- What the server does with a topic of a client it does with the normal form. -/
structure OnNormalForm (cfg : Config) (t : Str) : Prop where
  subscribe : ∀ {m : SubMap} (db : ServerClientDB m) (client : ServerClient),
    db.subscribe cfg.maxTopicDepth t client =
      if (slashNormalForm t).count '/' ≤ cfg.maxTopicDepth then
        .ok { db with submap := m.subscribe db.submap (slashNormalForm t) client }
      else .error (.invalidData "the topic is too deep")
  unsubscribe : ∀ {m : SubMap} (db : ServerClientDB m) (client : ServerClient),
    db.unsubscribe cfg.maxTopicDepth t client =
      if (slashNormalForm t).count '/' ≤ cfg.maxTopicDepth then
        .ok { db with submap := m.unsubscribe db.submap (slashNormalForm t) client }
      else .error (.invalidData "the topic is too deep")
  publish : ∀ (acl : Acl) (timestamp : UInt64) (priority : UInt8) (data : Bytes),
    (publishNamed cfg acl timestamp priority (utf8 t) data).Calls (Concerns (slashNormalForm t))
  publishUdp : ∀ (login : Str) (password : Option Str) (needAck : Bool) (priority : UInt8)
    (data : Bytes) (timestamp : UInt64),
    (publishUdp cfg login password needAck priority t data timestamp).Calls
      (Concerns (slashNormalForm t))

theorem eq_of_prepareTopic {maxTopicDepth : Nat} {t topic : Str}
    (h : prepareTopic maxTopicDepth t = .ok topic) : topic = slashNormalForm t := by
  rw [prepareTopic_eq] at h
  split_ifs at h
  exact (Except.ok.inj h).symm

theorem onNormalForm (cfg : Config) (t : Str) : OnNormalForm cfg t where
  subscribe db client := by
    unfold ServerClientDB.subscribe
    rw [prepareTopic_eq]
    split_ifs
    · rfl
    · rfl
  unsubscribe db client := by
    unfold ServerClientDB.unsubscribe
    rw [prepareTopic_eq]
    split_ifs
    · rfl
    · rfl
  publish acl timestamp priority data := by
    simp only [publishNamed, strFromUtf8_utf8, Prog.ofExcept_ok, Prog.bind_eq, Prog.ret_bind]
    cases hprepared : prepareTopic cfg.maxTopicDepth t with
    | error e => exact calls_writeAll (fun _ => trivial) _
    | ok topic =>
      have htopic := eq_of_prepareTopic hprepared
      dsimp only
      split_ifs
      · trivial
      · exact calls_deliver cfg htopic (fun _ => htopic) (fun _ => htopic)
          (calls_writeAll (fun _ => trivial) _)
      · exact calls_writeAll (fun _ => trivial) _
  publishUdp login password needAck priority data timestamp := by
    refine calls_publishUdp cfg (fun _ _ => trivial) (fun _ => trivial) ?_ login password needAck
    intro acl topic hprepared _ _
    have htopic := eq_of_prepareTopic hprepared
    exact ⟨htopic, fun _ => htopic, fun _ => htopic⟩

/-- Every operation of the server that takes a topic from a client takes the two for the same one. -/
structure OneTopic (cfg : Config) (t t' : Str) : Prop where
  subscribe : ∀ {m : SubMap} (db : ServerClientDB m) (client : ServerClient),
    db.subscribe cfg.maxTopicDepth t client = db.subscribe cfg.maxTopicDepth t' client
  unsubscribe : ∀ {m : SubMap} (db : ServerClientDB m) (client : ServerClient),
    db.unsubscribe cfg.maxTopicDepth t client = db.unsubscribe cfg.maxTopicDepth t' client
  publish : ∀ (acl : Acl) (timestamp : UInt64) (priority : UInt8) (data : Bytes),
    publishNamed cfg acl timestamp priority (utf8 t) data =
      publishNamed cfg acl timestamp priority (utf8 t') data
  publishUdp : ∀ (login : Str) (password : Option Str) (needAck : Bool) (priority : UInt8)
    (data : Bytes) (timestamp : UInt64),
    publishUdp cfg login password needAck priority t data timestamp =
      publishUdp cfg login password needAck priority t' data timestamp
  publishFrame : t ≠ [] → t' ≠ [] → Char.ofNat 0 ∉ t → Char.ofNat 0 ∉ t' →
    ∀ (acl : Acl) (timestamp : UInt64) (priority : UInt8) (data : Bytes),
      handlePublish cfg acl timestamp priority (utf8 t ++ 0 :: data) =
        handlePublish cfg acl timestamp priority (utf8 t' ++ 0 :: data)
  publishBlock : t ≠ [] → t' ≠ [] → Char.ofNat 0 ∉ t → Char.ofNat 0 ∉ t' →
    ∀ (login : Str) (password : Option Str) (op priority : UInt8) (data : Bytes)
      (timestamp : UInt64),
      processUdpBlock cfg login password (op :: priority :: (utf8 t ++ 0 :: data)) timestamp =
        processUdpBlock cfg login password (op :: priority :: (utf8 t' ++ 0 :: data)) timestamp

theorem splitFirst_block (op priority : UInt8) {t : Str} (h : Char.ofNat 0 ∉ t) (data : Bytes) :
    splitFirst 0 (op :: priority :: (utf8 t ++ 0 :: data)) =
      if op = 0 then ([], some (priority :: (utf8 t ++ 0 :: data)))
      else if priority = 0 then ([op], some (utf8 t ++ 0 :: data))
      else (op :: priority :: utf8 t, some data) := by
  have h0 : 0 ∉ utf8 t := mt (zero_mem_utf8 t).mp h
  simp only [splitFirst, splitFirst_append h0]
  split_ifs
  · rfl
  · rfl
  · rfl

theorem three_le_length_block (op priority : UInt8) {t : Str} (h : t ≠ []) :
    ¬ (op :: priority :: utf8 t).length < 3 := by
  have hpos : 0 < (utf8 t).length := List.length_pos_iff.mpr (mt utf8_eq_nil.mp h)
  simp only [List.length_cons]
  omega

theorem oneTopic_of_prepareTopic {cfg : Config} {t t' : Str}
    (h : prepareTopic cfg.maxTopicDepth t = prepareTopic cfg.maxTopicDepth t') :
    OneTopic cfg t t' where
  subscribe db client := by
    unfold ServerClientDB.subscribe
    rw [h]
  unsubscribe db client := by
    unfold ServerClientDB.unsubscribe
    rw [h]
  publish acl timestamp priority data := by
    simp only [publishNamed, strFromUtf8_utf8, Prog.ofExcept_ok, Prog.bind_eq, Prog.ret_bind, h]
  publishUdp login password needAck priority data timestamp := by
    unfold Psrt.publishUdp
    rw [h]
  publishFrame hne hne' h0 h0' acl timestamp priority data := by
    rw [handlePublish_append cfg acl timestamp priority (mt (zero_mem_utf8 t).mp h0) data,
      handlePublish_append cfg acl timestamp priority (mt (zero_mem_utf8 t').mp h0') data,
      isEmpty_utf8 hne, isEmpty_utf8 hne']
    simp only [publishNamed, strFromUtf8_utf8, Prog.ofExcept_ok, Prog.bind_eq, Prog.ret_bind, h]
  publishBlock hne hne' h0 h0' login password op priority data timestamp := by
    unfold processUdpBlock
    rw [splitFirst_block op priority h0, splitFirst_block op priority h0']
    split_ifs
    · rfl
    · rfl
    · simp only [three_le_length_block op priority hne, three_le_length_block op priority hne',
        if_false, List.getD_cons_zero, List.getD_cons_succ, List.drop_succ_cons, List.drop_zero,
        strFromUtf8_utf8, Prog.ofExcept_ok, Prog.ret_mapError, Prog.bind_eq, Prog.ret_bind,
        Psrt.publishUdp, h]

/-- `prepare_topic` ends, returns the slash normal form unless that is too deep, and changes no topic
it has returned; the server acts on normal forms, and takes topics of one normal form for one topic. -/
theorem prepare_topic_normal_form (cfg : Config) (t : Str) :
    (∃ k, (∀ j < k, containsDoubleSlash (replaceDoubleSlash^[j] t) = true) ∧
      containsDoubleSlash (replaceDoubleSlash^[k] t) = false ∧
      collapseSlashes t = replaceDoubleSlash^[k] t) ∧
    (prepareTopic cfg.maxTopicDepth t =
      if (slashNormalForm t).count '/' ≤ cfg.maxTopicDepth then .ok (slashNormalForm t)
      else .error (.invalidData "the topic is too deep")) ∧
    (∀ r, prepareTopic cfg.maxTopicDepth t = .ok r → prepareTopic cfg.maxTopicDepth r = .ok r) ∧
    OnNormalForm cfg t ∧ ∀ t', slashNormalForm t = slashNormalForm t' → OneTopic cfg t t' := by
  refine ⟨collapseSlashes_turns t, prepareTopic_eq _ t, fun r => prepareTopic_idem,
    onNormalForm cfg t, ?_⟩
  intro t' hsame
  apply oneTopic_of_prepareTopic
  rw [prepareTopic_eq, prepareTopic_eq, hsame]

theorem prepare_topic_sample :
    OneTopic sampleConfig ['/', 'a', '/', '/', '/', 'b'] ['a', '/', 'b'] := by
  obtain ⟨_, _, _, _, hone⟩ := prepare_topic_normal_form sampleConfig ['/', 'a', '/', '/', '/', 'b']
  exact hone _ (by decide)

end Psrt

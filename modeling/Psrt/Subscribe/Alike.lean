import Psrt.Publish.Topics
import Psrt.Subscribe.Requests

/-! Subscribing to a topic against publishing to it: the one is authorised on the topic as it was
sent, the other on the topic as it is prepared. -/

namespace Psrt
open Wire Interaction

def fullChunks : List Str → List Str
  | [] => []
  | [c] => [c]
  | c :: c' :: cs => if c = [] then fullChunks (c' :: cs) else c :: fullChunks (c' :: cs)

theorem fullChunks_cons (c : Str) {cs : List Str} (h : cs ≠ []) :
    fullChunks (c :: cs) = if c = [] then fullChunks cs else c :: fullChunks cs := by
  cases cs with
  | nil => exact absurd rfl h
  | cons c' cs => rfl

theorem fullChunks_of_full {cs : List Str} (h : ∀ c ∈ cs.dropLast, c ≠ []) :
    fullChunks cs = cs := by
  induction cs with
  | nil => rfl
  | cons c cs ih =>
    cases cs with
    | nil => rfl
    | cons c' cs =>
      rw [List.dropLast_cons_of_ne_nil (List.cons_ne_nil _ _), List.forall_mem_cons] at h
      rw [fullChunks, if_neg h.1, ih h.2]

theorem fullChunks_splitOn {c : Str} (hc : '/' ∉ c) (s : Str) :
    fullChunks ((c ++ '/' :: s).splitOn '/') =
      if c = [] then fullChunks (s.splitOn '/') else c :: fullChunks (s.splitOn '/') := by
  rw [List.splitOn_append_cons_self_of_not_mem hc, fullChunks_cons c (List.splitOn_ne_nil _ _)]

theorem fullChunks_slash (s : Str) :
    fullChunks (('/' :: s).splitOn '/') = fullChunks (s.splitOn '/') :=
  fullChunks_splitOn List.not_mem_nil s

/-- `c` is the chunk that was begun before `s`. -/
theorem fullChunks_replaceDoubleSlash (s : Str) : ∀ c, '/' ∉ c →
    fullChunks ((c ++ replaceDoubleSlash s).splitOn '/') = fullChunks ((c ++ s).splitOn '/') := by
  fun_induction replaceDoubleSlash s with
  | case1 s ih =>
    intro c hc
    have hs := ih [] List.not_mem_nil
    rw [List.nil_append, List.nil_append] at hs
    rw [fullChunks_splitOn hc, fullChunks_splitOn hc, fullChunks_slash, hs]
  | case2 a s _ ih =>
    intro c hc
    by_cases ha : a = '/'
    · subst ha
      have hs := ih [] List.not_mem_nil
      rw [List.nil_append, List.nil_append] at hs
      rw [fullChunks_splitOn hc, fullChunks_splitOn hc, hs]
    · have hca : '/' ∉ c ++ [a] := by
        rw [List.mem_append, List.mem_singleton, not_or]
        exact ⟨hc, Ne.symm ha⟩
      have hs := ih (c ++ [a]) hca
      rw [List.append_assoc, List.append_assoc] at hs
      exact hs
  | case3 => exact fun c _ => rfl

theorem fullChunks_collapseSlashes (s : Str) :
    fullChunks ((collapseSlashes s).splitOn '/') = fullChunks (s.splitOn '/') := by
  fun_induction collapseSlashes s with
  | case1 s _ ih => exact ih.trans (fullChunks_replaceDoubleSlash s [] List.not_mem_nil)
  | case2 s _ => rfl

theorem fullChunks_stripLeadingSlash (s : Str) :
    fullChunks ((stripLeadingSlash s).splitOn '/') = fullChunks (s.splitOn '/') := by
  unfold stripLeadingSlash
  split
  · next s => exact (fullChunks_slash s).symm
  · rfl

theorem splitOn_prepareTopic {d : Nat} {raw t : Str} (h : prepareTopic d raw = .ok t) :
    t.splitOn '/' = fullChunks (raw.splitOn '/') := by
  have hfull := fullChunks_of_full ((normal_iff t).mp (normal_of_prepareTopic h))
  rw [← hfull, (prepareTopic_eq_ok.mp h).1, fullChunks_stripLeadingSlash,
    fullChunks_collapseSlashes]

def Denied (h : List ServerEvent) : Prop := ∃ r, ⟨.write [responseErrAccess], r⟩ ∈ h

/-- In this state the request, whatever comes of it, is not denied. -/
def PassesAcl {m : SubMap} (cfg : Config) (crypto : Crypto) (sha256 : Token → Digest)
    (st : ServerState m) (request : ServerProg Error (Option Unit)) : Prop :=
  ∀ h q st', Prog.Run request h q → System.Execs (ServerState.Exec cfg crypto sha256) st h st' →
    ¬ Denied h

def Acl.writeMasks (acl : Acl) : Finset PathMask := acl.write.elim ∅ PathMaskList.pathMasks

def Covered (masks : Finset PathMask) (chunks : List Str) : Prop :=
  ∃ mask ∈ masks, mask.matchesSplit chunks = true

theorem allowRead_iff_covered (acl : Acl) (topic : Str) :
    acl.allowRead topic = true ↔ Covered acl.readMasks (topic.splitOn '/') := by
  unfold Acl.allowRead Acl.readMasks Covered
  cases acl.read with
  | none => simp
  | some masks => simp [PathMaskList.matches]

theorem allowWrite_iff_covered (acl : Acl) (topic : Str) :
    acl.allowWrite topic = true ↔ Covered acl.writeMasks (topic.splitOn '/') := by
  unfold Acl.allowWrite Acl.writeMasks Covered
  cases acl.write with
  | none => simp
  | some masks => simp [PathMaskList.matches]

section
variable {m : SubMap} {cfg : Config} {crypto : Crypto} {sha256 : Token → Digest}
  {st : ServerState m} {client : ServerClient} {acl : Acl} {raw : Str}

theorem not_denied_of_calls {p q : ServerProg Error (Option Unit)} {h : List ServerEvent}
    (hp : p.Calls (· ≠ .write [responseErrAccess])) (hr : Prog.Run p h q) : ¬ Denied h :=
  fun ⟨_, he⟩ => hp.of_run hr _ he rfl

theorem calls_reply {code : UInt8} (h : code ≠ responseErrAccess) :
    ((writeAll [code]).bind fun _ => .ret none : ServerProg Error (Option Unit)).Calls
      (· ≠ .write [responseErrAccess]) := by
  refine Prog.Calls.bind ⟨fun heq => ?_, fun r => Prog.calls_ofExcept r⟩ fun _ => trivial
  exact h (List.cons.inj (ServerOp.write.inj heq)).1

theorem code_of_allowRead (d : Nat) (client : ServerClient) (db : ServerClientDB m) :
    (subscribeTopics d acl client [raw] db).1 = responseErrAccess ↔ acl.allowRead raw = false := by
  have herr : responseErr ≠ responseErrAccess := by decide
  have hok : responseOk ≠ responseErrAccess := by decide
  unfold subscribeTopics ServerClientDB.subscribe
  cases acl.allowRead raw with
  | false => exact iff_of_true rfl rfl
  | true =>
    cases prepareTopic d raw with
    | error e => exact iff_of_false herr Bool.false_ne_true.symm
    | ok t => exact iff_of_false hok Bool.false_ne_true.symm

theorem passesAcl_subscribe (hne : raw ≠ []) (h0 : 0 ∉ utf8 raw) :
    PassesAcl cfg crypto sha256 st (handleRequest cfg client acl (.subscribe (utf8 raw))) ↔
      acl.allowRead raw = true := by
  unfold PassesAcl
  rw [handleRequest_subscribe (parseTopics_utf8 hne h0)]
  constructor
  · intro hpass
    by_contra hdenied
    have hcode := (code_of_allowRead cfg.maxTopicDepth client st.db).mpr
      (Bool.eq_false_of_not_eq_true hdenied)
    refine hpass [⟨.subscribe acl [raw] client, responseErrAccess⟩,
      ⟨.write [responseErrAccess], .ok ()⟩] _ _ (.call _ (.call _ (.nil _)))
      (.cons ⟨hcode.symm, rfl⟩ (.cons rfl (.nil _))) ?_
    exact ⟨.ok (), List.mem_cons_of_mem _ (List.mem_singleton_self _)⟩
  · rintro hread h q st' hr hexec ⟨r, he⟩
    rcases Prog.run_call_iff.mp hr with ⟨rfl, _⟩ | ⟨code, h', rfl, hrest⟩
    · cases he
    · cases hexec with
      | cons hsubscribe _ =>
        have hanswer : code = (subscribeTopics cfg.maxTopicDepth acl client [raw] st.db).1 :=
          hsubscribe.1
        have hcode : code ≠ responseErrAccess := by
          rw [hanswer, ne_eq, code_of_allowRead, hread]
          exact Bool.false_ne_true.symm
        rcases List.mem_cons.mp he with heq | he
        · cases heq
        · exact not_denied_of_calls (calls_reply hcode) hrest ⟨r, he⟩

theorem passesAcl_publish {t : Str} (hne : raw ≠ []) (h0 : 0 ∉ utf8 raw)
    (hprepared : prepareTopic cfg.maxTopicDepth raw = .ok t)
    (hvalid : containsInvalidSymbols t = false) (timestamp : UInt64) (priority : UInt8)
    (data : Bytes) :
    PassesAcl cfg crypto sha256 st
      (handleRequest cfg client acl (.publish timestamp priority (utf8 raw ++ 0 :: data))) ↔
      acl.allowWrite t = true := by
  have hempty : (utf8 raw).isEmpty = false := by
    rw [List.isEmpty_eq_false_iff]
    exact mt utf8_eq_nil.mp hne
  have harm : handleRequest cfg client acl (.publish timestamp priority (utf8 raw ++ 0 :: data)) =
      (publishNamed cfg acl timestamp priority (utf8 raw) data).bind fun _ => .ret none := by
    simp only [handleRequest, handlePublish_append cfg acl timestamp priority h0, hempty,
      Bool.false_eq_true, if_false, Prog.bind_eq]
  unfold PassesAcl
  rw [harm]
  simp only [publishNamed, strFromUtf8_utf8, Prog.bind_eq, Prog.ofExcept_ok, Prog.ret_bind,
    hprepared, hvalid, Bool.false_eq_true, if_false]
  cases hwrite : acl.allowWrite t with
  | false =>
    -- the refusal is the first thing written, whatever the registry holds
    refine iff_of_false (fun hpass => ?_) Bool.false_ne_true
    exact hpass [⟨.write [responseErrAccess], .ok ()⟩] _ st (.call _ (.nil _)) (.cons rfl (.nil _))
      ⟨.ok (), List.mem_singleton_self _⟩
  | true =>
    refine iff_of_true (fun h q st' hr _ => ?_) rfl
    have hok : ServerOp.write [responseOk] ≠ .write [responseErrAccess] := fun heq =>
      absurd (List.cons.inj (ServerOp.write.inj heq)).1 (by decide)
    have hreply : (writeAll [responseOk]).Calls (· ≠ .write [responseErrAccess]) :=
      ⟨hok, fun r => Prog.calls_ofExcept r⟩
    have hget : ServerOp.getSubscribers t ≠ .write [responseErrAccess] := fun heq => by cases heq
    have hpush : ∀ subscribers, ServerOp.pushToSubscribers subscribers priority t data timestamp ≠
        .write [responseErrAccess] := fun _ heq => by cases heq
    have hrepl : cfg.cluster = true → ServerOp.replicationPush priority t data timestamp ≠
        .write [responseErrAccess] := fun _ heq => by cases heq
    rw [if_pos rfl] at hr
    refine not_denied_of_calls ?_ hr
    exact (calls_deliver cfg hget hpush hrepl hreply).bind fun _ => trivial

end

def pathAcl (chunks : List Str) : Acl where
  admin := false
  replicator := false
  read := some ⟨{⟨some chunks⟩}⟩
  write := some ⟨{⟨some chunks⟩}⟩

theorem matchesChunks_iff_eq {chunks : List Str} (h : ∀ c ∈ chunks, c ≠ ['#'] ∧ c ≠ ['+'])
    (path : List Str) : PathMask.matchesChunks chunks path = true ↔ chunks = path := by
  induction chunks generalizing path with
  | nil =>
    cases path with
    | nil => exact iff_of_true rfl rfl
    | cons i path => exact iff_of_false Bool.false_ne_true nofun
  | cons c chunks ih =>
    obtain ⟨⟨hany, hwildcard⟩, hrest⟩ := List.forall_mem_cons.mp h
    cases path with
    | nil => exact iff_of_false Bool.false_ne_true nofun
    | cons i path =>
      have hplain : PathMask.isStrAny c = false ∧ PathMask.isStrWildcard c = false :=
        ⟨beq_eq_false_iff_ne.mpr hany, beq_eq_false_iff_ne.mpr hwildcard⟩
      rw [PathMask.matchesChunks, hplain.1, hplain.2, List.cons.injEq]
      by_cases heq : i = c
      · simp [heq, ih hrest]
      · simp [heq, Ne.symm heq]

theorem covered_pathAcl {chunks : List Str} (h : ∀ c ∈ chunks, c ≠ ['#'] ∧ c ≠ ['+'])
    (path : List Str) : Covered (pathAcl chunks).readMasks path ↔ chunks = path := by
  have hmasks : (pathAcl chunks).readMasks = {⟨some chunks⟩} := rfl
  unfold Covered
  rw [hmasks]
  simp only [Finset.mem_singleton, exists_eq_left]
  exact matchesChunks_iff_eq h path

/-- Subscribing to a topic passes the access list exactly when publishing to it does, where the
masks do not tell the topic from itself less its empty chunks; and whatever the masks exactly when the
topic has none, no leading and no repeated slash. -/
theorem authorise_alike_iff {m : SubMap} (cfg : Config) (crypto : Crypto)
    (sha256 : Token → Digest) (st : ServerState m) (client : ServerClient) (timestamp : UInt64)
    (priority : UInt8) (data : Bytes) {acl : Acl} (hmasks : acl.readMasks = acl.writeMasks)
    {raw t : Str} (hne : raw ≠ []) (hhash : '#' ∉ raw) (hplus : '+' ∉ raw)
    (hnul : Char.ofNat 0 ∉ raw) (hprepared : prepareTopic cfg.maxTopicDepth raw = .ok t) :
    ((PassesAcl cfg crypto sha256 st (handleRequest cfg client acl (.subscribe (utf8 raw))) ↔
        PassesAcl cfg crypto sha256 st
          (handleRequest cfg client acl (.publish timestamp priority (utf8 raw ++ 0 :: data)))) ↔
      (Covered acl.readMasks (raw.splitOn '/') ↔
        Covered acl.readMasks (fullChunks (raw.splitOn '/')))) ∧
    (Normal raw → fullChunks (raw.splitOn '/') = raw.splitOn '/') ∧
    ((∀ acl : Acl, acl.readMasks = acl.writeMasks →
      (PassesAcl cfg crypto sha256 st (handleRequest cfg client acl (.subscribe (utf8 raw))) ↔
        PassesAcl cfg crypto sha256 st
          (handleRequest cfg client acl (.publish timestamp priority (utf8 raw ++ 0 :: data))))) ↔
      Normal raw) := by
  have h0 : 0 ∉ utf8 raw := fun h => hnul ((zero_mem_utf8 raw).mp h)
  have hvalid : '#' ∉ t ∧ '+' ∉ t := by
    rw [mem_of_prepareTopic (by decide) hprepared, mem_of_prepareTopic (by decide) hprepared]
    exact ⟨hhash, hplus⟩
  have hsplit := splitOn_prepareTopic hprepared
  have halike : ∀ acl : Acl, acl.readMasks = acl.writeMasks →
      ((PassesAcl cfg crypto sha256 st (handleRequest cfg client acl (.subscribe (utf8 raw))) ↔
        PassesAcl cfg crypto sha256 st
          (handleRequest cfg client acl (.publish timestamp priority (utf8 raw ++ 0 :: data)))) ↔
      (Covered acl.readMasks (raw.splitOn '/') ↔
        Covered acl.readMasks (fullChunks (raw.splitOn '/')))) := by
    intro acl hmasks
    rw [passesAcl_subscribe hne h0,
      passesAcl_publish hne h0 hprepared (containsInvalidSymbols_eq_false.mpr hvalid),
      allowRead_iff_covered, allowWrite_iff_covered, ← hmasks, hsplit]
  have hfull : Normal raw → fullChunks (raw.splitOn '/') = raw.splitOn '/' :=
    fun hnormal => fullChunks_of_full ((normal_iff raw).mp hnormal)
  refine ⟨halike acl hmasks, hfull, fun hall => ?_, fun hnormal acl hmasks => ?_⟩
  · have hplain : ∀ c ∈ t.splitOn '/', c ≠ ['#'] ∧ c ≠ ['+'] := by
      intro c hc
      refine ⟨?_, ?_⟩
      · rintro rfl
        exact hvalid.1 ((mem_iff_chunk (by decide)).mpr ⟨_, hc, List.mem_singleton_self _⟩)
      · rintro rfl
        exact hvalid.2 ((mem_iff_chunk (by decide)).mpr ⟨_, hc, List.mem_singleton_self _⟩)
    have hcovered := (halike (pathAcl (t.splitOn '/')) rfl).mp (hall _ rfl)
    rw [covered_pathAcl hplain, covered_pathAcl hplain] at hcovered
    rw [normal_iff, ← hcovered.mpr hsplit, ← normal_iff]
    exact normal_of_prepareTopic hprepared
  · rw [halike acl hmasks, hfull hnormal]

def topicAcl : Acl where
  admin := false
  replicator := false
  read := some ⟨{⟨some [['a']]⟩}⟩
  write := some ⟨{⟨some [['a']]⟩}⟩

theorem prepareTopic_slash_a : prepareTopic sampleConfig.maxTopicDepth ['/', 'a'] = .ok ['a'] :=
  prepareTopic_eq_ok.mpr ⟨by rw [collapseSlashes_of_simple (by decide)]; rfl, by decide⟩

theorem authorise_alike_sample :
    (PassesAcl sampleConfig sampleCrypto Token.bytes sampleState
        (handleRequest sampleConfig sampleClient (pathAcl [['a'], ['b']])
          (.subscribe (utf8 ['a', '/', 'b']))) ↔
      PassesAcl sampleConfig sampleCrypto Token.bytes sampleState
        (handleRequest sampleConfig sampleClient (pathAcl [['a'], ['b']])
          (.publish 0 127 (utf8 ['a', '/', 'b'] ++ 0 :: [1])))) := by
  have hprepared : prepareTopic sampleConfig.maxTopicDepth ['a', '/', 'b'] = .ok ['a', '/', 'b'] :=
    prepareTopic_of_simple (by decide) (by decide) (by decide)
  obtain ⟨halike, hfull, _⟩ := authorise_alike_iff sampleConfig sampleCrypto Token.bytes sampleState
    sampleClient 0 127 [1]
    (rfl : (pathAcl [['a'], ['b']]).readMasks = (pathAcl [['a'], ['b']]).writeMasks) (by decide)
    (by decide) (by decide) (by decide) hprepared
  exact halike.mpr (by rw [hfull ⟨by decide, by decide⟩])

/-- The topic `/a` is refused to a subscriber whose access list names `a`, and accepted of a
publisher. -/
theorem authorise_slash_a :
    ¬ (PassesAcl sampleConfig sampleCrypto Token.bytes sampleState
        (handleRequest sampleConfig sampleClient topicAcl (.subscribe (utf8 ['/', 'a']))) ↔
      PassesAcl sampleConfig sampleCrypto Token.bytes sampleState
        (handleRequest sampleConfig sampleClient topicAcl
          (.publish 0 127 (utf8 ['/', 'a'] ++ 0 :: [1])))) := by
  rw [passesAcl_subscribe (by decide) (by decide),
    passesAcl_publish (by decide) (by decide) prepareTopic_slash_a (by decide)]
  decide

end Psrt

import Psrt.Server.Operations

/-! The control session: `process_control` of `server.rs`. -/

namespace Psrt
open Wire Interaction

/-- `parse_topics!`: the non-empty texts between zero octets. -/
def parseTopics (data : Bytes) : Except Error (List Str) :=
  ((data.splitOn 0).filter fun t => !t.isEmpty).mapM strFromUtf8

theorem isEmpty_utf8 {t : Str} (h : t ≠ []) : (utf8 t).isEmpty = false := by
  rw [List.isEmpty_eq_false_iff]
  exact mt utf8_eq_nil.mp h

theorem parseTopics_nil : parseTopics [] = .ok [] := rfl

theorem parseTopics_utf8 {t : Str} (hne : t ≠ []) (h0 : 0 ∉ utf8 t) :
    parseTopics (utf8 t) = .ok [t] := by
  unfold parseTopics
  rw [List.splitOn_eq_singleton h0, List.filter_cons_of_pos (by rw [isEmpty_utf8 hne]; rfl),
    List.filter_nil, List.mapM_cons, strFromUtf8_utf8]
  rfl

theorem parseTopics_cons {t : Str} (hne : t ≠ []) (h0 : 0 ∉ utf8 t) (data : Bytes) :
    parseTopics (utf8 t ++ 0 :: data) = (parseTopics data).map (t :: ·) := by
  unfold parseTopics
  rw [List.splitOn_append_cons_self_of_not_mem h0,
    List.filter_cons_of_pos (by rw [isEmpty_utf8 hne]; rfl), List.mapM_cons, strFromUtf8_utf8]
  rfl

theorem parseTopics_zero_cons (data : Bytes) : parseTopics (0 :: data) = parseTopics data := by
  have hsplit := List.splitOn_append_cons_self_of_not_mem (List.not_mem_nil (a := (0 : UInt8))) data
  rw [List.nil_append] at hsplit
  unfold parseTopics
  rw [hsplit]
  rfl

theorem parseTopics_utf8_filter {t : Str} (h0 : 0 ∉ utf8 t) :
    parseTopics (utf8 t) = .ok ([t].filter (· ≠ [])) := by
  by_cases hne : t = []
  · subst hne
    rfl
  · rw [parseTopics_utf8 hne h0, List.filter_cons_of_pos (by simp [hne]), List.filter_nil]

theorem mem_of_mapM_strFromUtf8 {pieces : List Bytes} {topics : List Str}
    (h : pieces.mapM strFromUtf8 = .ok topics) : ∀ t ∈ topics, utf8 t ∈ pieces := by
  induction pieces generalizing topics with
  | nil =>
    intro t ht
    rw [← Except.ok.inj h] at ht
    exact absurd ht List.not_mem_nil
  | cons b pieces ih =>
    rw [List.mapM_cons] at h
    cases hb : strFromUtf8 b with
    | error e =>
      rw [hb] at h
      cases h
    | ok s =>
      rw [hb] at h
      cases hrest : pieces.mapM strFromUtf8 with
      | error e =>
        rw [hrest] at h
        cases h
      | ok rest =>
        rw [hrest] at h
        obtain rfl := Except.ok.inj h
        intro t ht
        rcases List.mem_cons.mp ht with rfl | hmem
        · rw [utf8_of_strFromUtf8 hb]
          exact List.mem_cons_self ..
        · exact List.mem_cons_of_mem _ (ih hrest t hmem)

theorem not_mem_of_parseTopics {data : Bytes} {topics : List Str}
    (h : parseTopics data = .ok topics) : ∀ t ∈ topics, 0 ∉ utf8 t := by
  intro t ht
  have hmem := List.mem_of_mem_filter (mem_of_mapM_strFromUtf8 h t ht)
  exact not_mem_of_mem_splitOn hmem

inductive Request where
  | nop
  | subscribe (data : Bytes)
  | unsubscribe (data : Bytes)
  | publish (timestamp : UInt64) (priority : UInt8) (buf : Bytes)
  | publishRepl (topicData : Bytes)
  | bye
  deriving DecidableEq, Repr

/-- The reads of the arm of an operation. -/
def readArm (cfg : Config) (op : UInt8) : ServerProg Error Request :=
  if op = opNop then .ret .nop
  else if op = opSubscribe then do
    let data ← readFrame (some cfg.maxTopicLength)
    .ret (.subscribe data)
  else if op = opUnsubscribe then do
    let data ← readFrame (some cfg.maxTopicLength)
    .ret (.unsubscribe data)
  else if op = opPublish then do
    let timestamp ← perform .nowNs
    -- the time is taken before the message is read
    let prio ← readExact 1
    let buf ← readFrame (some cfg.maxPubSize)
    .ret (.publish timestamp (prio.headD defaultPriority) buf)
  else if op = opPublishRepl then
    if cfg.cluster then do
      let topicData ← readFrame (some cfg.maxTopicLength)
      .ret (.publishRepl topicData)
    else .throw (.invalidData "Unsupported operation: OP_PUBLISH_REPL")
  else if op = opBye then .ret .bye
  else .throw (.invalidData s!"Invalid operation: {op}")

theorem readArm_opPublish (cfg : Config) : readArm cfg opPublish = .call .nowNs fun timestamp =>
    (readExact 1).bind fun prio => (readFrame (some cfg.maxPubSize)).bind fun buf =>
      .ret (.publish timestamp (prio.headD defaultPriority) buf) := rfl

theorem readArm_opPublishRepl (cfg : Config) : readArm cfg opPublishRepl =
    if cfg.cluster then
      (readFrame (some cfg.maxTopicLength)).bind fun topicData => .ret (.publishRepl topicData)
    else .throw (.invalidData "Unsupported operation: OP_PUBLISH_REPL") := rfl

def readRequest (cfg : Config) : ServerProg Error Request := do
  let cmd ← readExact 1
  readArm cfg (cmd.headD 0)

/-- The loop over the topics of a subscribe frame, under the registry's lock: the reply code, and
the registry as far as the loop came. -/
def subscribeTopics {m : SubMap} (maxTopicDepth : Nat) (acl : Acl) (client : ServerClient) :
    List Str → ServerClientDB m → UInt8 × ServerClientDB m
  | [], db => (responseOk, db)
  | topic :: topics, db =>
    if !acl.allowRead topic then (responseErrAccess, db)
    else match db.subscribe maxTopicDepth topic client with
      | .error _ => (responseErr, db)
      | .ok db => subscribeTopics maxTopicDepth acl client topics db

def unsubscribeTopics {m : SubMap} (maxTopicDepth : Nat) (client : ServerClient) :
    List Str → ServerClientDB m → Bool × ServerClientDB m
  | [], db => (true, db)
  | topic :: topics, db =>
    match db.unsubscribe maxTopicDepth topic client with
    | .error _ => (false, db)
    | .ok db => unsubscribeTopics maxTopicDepth client topics db

/-- The arm `OP_PUBLISH` once the frame is split in topic and data. -/
def publishNamed (cfg : Config) (acl : Acl) (timestamp : UInt64) (priority : UInt8)
    (name data : Bytes) : ServerProg Error Unit := do
  let raw ← Prog.ofExcept (strFromUtf8 name)
  match prepareTopic cfg.maxTopicDepth raw with
  | .error _ => writeAll [responseErr]
  | .ok topic =>
    -- a wildcard in the topic ends the session; too deep a topic is only refused
    if containsInvalidSymbols topic then .throw (.invalidData errInvalidDataBlock)
    else if acl.allowWrite topic then do
      let subscribers ← perform (.getSubscribers topic)
      pushIfAny subscribers priority topic data timestamp
      replicate cfg priority topic data timestamp
      writeAll [responseOk]
    else writeAll [responseErrAccess]

/-- The arm `OP_PUBLISH` after its reads. -/
def handlePublish (cfg : Config) (acl : Acl) (timestamp : UInt64) (priority : UInt8)
    (buf : Bytes) : ServerProg Error Unit :=
  match buf.idxOf? 0 with
  | none => .throw (.invalidData errInvalidDataBlock)
  | some npos =>
    let data := buf.drop (npos + 1)
    -- `split_off` leaves the separator with the name, and `truncate` takes it off
    let buf := buf.take (npos + 1)
    let buf := buf.take (buf.length - 1)
    if buf.isEmpty then .throw (.invalidData errInvalidDataBlock)
    else publishNamed cfg acl timestamp priority buf data

theorem handlePublish_append (cfg : Config) (acl : Acl) (timestamp : UInt64) (priority : UInt8)
    {name : Bytes} (h : 0 ∉ name) (data : Bytes) :
    handlePublish cfg acl timestamp priority (name ++ 0 :: data) =
      if name.isEmpty then .throw (.invalidData errInvalidDataBlock)
      else publishNamed cfg acl timestamp priority name data := by
  simp only [handlePublish, idxOf?_zero_append h, drop_separator, take_separator]

theorem handlePublish_of_not_mem (cfg : Config) (acl : Acl) (timestamp : UInt64)
    (priority : UInt8) {buf : Bytes} (h : 0 ∉ buf) :
    handlePublish cfg acl timestamp priority buf =
      .throw (.invalidData errInvalidDataBlock) := by
  simp only [handlePublish, idxOf?_zero_eq_none h]

/-- The arm `OP_PUBLISH_REPL` after its first frame: the topic is taken as another node sent it. -/
def handlePublishRepl (cfg : Config) (acl : Acl) (topicData : Bytes) : ServerProg Error Unit := do
  let topic ← Prog.ofExcept (strFromUtf8 topicData)
  if acl.isReplicator then do
    let subscribers ← perform (.getSubscribers topic)
    if subscribers.isEmpty then writeAll [responseNotRequired]
    else do
      -- the message is read only when there is somebody to send it to
      writeAll [responseOkWaiting]
      let prio ← readExact 1
      let tsBuf ← readExact 8
      let data ← readFrame (some cfg.maxPubSize)
      perform (.pushToSubscribers subscribers (prio.headD defaultPriority) topic data
        (UInt64.ofNat (leNat tsBuf)))
      writeAll [responseOk]
  else writeAll [responseErrAccess]

/-- The rest of an arm; the result says whether the loop is left. -/
def handleRequest (cfg : Config) (client : ServerClient) (acl : Acl) :
    Request → ServerProg Error (Option Unit)
  | .nop => do
    writeAll [responseOk]
    .ret none
  | .subscribe data => do
    let topics ← Prog.ofExcept (parseTopics data)
    let res ← perform (.subscribe acl topics client)
    writeAll [res]
    .ret none
  | .unsubscribe data => do
    let topics ← Prog.ofExcept (parseTopics data)
    let success ← perform (.unsubscribe topics client)
    writeAll [if success then responseOk else responseErr]
    .ret none
  | .publish timestamp priority buf => do
    handlePublish cfg acl timestamp priority buf
    .ret none
  | .publishRepl topicData => do
    handlePublishRepl cfg acl topicData
    .ret none
  | .bye => do
    writeAll [responseOk]
    .ret (some ())

def processCommand (cfg : Config) (client : ServerClient) (acl : Acl) :
    ServerProg Error (Option Unit) := do
  let request ← readRequest cfg
  handleRequest cfg client acl request

def processControl (cfg : Config) (client : ServerClient) (acl : Acl) (turns : Nat) :
    ServerProg Error Unit := Prog.loop (processCommand cfg client acl) turns

end Psrt

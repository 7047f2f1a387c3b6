import Psrt.Client.Control
import Psrt.Server.State

/-! The control commands over the wire: what `process_control` takes the octets of a command for. -/

namespace Psrt
open Wire Interaction

/-- A subscription or a publish, as the client asks for it and as the server takes it. -/
inductive Demand where
  | subscribe (topics : List Str)
  | unsubscribe (topics : List Str)
  | publish (priority : UInt8) (topic : Str) (message : Bytes)
  deriving DecidableEq, Repr

namespace ControlCommand

def demand : ControlCommand → Option Demand
  | subscribe topic => some (.subscribe [topic])
  | subscribeBulk topics => some (.subscribe topics)
  | unsubscribe topic => some (.unsubscribe [topic])
  | unsubscribeBulk topics => some (.unsubscribe topics)
  | publish priority topic message => some (.publish priority topic message)
  | nop | publishRepl .. | bye => none

def topics : ControlCommand → List Str
  | subscribe topic | unsubscribe topic | publish _ topic _ | publishRepl _ topic _ _ => [topic]
  | subscribeBulk topics | unsubscribeBulk topics => topics
  | nop | bye => []

def head : ControlCommand → Bytes
  | subscribe _ | subscribeBulk _ => [opSubscribe]
  | unsubscribe _ | unsubscribeBulk _ => [opUnsubscribe]
  | publish priority _ _ => [opPublish, priority]
  | nop => [opNop]
  | publishRepl .. => [opPublishRepl]
  | bye => [opBye]

def declared : ControlCommand → UInt32
  | subscribe topic | unsubscribe topic | publishRepl _ topic _ _ => lenU32 (utf8 topic)
  | subscribeBulk topics | unsubscribeBulk topics => topicsLen topics
  | publish _ topic message => lenU32 (utf8 topic) + 1 + lenU32 message
  | nop | bye => 0

def body : ControlCommand → Bytes
  | subscribe topic | unsubscribe topic | publishRepl _ topic _ _ => utf8 topic
  | subscribeBulk topics | unsubscribeBulk topics => topicsBody topics
  | publish _ topic message => utf8 topic ++ 0 :: message
  | nop | bye => []

def limit (cfg : Config) : ControlCommand → Nat
  | publish .. => cfg.maxPubSize
  | _ => cfg.maxTopicLength

def request (now : UInt64) (cmd : ControlCommand) (data : Bytes) : Request :=
  match cmd with
  | subscribe _ | subscribeBulk _ => .subscribe data
  | unsubscribe _ | unsubscribeBulk _ => .unsubscribe data
  | publish priority _ _ => .publish now priority data
  | publishRepl .. => .publishRepl data
  | nop => .nop
  | bye => .bye

variable {cmd : ControlCommand}

theorem stream_eq (h : cmd.demand.isSome) :
    cmd.stream = cmd.head ++ (leBytes 4 cmd.declared.toNat ++ cmd.body) := by
  cases cmd with
  | publish priority topic message =>
    simp only [stream, asBytes, trailer, head, declared, body, List.cons_append, List.nil_append,
      List.append_assoc]
  | nop => cases h
  | publishRepl => cases h
  | bye => cases h
  | _ => exact List.append_nil _

theorem length_body_publish (priority : UInt8) (topic : Str) (message : Bytes) :
    (publish priority topic message).body.length = (utf8 topic).length + 1 + message.length := by
  simp only [body, List.length_append, List.length_cons]
  omega

theorem declared_toNat (h : cmd.demand.isSome) :
    cmd.declared.toNat = cmd.body.length % 2 ^ 32 := by
  cases cmd with
  | subscribe topic => exact lenU32_toNat _
  | unsubscribe topic => exact lenU32_toNat _
  | subscribeBulk topics => exact topicsLen_toNat topics
  | unsubscribeBulk topics => exact topicsLen_toNat topics
  | publish priority topic message =>
    simp only [declared, body, UInt32.toNat_add, lenU32_toNat, UInt32.toNat_one,
      List.length_append, List.length_cons]
    omega
  | nop => cases h
  | publishRepl => cases h
  | bye => cases h

theorem declared_eq_iff (h : cmd.demand.isSome) :
    cmd.declared.toNat = cmd.body.length ↔ cmd.body.length < 2 ^ 32 := by
  rw [declared_toNat h]
  exact Nat.mod_eq_iff_lt (by decide)

end ControlCommand

def decodePublish (priority : UInt8) (buf : Bytes) : Option Demand :=
  match splitFirst 0 buf with
  | (_, none) => none
  | (name, some data) =>
    if name.isEmpty then none else (fromUtf8 name).map fun topic => .publish priority topic data

theorem decodePublish_append (priority : UInt8) {topic : Str} (hne : topic ≠ [])
    (h0 : 0 ∉ utf8 topic) (message : Bytes) :
    decodePublish priority (utf8 topic ++ 0 :: message) =
      some (.publish priority topic message) := by
  simp only [decodePublish, splitFirst_append h0, isEmpty_utf8 hne, fromUtf8_utf8,
    Bool.false_eq_true, if_false, Option.map_some]

theorem eq_of_decodePublish {priority : UInt8} {buf : Bytes} {demand : Demand}
    (h : decodePublish priority buf = some demand) :
    ∃ name data topic, 0 ∉ name ∧ name.isEmpty = false ∧ buf = name ++ 0 :: data ∧
      fromUtf8 name = some topic ∧ demand = .publish priority topic data := by
  unfold decodePublish at h
  have hname := not_mem_splitFirst 0 buf
  cases hs : splitFirst 0 buf with
  | mk name tail =>
    rw [hs] at h hname
    cases tail with
    | none => cases h
    | some data =>
      dsimp only at h
      split_ifs at h with hempty
      obtain ⟨topic, htopic, rfl⟩ := Option.map_eq_some_iff.mp h
      exact ⟨name, data, topic, hname, Bool.eq_false_of_not_eq_true hempty,
        eq_of_splitFirst_some hs, htopic, rfl⟩

def decodeRequest : Request → Option Demand
  | .subscribe data =>
    match parseTopics data with
    | .error _ => none
    | .ok topics => some (.subscribe topics)
  | .unsubscribe data =>
    match parseTopics data with
    | .error _ => none
    | .ok topics => some (.unsubscribe topics)
  | .publish _ priority buf => decodePublish priority buf
  | .nop | .publishRepl _ | .bye => none

theorem parseTopics_of_subscribe {data : Bytes} {topics : List Str}
    (h : decodeRequest (.subscribe data) = some (.subscribe topics)) :
    parseTopics data = .ok topics := by
  unfold decodeRequest at h
  cases hparse : parseTopics data with
  | error e =>
    simp only [hparse, reduceCtorEq] at h
  | ok topics' =>
    simp only [hparse, Option.some.injEq, Demand.subscribe.injEq] at h
    rw [h]

theorem parseTopics_of_unsubscribe {data : Bytes} {topics : List Str}
    (h : decodeRequest (.unsubscribe data) = some (.unsubscribe topics)) :
    parseTopics data = .ok topics := by
  unfold decodeRequest at h
  cases hparse : parseTopics data with
  | error e =>
    simp only [hparse, reduceCtorEq] at h
  | ok topics' =>
    simp only [hparse, Option.some.injEq, Demand.unsubscribe.injEq] at h
    rw [h]

def serve (cfg : Config) (client : ServerClient) (acl : Acl) (timestamp : UInt64) :
    Demand → ServerProg Error Unit
  | .subscribe topics => do
    let res ← perform (.subscribe acl topics client)
    writeAll [res]
  | .unsubscribe topics => do
    let success ← perform (.unsubscribe topics client)
    writeAll [if success then responseOk else responseErr]
  | .publish priority topic message =>
    publishNamed cfg acl timestamp priority (utf8 topic) message

theorem handleRequest_of_decodeRequest (cfg : Config) (client : ServerClient) (acl : Acl)
    {request : Request} {demand : Demand} (h : decodeRequest request = some demand) :
    ∃ timestamp, handleRequest cfg client acl request =
      (serve cfg client acl timestamp demand).bind fun _ => .ret none := by
  cases request with
  | subscribe data =>
    cases hparse : parseTopics data with
    | error e =>
      simp only [decodeRequest, hparse, reduceCtorEq] at h
    | ok topics =>
      simp only [decodeRequest, hparse, Option.some.injEq] at h
      subst h
      refine ⟨0, ?_⟩
      simp only [handleRequest, hparse]
      rfl
  | unsubscribe data =>
    cases hparse : parseTopics data with
    | error e =>
      simp only [decodeRequest, hparse, reduceCtorEq] at h
    | ok topics =>
      simp only [decodeRequest, hparse, Option.some.injEq] at h
      subst h
      refine ⟨0, ?_⟩
      simp only [handleRequest, hparse]
      rfl
  | publish timestamp priority buf =>
    obtain ⟨name, data, topic, h0, hne, rfl, hname, rfl⟩ := eq_of_decodePublish h
    refine ⟨timestamp, ?_⟩
    simp only [handleRequest, serve, handlePublish_append cfg acl timestamp priority h0 data, hne,
      utf8_of_fromUtf8 hname]
    rfl
  | nop => cases h
  | publishRepl topicData => cases h
  | bye => cases h

theorem topicsBody_cons (t : Str) (topics : List Str) :
    topicsBody (t :: topics) = utf8 t ++ 0 :: topicsBody topics := by
  rw [topicsBody, List.flatMap_cons, List.append_assoc]
  rfl

theorem parseTopics_topicsBody_filter {topics : List Str} (h0 : ∀ t ∈ topics, 0 ∉ utf8 t) :
    parseTopics (topicsBody topics) = .ok (topics.filter (· ≠ [])) := by
  induction topics with
  | nil => exact parseTopics_nil
  | cons t topics ih =>
    rw [List.forall_mem_cons] at h0
    rw [topicsBody_cons]
    by_cases hne : t = []
    · subst hne
      rw [List.filter_cons_of_neg (by simp), ← ih h0.2]
      exact parseTopics_zero_cons _
    · rw [List.filter_cons_of_pos (by simp [hne]), parseTopics_cons hne h0.1, ih h0.2]
      rfl

theorem parseTopics_topicsBody {topics : List Str} (hne : ∀ t ∈ topics, t ≠ [])
    (h0 : ∀ t ∈ topics, 0 ∉ utf8 t) : parseTopics (topicsBody topics) = .ok topics := by
  have hall : topics.filter (· ≠ []) = topics :=
    List.filter_eq_self.mpr fun t ht => decide_eq_true (hne t ht)
  rw [parseTopics_topicsBody_filter h0, hall]

namespace ControlCommand

variable {cmd : ControlCommand}

theorem decodeRequest_body (hne : ∀ t ∈ cmd.topics, t ≠ []) (h0 : ∀ t ∈ cmd.topics, 0 ∉ utf8 t)
    (now : UInt64) : decodeRequest (cmd.request now cmd.body) = cmd.demand := by
  cases cmd with
  | subscribe topic =>
    have hparse : parseTopics (utf8 topic) = .ok [topic] :=
      parseTopics_utf8 (hne _ (List.mem_singleton_self _)) (h0 _ (List.mem_singleton_self _))
    simp only [request, body, decodeRequest, hparse, demand]
  | unsubscribe topic =>
    have hparse : parseTopics (utf8 topic) = .ok [topic] :=
      parseTopics_utf8 (hne _ (List.mem_singleton_self _)) (h0 _ (List.mem_singleton_self _))
    simp only [request, body, decodeRequest, hparse, demand]
  | subscribeBulk topics =>
    have hparse : parseTopics (topicsBody topics) = .ok topics := parseTopics_topicsBody hne h0
    simp only [request, body, decodeRequest, hparse, demand]
  | unsubscribeBulk topics =>
    have hparse : parseTopics (topicsBody topics) = .ok topics := parseTopics_topicsBody hne h0
    simp only [request, body, decodeRequest, hparse, demand]
  | publish priority topic message =>
    exact decodePublish_append priority (hne _ (List.mem_singleton_self _))
      (h0 _ (List.mem_singleton_self _)) message
  | nop => rfl
  | publishRepl => rfl
  | bye => rfl

theorem not_mem_of_decodeRequest {now : UInt64} {data : Bytes} (h : cmd.demand.isSome)
    (hdecode : decodeRequest (cmd.request now data) = cmd.demand) :
    ∀ t ∈ cmd.topics, 0 ∉ utf8 t := by
  cases cmd with
  | subscribe topic => exact not_mem_of_parseTopics (parseTopics_of_subscribe hdecode)
  | subscribeBulk topics => exact not_mem_of_parseTopics (parseTopics_of_subscribe hdecode)
  | unsubscribe topic => exact not_mem_of_parseTopics (parseTopics_of_unsubscribe hdecode)
  | unsubscribeBulk topics => exact not_mem_of_parseTopics (parseTopics_of_unsubscribe hdecode)
  | publish priority topic message =>
    obtain ⟨name, data, topic', h0, _, _, hname, hdemand⟩ := eq_of_decodePublish hdecode
    obtain ⟨-, rfl, -⟩ := Demand.publish.inj hdemand
    rw [topics, List.forall_mem_singleton, utf8_of_fromUtf8 hname]
    exact h0
  | nop => cases h
  | publishRepl => cases h
  | bye => cases h

end ControlCommand

section
variable {m : SubMap} (cfg : Config) (crypto : Crypto) (st : ServerState m) (now : UInt64)

def ending {α : Type} (p : ServerProg Error α) (input : Bytes) : Bytes × Option (Except Error α) :=
  (p.eval (st.answer crypto now) input).2

theorem ending_readExact {α : Type} {n : Nat} {b : Bytes} (h : b.length = n)
    (k : Bytes → ServerProg Error α) (rest : Bytes) :
    ending crypto st now ((readExact n).bind k) (b ++ rest) = ending crypto st now (k b) rest := by
  simp only [readExact, Prog.call_bind, ending, Prog.eval_call, ServerState.answer,
    takeBytes_append h, Prog.ofExcept_ok, Prog.ret_bind]

theorem ending_readFrame {α : Type} (limit : Nat) (n : UInt32) (k : Bytes → ServerProg Error α)
    (input : Bytes) :
    ending crypto st now ((readFrame (some limit)).bind k) (leBytes 4 n.toNat ++ input) =
      if limit < n.toNat then (input, some (.error (.invalidData s!"Frame too long ({n.toNat})")))
      else ending crypto st now ((readExact n.toNat).bind k) input := by
  have hlt : n.toNat < 256 ^ 4 := n.toNat_lt
  simp only [readFrame, readFrameWith, Prog.bind_eq, Prog.bind_assoc]
  rw [ending_readExact crypto st now (length_leBytes 4 _)]
  simp only [leNat_leBytes_of_lt hlt, Option.any_some, gt_iff_lt, decide_eq_true_eq]
  split_ifs
  · rfl
  · rfl

theorem ending_nowNs {α : Type} (k : UInt64 → ServerProg Error α) (input : Bytes) :
    ending crypto st now (.call .nowNs k) input = ending crypto st now (k now) input := rfl

theorem ending_readRequest {cmd : ControlCommand} (h : cmd.demand.isSome) (n : UInt32)
    (input : Bytes) :
    ending crypto st now (readRequest cfg) (cmd.head ++ (leBytes 4 n.toNat ++ input)) =
      if cmd.limit cfg < n.toNat then
        (input, some (.error (.invalidData s!"Frame too long ({n.toNat})")))
      else ending crypto st now
        ((readExact n.toNat).bind fun data => .ret (cmd.request now data)) input := by
  unfold readRequest
  cases cmd with
  | subscribe topic =>
    rw [Prog.bind_eq, ControlCommand.head, ending_readExact crypto st now (n := 1) rfl]
    exact ending_readFrame crypto st now cfg.maxTopicLength n _ input
  | subscribeBulk topics =>
    rw [Prog.bind_eq, ControlCommand.head, ending_readExact crypto st now (n := 1) rfl]
    exact ending_readFrame crypto st now cfg.maxTopicLength n _ input
  | unsubscribe topic =>
    rw [Prog.bind_eq, ControlCommand.head, ending_readExact crypto st now (n := 1) rfl]
    exact ending_readFrame crypto st now cfg.maxTopicLength n _ input
  | unsubscribeBulk topics =>
    rw [Prog.bind_eq, ControlCommand.head, ending_readExact crypto st now (n := 1) rfl]
    exact ending_readFrame crypto st now cfg.maxTopicLength n _ input
  | publish priority topic message =>
    have hhead : (ControlCommand.publish priority topic message).head ++
        (leBytes 4 n.toNat ++ input) = [opPublish] ++ ([priority] ++ (leBytes 4 n.toNat ++ input)) :=
      rfl
    have hop : List.headD [opPublish] 0 = opPublish := rfl
    rw [Prog.bind_eq, hhead, ending_readExact crypto st now (n := 1) rfl, hop, readArm_opPublish,
      ending_nowNs, ending_readExact crypto st now (n := 1) rfl]
    exact ending_readFrame crypto st now cfg.maxPubSize n _ input
  | nop => cases h
  | publishRepl => cases h
  | bye => cases h

/-- The length prefix of a command is the length of its body, and whatever follows on the stream,
the server takes the command for what it is and leaves what follows. A frame over the server's limit
ends the session instead. -/
def Survives (cmd : ControlCommand) : Prop :=
  cmd.declared.toNat = cmd.body.length ∧
    ∀ rest, if cmd.limit cfg < cmd.body.length then
        ∃ e, (ending crypto st now (readRequest cfg) (cmd.stream ++ rest)).2 = some (.error e)
      else ∃ request,
        ending crypto st now (readRequest cfg) (cmd.stream ++ rest) = (rest, some (.ok request)) ∧
          decodeRequest request = cmd.demand

theorem ending_stream {cmd : ControlCommand} (h : cmd.demand.isSome)
    (hlt : cmd.body.length < 2 ^ 32) (rest : Bytes) :
    ending crypto st now (readRequest cfg) (cmd.stream ++ rest) =
      if cmd.limit cfg < cmd.body.length then
        (cmd.body ++ rest, some (.error (.invalidData s!"Frame too long ({cmd.body.length})")))
      else (rest, some (.ok (cmd.request now cmd.body))) := by
  have hdeclared := (ControlCommand.declared_eq_iff h).mpr hlt
  rw [ControlCommand.stream_eq h, List.append_assoc, List.append_assoc,
    ending_readRequest cfg crypto st now h, hdeclared]
  split_ifs with hlimit
  · rfl
  · rw [ending_readExact crypto st now rfl]
    rfl

/-- The length of a message of some times 2^32 octets wraps around: the server takes the publish for
an empty one, and the message is left on the stream. -/
theorem ending_publish_wraps (priority : UInt8) (topic : Str) {message : Bytes}
    (hwrap : message.length % 2 ^ 32 = 0) (hlt : (utf8 topic).length + 1 < 2 ^ 32)
    (hlimit : (utf8 topic).length + 1 ≤ cfg.maxPubSize) :
    ending crypto st now (readRequest cfg) (ControlCommand.publish priority topic message).stream =
      (message, some (.ok (.publish now priority (utf8 topic ++ [0])))) := by
  have hframed : (ControlCommand.publish priority topic message).demand.isSome := rfl
  have hbody : (ControlCommand.publish priority topic message).body =
      (utf8 topic ++ [0]) ++ message := by
    rw [List.append_assoc]
    rfl
  have hdeclared : (ControlCommand.publish priority topic message).declared.toNat =
      (utf8 topic ++ [0]).length := by
    rw [ControlCommand.declared_toNat hframed, hbody, List.length_append, List.length_append,
      List.length_singleton]
    omega
  have hwithin : ¬ (ControlCommand.publish priority topic message).limit cfg <
      (utf8 topic ++ [0]).length := by
    rw [List.length_append]
    exact Nat.not_lt.mpr hlimit
  rw [ControlCommand.stream_eq hframed, ending_readRequest cfg crypto st now hframed, hdeclared,
    if_neg hwithin, hbody, ending_readExact crypto st now rfl]
  rfl

/-- A command survives the wire exactly when its body is shorter than 2^32 octets and, unless the
frame is refused, no topic holds a zero character. -/
theorem command_survives_iff {cmd : ControlCommand} (h : cmd.demand.isSome)
    (hne : ∀ t ∈ cmd.topics, t ≠ []) :
    Survives cfg crypto st now cmd ↔ cmd.body.length < 2 ^ 32 ∧
      (cmd.limit cfg < cmd.body.length ∨ ∀ t ∈ cmd.topics, Char.ofNat 0 ∉ t) := by
  unfold Survives
  rw [ControlCommand.declared_eq_iff h]
  refine and_congr_right fun hlt => ?_
  simp only [ending_stream cfg crypto st now h hlt, ← zero_mem_utf8]
  by_cases hlimit : cmd.limit cfg < cmd.body.length
  · simp only [hlimit, if_true, true_or, iff_true]
    intro _
    exact ⟨_, rfl⟩
  · simp only [hlimit, if_false, false_or]
    constructor
    · intro hsurvives
      obtain ⟨request, hend, hdecode⟩ := hsurvives []
      obtain rfl := Except.ok.inj (Option.some.inj (Prod.mk.inj hend).2)
      exact ControlCommand.not_mem_of_decodeRequest h hdecode
    · intro h0 rest
      exact ⟨_, rfl, ControlCommand.decodeRequest_body hne h0 now⟩

end

theorem command_survives_sample : Survives sampleConfig sampleCrypto sampleState 0
    (.subscribeBulk [['a', '/', 'b'], ['c']]) := by
  have hdemand : (ControlCommand.subscribeBulk [['a', '/', 'b'], ['c']]).demand.isSome := rfl
  have hne : ∀ t ∈ (ControlCommand.subscribeBulk [['a', '/', 'b'], ['c']]).topics, t ≠ [] := by
    decide
  rw [command_survives_iff sampleConfig sampleCrypto sampleState 0 hdemand hne]
  exact ⟨by decide, .inr (by decide)⟩

/-- The topic `a\0b` is taken for `a`, and a message of four gibibytes is left on the stream. -/
theorem zero_topic_and_long_message :
    (∃ request, ending sampleCrypto sampleState 0 (readRequest sampleConfig)
        (ControlCommand.publish 5 ['a', Char.ofNat 0, 'b'] [7]).stream =
          ([], some (.ok request)) ∧
        decodeRequest request = some (.publish 5 ['a'] [98, 0, 7])) ∧
      ¬ Survives sampleConfig sampleCrypto sampleState 0
        (.publish 5 ['a', Char.ofNat 0, 'b'] [7]) ∧
      (∃ request, ending sampleCrypto sampleState 0 (readRequest sampleConfig)
        (ControlCommand.publish 5 ['a'] (List.replicate (2 ^ 32) 255)).stream =
          (List.replicate (2 ^ 32) 255, some (.ok request)) ∧
        decodeRequest request = some (.publish 5 ['a'] [])) ∧
      ¬ Survives sampleConfig sampleCrypto sampleState 0
        (.publish 5 ['a'] (List.replicate (2 ^ 32) 255)) := by
  have hend : ending sampleCrypto sampleState 0 (readRequest sampleConfig)
      (ControlCommand.publish 5 ['a', Char.ofNat 0, 'b'] [7]).stream =
        ([], some (.ok (.publish 0 5 [97, 0, 98, 0, 7]))) := rfl
  have hdecode : decodeRequest (.publish 0 5 [97, 0, 98, 0, 7]) =
      some (.publish 5 ['a'] [98, 0, 7]) :=
    decodePublish_append 5 (List.cons_ne_nil 'a' []) (by decide) [98, 0, 7]
  have hwrap : (List.replicate (2 ^ 32) (255 : UInt8)).length % 2 ^ 32 = 0 := by
    rw [List.length_replicate, Nat.mod_self]
  have hlong := ending_publish_wraps sampleConfig sampleCrypto sampleState 0 5
    ['a'] hwrap (by decide) (by decide)
  have hempty : decodeRequest (.publish 0 5 (utf8 ['a'] ++ [0])) = some (.publish 5 ['a'] []) :=
    decodePublish_append 5 (List.cons_ne_nil 'a' []) (by decide) []
  refine ⟨⟨_, hend, hdecode⟩, ?_, ⟨_, hlong, hempty⟩, ?_⟩
  · intro hsurvives
    obtain ⟨request, hsame, hdemand⟩ := hsurvives.2 []
    rw [List.append_nil, hend] at hsame
    obtain rfl := Except.ok.inj (Option.some.inj (Prod.mk.inj hsame).2)
    rw [hdecode] at hdemand
    exact absurd hdemand (by decide)
  · intro hsurvives
    have hlt := (ControlCommand.declared_eq_iff rfl).mp hsurvives.1
    rw [ControlCommand.length_body_publish, List.length_replicate] at hlt
    omega

end Psrt

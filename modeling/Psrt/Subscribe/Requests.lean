import Psrt.Subscribe.ReadAccess

/-! A subscribe frame as a whole: the answer, and what the client is subscribed to after it. -/

namespace Psrt
open Wire Interaction

section
variable (maxTopicDepth : Nat) (acl : Acl)

def Passes (topic : Str) : Prop :=
  acl.allowRead topic = true ∧ ∃ f, prepareTopic maxTopicDepth topic = .ok f

inductive StopsAt (topic : Str) : UInt8 → Prop
  | denied (h : acl.allowRead topic = false) : StopsAt topic responseErrAccess
  | invalid {e : Error} (h : acl.allowRead topic = true)
      (he : prepareTopic maxTopicDepth topic = .error e) : StopsAt topic responseErr

def preparedSet (topics : List Str) : Set Str :=
  {f | ∃ t ∈ topics, prepareTopic maxTopicDepth t = .ok f}

inductive SubscribeOutcome (topics : List Str) (before after : Set Str) : UInt8 → Prop
  | done (hpass : ∀ t ∈ topics, Passes maxTopicDepth acl t)
      (hafter : after = before ∪ preparedSet maxTopicDepth topics) :
      SubscribeOutcome topics before after responseOk
  | stopped {taken rest : List Str} {refused : Str} {code : UInt8}
      (htopics : topics = taken ++ refused :: rest)
      (hpass : ∀ t ∈ taken, Passes maxTopicDepth acl t)
      (hstop : StopsAt maxTopicDepth acl refused code)
      (hafter : after = before ∪ preparedSet maxTopicDepth taken) :
      SubscribeOutcome topics before after code

end

section
variable {d : Nat} {acl : Acl} {topics before : List Str}

theorem StopsAt.not_passes {topic : Str} {code : UInt8} (h : StopsAt d acl topic code) :
    ¬ Passes d acl topic := by
  rintro ⟨hread, f, hf⟩
  cases h with
  | denied h =>
    rw [hread] at h
    cases h
  | invalid _ he =>
    rw [hf] at he
    cases he

theorem acceptedTopics_of_passes (h : ∀ t ∈ topics, Passes d acl t) (f : Str) :
    f ∈ acceptedTopics d acl topics ↔ f ∈ preparedSet d topics := by
  induction topics with
  | nil => simp [acceptedTopics, preparedSet]
  | cons topic topics ih =>
    obtain ⟨⟨hread, g, hg⟩, hrest⟩ := List.forall_mem_cons.mp h
    have ih := ih hrest
    simp only [preparedSet, Set.mem_ofPred_eq] at ih
    simp only [acceptedTopics, hread, hg, Bool.not_true, Bool.false_eq_true, if_false,
      List.mem_cons, ih, preparedSet, Set.mem_ofPred_eq, exists_eq_or_imp, Except.ok.injEq]
    exact or_congr_left eq_comm

theorem acceptedTopics_stopped {taken rest : List Str} {refused : Str}
    (h : ∀ t ∈ taken, Passes d acl t) (hrefused : ¬ Passes d acl refused) :
    acceptedTopics d acl (taken ++ refused :: rest) = acceptedTopics d acl taken := by
  induction taken with
  | nil =>
    rw [List.nil_append, acceptedTopics, acceptedTopics]
    split_ifs with hread
    · rfl
    · cases hf : prepareTopic d refused with
      | error e => rfl
      | ok f =>
        rw [Bool.not_eq_true', Bool.not_eq_false] at hread
        exact absurd ⟨hread, f, hf⟩ hrefused
  | cons topic taken ih =>
    obtain ⟨⟨hread, g, hg⟩, hrest⟩ := List.forall_mem_cons.mp h
    rw [List.cons_append, acceptedTopics, acceptedTopics, hg, ih hrest]

variable {m : SubMap}

theorem subscribeTopics_code (client : ServerClient) (topics : List Str) (db : ServerClientDB m) :
    ((subscribeTopics d acl client topics db).1 = responseOk ∧ ∀ t ∈ topics, Passes d acl t) ∨
    ∃ taken refused rest, topics = taken ++ refused :: rest ∧ (∀ t ∈ taken, Passes d acl t) ∧
      StopsAt d acl refused (subscribeTopics d acl client topics db).1 := by
  induction topics generalizing db with
  | nil => exact .inl ⟨rfl, fun t ht => absurd ht List.not_mem_nil⟩
  | cons topic topics ih =>
    unfold subscribeTopics
    split_ifs with hread
    · rw [Bool.not_eq_true'] at hread
      exact .inr ⟨[], topic, topics, rfl, fun t ht => absurd ht List.not_mem_nil, .denied hread⟩
    · rw [Bool.not_eq_true', Bool.not_eq_false] at hread
      unfold ServerClientDB.subscribe
      cases hf : prepareTopic d topic with
      | error e =>
        exact .inr ⟨[], topic, topics, rfl, fun t ht => absurd ht List.not_mem_nil,
          .invalid hread hf⟩
      | ok f =>
        have hpass : Passes d acl topic := ⟨hread, f, hf⟩
        rcases ih { db with submap := m.subscribe db.submap f client } with
          ⟨hcode, hall⟩ | ⟨taken, refused, rest, rfl, hall, hstop⟩
        · exact .inl ⟨hcode, List.forall_mem_cons.mpr ⟨hpass, hall⟩⟩
        · exact .inr ⟨topic :: taken, refused, rest, rfl,
            List.forall_mem_cons.mpr ⟨hpass, hall⟩, hstop⟩

theorem subscribeOutcome_of_mem {v : m.View} (hl : m.SubscribeLaws v) {client : ServerClient}
    (topics : List Str) {db : ServerClientDB m} (hmem : client ∈ db.clients v) :
    SubscribeOutcome d acl topics (db.filters v client)
      ((subscribeTopics d acl client topics db).2.filters v client)
      (subscribeTopics d acl client topics db).1 := by
  have hfilters := filters_subscribeTopics hl d acl topics hmem
  rcases subscribeTopics_code client topics db with
    ⟨hcode, hpass⟩ | ⟨taken, refused, rest, rfl, hpass, hstop⟩
  · rw [hcode]
    refine .done hpass (hfilters.trans (congrArg (_ ∪ ·) ?_))
    exact Set.ext (acceptedTopics_of_passes hpass)
  · refine .stopped rfl hpass hstop (hfilters.trans (congrArg (_ ∪ ·) ?_))
    rw [acceptedTopics_stopped hpass hstop.not_passes]
    exact Set.ext (acceptedTopics_of_passes hpass)

end

theorem handleRequest_subscribe {cfg : Config} {client : ServerClient} {acl : Acl} {data : Bytes}
    {topics : List Str} (h : parseTopics data = .ok topics) :
    handleRequest cfg client acl (.subscribe data) =
      .call (.subscribe acl topics client) (fun code => (writeAll [code]).bind fun _ => .ret none) := by
  simp only [handleRequest, h, Prog.bind_eq, Prog.ofExcept_ok, Prog.ret_bind, Prog.op_bind]

section
variable {m : SubMap} {v : m.View} {sha256 : Token → Digest} (hl : m.SubscribeLaws v)
include hl

theorem mem_clients_of_subscribe {cfg : Config} {crypto : Crypto} {s : Server m}
    (hr : ServerReachable cfg crypto sha256 s) {i : Nat} {peer : Peer} {acl : Acl}
    {topics : List Str} {client : ServerClient} {f : UInt8 → ServerProg Error Bool}
    (hp : s.processes i = some ⟨peer, .call (.subscribe acl topics client) f⟩) :
    client ∈ s.world.db.clients v :=
  mem_clients_of_serving hl.toRegistryLaws hr hp rfl

/-- In every state of the server: a subscribe frame that is answered with `RESPONSE_OK` added all
its topics; one that is refused added those before the first that does not pass, so it changed
nothing exactly when the client was subscribed to these already. -/
theorem subscribe_frame {cfg : Config} {crypto : Crypto} {s : Server m}
    (hr : ServerReachable cfg crypto sha256 s) {i : Nat} {peer : Peer} {acl : Acl}
    {topics : List Str} {client : ServerClient} {f : UInt8 → ServerProg Error Bool}
    (hp : s.processes i = some ⟨peer, .call (.subscribe acl topics client) f⟩) {code : UInt8}
    {st : ServerState m}
    (he : ServerState.Exec cfg crypto sha256 s.world (.subscribe acl topics client) code st) :
    (∀ data, parseTopics data = .ok topics → handleRequest cfg client acl (.subscribe data) =
      .call (.subscribe acl topics client) (fun code => (writeAll [code]).bind fun _ => .ret none)) ∧
    ((code = responseOk ∧ (∀ t ∈ topics, Passes cfg.maxTopicDepth acl t) ∧
      st.db.filters v client =
        s.world.db.filters v client ∪ preparedSet cfg.maxTopicDepth topics) ∨
    ((code = responseErrAccess ∨ code = responseErr) ∧
      ∃ taken refused rest, topics = taken ++ refused :: rest ∧
        (∀ t ∈ taken, Passes cfg.maxTopicDepth acl t) ∧
        StopsAt cfg.maxTopicDepth acl refused code ∧
        st.db.filters v client =
          s.world.db.filters v client ∪ preparedSet cfg.maxTopicDepth taken ∧
        (st.db.filters v client = s.world.db.filters v client ↔
          preparedSet cfg.maxTopicDepth taken ⊆ s.world.db.filters v client))) := by
  refine ⟨fun _ => handleRequest_subscribe, ?_⟩
  obtain ⟨hcode, rfl⟩ := he
  have houtcome : SubscribeOutcome cfg.maxTopicDepth acl topics (s.world.db.filters v client) _ _ :=
    subscribeOutcome_of_mem hl topics (mem_clients_of_subscribe hl hr hp)
  rw [← hcode] at houtcome
  cases houtcome with
  | done hpass hafter => exact .inl ⟨rfl, hpass, hafter⟩
  | stopped htopics hpass hstop hafter =>
    refine .inr ⟨?_, _, _, _, htopics, hpass, hstop, hafter, ?_⟩
    · cases hstop with
      | denied => exact .inl rfl
      | invalid => exact .inr rfl
    · rw [hafter, Set.union_eq_left]

end

theorem reachable_request :
    ∃ (s : Server listMap) (f : UInt8 → ServerProg Error Bool),
      ServerReachable sampleConfig sampleCrypto Token.bytes s ∧ s.world = registeredState ∧
      s.processes 0 = some ⟨.tcp [] false true 1,
        .call (.subscribe oneBelowAcl [['a', '/', 'b'], ['b']] oneBelowClient) f⟩ := by
  have hparse : parseTopics [97, 47, 98, 0, 98] = .ok [['a', '/', 'b'], ['b']] := by
    have hlast : parseTopics [98] = .ok [['b']] :=
      parseTopics_utf8 (List.cons_ne_nil 'b' []) (by decide)
    have hcons := parseTopics_cons (List.cons_ne_nil 'a' ['/', 'b']) (by decide) [98]
    rw [hlast] at hcons
    exact hcons
  have hcommand : Prog.Run (processCommand sampleConfig oneBelowClient oneBelowAcl)
      [⟨.read 1, .ok [2]⟩, ⟨.read 4, .ok [5, 0, 0, 0]⟩, ⟨.read 5, .ok [97, 47, 98, 0, 98]⟩]
      (.call (.subscribe oneBelowAcl [['a', '/', 'b'], ['b']] oneBelowClient)
        fun code => (writeAll [code]).bind fun _ => .ret none) := by
    unfold processCommand
    refine Prog.Run.call _ (Prog.Run.call _ (Prog.Run.call _ ?_))
    change Prog.Run (handleRequest sampleConfig oneBelowClient oneBelowAcl
      (.subscribe [97, 47, 98, 0, 98])) _ _
    rw [handleRequest_subscribe hparse]
    exact .nil _
  have hsession : Prog.Run (processControl sampleConfig oneBelowClient oneBelowAcl 1) _ _ :=
    hcommand.bind_left _
  have hexec : System.Execs (ServerState.Exec sampleConfig sampleCrypto Token.bytes) oneBelowState
      (loginHistory ++ [⟨.read 1, .ok [2]⟩, ⟨.read 4, .ok [5, 0, 0, 0]⟩,
        ⟨.read 5, .ok [97, 47, 98, 0, 98]⟩]) registeredState :=
    execs_login.append
      (.cons (exec_read _ rfl) (.cons (exec_read _ rfl) (.cons (exec_read _ rfl) (.nil _))))
  have hinit : ServerReachable sampleConfig sampleCrypto Token.bytes
      ⟨oneBelowState, fun _ => none, []⟩ := .init rfl
  have hspawn := System.Reachable.step hinit (.spawn 0 (.tcp [] false true 1) rfl)
  obtain ⟨s, hr, hp, hw, _⟩ := System.reachable_run (run_login hsession) hexec hspawn
    (Function.update_self ..)
  exact ⟨s, _, hr, hw, hp⟩

theorem code_request : (subscribeTopics sampleConfig.maxTopicDepth oneBelowAcl oneBelowClient
    [['a', '/', 'b'], ['b']] registeredState.db).1 = responseErrAccess := by
  have hfirst : prepareTopic 10 ['a', '/', 'b'] = .ok ['a', '/', 'b'] :=
    prepareTopic_of_simple (by decide) (by decide) (by decide)
  have hread : oneBelowAcl.allowRead ['a', '/', 'b'] = true := by decide
  have hdenied : oneBelowAcl.allowRead ['b'] = false := by decide
  change (subscribeTopics 10 _ _ _ _).1 = _
  simp only [subscribeTopics, ServerClientDB.subscribe, hread, hdenied, hfirst, Bool.not_true,
    Bool.false_eq_true, if_false, Bool.not_false, if_true]

theorem subscribe_frame_sample :
    ∃ taken refused rest, [['a', '/', 'b'], ['b']] = taken ++ refused :: rest ∧
      StopsAt sampleConfig.maxTopicDepth oneBelowAcl refused responseErrAccess := by
  obtain ⟨s, f, hr, hw, hp⟩ := reachable_request
  have hcode := code_request
  rw [← hw] at hcode
  rcases (subscribe_frame listMap_laws.toSubscribeLaws hr hp ⟨hcode.symm, rfl⟩).2 with
    ⟨hok, _⟩ | ⟨_, taken, refused, rest, htopics, _, hstop, _⟩
  · cases hok
  · exact ⟨taken, refused, rest, htopics, hstop⟩

/-- The client is told that its request was refused, and is subscribed to `a/b` from then on. -/
theorem refused_frame_subscribes :
    ∃ (s : Server listMap) (f : UInt8 → ServerProg Error Bool) (st : ServerState listMap),
      ServerReachable sampleConfig sampleCrypto Token.bytes s ∧
      s.processes 0 = some ⟨.tcp [] false true 1,
        .call (.subscribe oneBelowAcl [['a', '/', 'b'], ['b']] oneBelowClient) f⟩ ∧
      ServerState.Exec sampleConfig sampleCrypto Token.bytes s.world
        (.subscribe oneBelowAcl [['a', '/', 'b'], ['b']] oneBelowClient) responseErrAccess st ∧
      st.db.filters listMapView oneBelowClient ≠
        s.world.db.filters listMapView oneBelowClient := by
  obtain ⟨s, f, hr, hw, hp⟩ := reachable_request
  have hcode := code_request
  rw [← hw] at hcode
  refine ⟨s, f, _, hr, hp, ⟨hcode.symm, rfl⟩, fun hsame => ?_⟩
  have hmem := mem_clients_of_subscribe listMap_laws.toSubscribeLaws hr hp
  have hafter := filters_subscribeTopics listMap_laws.toSubscribeLaws
    sampleConfig.maxTopicDepth oneBelowAcl [['a', '/', 'b'], ['b']] hmem
  have haccepted : ['a', '/', 'b'] ∈ acceptedTopics sampleConfig.maxTopicDepth oneBelowAcl
      [['a', '/', 'b'], ['b']] := by
    decide +kernel
  have hnew : ['a', '/', 'b'] ∈ s.world.db.filters listMapView oneBelowClient := by
    rw [← hsame, hafter]
    exact .inr haccepted
  rw [hw] at hnew
  obtain ⟨e, he, _, hf⟩ := hnew
  obtain rfl := List.mem_singleton.mp he
  exact absurd hf List.not_mem_nil

end Psrt

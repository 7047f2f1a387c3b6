import Psrt.Server.Registration

/-! The filters the registry holds of a client, against the requests of its session. -/

namespace Psrt
open Wire Interaction

/-- The filters a subscribe frame adds: its topics, prepared, up to the first that the access list
or `prepare_topic` refuses. -/
def acceptedTopics (maxTopicDepth : Nat) (acl : Acl) : List Str → List Str
  | [] => []
  | topic :: topics =>
    if !acl.allowRead topic then []
    else match prepareTopic maxTopicDepth topic with
      | .error _ => []
      | .ok t => t :: acceptedTopics maxTopicDepth acl topics

def preparedTopics (maxTopicDepth : Nat) : List Str → List Str
  | [] => []
  | topic :: topics =>
    match prepareTopic maxTopicDepth topic with
    | .error _ => []
    | .ok t => t :: preparedTopics maxTopicDepth topics

def filtersNext (maxTopicDepth : Nat) (filters : Set Str) : ServerOp → Set Str
  | .subscribe acl topics _ => filters ∪ {f | f ∈ acceptedTopics maxTopicDepth acl topics}
  | .unsubscribe topics _ => filters \ {f | f ∈ preparedTopics maxTopicDepth topics}
  | _ => filters

def activeFilters (maxTopicDepth : Nat) (h : List ServerEvent) : Set Str :=
  h.foldl (fun filters e => filtersNext maxTopicDepth filters e.op) ∅

def acceptedFilters (maxTopicDepth : Nat) (h : List ServerEvent) : Set Str :=
  {f | ∃ e ∈ h, ∃ acl topics client, e.op = .subscribe acl topics client ∧
    f ∈ acceptedTopics maxTopicDepth acl topics}

theorem activeFilters_snoc (d : Nat) (h : List ServerEvent) (e : ServerEvent) :
    activeFilters d (h ++ [e]) = filtersNext d (activeFilters d h) e.op := by
  unfold activeFilters
  rw [List.foldl_append]
  rfl

theorem acceptedFilters_snoc (d : Nat) (h : List ServerEvent) (e : ServerEvent) :
    acceptedFilters d (h ++ [e]) = acceptedFilters d h ∪ acceptedFilters d [e] := by
  ext f
  simp only [acceptedFilters, Set.mem_union, Set.mem_ofPred_eq, List.mem_append, or_and_right,
    exists_or]

theorem filtersNext_bounds (d : Nat) (filters : Set Str) (e : ServerEvent) :
    acceptedFilters d [e] ⊆ filtersNext d filters e.op ∧
      filtersNext d filters e.op ⊆ filters ∪ acceptedFilters d [e] := by
  constructor
  · rintro f ⟨e', he', acl, topics, client, hop, hf⟩
    rw [List.mem_singleton.mp he'] at hop
    rw [hop]
    exact .inr hf
  · intro f hf
    cases hop : e.op with
    | subscribe acl topics client =>
      rw [hop] at hf
      rcases hf with hold | hnew
      · exact .inl hold
      · exact .inr ⟨e, List.mem_singleton_self _, acl, topics, client, hop, hnew⟩
    | unsubscribe topics client =>
      rw [hop] at hf
      exact .inl hf.1
    | _ =>
      rw [hop] at hf
      exact .inl hf

theorem activeFilters_subset (d : Nat) (h : List ServerEvent) :
    activeFilters d h ⊆ acceptedFilters d h := by
  induction h using List.reverseRecOn with
  | nil => exact Set.empty_subset _
  | append_singleton h e ih =>
    rw [activeFilters_snoc, acceptedFilters_snoc]
    exact (filtersNext_bounds d _ e).2.trans (Set.union_subset_union_left _ ih)

theorem prepared_of_mem_acceptedTopics {d : Nat} {acl : Acl} {topics : List Str} {f : Str}
    (h : f ∈ acceptedTopics d acl topics) : ∃ raw, prepareTopic d raw = .ok f := by
  induction topics with
  | nil => exact absurd h List.not_mem_nil
  | cons topic topics ih =>
    unfold acceptedTopics at h
    split_ifs at h
    · exact absurd h List.not_mem_nil
    · cases ht : prepareTopic d topic with
      | error e =>
        rw [ht] at h
        exact absurd h List.not_mem_nil
      | ok t =>
        rw [ht] at h
        rcases List.mem_cons.mp h with rfl | hmem
        · exact ⟨topic, ht⟩
        · exact ih hmem

theorem prepared_of_mem_acceptedFilters {d : Nat} {h : List ServerEvent} {f : Str}
    (hf : f ∈ acceptedFilters d h) : ∃ raw, prepareTopic d raw = .ok f := by
  obtain ⟨_, _, _, _, _, _, hmem⟩ := hf
  exact prepared_of_mem_acceptedTopics hmem

section
variable {m : SubMap} {v : m.View}

theorem filters_subscribeTopics (hl : m.SubscribeLaws v) (d : Nat) (acl : Acl)
    {client : ServerClient} (topics : List Str)
    {db : ServerClientDB m} (hmem : client ∈ db.clients v) :
    (subscribeTopics d acl client topics db).2.filters v client =
      db.filters v client ∪ {f | f ∈ acceptedTopics d acl topics} := by
  induction topics generalizing db with
  | nil => simp only [subscribeTopics, acceptedTopics, List.not_mem_nil, Set.ofPred_false,
      Set.union_empty]
  | cons topic topics ih =>
    unfold subscribeTopics acceptedTopics ServerClientDB.subscribe
    split_ifs
    · simp only [List.not_mem_nil, Set.ofPred_false, Set.union_empty]
    · cases prepareTopic d topic with
      | error e => simp only [List.not_mem_nil, Set.ofPred_false, Set.union_empty]
      | ok t =>
        have hmem' : client ∈ ServerClientDB.clients v
            { db with submap := m.subscribe db.submap t client } := by
          unfold ServerClientDB.clients
          rw [hl.clients_subscribe]
          exact hmem
        have hadded := hl.filters_subscribe db.submap t client ⟨client, hmem, rfl⟩
        dsimp only
        rw [ih hmem']
        ext f
        simp only [ServerClientDB.filters, hadded, Set.mem_union, Set.mem_insert_iff,
          Set.mem_ofPred_eq, List.mem_cons]
        tauto

theorem filters_unsubscribeTopics (hl : m.Laws v) (d : Nat) (client : ServerClient)
    (topics : List Str)
    (db : ServerClientDB m) :
    (unsubscribeTopics d client topics db).2.filters v client =
      db.filters v client \ {f | f ∈ preparedTopics d topics} := by
  induction topics generalizing db with
  | nil => simp only [unsubscribeTopics, preparedTopics, List.not_mem_nil, Set.ofPred_false,
      Set.sdiff_empty]
  | cons topic topics ih =>
    unfold unsubscribeTopics preparedTopics ServerClientDB.unsubscribe
    cases prepareTopic d topic with
    | error e => simp only [List.not_mem_nil, Set.ofPred_false, Set.sdiff_empty]
    | ok t =>
      dsimp only
      rw [ih]
      ext f
      simp only [ServerClientDB.filters, hl.filters_unsubscribe, Set.mem_sdiff,
        Set.mem_singleton_iff, Set.mem_ofPred_eq, List.mem_cons, not_or]
      tauto

end

section
variable {m : SubMap} {v : m.View} {sha256 : Token → Digest} (hl : m.Laws v)

theorem next_holds {p : Phase} {c : ServerClient} (h : p.client = some c) {o : ServerOp}
    {r : o.Resp} (hnext : (p.next o r).Holds c) : p.Holds c := by
  cases p with
  | fresh => cases h
  | registered c' => exact Option.some.inj h
  | serving c' => exact Option.some.inj h
  | released c' => exact hnext.elim
  | tokenLost c' => exact Option.some.inj h

theorem serving_of_accepted {d : Nat} {p : Phase} {e : ServerEvent} (ha : p.Allowed e.op)
    {f : Str} (hf : f ∈ acceptedFilters d [e]) :
    ∃ c, p = .serving c ∧ p.next e.op e.resp = .serving c := by
  obtain ⟨e', he', acl, topics, client, hop, _⟩ := hf
  rw [List.mem_singleton.mp he'] at hop
  obtain ⟨o, r⟩ := e
  obtain rfl : o = .subscribe acl topics client := hop
  rw [serving_of_allowed ha rfl]
  exact ⟨client, rfl, rfl⟩

theorem acceptedFilters_fresh {d : Nat} {h : List ServerEvent}
    (ha : phaseMonitor.Accepts .fresh h) (hfresh : phaseOf h = .fresh) :
    acceptedFilters d h = ∅ := by
  induction h using List.reverseRecOn with
  | nil =>
    apply Set.eq_empty_of_forall_notMem
    rintro f ⟨e, he, _⟩
    cases he
  | append_singleton h e ih =>
    rw [Monitor.accepts_snoc] at ha
    rw [phaseOf_snoc] at hfresh
    have hbefore : phaseOf h = .fresh := by
      cases hp : (phaseOf h).client with
      | some c =>
        have hclient := client_next hp e.op e.resp
        rw [hfresh] at hclient
        cases hclient
      | none => exact fresh_of_client_eq_none hp
    rw [acceptedFilters_snoc, ih ha.1 hbefore, Set.empty_union]
    apply Set.eq_empty_of_forall_notMem
    intro f hf
    obtain ⟨c, hserving, _⟩ := serving_of_accepted ha.2 hf
    have hphase := hbefore.symm.trans hserving
    cases hphase

theorem activeFilters_fresh {d : Nat} {h : List ServerEvent}
    (ha : phaseMonitor.Accepts .fresh h) (hfresh : phaseOf h = .fresh) : activeFilters d h = ∅ := by
  apply Set.subset_eq_empty (activeFilters_subset d h)
  exact acceptedFilters_fresh ha hfresh

include hl in
theorem filters_of_exec {cfg : Config} {crypto : Crypto} {st st' : ServerState m} {p : Phase}
    {o : ServerOp} {r : o.Resp} (ha : p.Allowed o)
    (he : ServerState.Exec cfg crypto sha256 st o r st') {c : ServerClient}
    (hc : p.client = some c) (hmem : c ∈ st.db.clients v) (hholds : (p.next o r).Holds c) :
    st'.db.filters v c = filtersNext cfg.maxTopicDepth (st.db.filters v c) o := by
  cases o with
  | subscribe acl topics client =>
    obtain ⟨_, rfl⟩ := he
    rw [serving_of_allowed ha rfl] at hc
    obtain rfl : client = c := Option.some.inj hc
    exact filters_subscribeTopics hl.toSubscribeLaws _ acl topics hmem
  | unsubscribe topics client =>
    obtain ⟨_, rfl⟩ := he
    rw [serving_of_allowed ha rfl] at hc
    obtain rfl : client = c := Option.some.inj hc
    exact filters_unsubscribeTopics hl _ client topics _
  | registerClient login addr =>
    rw [fresh_of_register_allowed ha] at hc
    cases hc
  | unregisterClient client =>
    rw [serving_of_allowed ha rfl] at hholds
    exact hholds.elim
  | _ =>
    have hst : st' = st := by first | exact he | exact he.1
    rw [hst]
    rfl

include hl in
/-- In every run the registry holds of a client what its session has subscribed. -/
theorem filters_of_reachable {cfg : Config} {crypto : Crypto} {s : Server m}
    (hr : ServerReachable cfg crypto sha256 s) {i : Nat} {c : ServerClient}
    (hc : (phases s.trace i).client = some c) (hmem : c ∈ s.world.db.clients v) :
    s.world.db.filters v c = activeFilters cfg.maxTopicDepth (System.history s.trace i) := by
  induction hr with
  | init h => cases hc
  | step hr hs ih =>
    cases hs with
    | spawn j peer hnone => exact ih hc hmem
    | env w h =>
      rw [h] at hmem ⊢
      exact ih hc hmem
    | act j peer o f r w hp he =>
      rename_i s
      have hinv := registryInv_of_reachable hl.toRegistryLaws hr
      have hinv' := registryInv_of_reachable hl.toRegistryLaws (.step hr (.act j peer o f r w hp he))
      have hstep := registryStep_of_act hl.toRegistryLaws hr hp he
      have hholds' := (hinv'.place i c hc).mp hmem
      rw [phases_append] at hc hholds'
      by_cases hj : i = j
      · subst hj
        rw [Function.update_self] at hc hholds'
        rw [System.history_append_self, activeFilters_snoc]
        have hallowed : (phases s.trace i).Allowed o := (accepts_phases hr hp).2.1
        cases hbefore : (phases s.trace i).client with
        | some c' =>
          -- the client had been registered: one more request of its session
          obtain rfl : c' = c := by
            rw [client_next hbefore] at hc
            exact Option.some.inj hc
          have hmem' := (hinv.place i c' hbefore).mpr (next_holds hbefore hholds')
          rw [filters_of_exec hl hallowed he hbefore hmem' hholds', ih hbefore hmem']
        | none =>
          have hfresh : phases s.trace i = .fresh := fresh_of_client_eq_none hbefore
          rw [activeFilters_fresh (accepts_phases hr hp).1 hfresh]
          rw [hfresh] at hc hstep
          obtain ⟨hregistered, login, addr, heq⟩ := next_fresh hc
          obtain ⟨rfl, hresp⟩ := Event.mk.inj heq
          obtain rfl := eq_of_heq hresp
          generalize hdb : w.db = db' at hstep
          cases hstep with
          | quiet _ _ hclient _ => cases hclient
          | register hnew => exact hnew.filters_self
      · rw [Function.update_of_ne hj] at hc hholds'
        rw [System.history_append_of_ne _ (Ne.symm hj)]
        have hmem' := (hinv.place i c hc).mpr hholds'
        have hother : ¬ (phases s.trace j).Holds c := fun hholds =>
          hj (hinv.distinct i j c hc (Phase.client_of_holds hholds))
        rw [(sameEntry_of_registryStep hl.toRegistryLaws hinv hstep hmem' hother).filters, ih hc hmem']

end

end Psrt

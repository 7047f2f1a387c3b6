import Psrt.Server.Control

/-! What the registry's operations do to the clients and filters it holds. -/

namespace Psrt
open Wire Interaction

namespace ServerClientDB

variable {m : SubMap} {v : m.View}

def clients (v : m.View) (db : ServerClientDB m) : Set ServerClient := v.clients db.submap

def filters (v : m.View) (db : ServerClientDB m) (client : ServerClient) : Set Str :=
  v.filters db.submap client.digest

structure SameEntry (v : m.View) (db db' : ServerClientDB m) (client : ServerClient) : Prop where
  mem : client ∈ db'.clients v ↔ client ∈ db.clients v
  filters : db'.filters v client = db.filters v client
  token : db'.clientsByToken client.token = db.clientsByToken client.token

theorem SameEntry.refl (db : ServerClientDB m) (client : ServerClient) :
    SameEntry v db db client := ⟨Iff.rfl, rfl, rfl⟩

structure Consistent (v : m.View) (sha256 : Token → Digest) (db : ServerClientDB m) : Prop where
  stored : ∀ c ∈ db.clients v, db.clientsByToken c.token = some c
  known : ∀ token c, db.clientsByToken token = some c → c ∈ db.clients v ∧ c.token = token
  digest : ∀ c ∈ db.clients v, c.digest = sha256 c.token

theorem SameEntry.consistent {sha256 : Token → Digest} {db db' : ServerClientDB m}
    (hc : db.Consistent v sha256) (h : ∀ c, SameEntry v db db' c) : db'.Consistent v sha256 where
  stored c hmem := by
    rw [(h c).token]
    exact hc.stored c ((h c).mem.mp hmem)
  known token c hstored := by
    have htoken : db'.clientsByToken token = db.clientsByToken token := (h { c with token }).token
    rw [htoken] at hstored
    obtain ⟨hmem, ht⟩ := hc.known token c hstored
    exact ⟨(h c).mem.mpr hmem, ht⟩
  digest c hmem := hc.digest c ((h c).mem.mp hmem)

variable {sha256 : Token → Digest} (hl : m.RegistryLaws v)
include hl

theorem consistent_new : (ServerClientDB.new m).Consistent v sha256 where
  stored c hc := by
    have hnew : c ∈ v.clients m.new := hc
    rw [hl.clients_new] at hnew
    exact hnew.elim
  known token c h := by cases h
  digest c hc := by
    have hnew : c ∈ v.clients m.new := hc
    rw [hl.clients_new] at hnew
    exact hnew.elim

structure Registered (v : m.View) (sha256 : Token → Digest) (db db' : ServerClientDB m)
    (client : ServerClient) : Prop where
  id_ge : db.nextId ≤ client.id
  id_lt : client.id < db'.nextId
  digest : client.digest = sha256 client.token
  fresh : ∀ c ∈ db.clients v, c.digest ≠ client.digest
  clients : db'.clients v = insert client (db.clients v)
  filters_self : db'.filters v client = ∅
  filters : ∀ c, c.digest ≠ client.digest → db'.filters v c = db.filters v c
  token : db'.clientsByToken = Function.update db.clientsByToken client.token (some client)

theorem registerClient_ok {login addr : Str} {draws : List (Except Error Token)}
    {db db' : ServerClientDB m} {client : ServerClient}
    (h : db.registerClient sha256 login addr draws = some (.ok client, db')) :
    Registered v sha256 db db' client := by
  induction draws generalizing db with
  | nil => cases h
  | cons draw draws ih =>
    cases draw with
    | error e =>
      cases h
    | ok token =>
      unfold registerClient at h
      dsimp only at h
      by_cases hknown : v.Known db.submap ⟨db.nextId, login, addr, token, sha256 token⟩
      · obtain ⟨hfalse, hclients, hfilters⟩ := hl.register_known _ _ hknown
        rw [hfalse] at h
        -- a digest the map knows already: another token is drawn
        have hrec := ih h
        refine ⟨Nat.le_of_succ_le hrec.id_ge, hrec.id_lt, hrec.digest, ?_, ?_, hrec.filters_self,
          ?_, hrec.token⟩
        · intro c hc
          exact hrec.fresh c ((Set.ext_iff.mp hclients c).mpr hc)
        · rw [hrec.clients]
          exact congrArg (insert client) hclients
        · intro c hc
          rw [hrec.filters c hc]
          exact congrFun hfilters c.digest
      · obtain ⟨htrue, hclients, hfilters⟩ := hl.register_new _ _ hknown
        rw [htrue] at h
        simp only [if_true, Option.some.injEq, Prod.mk.injEq, Except.ok.injEq] at h
        obtain ⟨rfl, rfl⟩ := h
        refine ⟨Nat.le_refl _, Nat.lt_succ_self _, rfl, ?_, hclients, ?_, ?_, rfl⟩
        · intro c hc hd
          exact hknown ⟨c, hc, hd⟩
        · unfold ServerClientDB.filters
          dsimp only
          rw [hfilters, Function.update_self]
        · intro c hc
          unfold ServerClientDB.filters
          dsimp only
          rw [hfilters, Function.update_of_ne hc]

theorem registerClient_error {login addr : Str} {draws : List (Except Error Token)}
    {db db' : ServerClientDB m} {e : Error}
    (h : db.registerClient sha256 login addr draws = some (.error e, db')) :
    (∀ c, SameEntry v db db' c) ∧ db.nextId ≤ db'.nextId := by
  induction draws generalizing db with
  | nil => cases h
  | cons draw draws ih =>
    cases draw with
    | error e =>
      unfold registerClient at h
      simp only [Option.some.injEq, Prod.mk.injEq] at h
      obtain ⟨_, rfl⟩ := h
      exact ⟨SameEntry.refl db, Nat.le_refl _⟩
    | ok token =>
      unfold registerClient at h
      dsimp only at h
      by_cases hknown : v.Known db.submap ⟨db.nextId, login, addr, token, sha256 token⟩
      · obtain ⟨hfalse, hclients, hfilters⟩ := hl.register_known _ _ hknown
        rw [hfalse] at h
        obtain ⟨hrec, hid⟩ := ih h
        refine ⟨fun c => ⟨?_, ?_, (hrec c).token⟩, Nat.le_of_succ_le hid⟩
        · rw [(hrec c).mem]
          exact Set.ext_iff.mp hclients c
        · rw [(hrec c).filters]
          exact congrFun hfilters c.digest
      · obtain ⟨htrue, _, _⟩ := hl.register_new _ _ hknown
        rw [htrue] at h
        cases h

omit hl in
theorem Registered.consistent {db db' : ServerClientDB m} {client : ServerClient}
    (hc : db.Consistent v sha256) (h : Registered v sha256 db db' client) :
    db'.Consistent v sha256 := by
  have hfresh : ∀ c ∈ db.clients v, c.token ≠ client.token := by
    intro c hmem htoken
    have hd := hc.digest c hmem
    rw [htoken, ← h.digest] at hd
    exact h.fresh c hmem hd
  refine ⟨?_, ?_, ?_⟩
  · intro c hmem
    rw [h.clients] at hmem
    rw [h.token]
    rcases hmem with rfl | hmem
    · exact Function.update_self ..
    · rw [Function.update_of_ne (hfresh c hmem)]
      exact hc.stored c hmem
  · intro token c hstored
    rw [h.token] at hstored
    rw [h.clients]
    by_cases htoken : token = client.token
    · subst htoken
      rw [Function.update_self] at hstored
      obtain rfl := Option.some.inj hstored
      exact ⟨Set.mem_insert .., rfl⟩
    · rw [Function.update_of_ne htoken] at hstored
      obtain ⟨hmem, ht⟩ := hc.known token c hstored
      exact ⟨Set.mem_insert_of_mem _ hmem, ht⟩
  · intro c hmem
    rw [h.clients] at hmem
    rcases hmem with rfl | hmem
    · exact h.digest
    · exact hc.digest c hmem

omit hl in
theorem Registered.sameEntry {db db' : ServerClientDB m} {client : ServerClient}
    (hc : db.Consistent v sha256) (h : Registered v sha256 db db' client) {c : ServerClient}
    (hmem : c ∈ db.clients v) : SameEntry v db db' c := by
  have hd := h.fresh c hmem
  have htoken : c.token ≠ client.token := by
    intro htoken
    rw [hc.digest c hmem, htoken, ← h.digest] at hd
    exact hd rfl
  refine ⟨?_, h.filters c hd, ?_⟩
  · rw [h.clients]
    exact iff_of_true (Set.mem_insert_of_mem _ hmem) hmem
  · rw [h.token, Function.update_of_ne htoken]

theorem mem_clients_unregister {db : ServerClientDB m} {client c : ServerClient} :
    c ∈ (db.unregisterClient client).clients v ↔ c ∈ db.clients v ∧ c.digest ≠ client.digest := by
  unfold ServerClientDB.clients unregisterClient
  dsimp only
  rw [hl.clients_unregister]
  rfl

theorem digest_ne_of_mem {db : ServerClientDB m} {client c : ServerClient}
    (hclient : client ∈ db.clients v) (hmem : c ∈ db.clients v) (hne : c ≠ client) :
    c.digest ≠ client.digest :=
  fun hd => hne (hl.digest_inj _ _ _ hmem hclient hd)

theorem unregister_consistent {db : ServerClientDB m} {client : ServerClient}
    (hc : db.Consistent v sha256) (hclient : client ∈ db.clients v) :
    (db.unregisterClient client).Consistent v sha256 := by
  refine ⟨?_, ?_, ?_⟩
  · intro c hmem
    obtain ⟨hold, hd⟩ := (mem_clients_unregister hl).mp hmem
    have htoken : c.token ≠ client.token := by
      intro htoken
      rw [hc.digest c hold, hc.digest client hclient, htoken] at hd
      exact hd rfl
    unfold unregisterClient
    dsimp only
    rw [Function.update_of_ne htoken]
    exact hc.stored c hold
  · intro token c hstored
    unfold unregisterClient at hstored
    dsimp only at hstored
    by_cases htoken : token = client.token
    · subst htoken
      rw [Function.update_self] at hstored
      cases hstored
    · rw [Function.update_of_ne htoken] at hstored
      obtain ⟨hmem, ht⟩ := hc.known token c hstored
      have hne : c ≠ client := by
        rintro rfl
        exact htoken ht.symm
      exact ⟨(mem_clients_unregister hl).mpr ⟨hmem, digest_ne_of_mem hl hclient hmem hne⟩, ht⟩
  · intro c hmem
    exact hc.digest c ((mem_clients_unregister hl).mp hmem).1

theorem unregister_sameEntry {db : ServerClientDB m} {client c : ServerClient}
    (hc : db.Consistent v sha256) (hclient : client ∈ db.clients v) (hmem : c ∈ db.clients v)
    (hne : c ≠ client) : SameEntry v db (db.unregisterClient client) c := by
  have hd := digest_ne_of_mem hl hclient hmem hne
  have htoken : c.token ≠ client.token := by
    intro htoken
    rw [hc.digest c hmem, hc.digest client hclient, htoken] at hd
    exact hd rfl
  refine ⟨?_, ?_, ?_⟩
  · rw [mem_clients_unregister hl]
    exact and_iff_left hd
  · exact hl.filters_unregister _ _ _ hd
  · unfold unregisterClient
    exact Function.update_of_ne htoken ..

structure SubscribedOnly (v : m.View) (db db' : ServerClientDB m) (client : ServerClient) :
    Prop where
  clients : db'.clients v = db.clients v
  filters : ∀ c, c.digest ≠ client.digest → db'.filters v c = db.filters v c
  tokens : db'.clientsByToken = db.clientsByToken
  nextId : db'.nextId = db.nextId

omit hl in
theorem SubscribedOnly.refl (db : ServerClientDB m) (client : ServerClient) :
    SubscribedOnly v db db client := ⟨rfl, fun _ _ => rfl, rfl, rfl⟩

omit hl in
theorem SubscribedOnly.trans {db db' db'' : ServerClientDB m} {client : ServerClient}
    (h : SubscribedOnly v db db' client) (h' : SubscribedOnly v db' db'' client) :
    SubscribedOnly v db db'' client where
  clients := h'.clients.trans h.clients
  filters c hd := (h'.filters c hd).trans (h.filters c hd)
  tokens := h'.tokens.trans h.tokens
  nextId := h'.nextId.trans h.nextId

theorem subscribe_only {maxTopicDepth : Nat} {db db' : ServerClientDB m} {topic : Str}
    {client : ServerClient} (h : db.subscribe maxTopicDepth topic client = .ok db') :
    SubscribedOnly v db db' client := by
  unfold ServerClientDB.subscribe at h
  cases ht : prepareTopic maxTopicDepth topic with
  | error e =>
    rw [ht] at h
    cases h
  | ok t =>
    rw [ht] at h
    obtain rfl := Except.ok.inj h
    refine ⟨hl.clients_subscribe _ _ _, ?_, rfl, rfl⟩
    intro c hd
    exact hl.filters_subscribe_of_ne _ _ _ _ hd

theorem unsubscribe_only {maxTopicDepth : Nat} {db db' : ServerClientDB m} {topic : Str}
    {client : ServerClient} (h : db.unsubscribe maxTopicDepth topic client = .ok db') :
    SubscribedOnly v db db' client := by
  unfold ServerClientDB.unsubscribe at h
  cases ht : prepareTopic maxTopicDepth topic with
  | error e =>
    rw [ht] at h
    cases h
  | ok t =>
    rw [ht] at h
    obtain rfl := Except.ok.inj h
    refine ⟨hl.clients_unsubscribe _ _ _, ?_, rfl, rfl⟩
    intro c hd
    exact hl.filters_unsubscribe_of_ne _ _ _ _ hd

theorem subscribeTopics_only (maxTopicDepth : Nat) (acl : Acl) (client : ServerClient)
    (topics : List Str) (db : ServerClientDB m) :
    SubscribedOnly v db (subscribeTopics maxTopicDepth acl client topics db).2 client := by
  induction topics generalizing db with
  | nil => exact SubscribedOnly.refl db client
  | cons topic topics ih =>
    unfold subscribeTopics
    split_ifs
    · exact SubscribedOnly.refl db client
    · cases h : db.subscribe maxTopicDepth topic client with
      | error e => exact SubscribedOnly.refl db client
      | ok db' => exact (subscribe_only hl h).trans (ih db')

theorem unsubscribeTopics_only (maxTopicDepth : Nat) (client : ServerClient) (topics : List Str)
    (db : ServerClientDB m) :
    SubscribedOnly v db (unsubscribeTopics maxTopicDepth client topics db).2 client := by
  induction topics generalizing db with
  | nil => exact SubscribedOnly.refl db client
  | cons topic topics ih =>
    unfold unsubscribeTopics
    cases h : db.unsubscribe maxTopicDepth topic client with
    | error e => exact SubscribedOnly.refl db client
    | ok db' => exact (unsubscribe_only hl h).trans (ih db')

omit hl in
theorem SubscribedOnly.consistent {db db' : ServerClientDB m} {client : ServerClient}
    (hc : db.Consistent v sha256) (h : SubscribedOnly v db db' client) :
    db'.Consistent v sha256 where
  stored c hmem := by
    rw [h.tokens]
    exact hc.stored c (h.clients ▸ hmem)
  known token c hstored := by
    rw [h.tokens] at hstored
    rw [h.clients]
    exact hc.known token c hstored
  digest c hmem := hc.digest c (h.clients ▸ hmem)

theorem SubscribedOnly.sameEntry {db db' : ServerClientDB m} {client c : ServerClient}
    (h : SubscribedOnly v db db' client) (hclient : client ∈ db.clients v)
    (hmem : c ∈ db.clients v) (hne : c ≠ client) : SameEntry v db db' c where
  mem := by rw [h.clients]
  filters := h.filters c (digest_ne_of_mem hl hclient hmem hne)
  token := by rw [h.tokens]

end ServerClientDB

end Psrt

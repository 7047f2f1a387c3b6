import Psrt.Server.Registration

/-! Runs of the registry: any sequence of the calls of `ServerClientDB`, with the clients' data
channels. -/

namespace Psrt
open Wire Interaction

variable {m : SubMap}

structure Registry (m : SubMap) where
  db : ServerClientDB m
  /-- The `data_channel` cell of each client. -/
  dataChannel : ServerClient → Option ChannelId

def Registry.new (m : SubMap) : Registry m := ⟨ServerClientDB.new m, fun _ => none⟩

inductive RegistryOp where
  | registerClient (login addr : Str)
  | unregisterClient (client : ServerClient)
  | subscribe (topic : Str) (client : ServerClient)
  | unsubscribe (topic : Str) (client : ServerClient)
  | registerDataChannel (token : Token) (channel : ChannelId)
  | unregisterDataChannel (token : Token)

abbrev RegistryOp.Resp : RegistryOp → Type
  | registerClient _ _ => Except Error ServerClient
  | unregisterClient _ => Unit
  | subscribe _ _ => Except Error Unit
  | unsubscribe _ _ => Except Error Unit
  | registerDataChannel _ _ => Except Error ServerClient
  | unregisterDataChannel _ => Unit

abbrev RegistryEvent := Event RegistryOp RegistryOp.Resp

namespace Registry

/-- A call may answer `res` and leave `r'`; the tokens a registration draws are not determined. -/
def Exec (maxTopicDepth : Nat) (sha256 : Token → Digest) (r : Registry m) :
    (o : RegistryOp) → o.Resp → Registry m → Prop
  | .registerClient login addr, res, r' =>
    ∃ draws db', r.db.registerClient sha256 login addr draws = some (res, db') ∧
      r' = { r with db := db' }
  | .unregisterClient client, _, r' => r' = { r with db := r.db.unregisterClient client }
  | .subscribe topic client, res, r' =>
    match r.db.subscribe maxTopicDepth topic client with
    | .error e => res = .error e ∧ r' = r
    | .ok db' => res = .ok () ∧ r' = { r with db := db' }
  | .unsubscribe topic client, res, r' =>
    match r.db.unsubscribe maxTopicDepth topic client with
    | .error e => res = .error e ∧ r' = r
    | .ok db' => res = .ok () ∧ r' = { r with db := db' }
  | .registerDataChannel token channel, res, r' =>
    res = (Psrt.registerDataChannel r.db.clientsByToken r.dataChannel token channel).1 ∧
      r' = { r with
        dataChannel :=
          (Psrt.registerDataChannel r.db.clientsByToken r.dataChannel token channel).2 }
  | .unregisterDataChannel token, _, r' =>
    r' = { r with
      dataChannel := Psrt.unregisterDataChannel r.db.clientsByToken r.dataChannel token }

abbrev Execs (maxTopicDepth : Nat) (sha256 : Token → Digest) :
    Registry m → List RegistryEvent → Registry m → Prop :=
  System.Execs (Registry.Exec maxTopicDepth sha256)

end Registry

def RegisteredIn (h : List RegistryEvent) (c : ServerClient) : Prop :=
  ∃ login addr, ⟨.registerClient login addr, .ok c⟩ ∈ h

def UnregisteredIn (h : List RegistryEvent) (c : ServerClient) : Prop :=
  ⟨.unregisterClient c, ()⟩ ∈ h

def Live (h : List RegistryEvent) (c : ServerClient) : Prop :=
  RegisteredIn h c ∧ ¬ UnregisteredIn h c

/-- A request for the client's data channel was granted, and the channel was not withdrawn since. -/
def Granted (h : List RegistryEvent) (c : ServerClient) (channel : ChannelId) : Prop :=
  ∃ before token after, h = before ++ ⟨.registerDataChannel token channel, .ok c⟩ :: after ∧
    ⟨.unregisterDataChannel c.token, ()⟩ ∉ after

/-- The handlers subscribe a client while it is registered, and unregister it once. -/
def HandlerCall (h : List RegistryEvent) : RegistryOp → Prop
  | .unregisterClient c => Live h c
  | .subscribe _ c => Live h c
  | _ => True

def AsInHandlers (h : List RegistryEvent) : Prop := (Monitor.history HandlerCall).Accepts [] h

section
variable {h : List RegistryEvent} {c : ServerClient}

theorem registeredIn_snoc {e : RegistryEvent} :
    RegisteredIn (h ++ [e]) c ↔
      RegisteredIn h c ∨ ∃ login addr, e = ⟨.registerClient login addr, .ok c⟩ := by
  simp only [RegisteredIn, List.mem_append, List.mem_singleton, exists_or, eq_comm]

theorem unregisteredIn_snoc {e : RegistryEvent} :
    UnregisteredIn (h ++ [e]) c ↔ UnregisteredIn h c ∨ e = ⟨.unregisterClient c, ()⟩ := by
  simp only [UnregisteredIn, List.mem_append, List.mem_singleton, eq_comm]

variable {client : ServerClient} {login addr : Str} {token : Token}

theorem registeredIn_registerClient :
    RegisteredIn (h ++ [⟨.registerClient login addr, .ok client⟩]) c ↔
      RegisteredIn h c ∨ c = client := by
  rw [registeredIn_snoc]
  refine or_congr_right ⟨?_, ?_⟩
  · rintro ⟨_, _, heq⟩
    cases heq
    rfl
  · rintro rfl
    exact ⟨login, addr, rfl⟩

theorem unregisteredIn_registerClient :
    UnregisteredIn (h ++ [⟨.registerClient login addr, .ok client⟩]) c ↔ UnregisteredIn h c := by
  rw [unregisteredIn_snoc]
  exact or_iff_left fun heq => by cases heq

theorem registeredIn_unregisterClient :
    RegisteredIn (h ++ [⟨.unregisterClient client, ()⟩]) c ↔ RegisteredIn h c := by
  rw [registeredIn_snoc]
  exact or_iff_left fun ⟨_, _, heq⟩ => by cases heq

theorem unregisteredIn_unregisterClient :
    UnregisteredIn (h ++ [⟨.unregisterClient client, ()⟩]) c ↔
      UnregisteredIn h c ∨ c = client := by
  rw [unregisteredIn_snoc]
  refine or_congr_right ⟨?_, ?_⟩
  · intro heq
    cases heq
    rfl
  · rintro rfl
    rfl

theorem granted_snoc {e : RegistryEvent} {ch : ChannelId} :
    Granted (h ++ [e]) c ch ↔
      (∃ token, e = ⟨.registerDataChannel token ch, .ok c⟩) ∨
        (Granted h c ch ∧ e ≠ ⟨.unregisterDataChannel c.token, ()⟩) := by
  constructor
  · rintro ⟨before, token, after, heq, hnot⟩
    cases after using List.reverseRecOn with
    | nil =>
      have hlast := (List.append_inj' heq rfl).2
      exact .inl ⟨token, List.singleton_inj.mp hlast⟩
    | append_singleton after e' =>
      rw [← List.cons_append, ← List.append_assoc] at heq
      obtain ⟨rfl, hlast⟩ := List.append_inj' heq rfl
      obtain rfl := List.singleton_inj.mp hlast
      rw [List.mem_append, List.mem_singleton, not_or] at hnot
      exact .inr ⟨⟨before, token, after, rfl, hnot.1⟩, Ne.symm hnot.2⟩
  · rintro (⟨token, rfl⟩ | ⟨⟨before, token, after, rfl, hnot⟩, hne⟩)
    · exact ⟨h, token, [], rfl, List.not_mem_nil⟩
    · refine ⟨before, token, after ++ [e], ?_, ?_⟩
      · rw [List.append_assoc, List.cons_append]
      · rw [List.mem_append, List.mem_singleton, not_or]
        exact ⟨hnot, Ne.symm hne⟩

theorem granted_registerDataChannel {ch ch' : ChannelId} :
    Granted (h ++ [⟨.registerDataChannel token ch, .ok client⟩]) c ch' ↔
      (c = client ∧ ch' = ch) ∨ Granted h c ch' := by
  rw [granted_snoc]
  refine or_congr ⟨?_, ?_⟩ (and_iff_left fun heq => by cases heq)
  · rintro ⟨_, heq⟩
    cases heq
    exact ⟨rfl, rfl⟩
  · rintro ⟨rfl, rfl⟩
    exact ⟨token, rfl⟩

theorem granted_unregisterDataChannel {ch : ChannelId} :
    Granted (h ++ [⟨.unregisterDataChannel token, ()⟩]) c ch ↔ Granted h c ch ∧ token ≠ c.token := by
  rw [granted_snoc]
  constructor
  · rintro (⟨_, heq⟩ | ⟨hold, hne⟩)
    · cases heq
    · refine ⟨hold, ?_⟩
      rintro rfl
      exact hne rfl
  · rintro ⟨hold, hne⟩
    refine .inr ⟨hold, fun heq => ?_⟩
    cases heq
    exact hne rfl

end

structure RunInv (v : m.View) (sha256 : Token → Digest) (h : List RegistryEvent)
    (r : Registry m) : Prop where
  consistent : r.db.Consistent v sha256
  live : ∀ c, c ∈ r.db.clients v ↔ Live h c
  registered : ∀ c, UnregisteredIn h c → RegisteredIn h c
  id_lt : ∀ c, RegisteredIn h c → c.id < r.db.nextId
  requested : ∀ c ch, r.dataChannel c = some ch → RegisteredIn h c
  granted : ∀ c ch, Granted h c ch → RegisteredIn h c
  channel : ∀ c ∈ r.db.clients v, ∀ ch, r.dataChannel c = some ch ↔ Granted h c ch

def KeepsClients : RegistryEvent → Prop
  | ⟨.registerClient _ _, .ok _⟩ => False
  | ⟨.unregisterClient _, _⟩ => False
  | _ => True

def KeepsChannels : RegistryEvent → Prop
  | ⟨.registerDataChannel _ _, .ok _⟩ => False
  | ⟨.unregisterDataChannel _, _⟩ => False
  | _ => True

section
variable {e : RegistryEvent} {h : List RegistryEvent} {c : ServerClient}

theorem registeredIn_of_keeps (he : KeepsClients e) :
    RegisteredIn (h ++ [e]) c ↔ RegisteredIn h c := by
  rw [registeredIn_snoc]
  refine or_iff_left ?_
  rintro ⟨login, addr, rfl⟩
  exact he

theorem unregisteredIn_of_keeps (he : KeepsClients e) :
    UnregisteredIn (h ++ [e]) c ↔ UnregisteredIn h c := by
  rw [unregisteredIn_snoc]
  refine or_iff_left ?_
  rintro rfl
  exact he

theorem live_of_keeps (he : KeepsClients e) : Live (h ++ [e]) c ↔ Live h c :=
  and_congr (registeredIn_of_keeps he) (not_congr (unregisteredIn_of_keeps he))

theorem granted_of_keeps (he : KeepsChannels e) {ch : ChannelId} :
    Granted (h ++ [e]) c ch ↔ Granted h c ch := by
  rw [granted_snoc]
  constructor
  · rintro (⟨token, rfl⟩ | ⟨hgranted, _⟩)
    · exact he.elim
    · exact hgranted
  · intro hgranted
    refine .inr ⟨hgranted, ?_⟩
    rintro rfl
    exact he

end

section
variable {v : m.View} {sha256 : Token → Digest} (hl : m.RegistryLaws v) {h : List RegistryEvent}
  {r : Registry m}

theorem RunInv.subscribed (hi : RunInv v sha256 h r) {e : RegistryEvent} (he : KeepsClients e)
    (he' : KeepsChannels e) {db' : ServerClientDB m} (hc : db'.Consistent v sha256)
    (hclients : ∀ c, c ∈ db'.clients v ↔ c ∈ r.db.clients v) (hid : r.db.nextId ≤ db'.nextId) :
    RunInv v sha256 (h ++ [e]) { r with db := db' } where
  consistent := hc
  live c := by rw [hclients, hi.live, live_of_keeps he]
  registered c hc := by
    rw [registeredIn_of_keeps he]
    exact hi.registered c ((unregisteredIn_of_keeps he).mp hc)
  id_lt c hc := Nat.lt_of_lt_of_le (hi.id_lt c ((registeredIn_of_keeps he).mp hc)) hid
  requested c ch hch := (registeredIn_of_keeps he).mpr (hi.requested c ch hch)
  granted c ch hch := by
    rw [registeredIn_of_keeps he]
    exact hi.granted c ch ((granted_of_keeps he').mp hch)
  channel c hmem ch := by
    rw [granted_of_keeps he']
    exact hi.channel c ((hclients c).mp hmem) ch

theorem RunInv.unchanged (hi : RunInv v sha256 h r) {e : RegistryEvent} (he : KeepsClients e)
    (he' : KeepsChannels e) : RunInv v sha256 (h ++ [e]) r :=
  hi.subscribed he he' hi.consistent (fun _ => Iff.rfl) (Nat.le_refl _)

theorem RunInv.filters (hi : RunInv v sha256 h r) {e : RegistryEvent} (he : KeepsClients e)
    (he' : KeepsChannels e) {db' : ServerClientDB m} {c : ServerClient}
    (honly : ServerClientDB.SubscribedOnly v r.db db' c) :
    RunInv v sha256 (h ++ [e]) { r with db := db' } :=
  hi.subscribed he he' (honly.consistent hi.consistent) (fun c => Set.ext_iff.mp honly.clients c)
    (Nat.le_of_eq honly.nextId.symm)

theorem RunInv.registerClient (hi : RunInv v sha256 h r) (login addr : Str)
    {client : ServerClient} {db' : ServerClientDB m}
    (hreg : ServerClientDB.Registered v sha256 r.db db' client) :
    RunInv v sha256 (h ++ [⟨.registerClient login addr, .ok client⟩]) { r with db := db' } := by
  have hchannels : KeepsChannels ⟨.registerClient login addr, .ok client⟩ := trivial
  have hnew : ¬ RegisteredIn h client := fun hold =>
    Nat.not_le_of_lt (hi.id_lt client hold) hreg.id_ge
  exact {
    consistent := hreg.consistent hi.consistent
    live := fun c => by
      rw [hreg.clients, Set.mem_insert_iff, hi.live, Live, Live, registeredIn_registerClient,
        unregisteredIn_registerClient]
      constructor
      · rintro (rfl | hlive)
        · exact ⟨.inr rfl, fun hun => hnew (hi.registered c hun)⟩
        · exact ⟨.inl hlive.1, hlive.2⟩
      · rintro ⟨hold | rfl, hnot⟩
        · exact .inr ⟨hold, hnot⟩
        · exact .inl rfl
    registered := fun c hun => registeredIn_registerClient.mpr
      (.inl (hi.registered c (unregisteredIn_registerClient.mp hun)))
    id_lt := fun c hc => by
      rcases registeredIn_registerClient.mp hc with hold | rfl
      · exact (hi.id_lt c hold).trans (hreg.id_ge.trans_lt hreg.id_lt)
      · exact hreg.id_lt
    requested := fun c ch hch => registeredIn_registerClient.mpr (.inl (hi.requested c ch hch))
    granted := fun c ch hch => registeredIn_registerClient.mpr
      (.inl (hi.granted c ch ((granted_of_keeps hchannels).mp hch)))
    channel := fun c hmem ch => by
      rw [hreg.clients] at hmem
      rw [granted_of_keeps hchannels]
      rcases hmem with rfl | hmem
      · exact iff_of_false (fun hch => hnew (hi.requested c ch hch))
          (fun hch => hnew (hi.granted c ch hch))
      · exact hi.channel c hmem ch }

include hl in
theorem RunInv.unregisterClient (hi : RunInv v sha256 h r) {client : ServerClient}
    (hlive : Live h client) :
    RunInv v sha256 (h ++ [⟨.unregisterClient client, ()⟩])
      { r with db := r.db.unregisterClient client } := by
  have hchannels : KeepsChannels ⟨.unregisterClient client, ()⟩ := trivial
  have hmem : client ∈ r.db.clients v := (hi.live client).mpr hlive
  have hclients : ∀ c, c ∈ (r.db.unregisterClient client).clients v ↔
      c ∈ r.db.clients v ∧ c ≠ client := by
    intro c
    rw [ServerClientDB.mem_clients_unregister hl]
    refine and_congr_right fun hc => ⟨?_, ServerClientDB.digest_ne_of_mem hl hmem hc⟩
    rintro hd rfl
    exact hd rfl
  exact {
    consistent := ServerClientDB.unregister_consistent hl hi.consistent hmem
    live := fun c => by
      rw [hclients, hi.live, Live, Live, registeredIn_unregisterClient,
        unregisteredIn_unregisterClient, not_or, and_assoc]
    registered := fun c hun => by
      rw [registeredIn_unregisterClient]
      rcases unregisteredIn_unregisterClient.mp hun with hold | rfl
      · exact hi.registered c hold
      · exact hlive.1
    id_lt := fun c hc => hi.id_lt c (registeredIn_unregisterClient.mp hc)
    requested := fun c ch hch => registeredIn_unregisterClient.mpr (hi.requested c ch hch)
    granted := fun c ch hch => registeredIn_unregisterClient.mpr
      (hi.granted c ch ((granted_of_keeps hchannels).mp hch))
    channel := fun c hc ch => by
      rw [granted_of_keeps hchannels]
      exact hi.channel c ((hclients c).mp hc).1 ch }

theorem RunInv.channels (hi : RunInv v sha256 h r) {e : RegistryEvent} (he : KeepsClients e)
    {cells : ServerClient → Option ChannelId}
    (hrequested : ∀ c ch, cells c = some ch → RegisteredIn h c)
    (hgranted : ∀ c ch, Granted (h ++ [e]) c ch → RegisteredIn h c)
    (hcells : ∀ c ∈ r.db.clients v, ∀ ch, cells c = some ch ↔ Granted (h ++ [e]) c ch) :
    RunInv v sha256 (h ++ [e]) { r with dataChannel := cells } where
  consistent := hi.consistent
  live c := by rw [hi.live, live_of_keeps he]
  registered c hc := by
    rw [registeredIn_of_keeps he]
    exact hi.registered c ((unregisteredIn_of_keeps he).mp hc)
  id_lt c hc := hi.id_lt c ((registeredIn_of_keeps he).mp hc)
  requested c ch hch := (registeredIn_of_keeps he).mpr (hrequested c ch hch)
  granted c ch hch := (registeredIn_of_keeps he).mpr (hgranted c ch hch)
  channel := hcells

theorem RunInv.registerDataChannel (hi : RunInv v sha256 h r) (token : Token) (ch : ChannelId)
    {client : ServerClient}
    (hok : (Psrt.registerDataChannel r.db.clientsByToken r.dataChannel token ch).1 = .ok client) :
    RunInv v sha256 (h ++ [⟨.registerDataChannel token ch, .ok client⟩])
      { r with
        dataChannel := (Psrt.registerDataChannel r.db.clientsByToken r.dataChannel token ch).2 } := by
  obtain ⟨htoken, hnone, hcells⟩ := registerDataChannel_ok hok
  rw [hcells]
  have hmem : client ∈ r.db.clients v := (hi.consistent.known token client htoken).1
  have hregistered : RegisteredIn h client := ((hi.live client).mp hmem).1
  have hnotgranted : ∀ ch', ¬ Granted h client ch' := by
    intro ch' hold
    rw [← hi.channel client hmem, hnone] at hold
    cases hold
  have hclients : KeepsClients ⟨.registerDataChannel token ch, .ok client⟩ := trivial
  apply hi.channels hclients
  · intro c ch' hch
    by_cases hc : c = client
    · exact hc ▸ hregistered
    · rw [Function.update_of_ne hc] at hch
      exact hi.requested c ch' hch
  · intro c ch' hgranted
    rcases granted_registerDataChannel.mp hgranted with ⟨rfl, -⟩ | hold
    · exact hregistered
    · exact hi.granted c ch' hold
  · intro c hc ch'
    rw [granted_registerDataChannel]
    by_cases hcc : c = client
    · subst hcc
      rw [Function.update_self, Option.some.injEq, or_iff_left (hnotgranted ch'), eq_comm]
      exact (and_iff_right rfl).symm
    · rw [Function.update_of_ne hcc, hi.channel c hc]
      exact (or_iff_right fun hnew => hcc hnew.1).symm

theorem RunInv.unregisterDataChannel (hi : RunInv v sha256 h r) (token : Token) :
    RunInv v sha256 (h ++ [⟨.unregisterDataChannel token, ()⟩])
      { r with
        dataChannel := Psrt.unregisterDataChannel r.db.clientsByToken r.dataChannel token } := by
  have hclients : KeepsClients ⟨.unregisterDataChannel token, ()⟩ := trivial
  apply hi.channels hclients
  · intro c ch hch
    exact hi.requested c ch (unregisterDataChannel_of_some hch).1
  · intro c ch hch
    exact hi.granted c ch (granted_unregisterDataChannel.mp hch).1
  · intro c hc ch
    rw [granted_unregisterDataChannel, ← hi.channel c hc]
    constructor
    · intro hch
      obtain ⟨hold, hne⟩ := unregisterDataChannel_of_some hch
      refine ⟨hold, ?_⟩
      rintro rfl
      exact hne (hi.consistent.stored c hc)
    · rintro ⟨hold, hne⟩
      apply unregisterDataChannel_of_ne ?_ hold
      intro hstored
      exact hne (hi.consistent.known token c hstored).2.symm

include hl in
theorem RunInv.step {maxTopicDepth : Nat} (hi : RunInv v sha256 h r) {e : RegistryEvent}
    {r' : Registry m} (hc : HandlerCall h e.op)
    (he : Registry.Exec maxTopicDepth sha256 r e.op e.resp r') :
    RunInv v sha256 (h ++ [e]) r' := by
  obtain ⟨o, res⟩ := e
  cases o with
  | registerClient login addr =>
    obtain ⟨draws, db', hdraws, rfl⟩ := he
    cases res with
    | ok client =>
      exact hi.registerClient login addr (ServerClientDB.registerClient_ok hl hdraws)
    | error error =>
      obtain ⟨hsame, hid⟩ := ServerClientDB.registerClient_error hl hdraws
      have hc := ServerClientDB.SameEntry.consistent hi.consistent hsame
      exact hi.subscribed (by exact trivial) (by exact trivial) hc (fun c => (hsame c).mem) hid
  | unregisterClient client =>
    obtain rfl : r' = _ := he
    exact hi.unregisterClient hl hc
  | subscribe topic client =>
    have hkeeps : KeepsClients ⟨.subscribe topic client, res⟩ := trivial
    have hkeeps' : KeepsChannels ⟨.subscribe topic client, res⟩ := trivial
    cases hs : r.db.subscribe maxTopicDepth topic client with
    | error error =>
      simp only [Registry.Exec, hs] at he
      rw [he.2]
      exact hi.unchanged hkeeps hkeeps'
    | ok db' =>
      simp only [Registry.Exec, hs] at he
      rw [he.2]
      exact hi.filters hkeeps hkeeps' (ServerClientDB.subscribe_only hl hs)
  | unsubscribe topic client =>
    have hkeeps : KeepsClients ⟨.unsubscribe topic client, res⟩ := trivial
    have hkeeps' : KeepsChannels ⟨.unsubscribe topic client, res⟩ := trivial
    cases hs : r.db.unsubscribe maxTopicDepth topic client with
    | error error =>
      simp only [Registry.Exec, hs] at he
      rw [he.2]
      exact hi.unchanged hkeeps hkeeps'
    | ok db' =>
      simp only [Registry.Exec, hs] at he
      rw [he.2]
      exact hi.filters hkeeps hkeeps' (ServerClientDB.unsubscribe_only hl hs)
  | registerDataChannel token ch =>
    obtain ⟨hres, rfl⟩ := he
    cases res with
    | ok client => exact hi.registerDataChannel token ch hres.symm
    | error error =>
      have hkeeps : KeepsClients ⟨.registerDataChannel token ch, .error error⟩ := trivial
      have hkeeps' : KeepsChannels ⟨.registerDataChannel token ch, .error error⟩ := trivial
      rw [registerDataChannel_error hres.symm]
      exact hi.unchanged hkeeps hkeeps'
  | unregisterDataChannel token =>
    obtain rfl : r' = _ := he
    exact hi.unregisterDataChannel token

include hl in
theorem runInv_new : RunInv v sha256 [] (Registry.new m) := by
  have hclients : (Registry.new m).db.clients v = ∅ := hl.clients_new
  refine ⟨ServerClientDB.consistent_new hl, ?_, ?_, ?_, ?_, ?_, ?_⟩
  · intro c
    rw [hclients]
    exact iff_of_false (Set.notMem_empty c) fun ⟨⟨_, _, hmem⟩, _⟩ => List.not_mem_nil hmem
  · intro c hmem
    exact absurd hmem List.not_mem_nil
  · rintro c ⟨_, _, hmem⟩
    exact absurd hmem List.not_mem_nil
  · intro c ch hch
    cases hch
  · rintro c ch ⟨_, _, _, heq, _⟩
    exact absurd heq.symm (List.append_ne_nil_of_right_ne_nil _ (List.cons_ne_nil _ _))
  · intro c hmem
    rw [hclients] at hmem
    exact absurd hmem (Set.notMem_empty c)

include hl in
theorem runInv_of_execs {maxTopicDepth : Nat} (hcalls : AsInHandlers h)
    (hexec : Registry.Execs maxTopicDepth sha256 (Registry.new m) h r) : RunInv v sha256 h r :=
  hexec.invariant (fun _ _ _ _ hi hc he => hi.step hl hc he) (runInv_new hl) hcalls

theorem execs_snoc {maxTopicDepth : Nat} {e : RegistryEvent} {r₀ : Registry m}
    (hcalls : AsInHandlers (h ++ [e]))
    (hexec : Registry.Execs maxTopicDepth sha256 r₀ (h ++ [e]) r) :
    ∃ r₁, AsInHandlers h ∧ Registry.Execs maxTopicDepth sha256 r₀ h r₁ ∧
      Registry.Exec maxTopicDepth sha256 r₁ e.op e.resp r := by
  obtain ⟨r₁, hbefore, hlast⟩ := hexec.split
  cases hlast with
  | cons he hnil =>
    cases hnil
    exact ⟨r₁, ((Monitor.accepts_append ..).mp hcalls).1, hbefore, he⟩

include hl in
theorem new_client {maxTopicDepth : Nat} {login addr : Str} {c : ServerClient}
    (hcalls : AsInHandlers (h ++ [⟨.registerClient login addr, .ok c⟩]))
    (hexec : Registry.Execs maxTopicDepth sha256 (Registry.new m)
      (h ++ [⟨.registerClient login addr, .ok c⟩]) r) :
    ¬ RegisteredIn h c ∧ r.db.filters v c = ∅ ∧ r.dataChannel c = none := by
  obtain ⟨r₁, hcalls₁, hexec₁, draws, db', hdraws, rfl⟩ := execs_snoc hcalls hexec
  have hi := runInv_of_execs hl hcalls₁ hexec₁
  have hreg := ServerClientDB.registerClient_ok hl hdraws
  have hnew : ¬ RegisteredIn h c := fun hold =>
    Nat.not_le_of_lt (hi.id_lt c hold) hreg.id_ge
  refine ⟨hnew, hreg.filters_self, ?_⟩
  apply Option.eq_none_iff_forall_ne_some.mpr
  intro ch hch
  exact hnew (hi.requested c ch hch)

include hl in
/-- Between two requests for one client that are both granted the channel was withdrawn. -/
theorem withdrawn_between {maxTopicDepth : Nat} {c : ServerClient} {token token' : Token}
    {ch ch' : ChannelId} {before between : List RegistryEvent}
    (hcalls : AsInHandlers (before ++ ⟨.registerDataChannel token ch, .ok c⟩ ::
      between ++ [⟨.registerDataChannel token' ch', .ok c⟩]))
    (hexec : Registry.Execs maxTopicDepth sha256 (Registry.new m)
      (before ++ ⟨.registerDataChannel token ch, .ok c⟩ ::
        between ++ [⟨.registerDataChannel token' ch', .ok c⟩]) r) :
    ⟨.unregisterDataChannel c.token, ()⟩ ∈ between := by
  obtain ⟨r₁, hcalls₁, hexec₁, hres, _⟩ := execs_snoc hcalls hexec
  have hi := runInv_of_execs hl hcalls₁ hexec₁
  obtain ⟨htoken, hnone, _⟩ := registerDataChannel_ok hres.symm
  have hmem := (hi.consistent.known token' c htoken).1
  by_contra hnot
  have hsome := (hi.channel c hmem ch).mpr ⟨before, token, between, rfl, hnot⟩
  rw [hnone] at hsome
  cases hsome

include hl in
/-- Over any sequence of calls in which clients are subscribed while they are registered and
unregistered once: the map knows exactly the clients of the token index, each under its own token,
no two with one token or one digest; a client has at most one data channel; and nothing yields a
client that was unregistered. -/
theorem registry_consistency {maxTopicDepth : Nat} (hcalls : AsInHandlers h)
    (hexec : Registry.Execs maxTopicDepth sha256 (Registry.new m) h r) :
    (∀ c, c ∈ r.db.clients v ↔ ∃ token, r.db.clientsByToken token = some c) ∧
    (∀ token c, r.db.clientsByToken token = some c → c.token = token) ∧
    (∀ c ∈ r.db.clients v, ∀ c' ∈ r.db.clients v, c ≠ c' →
      c.token ≠ c'.token ∧ c.digest ≠ c'.digest) ∧
    (∀ c ∈ r.db.clients v, ∀ ch, r.dataChannel c = some ch ↔ Granted h c ch) ∧
    (∀ c ∈ r.db.clients v, ∀ ch ch', r.dataChannel c = some ch →
      registerDataChannel r.db.clientsByToken r.dataChannel c.token ch' =
        (.error (.access "Data channel is already registered"), r.dataChannel)) ∧
    (∀ before between token token' ch ch' c,
      h = before ++ ⟨.registerDataChannel token ch, .ok c⟩ ::
        between ++ [⟨.registerDataChannel token' ch', .ok c⟩] →
      ⟨.unregisterDataChannel c.token, ()⟩ ∈ between) ∧
    (∀ c, UnregisteredIn h c → (∀ topic, c ∉ r.db.getSubscribers topic) ∧
      ∀ token ch,
        (registerDataChannel r.db.clientsByToken r.dataChannel token ch).1 ≠ .ok c) ∧
    ∀ before login addr c, h = before ++ [⟨.registerClient login addr, .ok c⟩] →
      ¬ RegisteredIn before c ∧ r.db.filters v c = ∅ ∧ r.dataChannel c = none := by
  have hi := runInv_of_execs hl hcalls hexec
  refine ⟨?_, ?_, ?_, hi.channel, ?_, ?_, ?_, ?_⟩
  · intro c
    constructor
    · intro hmem
      exact ⟨c.token, hi.consistent.stored c hmem⟩
    · rintro ⟨token, hstored⟩
      exact (hi.consistent.known token c hstored).1
  · intro token c hstored
    exact (hi.consistent.known token c hstored).2
  · intro c hmem c' hmem' hne
    constructor
    · intro htoken
      have hstored := hi.consistent.stored c hmem
      rw [htoken, hi.consistent.stored c' hmem'] at hstored
      exact hne (Option.some.inj hstored).symm
    · intro hdigest
      exact hne (hl.digest_inj _ _ _ hmem hmem' hdigest)
  · intro c hmem ch ch' hch
    simp only [registerDataChannel, hi.consistent.stored c hmem, hch, Option.isSome_some, if_true]
  · rintro before between token token' ch ch' c rfl
    exact withdrawn_between hl hcalls hexec
  · intro c hun
    have hgone : c ∉ r.db.clients v := fun hmem => ((hi.live c).mp hmem).2 hun
    constructor
    · intro topic hsub
      exact hgone (hl.mem_clients_of_getSubscribers _ _ _ hsub)
    · intro token ch hok
      exact hgone (hi.consistent.known token c (registerDataChannel_ok hok).1).1
  · rintro before login addr c rfl
    exact new_client hl hcalls hexec

end

section
variable {v : m.View} {sha256 : Token → Digest} (hl : m.RegistryLaws v) {h : List RegistryEvent}

def RegistryReaches (maxTopicDepth : Nat) (sha256 : Token → Digest) (h : List RegistryEvent)
    (db db' : ServerClientDB m) : Prop :=
  ∃ calls, (Monitor.history HandlerCall).Accepts h calls ∧
    ∀ cells, Registry.Execs maxTopicDepth sha256 ⟨db, cells⟩ calls ⟨db', cells⟩

theorem RegistryReaches.refl {maxTopicDepth : Nat} (db : ServerClientDB m) :
    RegistryReaches maxTopicDepth sha256 h db db := ⟨[], trivial, fun _ => .nil _⟩

theorem RegistryReaches.call {maxTopicDepth : Nat} {db db' db'' : ServerClientDB m} (o : RegistryOp)
    (res : o.Resp) (hc : HandlerCall h o)
    (he : ∀ cells, Registry.Exec maxTopicDepth sha256 ⟨db, cells⟩ o res ⟨db', cells⟩)
    (hrest : RegistryReaches maxTopicDepth sha256 (h ++ [⟨o, res⟩]) db' db'') :
    RegistryReaches maxTopicDepth sha256 h db db'' := by
  obtain ⟨calls, haccepts, hexec⟩ := hrest
  exact ⟨⟨o, res⟩ :: calls, ⟨hc, haccepts⟩, fun cells => .cons (he cells) (hexec cells)⟩

theorem registryReaches_subscribeTopics (maxTopicDepth : Nat) (acl : Acl) {client : ServerClient}
    (topics : List Str) (db : ServerClientDB m) (hlive : Live h client) :
    RegistryReaches maxTopicDepth sha256 h db
      (subscribeTopics maxTopicDepth acl client topics db).2 := by
  induction topics generalizing db h with
  | nil => exact .refl db
  | cons topic topics ih =>
    unfold subscribeTopics
    split_ifs
    · exact .refl db
    · cases hs : db.subscribe maxTopicDepth topic client with
      | error e => exact .refl db
      | ok db' =>
        have hcall : ∀ cells, Registry.Exec maxTopicDepth sha256 ⟨db, cells⟩
            (.subscribe topic client) (.ok ()) ⟨db', cells⟩ := by
          intro cells
          simp only [Registry.Exec, hs, true_and]
        have hnext : Live (h ++ [⟨.subscribe topic client, .ok ()⟩]) client :=
          (live_of_keeps (by exact trivial)).mpr hlive
        exact .call (.subscribe topic client) (.ok ()) hlive hcall (ih db' hnext)

theorem registryReaches_unsubscribeTopics (maxTopicDepth : Nat) (client : ServerClient)
    (topics : List Str) (db : ServerClientDB m) :
    RegistryReaches maxTopicDepth sha256 h db
      (unsubscribeTopics maxTopicDepth client topics db).2 := by
  induction topics generalizing db h with
  | nil => exact .refl db
  | cons topic topics ih =>
    unfold unsubscribeTopics
    cases hs : db.unsubscribe maxTopicDepth topic client with
    | error e => exact .refl db
    | ok db' =>
      have hcall : ∀ cells, Registry.Exec maxTopicDepth sha256 ⟨db, cells⟩
          (.unsubscribe topic client) (.ok ()) ⟨db', cells⟩ := by
        intro cells
        simp only [Registry.Exec, hs, true_and]
      exact .call (.unsubscribe topic client) (.ok ()) trivial hcall (ih db')

theorem registryReaches_exec {cfg : Config} {crypto : Crypto} {st st' : ServerState m} {o : ServerOp}
    {r : o.Resp}
    (hsubscribe : ∀ acl topics client, o = .subscribe acl topics client → Live h client)
    (hunregister : ∀ client, o = .unregisterClient client → Live h client)
    (he : ServerState.Exec cfg crypto sha256 st o r st') :
    RegistryReaches cfg.maxTopicDepth sha256 h st.db st'.db := by
  have hkeep : st' = st → RegistryReaches cfg.maxTopicDepth sha256 h st.db st'.db := by
    rintro rfl
    exact .refl _
  cases o with
  | registerClient login addr =>
    obtain ⟨draws, db', hdraws, rfl⟩ := he
    exact .call (.registerClient login addr) r trivial (fun cells => ⟨draws, db', hdraws, rfl⟩)
      (.refl _)
  | unregisterClient client =>
    obtain rfl : st' = _ := he
    refine .call (.unregisterClient client) () (hunregister client rfl) (fun cells => ?_) (.refl _)
    exact rfl
  | subscribe acl topics client =>
    obtain ⟨_, rfl⟩ := he
    exact registryReaches_subscribeTopics cfg.maxTopicDepth acl topics st.db (hsubscribe _ _ _ rfl)
  | unsubscribe topics client =>
    obtain ⟨_, rfl⟩ := he
    exact registryReaches_unsubscribeTopics cfg.maxTopicDepth client topics st.db
  | read => exact hkeep he.1
  | authenticate => exact hkeep he.1
  | getAcl => exact hkeep he.1
  | authAndDecr => exact hkeep he.1
  | getSubscribers => exact hkeep he.1
  | _ => exact hkeep he

include hl in
/-- What the server has done to its registry is such a sequence of calls. -/
theorem registryReaches_of_reachable {cfg : Config} {crypto : Crypto} {s : Server m}
    (hr : ServerReachable cfg crypto sha256 s) :
    RegistryReaches cfg.maxTopicDepth sha256 [] (ServerClientDB.new m) s.world.db := by
  induction hr with
  | init hstart =>
    rw [hstart]
    exact .refl _
  | step hr hs ih =>
    cases hs with
    | spawn i peer hnone => exact ih
    | env w hreload =>
      rw [hreload]
      exact ih
    | act i peer o f r w hp he =>
      obtain ⟨h, hcalls, hexec⟩ := ih
      have hi := runInv_of_execs hl hcalls (hexec fun _ => none)
      have hlive : ∀ {client}, clientOf o = some client → Live h client := fun ho =>
        (hi.live _).mp (mem_clients_of_serving hl hr hp ho)
      obtain ⟨calls, hmore, hstep⟩ := registryReaches_exec (h := h)
        (by
          rintro acl topics client rfl
          exact hlive rfl)
        (by
          rintro client rfl
          exact hlive rfl) he
      refine ⟨h ++ calls, (Monitor.accepts_append ..).mpr ⟨hcalls, ?_⟩, fun cells => ?_⟩
      · rwa [Monitor.history_after]
      · exact (hexec cells).append (hstep cells)

end

def sameTokenClient : ServerClient := { lostClient with id := 1 }

def sampleCalls : List RegistryEvent :=
  [⟨.registerClient [] [], .ok lostClient⟩, ⟨.subscribe ['a'] lostClient, .ok ()⟩,
    ⟨.registerDataChannel lostClient.token 5, .ok lostClient⟩,
    ⟨.registerDataChannel lostClient.token 6,
      .error (.access "Data channel is already registered")⟩,
    ⟨.unregisterClient lostClient, ()⟩, ⟨.registerClient [] [], .ok sameTokenClient⟩]

theorem execs_sampleCalls : ∃ r : Registry listMap,
    Registry.Execs 10 Token.bytes (Registry.new listMap) sampleCalls r := by
  have hprepared : prepareTopic 10 ['a'] = .ok ['a'] :=
    prepareTopic_of_simple (by decide) (by decide) (by decide)
  have hsubscribe : ∀ r : Registry listMap, Registry.Exec 10 Token.bytes r
      (.subscribe ['a'] lostClient) (.ok ())
      { r with db := { r.db with submap := listMap.subscribe r.db.submap ['a'] lostClient } } := by
    intro r
    simp only [Registry.Exec, ServerClientDB.subscribe, hprepared, true_and]
  have hregister : Registry.Exec 10 Token.bytes (Registry.new listMap) (.registerClient [] [])
      (.ok lostClient) ⟨lostServer.db, fun _ => none⟩ := ⟨[.ok lostClient.token], _, rfl, rfl⟩
  exact ⟨_, .cons hregister (.cons (hsubscribe _) (.cons ⟨rfl, rfl⟩ (.cons ⟨rfl, rfl⟩
    (.cons rfl (.cons ⟨[.ok lostClient.token], _, rfl, rfl⟩ (.nil _))))))⟩

theorem sampleCalls_asInHandlers : AsInHandlers sampleCalls := by
  have hlive : ∀ h : List RegistryEvent, ⟨.registerClient [] [], .ok lostClient⟩ ∈ h →
      ¬ UnregisteredIn h lostClient → Live h lostClient :=
    fun h hmem hnot => ⟨⟨[], [], hmem⟩, hnot⟩
  refine ⟨trivial, hlive _ (List.mem_cons_self ..) ?_, trivial, trivial,
    hlive _ (List.mem_cons_self ..) ?_, trivial, trivial⟩
  · simp [UnregisteredIn, Monitor.history]
  · simp [UnregisteredIn, Monitor.history]

theorem registry_consistency_sample : ∃ r : Registry listMap,
    Registry.Execs 10 Token.bytes (Registry.new listMap) sampleCalls r ∧
      (∀ topic, lostClient ∉ r.db.getSubscribers topic) ∧ r.dataChannel sameTokenClient = none := by
  obtain ⟨r, hexec⟩ := execs_sampleCalls
  obtain ⟨_, _, _, _, _, _, hgone, hnew⟩ :=
    registry_consistency listMap_laws.toRegistryLaws sampleCalls_asInHandlers hexec
  refine ⟨r, hexec, (hgone lostClient ?_).1, ?_⟩
  · exact List.mem_of_mem_drop (i := 4) (List.mem_cons_self ..)
  · exact (hnew (sampleCalls.take 5) [] [] sameTokenClient rfl).2.2

end Psrt

import Psrt.Server.Topic
import Mathlib.Data.Set.Insert
import Mathlib.Logic.Function.Basic

/-! The client registry of `pubsub.rs`: `ServerClientDB` over the `submap` crate. -/

namespace Psrt
open Wire

structure Token where
  bytes : Bytes
  length_eq : bytes.length = 32
  deriving DecidableEq, Repr

def Token.replicate (octet : UInt8) : Token := ⟨List.replicate 32 octet, List.length_replicate⟩

abbrev Digest := Bytes

/-- The immutable part of `ServerClientData`. The number `id` is the identity of the shared
allocation; equality and order of clients in the registry go by `digest`. -/
structure ServerClient where
  id : Nat
  login : Str
  addr : Str
  token : Token
  digest : Digest
  deriving DecidableEq, Repr

abbrev ChannelId := Nat

/-- A subscription filter against a topic, chunk by chunk: `+` matches any one chunk and `#` any
non-empty remainder. -/
def matchesFilter : List Str → List Str → Bool
  | [], [] => true
  | [], _ :: _ => false
  | _ :: _, [] => false
  | f :: fs, t :: ts => f == ['#'] || ((f == ['+'] || f == t) && matchesFilter fs ts)

/-- The operations the registry uses of the crate's `SubMap`. -/
structure SubMap where
  State : Type
  new : State
  registerClient : State → ServerClient → State × Bool
  unregisterClient : State → ServerClient → State
  subscribe : State → Str → ServerClient → State
  unsubscribe : State → Str → ServerClient → State
  getSubscribers : State → Str → List ServerClient

structure SubMap.View (m : SubMap) where
  clients : m.State → Set ServerClient
  filters : m.State → Digest → Set Str

def SubMap.View.Known {m : SubMap} (v : m.View) (s : m.State) (c : ServerClient) : Prop :=
  ∃ c' ∈ v.clients s, c'.digest = c.digest

/-- What the bookkeeping of clients relies on: who is registered, and whose filters an operation may
touch. -/
structure SubMap.RegistryLaws (m : SubMap) (v : m.View) : Prop where
  clients_new : v.clients m.new = ∅
  digest_inj : ∀ s c c', c ∈ v.clients s → c' ∈ v.clients s → c.digest = c'.digest → c = c'
  register_known : ∀ s c, v.Known s c → (m.registerClient s c).2 = false ∧
    v.clients (m.registerClient s c).1 = v.clients s ∧
    v.filters (m.registerClient s c).1 = v.filters s
  register_new : ∀ s c, ¬ v.Known s c → (m.registerClient s c).2 = true ∧
    v.clients (m.registerClient s c).1 = insert c (v.clients s) ∧
    v.filters (m.registerClient s c).1 = Function.update (v.filters s) c.digest ∅
  clients_unregister : ∀ s c,
    v.clients (m.unregisterClient s c) = {c' ∈ v.clients s | c'.digest ≠ c.digest}
  filters_unregister : ∀ s c d, d ≠ c.digest →
    v.filters (m.unregisterClient s c) d = v.filters s d
  clients_subscribe : ∀ s t c, v.clients (m.subscribe s t c) = v.clients s
  filters_subscribe_of_ne : ∀ s t c d, d ≠ c.digest →
    v.filters (m.subscribe s t c) d = v.filters s d
  clients_unsubscribe : ∀ s t c, v.clients (m.unsubscribe s t c) = v.clients s
  filters_unsubscribe_of_ne : ∀ s t c d, d ≠ c.digest →
    v.filters (m.unsubscribe s t c) d = v.filters s d
  mem_clients_of_getSubscribers : ∀ s t c, c ∈ m.getSubscribers s t → c ∈ v.clients s

/-- Also what a subscription adds. -/
structure SubMap.SubscribeLaws (m : SubMap) (v : m.View) : Prop extends m.RegistryLaws v where
  filters_subscribe : ∀ s t c, v.Known s c →
    v.filters (m.subscribe s t c) c.digest = insert t (v.filters s c.digest)

/-- Also what ends one, and whom a topic reaches. -/
structure SubMap.Laws (m : SubMap) (v : m.View) : Prop extends m.SubscribeLaws v where
  filters_unsubscribe : ∀ s t c,
    v.filters (m.unsubscribe s t c) c.digest = v.filters s c.digest \ {t}
  mem_getSubscribers : ∀ s t c, c ∈ v.clients s → (c ∈ m.getSubscribers s t ↔
    ∃ f ∈ v.filters s c.digest, matchesFilter (f.splitOn '/') (t.splitOn '/') = true)

theorem SubMap.Laws.mem_getSubscribers_iff {m : SubMap} {v : m.View} (hl : m.Laws v) (s : m.State)
    (t : Str) (c : ServerClient) : c ∈ m.getSubscribers s t ↔ c ∈ v.clients s ∧
      ∃ f ∈ v.filters s c.digest, matchesFilter (f.splitOn '/') (t.splitOn '/') = true := by
  constructor
  · intro h
    have hmem := hl.mem_clients_of_getSubscribers s t c h
    exact ⟨hmem, (hl.mem_getSubscribers s t c hmem).mp h⟩
  · rintro ⟨hmem, h⟩
    exact (hl.mem_getSubscribers s t c hmem).mpr h

structure ServerClientDB (m : SubMap) where
  submap : m.State
  clientsByToken : Token → Option ServerClient
  nextId : Nat

namespace ServerClientDB

variable {m : SubMap}

def new (m : SubMap) : ServerClientDB m := ⟨m.new, fun _ => none, 0⟩

/-- `register_client`: draw tokens until the map takes the client. The list is what the random
generator gives; none is returned while every token drawn was taken. -/
def registerClient (sha256 : Token → Digest) (db : ServerClientDB m) (login addr : Str) :
    List (Except Error Token) → Option (Except Error ServerClient × ServerClientDB m)
  | [] => none
  | .error e :: _ => some (.error e, db)
  | .ok token :: draws =>
    let client : ServerClient := ⟨db.nextId, login, addr, token, sha256 token⟩
    let r := m.registerClient db.submap client
    if r.2 then
      some (.ok client,
        { submap := r.1
          clientsByToken := Function.update db.clientsByToken token (some client)
          nextId := db.nextId + 1 })
    else registerClient sha256 { db with submap := r.1, nextId := db.nextId + 1 } login addr draws

def unregisterClient (db : ServerClientDB m) (client : ServerClient) : ServerClientDB m :=
  { db with
    submap := m.unregisterClient db.submap client
    clientsByToken := Function.update db.clientsByToken client.token none }

def subscribe (maxTopicDepth : Nat) (db : ServerClientDB m) (topic : Str)
    (client : ServerClient) : Except Error (ServerClientDB m) :=
  match prepareTopic maxTopicDepth topic with
  | .error e => .error e
  | .ok t => .ok { db with submap := m.subscribe db.submap t client }

def unsubscribe (maxTopicDepth : Nat) (db : ServerClientDB m) (topic : Str)
    (client : ServerClient) : Except Error (ServerClientDB m) :=
  match prepareTopic maxTopicDepth topic with
  | .error e => .error e
  | .ok t => .ok { db with submap := m.unsubscribe db.submap t client }

def getSubscribers (db : ServerClientDB m) (topic : Str) : List ServerClient :=
  m.getSubscribers db.submap topic

end ServerClientDB

/-- `register_data_channel`; `dataChannel` holds each client's `data_channel` cell. -/
def registerDataChannel (clientsByToken : Token → Option ServerClient)
    (dataChannel : ServerClient → Option ChannelId) (token : Token) (channel : ChannelId) :
    Except Error ServerClient × (ServerClient → Option ChannelId) :=
  match clientsByToken token with
  | some client =>
    if (dataChannel client).isSome then
      (.error (.access "Data channel is already registered"), dataChannel)
    else (.ok client, Function.update dataChannel client (some channel))
  | none => (.error (.access "data channel access denied"), dataChannel)

def unregisterDataChannel (clientsByToken : Token → Option ServerClient)
    (dataChannel : ServerClient → Option ChannelId) (token : Token) :
    ServerClient → Option ChannelId :=
  match clientsByToken token with
  | some client => Function.update dataChannel client none
  | none => dataChannel

theorem registerDataChannel_ok {clientsByToken : Token → Option ServerClient}
    {dataChannel : ServerClient → Option ChannelId} {token : Token} {channel : ChannelId}
    {client : ServerClient}
    (h : (registerDataChannel clientsByToken dataChannel token channel).1 = .ok client) :
    clientsByToken token = some client ∧ dataChannel client = none ∧
      (registerDataChannel clientsByToken dataChannel token channel).2 =
        Function.update dataChannel client (some channel) := by
  unfold registerDataChannel at h ⊢
  cases hc : clientsByToken token with
  | none =>
    rw [hc] at h
    cases h
  | some c =>
    rw [hc] at h
    dsimp only at h ⊢
    split_ifs at h ⊢ with hsome
    obtain rfl := Except.ok.inj h
    exact ⟨rfl, Option.not_isSome_iff_eq_none.mp hsome, rfl⟩

theorem unregisterDataChannel_of_some {clientsByToken : Token → Option ServerClient}
    {dataChannel : ServerClient → Option ChannelId} {token : Token} {channel : ChannelId}
    {client : ServerClient}
    (h : unregisterDataChannel clientsByToken dataChannel token client = some channel) :
    dataChannel client = some channel ∧ clientsByToken token ≠ some client := by
  unfold unregisterDataChannel at h
  cases hc : clientsByToken token with
  | none =>
    rw [hc] at h
    exact ⟨h, nofun⟩
  | some c =>
    rw [hc] at h
    dsimp only at h
    by_cases hne : client = c
    · rw [hne, Function.update_self] at h
      cases h
    · rw [Function.update_of_ne hne] at h
      exact ⟨h, fun hcc => hne (Option.some.inj hcc).symm⟩

theorem registerDataChannel_error {clientsByToken : Token → Option ServerClient}
    {dataChannel : ServerClient → Option ChannelId} {token : Token} {channel : ChannelId} {e : Error}
    (h : (registerDataChannel clientsByToken dataChannel token channel).1 = .error e) :
    (registerDataChannel clientsByToken dataChannel token channel).2 = dataChannel := by
  unfold registerDataChannel at h ⊢
  cases hc : clientsByToken token with
  | none => rfl
  | some c =>
    rw [hc] at h
    dsimp only at h ⊢
    split_ifs at h ⊢
    rfl

theorem registerDataChannel_of_some {clientsByToken : Token → Option ServerClient}
    {dataChannel : ServerClient → Option ChannelId} {token : Token} {channel ch : ChannelId}
    {client : ServerClient} (h : dataChannel client = some ch) :
    (registerDataChannel clientsByToken dataChannel token channel).2 client = some ch := by
  unfold registerDataChannel
  cases hc : clientsByToken token with
  | none => exact h
  | some c =>
    dsimp only
    split_ifs with hsome
    · exact h
    · have hne : client ≠ c := by
        rintro rfl
        rw [h] at hsome
        exact hsome rfl
      exact (Function.update_of_ne hne ..).trans h

theorem unregisterDataChannel_of_ne {clientsByToken : Token → Option ServerClient}
    {dataChannel : ServerClient → Option ChannelId} {token : Token} {ch : ChannelId}
    {client : ServerClient} (hne : clientsByToken token ≠ some client)
    (h : dataChannel client = some ch) :
    unregisterDataChannel clientsByToken dataChannel token client = some ch := by
  unfold unregisterDataChannel
  cases hc : clientsByToken token with
  | none => exact h
  | some c =>
    have hcc : client ≠ c := by
      rintro rfl
      exact hne hc
    exact (Function.update_of_ne hcc ..).trans h

end Psrt

import Psrt.Server.ListMap
import Psrt.Server.Udp

/-! The state the handlers share, and how it answers their operations. -/

namespace Psrt
open Wire Interaction

structure ServerState (m : SubMap) where
  db : ServerClientDB m
  acls : AclDb
  passwords : Passwords
  keys : Keys

namespace ServerState

variable {m : SubMap}

/-- Performing an operation in state `st` may answer `r` and leave `st'`. What the peer sends, the
outcome of input and output, the clock and the random generator are not determined; the data channel
of a client is not part of this state. -/
def Exec (cfg : Config) (crypto : Crypto) (sha256 : Token → Digest) (st : ServerState m) :
    (o : ServerOp) → o.Resp → ServerState m → Prop
  | .read n, r, st' => st' = st ∧ ∀ b, r = .ok b → b.length = n
  | .write _, _, st' => st' = st
  | .acceptTls, _, st' => st' = st
  | .nowNs, _, st' => st' = st
  | .authenticate login password, r, st' =>
    st' = st ∧ r = st.passwords.verify crypto login password
  | .getAcl login, r, st' => st' = st ∧ r = st.acls.getAcl login
  | .authAndDecr block keyId tp, r, st' =>
    st' = st ∧ st.keys.authAndDecr crypto block keyId tp = some r
  | .registerClient login addr, r, st' =>
    ∃ draws db', st.db.registerClient sha256 login addr draws = some (r, db') ∧
      st' = { st with db := db' }
  | .unregisterClient client, _, st' => st' = { st with db := st.db.unregisterClient client }
  | .abortTasks _, _, st' => st' = st
  | .subscribe acl topics client, r, st' =>
    r = (subscribeTopics cfg.maxTopicDepth acl client topics st.db).1 ∧
      st' = { st with db := (subscribeTopics cfg.maxTopicDepth acl client topics st.db).2 }
  | .unsubscribe topics client, r, st' =>
    r = (unsubscribeTopics cfg.maxTopicDepth client topics st.db).1 ∧
      st' = { st with db := (unsubscribeTopics cfg.maxTopicDepth client topics st.db).2 }
  | .getSubscribers topic, r, st' => st' = st ∧ r = st.db.getSubscribers topic
  | .pushToSubscribers .., _, st' => st' = st
  | .replicationPush .., _, st' => st' = st
  | .launchDataStream, _, st' => st' = st
  | .sendTo _, _, st' => st' = st

/-- The answers to a publish while nobody else changes the databases: the peer's octets are
`input`, and writes succeed. Operations no publish calls answer with an error. -/
def answer (st : ServerState m) (crypto : Crypto) (now : UInt64) (input : Bytes) :
    (o : ServerOp) → o.Resp × Bytes
  | .read n => takeBytes n input
  | .write _ => (.ok (), input)
  | .acceptTls => (.error (.io "not called"), input)
  | .nowNs => (now, input)
  | .authenticate login password => (st.passwords.verify crypto login password, input)
  | .getAcl login => (st.acls.getAcl login, input)
  | .authAndDecr block keyId tp =>
    ((st.keys.authAndDecr crypto block keyId tp).getD (.error (.internal "panic")), input)
  | .registerClient _ _ => (.error (.io "not called"), input)
  | .unregisterClient _ => ((), input)
  | .abortTasks _ => ((), input)
  | .subscribe _ _ _ => (responseErr, input)
  | .unsubscribe _ _ => (false, input)
  | .getSubscribers topic => (st.db.getSubscribers topic, input)
  | .pushToSubscribers .. => ((), input)
  | .replicationPush .. => ((), input)
  | .launchDataStream => (.error (.io "not called"), input)
  | .sendTo _ => (.ok (), input)

end ServerState

structure Push where
  subscribers : List ServerClient
  priority : UInt8
  topic : Str
  message : Bytes
  deriving DecidableEq, Repr

def pushOf (e : ServerEvent) : Option Push :=
  match e.op with
  | .pushToSubscribers subscribers priority topic message _ =>
    some ⟨subscribers, priority, topic, message⟩
  | _ => none

theorem eq_of_pushOf {e : ServerEvent} {p : Push} (h : pushOf e = some p) :
    ∃ timestamp, e =
      ⟨.pushToSubscribers p.subscribers p.priority p.topic p.message timestamp, ()⟩ := by
  obtain ⟨o, r⟩ := e
  cases o with
  | pushToSubscribers subscribers priority topic message timestamp =>
    obtain rfl := Option.some.inj h
    exact ⟨timestamp, rfl⟩
  | _ => cases h

def pushes (h : List ServerEvent) : List Push := h.filterMap pushOf

def sampleClient : ServerClient where
  id := 0
  login := ['a', 'l', 'i', 'c', 'e']
  addr := []
  token := Token.replicate 0
  digest := [1]

def sampleState : ServerState listMap where
  db :=
    { submap := ⟨[(sampleClient, [['a']])], List.pairwise_singleton ..⟩
      clientsByToken := Function.update (fun _ => none) sampleClient.token (some sampleClient)
      nextId := 1 }
  acls := fun _ => some Acl.newFull
  passwords := none
  keys := none

def sampleConfig : Config where
  allowAnonymous := true
  maxPubSize := 1024
  maxTopicLength := 1024
  maxTopicDepth := 10
  cluster := false

def sampleCrypto : Crypto where
  bcryptVerify password hash := password == hash
  encryptAead _ _ _ _ := none
  decryptAead _ _ _ _ _ := none

end Psrt

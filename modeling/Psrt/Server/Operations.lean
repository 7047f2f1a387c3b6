import Psrt.Protocol.Stream
import Psrt.Server.Registry
import Psrt.Server.Auth

/-! The operations the connection handlers call, and the stream helpers of `comm.rs`. -/

namespace Psrt
open Wire Interaction

structure Config where
  allowAnonymous : Bool
  maxPubSize : Nat
  maxTopicLength : Nat
  maxTopicDepth : Nat
  cluster : Bool

/-- Operations of a handler. Those on the registry run under its lock, so each is one atomic step;
`subscribe` and `unsubscribe` are the loops over a frame's topics. -/
inductive ServerOp where
  | read (n : Nat)
  | write (buf : Bytes)
  | acceptTls
  | nowNs
  | authenticate (login password : Str)
  | getAcl (login : Str)
  | authAndDecr (block : Bytes) (keyId : Str) (tp : EncryptionType)
  | registerClient (login addr : Str)
  | unregisterClient (client : ServerClient)
  | abortTasks (client : ServerClient)
  | subscribe (acl : Acl) (topics : List Str) (client : ServerClient)
  | unsubscribe (topics : List Str) (client : ServerClient)
  | getSubscribers (topic : Str)
  | pushToSubscribers (subscribers : List ServerClient) (priority : UInt8) (topic : Str)
      (message : Bytes) (timestamp : UInt64)
  | replicationPush (priority : UInt8) (topic : Str) (message : Bytes) (timestamp : UInt64)
  | launchDataStream
  | sendTo (buf : Bytes)

abbrev ServerOp.Resp : ServerOp → Type
  | read _ => Except Error Bytes
  | write _ => Except Error Unit
  | acceptTls => Except Error Unit
  | nowNs => UInt64
  | authenticate _ _ => Bool
  | getAcl _ => Option Acl
  | authAndDecr _ _ _ => Except Error Bytes
  | registerClient _ _ => Except Error ServerClient
  | unregisterClient _ => Unit
  | abortTasks _ => Unit
  | subscribe _ _ _ => UInt8
  | unsubscribe _ _ => Bool
  | getSubscribers _ => List ServerClient
  | pushToSubscribers _ _ _ _ _ => Unit
  | replicationPush _ _ _ _ => Unit
  | launchDataStream => Except Error Unit
  | sendTo _ => Except Error Unit

abbrev ServerProg (ε α : Type) := Prog ServerOp ServerOp.Resp ε α

abbrev ServerEvent := Event ServerOp ServerOp.Resp

abbrev perform {ε : Type} (o : ServerOp) : ServerProg ε o.Resp := Prog.op o

/-- `read_with_timeout`: exactly `n` octets, or an error. -/
def readExact (n : Nat) : ServerProg Error Bytes := .call (.read n) .ofExcept

def writeAll (buf : Bytes) : ServerProg Error Unit := .call (.write buf) .ofExcept

def readFrame (maxLength : Option Nat) : ServerProg Error Bytes :=
  readFrameWith readExact maxLength

/-- The push of a publish path: nothing is pushed when nobody subscribed. -/
def pushIfAny {ε : Type} (subscribers : List ServerClient) (priority : UInt8) (topic : Str)
    (message : Bytes) (timestamp : UInt64) : ServerProg ε Unit :=
  if subscribers.isEmpty then .ret ()
  else perform (.pushToSubscribers subscribers priority topic message timestamp)

/-- `psrt::replication::push`, in a cluster build. -/
def replicate {ε : Type} (cfg : Config) (priority : UInt8) (topic : Str) (message : Bytes)
    (timestamp : UInt64) : ServerProg ε Unit :=
  if cfg.cluster then perform (.replicationPush priority topic message timestamp) else .ret ()

end Psrt

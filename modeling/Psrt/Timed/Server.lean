import Psrt.Handshake.Server
import Psrt.Lib.Clock

/-! The stream handlers with their clock: `SStream` of `comm.rs`, and the handlers of `server.rs` with the
timeout of every read and write. Durations and instants are in nanoseconds. -/

namespace Psrt.Timed
open Wire Interaction ClockProg

abbrev TimedProg (α : Type) := ClockProg HandlerOp HandlerOp.Resp Error α

abbrev TimedEvent := ClockEvent HandlerOp HandlerOp.Resp

def readWithTimeout (n timeout : Nat) : TimedProg Bytes :=
  (within (some timeout) (.server (.read n))).bind .ofExcept

def writeWithTimeout (buf : Bytes) (timeout : Nat) : TimedProg Unit :=
  (within (some timeout) (.server (.write buf))).bind .ofExcept

def readFrameWithTimeout (maxLength : Option Nat) (timeout : Nat) : TimedProg Bytes := do
  let opStart ← now
  let lenBuf ← readWithTimeout 4 timeout
  let len := leNat lenBuf
  if maxLength.any (len > ·) then .throw (.invalidData s!"Frame too long ({len})")
  else do
    let limit ← reduceTimeout timeout opStart
    readWithTimeout len limit

/-- `read` and `write` of `SStream` give up after the timeout of the stream. Other operations have no
limit, the acceptance of a TLS connection among them. -/
def ownTimeout (timeout : Nat) : HandlerOp → Option Nat
  | .server (.read _) => some timeout
  | .server (.write _) => some timeout
  | _ => none

def own {α : Type} (timeout : Nat) (p : ServerProg Error α) : TimedProg α :=
  limited (ownTimeout timeout) (p.rename asHandler)

def readArm (cfg : Config) (timeout opStart : Nat) (op : UInt8) : TimedProg Request :=
  if op = opNop then .ret .nop
  else if op = opSubscribe then do
    let limit ← reduceTimeout timeout opStart
    let data ← readFrameWithTimeout (some cfg.maxTopicLength) limit
    .ret (.subscribe data)
  else if op = opUnsubscribe then do
    let limit ← reduceTimeout timeout opStart
    let data ← readFrameWithTimeout (some cfg.maxTopicLength) limit
    .ret (.unsubscribe data)
  else if op = opPublish then do
    let timestamp ← own timeout (perform .nowNs)
    let limit ← reduceTimeout timeout opStart
    let prio ← readWithTimeout 1 limit
    let limit ← reduceTimeout timeout opStart
    let buf ← readFrameWithTimeout (some cfg.maxPubSize) limit
    .ret (.publish timestamp (prio.headD defaultPriority) buf)
  else if op = opPublishRepl then
    if cfg.cluster then do
      let limit ← reduceTimeout timeout opStart
      let topicData ← readFrameWithTimeout (some cfg.maxTopicLength) limit
      .ret (.publishRepl topicData)
    else .throw (.invalidData "Unsupported operation: OP_PUBLISH_REPL")
  else if op = opBye then .ret .bye
  else .throw (.invalidData s!"Invalid operation: {op}")

def handlePublishRepl (acl : Acl) (cfg : Config) (timeout opStart : Nat) (topicData : Bytes) :
    TimedProg Unit := do
  let topic ← .ofExcept (strFromUtf8 topicData)
  if acl.isReplicator then do
    let subscribers ← own timeout (perform (.getSubscribers topic))
    if subscribers.isEmpty then own timeout (writeAll [responseNotRequired])
    else do
      own timeout (writeAll [responseOkWaiting])
      -- what follows has the rest of the timeout, although the peer was just asked for it
      let limit ← reduceTimeout timeout opStart
      let prio ← readWithTimeout 1 limit
      let limit ← reduceTimeout timeout opStart
      let tsBuf ← readWithTimeout 8 limit
      let limit ← reduceTimeout timeout opStart
      let data ← readFrameWithTimeout (some cfg.maxPubSize) limit
      own timeout (perform (.pushToSubscribers subscribers (prio.headD defaultPriority) topic data
        (UInt64.ofNat (leNat tsBuf))))
      own timeout (writeAll [responseOk])
  else own timeout (writeAll [responseErrAccess])

def handleRequest (cfg : Config) (client : ServerClient) (acl : Acl) (timeout opStart : Nat) :
    Request → TimedProg (Option Unit)
  | .publishRepl topicData => do
    handlePublishRepl acl cfg timeout opStart topicData
    .ret none
  | request => own timeout (Psrt.handleRequest cfg client acl request)

/-- One turn of `process_control`; the timeout of a command starts before its first octet is there. -/
def processCommand (cfg : Config) (client : ServerClient) (acl : Acl) (timeout : Nat) :
    TimedProg (Option Unit) := do
  let opStart ← now
  let cmd ← readWithTimeout 1 timeout
  let request ← readArm cfg timeout opStart (cmd.headD 0)
  handleRequest cfg client acl timeout opStart request

def processControl (cfg : Config) (client : ServerClient) (acl : Acl) (timeout turns : Nat) :
    TimedProg Unit := Prog.loop (processCommand cfg client acl timeout) turns

def serveClient (cfg : Config) (acl : Acl) (login addr : Str) (timeout turns : Nat) :
    TimedProg Bool := do
  let client ← .ofExcept (← own timeout (perform (.registerClient login addr)))
  own timeout (writeAll client.token.bytes)
  let result ← (processControl cfg client acl timeout turns).attempt
  own timeout (perform (.unregisterClient client))
  own timeout (perform (.abortTasks client))
  .ofExcept (result.map fun _ => true)

/-- The two reads share the timeout. -/
def launchDataStream (timeout : Nat) : TimedProg Unit := do
  let opStart ← now
  let buf ← readWithTimeout 32 timeout
  let token := Token.from buf
  let limit ← reduceTimeout timeout opStart
  let octet ← readWithTimeout 1 limit
  let channel ← within none HandlerOp.newChannel
  match ← within none (HandlerOp.registerDataChannel token channel) with
  | .ok client => limited (ownTimeout timeout) (startDataTasks token channel client (octet.headD 0))
  | .error e => do
    own timeout (writeAll [responseErr])
    .throw e

def unixControl (cfg : Config) (path : Str) (timeout turns : Nat) : TimedProg Bool := do
  let frame ← readFrameWithTimeout (some maxAuthFrameSize) timeout
  let login ← .ofExcept (strFromUtf8 (splitFirst 0 frame).1)
  serveClient cfg Acl.newFull login path timeout turns

def handleUnixStream (cfg : Config) (path : Str) (timeout turns : Nat) : TimedProg Bool := do
  let st ← own timeout initUnixStream
  if st = .data then do
    launchDataStream timeout
    .ret false
  else unixControl cfg path timeout turns

def tcpControl (cfg : Config) (addr : Str) (timeout turns : Nat) : TimedProg Bool := do
  let frame ← readFrameWithTimeout (some maxAuthFrameSize) timeout
  let login ← .ofExcept (strFromUtf8 (splitFirst 0 frame).1)
  match (splitFirst 0 frame).2 with
  | none => .throw (.invalidData errInvalidDataBlock)
  | some rest => do
    let password ← .ofExcept (strFromUtf8 rest)
    own timeout (authenticateTcp cfg login password addr)
    match ← own timeout (perform (.getAcl login)) with
    | none => .throw (.access s!"No ACL for {formatLogin login}")
    | some acl => serveClient cfg acl login addr timeout turns

def handleTcpStream (cfg : Config) (addr : Str) (tlsConfigured allowNoTls : Bool)
    (timeout turns : Nat) : TimedProg Bool := do
  let st ← own timeout (initTcpStream tlsConfigured allowNoTls)
  if st = .data then do
    launchDataStream timeout
    .ret false
  else tcpControl cfg addr timeout turns

def connection (cfg : Config) (timeout : Nat) : Peer → TimedProg Bool
  | .tcp addr tlsConfigured allowNoTls turns =>
    handleTcpStream cfg addr tlsConfigured allowNoTls timeout turns
  | .unix path turns => handleUnixStream cfg path timeout turns
  | .udp frame => limited (ownTimeout timeout) ((Peer.udp frame).connection cfg)

end Psrt.Timed

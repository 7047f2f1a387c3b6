import Psrt.Client.Control
import Psrt.Protocol.Stream

/-! How a client connects: `Client::connect` of `client.rs`, up to the start of its tasks. -/

namespace Psrt.Client
open Wire Interaction

/-- The configuration; durations are in nanoseconds. -/
structure Config where
  path : Str
  user : Str
  password : Str
  timeout : Nat
  socketWaitTimeout : Nat
  tls : Bool
  tlsCa : Option Str
  needDataStream : Bool

def isUnixSocket (path : Str) : Bool :=
  ['.', 's', 'o', 'c', 'k'].isSuffixOf path || ['.', 's', 'o', 'c', 'k', 'e', 't'].isSuffixOf path

/-- `rsplitn(2, ':').last()`: what stands before the last colon, or all of a path without one. -/
def pathDomain (path : Str) : Str :=
  match splitFirst ':' path.reverse with
  | (_, some domain) => domain.reverse
  | (_, none) => path

inductive Link where
  | control | data
  deriving DecidableEq, Repr

inductive ConnectOp where
  /-- `Certificate::from_pem` and `add_root_certificate`. -/
  | addRootCertificate (ca : Bytes)
  | pathExists
  | sleep (duration : Nat)
  /-- `op_start.elapsed()`. -/
  | elapsed
  | connectUnix (link : Link) (path : Str)
  | connectTcp (link : Link) (path : Str)
  | setNodelay (link : Link)
  | buildConnector
  | connectTls (link : Link) (domain : Str)
  | write (link : Link) (buf : Bytes)
  | read (link : Link) (n : Nat)

abbrev ConnectOp.Resp : ConnectOp → Type
  | addRootCertificate _ => Except Error Unit
  | pathExists => Bool
  | sleep _ => Unit
  | elapsed => Nat
  | connectUnix _ _ => Except Error Unit
  | connectTcp _ _ => Except Error Unit
  | setNodelay _ => Except Error Unit
  | buildConnector => Except Error Unit
  | connectTls _ _ => Except Error Unit
  | write _ _ => Except Error Unit
  | read _ _ => Except Error Bytes

abbrev ConnectProg (α : Type) := Prog ConnectOp ConnectOp.Resp Error α

abbrev ConnectEvent := Event ConnectOp ConnectOp.Resp

def write (link : Link) (buf : Bytes) : ConnectProg Unit := .call (.write link buf) .ofExcept

def read (link : Link) (n : Nat) : ConnectProg Bytes := .call (.read link n) .ofExcept

def Link.header : Link → Bytes
  | control => controlHeader
  | data => dataHeader

def Link.headerError : Link → String
  | control => "Invalid control header"
  | data => "Invalid data header"

/-- A turn of the loop that waits for the socket to appear. -/
def waitSocketTurn (config : Config) : ConnectProg (Option Unit) := do
  let found ← .op ConnectOp.pathExists
  if found then .ret (some ())
  else do
    .op (ConnectOp.sleep 100000000)
    let elapsed ← .op ConnectOp.elapsed
    if config.socketWaitTimeout < elapsed then .throw (.io "UNIX socket not found")
    else .ret none

def waitSocket (config : Config) (turns : Nat) : ConnectProg Unit :=
  if isUnixSocket config.path then do
    let found ← .op ConnectOp.pathExists
    if found then .ret () else Prog.loop (waitSocketTurn config) turns
  else .ret ()

def isTls (config : Config) : Bool := config.tls && !isUnixSocket config.path

def commMode (config : Config) : UInt8 := if isTls config then commTls else commInsecure

def greeting (config : Config) (link : Link) : Bytes := link.header ++ [commMode config]

/-- Connects a stream and greets the server; over TLS the greeting goes before the handshake. -/
def openStream (config : Config) (link : Link) : ConnectProg Unit :=
  if isUnixSocket config.path then do
    Prog.ofExcept (← .op (ConnectOp.connectUnix link config.path))
    write link (greeting config link)
  else do
    Prog.ofExcept (← .op (ConnectOp.connectTcp link config.path))
    Prog.ofExcept (← .op (ConnectOp.setNodelay link))
    if config.tls then do
      write link (greeting config link)
      Prog.ofExcept (← .op ConnectOp.buildConnector)
      Prog.ofExcept (← .op (ConnectOp.connectTls link (pathDomain config.path)))
    else write link (greeting config link)

def checkReply (link : Link) : ConnectProg Unit := do
  let buf ← read link 2
  if buf ≠ link.header then .throw (.invalidData link.headerError)
  else do
    let buf ← read link 2
    if leNat buf ≠ protocolVersion then .throw (.invalidData "Protocol version unsupported")
    else .ret ()

def authLength (config : Config) : UInt32 :=
  lenU32 (utf8 config.user) + lenU32 (utf8 config.password) + 1

def authText (config : Config) : Bytes := utf8 config.user ++ 0 :: utf8 config.password

def authBuf (config : Config) : Bytes := leBytes 4 (authLength config).toNat ++ authText config

def authenticate (config : Config) : ConnectProg Bytes := do
  write .control (authBuf config)
  .call (.read .control 32) fun
    | .ok token => .ret token
    | .error _ => .throw (.access "Login failed")

def connectControl (config : Config) (turns : Nat) : ConnectProg Bytes := do
  waitSocket config turns
  openStream config .control
  checkReply .control
  authenticate config

def timeoutSecs (config : Config) : Nat :=
  let secs := config.timeout / 1000000000
  if 255 < secs then 255 else secs

def connectData (config : Config) (token : Bytes) : ConnectProg Unit :=
  if config.needDataStream then do
    openStream config .data
    checkReply .data
    write .data token
    write .data [UInt8.ofNat (timeoutSecs config)]
    let response ← read .data 1
    if response.headD 0 ≠ responseOk then .throw (.access "Data stream authentication failed")
    else .ret ()
  else .ret ()

structure Connected where
  dataStream : Bool
  beaconInterval : Nat
  deriving DecidableEq, Repr

def addCa (config : Config) : ConnectProg Unit :=
  if config.tls then
    match config.tlsCa with
    | some ca => .call (.addRootCertificate (utf8 ca)) .ofExcept
    | none => .ret ()
  else .ret ()

def connect (config : Config) (turns : Nat) : ConnectProg Connected := do
  addCa config
  let token ← connectControl config turns
  connectData config token
  .ret ⟨config.needDataStream, timeoutSecs config * 1000 / 2⟩

end Psrt.Client

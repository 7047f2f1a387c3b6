import Psrt.Server.Control

/-! The stream handlers: `handle_tcp_stream` and `handle_unix_stream` of `server.rs`. -/

namespace Psrt
open Wire Interaction

inductive StreamType where
  | control | data
  deriving DecidableEq, Repr

def maxAuthFrameSize : Nat := 1024

def formatLogin (login : Str) : String :=
  if login.isEmpty then "anonymous" else String.ofList login

def streamType (greeting : Bytes) : Except Error StreamType :=
  if greeting.take 2 = controlHeader then .ok .control
  else if greeting.take 2 = dataHeader then .ok .data
  else .error (.io s!"Invalid greeting header: {greeting.take 2}")

def replyHeader (greeting : Bytes) : Bytes := greeting.take 2 ++ leBytes 2 protocolVersion

def initUnixStream : ServerProg Error StreamType := do
  let greeting ← readExact 3
  let st ← Prog.ofExcept (streamType greeting)
  writeAll (replyHeader greeting)
  .ret st

def initTcpStream (tlsConfigured allowNoTls : Bool) : ServerProg Error StreamType := do
  let greeting ← readExact 3
  let st ← Prog.ofExcept (streamType greeting)
  let mode := greeting.getD 2 0
  if mode = commInsecure then
    if allowNoTls then do
      writeAll (replyHeader greeting)
      .ret st
    else .throw (.io "Communication without TLS is forbidden")
  else if mode = commTls then
    if tlsConfigured then do
      Prog.ofExcept (← perform .acceptTls)
      writeAll (replyHeader greeting)
      .ret st
    else .throw (.io "TLS is not configured")
  else .throw (.io s!"Invalid comm mode requested: {mode}")

/-- From the registration on, both handlers do the same: the token, the control session, and the
removal from the registry whatever the session's result. -/
def serveClient (cfg : Config) (acl : Acl) (login addr : Str) (turns : Nat) :
    ServerProg Error Bool := do
  let client ← Prog.ofExcept (← perform (.registerClient login addr))
  -- an error here ends the handler with the client still registered
  writeAll client.token.bytes
  let result ← (processControl cfg client acl turns).attempt
  perform (.unregisterClient client)
  perform (.abortTasks client)
  Prog.ofExcept (result.map fun _ => true)

def handleUnixStream (cfg : Config) (path : Str) (turns : Nat) : ServerProg Error Bool := do
  let st ← initUnixStream
  if st = .data then do
    Prog.ofExcept (← perform .launchDataStream)
    .ret false
  else do
    let frame ← readFrame (some maxAuthFrameSize)
    let login ← Prog.ofExcept (strFromUtf8 (splitFirst 0 frame).1)
    serveClient cfg Acl.newFull login path turns

/-- The check of a login: the anonymous gate, or the password. -/
def authenticateTcp (cfg : Config) (login password : Str) (addr : Str) : ServerProg Error Unit :=
  if login.isEmpty && password.isEmpty then
    if cfg.allowAnonymous then .ret ()
    else .throw (.access s!"anonymous login failed from {String.ofList addr}")
  else do
    let verified ← perform (.authenticate login password)
    if verified then .ret ()
    else .throw (.access s!"login failed for {String.ofList login} from {String.ofList addr}")

def handleTcpStream (cfg : Config) (addr : Str) (tlsConfigured allowNoTls : Bool) (turns : Nat) :
    ServerProg Error Bool := do
  let st ← initTcpStream tlsConfigured allowNoTls
  if st = .data then do
    Prog.ofExcept (← perform .launchDataStream)
    .ret false
  else do
    let frame ← readFrame (some maxAuthFrameSize)
    let login ← Prog.ofExcept (strFromUtf8 (splitFirst 0 frame).1)
    match (splitFirst 0 frame).2 with
    | none => .throw (.invalidData errInvalidDataBlock)
    | some rest => do
      let password ← Prog.ofExcept (strFromUtf8 rest)
      authenticateTcp cfg login password addr
      match ← perform (.getAcl login) with
      | none => .throw (.access s!"No ACL for {formatLogin login}")
      | some acl => serveClient cfg acl login addr turns

end Psrt

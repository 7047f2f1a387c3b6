import Psrt.Server.Session

/-! Datagrams: `process_udp_block`, `process_udp_packet` and the turn of `handle_udp_listener`. -/

namespace Psrt
open Wire Interaction

/-- An error of a datagram, and whether its sender waits for a reply. -/
abbrev UdpError := Error × Bool

def udpNeedAck (op : UInt8) : Option Bool :=
  if op = opPublish then some true
  else if op = opPublishNoAck then some false
  else none

/-- The check of a plain datagram's credentials; a decrypted one has no password. -/
def authenticateUdp (cfg : Config) (login : Str) (password : Option Str) (needAck : Bool) :
    ServerProg UdpError Unit :=
  match password with
  | none => .ret ()
  | some password =>
    if login.isEmpty && password.isEmpty then
      if cfg.allowAnonymous then .ret () else .throw (.access "anonymous access failed", needAck)
    else do
      let verified ← perform (.authenticate login password)
      if verified then .ret () else .throw (.access "authentication failed", needAck)

/-- `process_udp_block` once the block is split in operation, priority, topic and data. -/
def publishUdp (cfg : Config) (login : Str) (password : Option Str) (needAck : Bool)
    (priority : UInt8) (raw : Str) (data : Bytes) (timestamp : UInt64) :
    ServerProg UdpError Bool := do
  authenticateUdp cfg login password needAck
  match ← perform (.getAcl login) with
  | none => .throw (.access s!"No ACL for {formatLogin login}", needAck)
  | some acl => do
    let topic ← (Prog.ofExcept (prepareTopic cfg.maxTopicDepth raw)).mapError (·, needAck)
    if containsInvalidSymbols topic then .throw (.invalidData errInvalidDataBlock, needAck)
    else if !acl.allowWrite topic then
      .throw (.access s!"pub access denied for {String.ofList topic}", needAck)
    else do
      -- the acknowledgement does not say whether anybody has subscribed
      let subscribers ← perform (.getSubscribers topic)
      pushIfAny subscribers priority topic data timestamp
      replicate cfg priority topic data timestamp
      .ret needAck

def processUdpBlock (cfg : Config) (login : Str) (password : Option Str) (block : Bytes)
    (timestamp : UInt64) : ServerProg UdpError Bool :=
  let buf := (splitFirst 0 block).1
  if buf.length < 3 then .throw (.invalidData "invalid data block", false)
  else match udpNeedAck (buf.getD 0 0) with
    | none => .throw (.invalidData s!"invalid opration: {lowerHex (buf.getD 0 0).toNat}", false)
    -- from here on an error is reported to a sender that asked for an acknowledgement
    | some needAck => do
      let priority := buf.getD 1 0
      let raw ← (Prog.ofExcept (strFromUtf8 (buf.drop 2))).mapError (·, needAck)
      match (splitFirst 0 block).2 with
      | none => .throw (.invalidData "data missing", needAck)
      | some data => publishUdp cfg login password needAck priority raw data timestamp

def udpKeyId (login : Str) : Str := if login.isEmpty then ['_'] else login

/-- `process_udp_packet` after the checks of the header. -/
def processUdpBody (cfg : Config) (etp : EncryptionType) (body : Bytes) (timestamp : UInt64) :
    ServerProg UdpError Bool := do
  let sp := splitFirst 0 body
  let login ← (Prog.ofExcept (strFromUtf8 sp.1)).mapError (·, false)
  if etp.needDecrypt then
    match sp.2 with
    | none => .throw (.invalidData "encryption block missing", false)
    | some encrypted => do
      let r ← perform (.authAndDecr encrypted (udpKeyId login) etp)
      let block ← (Prog.ofExcept r).mapError (·, false)
      processUdpBlock cfg login none block timestamp
  else
    match sp.2 with
    | none => .throw (.invalidData "invalid packet format", false)
    | some block => do
      let sp := splitFirst 0 block
      let password ← (Prog.ofExcept (strFromUtf8 sp.1)).mapError (·, false)
      match sp.2 with
      | none => .throw (.invalidData "data missing", false)
      | some block => processUdpBlock cfg login (some password) block timestamp

def processUdpPacket (cfg : Config) (frame : Bytes) : ServerProg UdpError Bool := do
  let timestamp ← perform .nowNs
  if frame.length < 5 then .throw (.invalidData "packet too small", false)
  else if frame.take 2 ≠ controlHeader then .throw (.invalidData "invalid header", false)
  else if leNat [frame.getD 2 0, frame.getD 3 0] ≠ protocolVersion then
    .throw (.invalidData "unsupported protocol version", false)
  else do
    let etp ← (Prog.ofExcept (EncryptionType.fromByte (frame.getD 4 0))).mapError (·, false)
    processUdpBody cfg etp (frame.drop 5) timestamp

def udpAckCode : Except UdpError Bool → Option UInt8
  | .ok true => some responseOk
  | .error (e, true) => some (if e.kind = .accessDenied then responseErrAccess else responseErr)
  | _ => none

def udpReply (code : UInt8) : Bytes := controlHeader ++ leBytes 2 protocolVersion ++ [code]

/-- One turn of the listener's loop, for the octets `recv_from` left in the buffer. -/
def handleUdpDatagram (cfg : Config) (frame : Bytes) : ServerProg Error Unit := do
  let result ← (processUdpPacket cfg frame).attempt
  match udpAckCode result with
  | some code => do
    -- a reply that cannot be sent does not end the loop
    let _ ← perform (.sendTo (udpReply code))
    .ret ()
  | none => .ret ()

/-- `recv_from` into a buffer of `udp_frame_size` octets: the rest of a longer datagram is lost. -/
def recvFrom (udpFrameSize : Nat) (datagram : Bytes) : Bytes := datagram.take udpFrameSize

end Psrt

import Psrt.Protocol.Stream

/-! The data stream of the server: the frames `push_to_subscribers` and the pinger queue, and the
loop of `handle_data_stream` that writes them. -/

namespace Psrt
open Wire Interaction

structure MessageFrame where
  timestamp : Option UInt64
  frame : Bytes
  data : Option Bytes
  deriving DecidableEq, Repr

def frameLength (topic : Str) (message : Bytes) : UInt32 :=
  UInt32.ofNat (utf8 topic).length + UInt32.ofNat message.length + 1

/-- The frame `push_to_subscribers` builds. -/
def messageFrame (priority : UInt8) (topic : Str) (message : Bytes) (timestamp : UInt64) :
    MessageFrame where
  timestamp := some timestamp
  frame := responseOk :: priority ::
    (leBytes 4 (frameLength topic message).toNat ++ (utf8 topic ++ [0]))
  data := some message

def emptyMessage : MessageFrame where
  timestamp := none
  frame := [opNop]
  data := none

/-- Operations of the data task. `beaconDue` asks whether the beacon interval has elapsed since the
last command was written. -/
inductive DataOp where
  | recv
  | beaconDue
  | write (buf : Bytes)
  | nowNs
  | countSentBytes (bytes : Nat) (latencyMks : UInt32)
  | warnLatency (latencyMks : UInt32) (topic : Str)

abbrev DataOp.Resp : DataOp → Type
  | recv => Option MessageFrame
  | beaconDue => Bool
  | write _ => Except Error Unit
  | nowNs => UInt64
  | countSentBytes _ _ => Unit
  | warnLatency _ _ => Unit

/-- How the data task may stop short: with an error, or at an index or `unwrap` that panics. -/
inductive DataStop where
  | error (e : Error)
  | panic

abbrev DataProg (α : Type) := Prog DataOp DataOp.Resp DataStop α

abbrev DataEvent := Event DataOp DataOp.Resp

/-- `eof_is_ok!` around a write: the end of the stream leaves the loop as a success. -/
def writeEofIsOk (buf : Bytes) (k : DataProg (Option Unit)) : DataProg (Option Unit) :=
  .call (.write buf) fun
    | .ok () => k
    | .error e => if e.kind = .eof then .ret (some ()) else .throw (.error e)

def warnHighLatency (message : MessageFrame) (latencyMks : UInt32) : DataProg (Option Unit) :=
  if message.frame.length < 6 then .throw .panic
  else match fromUtf8 (splitFirst 0 (message.frame.drop 6)).1 with
    | none => .throw .panic
    | some topic => .call (.warnLatency latencyMks topic) fun _ => .ret none

/-- The accounting after a message was written. -/
def accountSent (latencyWarn : UInt32) (message : MessageFrame) : DataProg (Option Unit) :=
  match message.timestamp with
  | none => .ret none
  | some timestamp =>
    .call .nowNs fun now =>
      -- the timestamp is of whichever node took the publish, so it may lie ahead
      let latencyMks := ((now - timestamp) / 1000).toUInt32
      .call (.countSentBytes (message.frame.length + (message.data.elim 0 List.length)) latencyMks)
        fun _ => if latencyMks > latencyWarn then warnHighLatency message latencyMks else .ret none

/-- What the loop does with a received frame. -/
def writeMessage (latencyWarn : UInt32) (message : MessageFrame) : DataProg (Option Unit) :=
  match message.frame with
  | [] => .throw .panic
  | first :: _ =>
    if first = opNop then
      -- a queued nop is only written when nothing was written for a beacon interval
      .call .beaconDue fun due => if due then writeEofIsOk [opNop] (.ret none) else .ret none
    else
      writeEofIsOk message.frame <|
        match message.data with
        | some data => writeEofIsOk data (accountSent latencyWarn message)
        | none => accountSent latencyWarn message

def handleDataStreamTurn (latencyWarn : UInt32) : DataProg (Option Unit) :=
  .call .recv fun
    | none => .ret (some ())
    | some message => writeMessage latencyWarn message

def handleDataStream (latencyWarn : UInt32) (turns : Nat) : DataProg Unit :=
  Prog.loop (handleDataStreamTurn latencyWarn) turns

end Psrt

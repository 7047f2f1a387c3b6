import Psrt.Lib.Interaction
import Psrt.Client.Control

/-! The control task of the client: `run_control_stream` of `client.rs`, turn by turn. -/

namespace Psrt
open Wire Interaction

structure Command where
  controlCommand : ControlCommand
  responseChannel : Option Nat
  deriving DecidableEq, Repr

inductive ClientOp where
  | recv
  /-- `op_start.elapsed() < beacon_interval`. -/
  | early
  | write (buf : Bytes)
  | read (n : Nat)
  | send (channel : Nat) (result : Except Error Unit)

abbrev ClientOp.Resp : ClientOp → Type
  | recv => Option Command
  | early => Bool
  | write _ => Except Error Unit
  | read _ => Except Error Bytes
  | send _ _ => Unit

abbrev ClientProg (α : Type) := Prog ClientOp ClientOp.Resp Error α

abbrev ClientEvent := Event ClientOp ClientOp.Resp

namespace ControlStream

def write (buf : Bytes) : ClientProg Unit := .call (.write buf) .ofExcept

def readCode : ClientProg UInt8 := do
  let buf ← .call (.read 1) .ofExcept
  .ret (buf.headD 0)

def respond (cmd : Command) (result : Except Error Unit) : ClientProg Unit :=
  match cmd.responseChannel with
  | none => .ret ()
  | some ch => .op (ClientOp.send ch result)

def replyError (code : UInt8) : Error :=
  if code = responseErrAccess then .access "Operation access denied" else .serverResponse code

def handleErr (cmd : Command) (code : UInt8) : ClientProg Unit := do
  respond cmd (.error (replyError code))
  if (replyError code).kind = .io then .throw (replyError code) else .ret ()

def processReply (cmd : Command) : ClientProg Unit := do
  let code ← readCode
  if code = responseOk then respond cmd (.ok ()) else handleErr cmd code

/-- What stands before the message of a replicated publish. -/
def msgBuf (priority : UInt8) (timestamp : UInt64) (message : Bytes) : Bytes :=
  priority :: (leBytes 8 timestamp.toNat ++ leBytes 4 (lenU32 message).toNat)

def exchange (cmd : Command) : ClientProg Unit := do
  write cmd.controlCommand.asBytes
  match cmd.controlCommand with
  | .publish _ _ message => do
    write message
    processReply cmd
  | .publishRepl priority _ message timestamp => do
    let code ← readCode
    if code = responseOkWaiting then do
      write (msgBuf priority timestamp message)
      write message
      processReply cmd
    else if code = responseNotRequired then respond cmd (.ok ())
    else handleErr cmd code
  | _ => processReply cmd

def turn : ClientProg (Option Unit) := do
  match ← .op ClientOp.recv with
  | none => .ret (some ())
  | some cmd =>
    if cmd.controlCommand = .nop then do
      let early ← .op ClientOp.early
      if early then .ret none
      else do
        exchange cmd
        .ret none
    else do
      exchange cmd
      .ret none

end ControlStream

end Psrt

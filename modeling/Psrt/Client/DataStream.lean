import Psrt.Protocol.Stream

/-! The data stream of the client: the loop of `Client::run_data_stream`. -/

namespace Psrt
open Wire Interaction

inductive ClientDataOp where
  | read (n : Nat)
  | deliver (message : Message)
  | sendBye

abbrev ClientDataOp.Resp : ClientDataOp → Type
  | read _ => Except Error Bytes
  | deliver _ => Except Error Unit
  | sendBye => Unit

abbrev ClientDataProg (α : Type) := Prog ClientDataOp ClientDataOp.Resp Error α

abbrev ClientDataEvent := Event ClientDataOp ClientDataOp.Resp

def readData (n : Nat) : ClientDataProg Bytes := .call (.read n) .ofExcept

def handleDataOp (op : UInt8) : ClientDataProg (Option Unit) :=
  if op = opNop then .ret none
  else if op = responseOk then do
    let prio ← readData 1
    let frame ← readFrameWith readData none
    match Message.fromBuf frame (prio.headD defaultPriority) with
    | .ok v => .call (.deliver v) fun r => do
      Prog.ofExcept r
      .ret none
    | .error _ => .ret none
  else .call .sendBye fun _ => .throw (.invalidData "Invalid frame from the data channel")

theorem handleDataOp_responseOk : handleDataOp responseOk =
    (readData 1).bind fun prio => (readFrameWith readData none).bind fun frame =>
      match Message.fromBuf frame (prio.headD defaultPriority) with
      | .ok v => .call (.deliver v) fun r => (Prog.ofExcept r).bind fun _ => .ret none
      | .error _ => .ret none := rfl

def runDataStreamTurn : ClientDataProg (Option Unit) := do
  let buf ← readData 1
  handleDataOp (buf.headD 0)

def runDataStream (turns : Nat) : ClientDataProg Unit := Prog.loop runDataStreamTurn turns

/-- The answers to a client whose stream holds `input` and whose receiver takes every message. -/
def clientDataAnswer (input : Bytes) : (o : ClientDataOp) → o.Resp × Bytes
  | .read n => takeBytes n input
  | .deliver _ => (.ok (), input)
  | .sendBye => ((), input)

def deliveredOf (e : ClientDataEvent) : Option Message :=
  match e.op with
  | .deliver message => some message
  | _ => none

theorem eval_readData {α : Type} {n : Nat} {b : Bytes} (h : b.length = n)
    (k : Bytes → ClientDataProg α) (rest : Bytes) :
    Prog.eval clientDataAnswer ((readData n).bind k) (b ++ rest) =
      (⟨.read n, .ok b⟩ :: (Prog.eval clientDataAnswer (k b) rest).1,
        (Prog.eval clientDataAnswer (k b) rest).2) := by
  simp only [readData, Prog.call_bind, Prog.eval_call, clientDataAnswer, takeBytes_append h,
    Prog.ofExcept_ok, Prog.ret_bind]

end Psrt

import Psrt.Lib.Interpret
import Psrt.Server.Peers

/-! The data connection of a client: `launch_data_stream` of `server.rs`, and the stream handlers with it
in the place of the call. -/

namespace Psrt
open Wire Interaction

def Token.from (buf : Bytes) : Token := ⟨buf.takeD 32 0, List.takeD_length ..⟩

theorem Token.from_bytes {buf : Bytes} (h : buf.length = 32) : (Token.from buf).bytes = buf := by
  have htake : buf.takeD 32 0 = buf.take 32 := List.takeD_eq_take _ h.ge
  exact htake.trans (List.take_of_length_le h.le)

theorem Token.eq_of_bytes {t t' : Token} (h : t.bytes = t'.bytes) : t = t' := by
  cases t
  cases t'
  simpa only [Token.mk.injEq] using h

inductive HandlerOp where
  | server (o : ServerOp)
  /-- `async_channel::bounded`. -/
  | newChannel
  | registerDataChannel (token : Token) (channel : ChannelId)
  /-- The spawn of a task; its handle. -/
  | spawnPinger (channel : ChannelId) (beaconFreq : Nat)
  | spawnDataStream (token : Token) (channel : ChannelId) (beaconFreq : Nat)
  | registerTask (client : ServerClient) (task : Nat)

abbrev HandlerOp.Resp : HandlerOp → Type
  | server o => o.Resp
  | newChannel => ChannelId
  | registerDataChannel _ _ => Except Error ServerClient
  | spawnPinger _ _ => Nat
  | spawnDataStream _ _ _ => Nat
  | registerTask _ _ => Unit

abbrev HandlerProg (α : Type) := Prog HandlerOp HandlerOp.Resp Error α

abbrev HandlerEvent := Event HandlerOp HandlerOp.Resp

def asHandler : Renaming ServerOp ServerOp.Resp HandlerOp HandlerOp.Resp where
  op := .server
  into _ r := r
  back _ r := r
  into_back _ _ := rfl
  back_into _ _ := rfl

/-- Once the channel is registered: the reply and the two tasks. Intervals are in milliseconds. -/
def startDataTasks (token : Token) (channel : ChannelId) (client : ServerClient) (timeout : UInt8) :
    HandlerProg Unit := do
  (writeAll [responseOk]).rename asHandler
  let beaconFreq := timeout.toNat * 1000 / 2
  let pinger ← .op (HandlerOp.spawnPinger channel beaconFreq)
  .op (HandlerOp.registerTask client pinger)
  let task ← .op (HandlerOp.spawnDataStream token channel beaconFreq)
  .op (HandlerOp.registerTask client task)

def launchDataStream : HandlerProg Unit := do
  let buf ← (readExact 32).rename asHandler
  let token := Token.from buf
  let timeout ← (readExact 1).rename asHandler
  let channel ← .op HandlerOp.newChannel
  match ← .op (HandlerOp.registerDataChannel token channel) with
  | .ok client => startDataTasks token channel client (timeout.headD 0)
  | .error e => do
    (writeAll [responseErr]).rename asHandler
    .throw e

/-- Every operation stands for itself but the launch of a data stream. -/
def carryOut : (o : ServerOp) → HandlerProg o.Resp
  | .launchDataStream => launchDataStream.attempt
  | o => .call (.server o) .ret

def Peer.connection (cfg : Config) (peer : Peer) : HandlerProg Bool :=
  (peer.handler cfg).interpret carryOut

def NoLaunch : ServerOp → Prop
  | .launchDataStream => False
  | _ => True

theorem carryOut_of_noLaunch {o : ServerOp} (h : NoLaunch o) :
    carryOut o = .call (asHandler.op o) fun r => .ret (asHandler.back o r) := by
  cases o with
  | launchDataStream => exact h.elim
  | _ => rfl

theorem interpret_of_noLaunch {α : Type} {p : ServerProg Error α} (hp : p.Calls NoLaunch) :
    p.interpret carryOut = p.rename asHandler :=
  Prog.Calls.interpret_eq (hp.mono fun _ ho => carryOut_of_noLaunch ho)

theorem interpret_launch : ((perform .launchDataStream).bind fun r =>
      (Prog.ofExcept r : ServerProg Error Unit).bind fun _ => .ret false).interpret
        carryOut = launchDataStream.bind fun _ => .ret false := by
  have hofExcept : ∀ r : Except Error Unit,
      (Prog.ofExcept r : ServerProg Error Unit).interpret carryOut = .ofExcept r := by
    intro r
    cases r with
    | ok a => rfl
    | error e => rfl
  rw [Prog.op_bind, Prog.interpret]
  simp only [Prog.interpret_bind, hofExcept]
  exact Prog.attempt_bind_ofExcept launchDataStream fun _ => .ret false

def afterGreeting (control : ServerProg Error Bool) (st : StreamType) : HandlerProg Bool :=
  if st = .data then launchDataStream.bind fun _ => .ret false else control.rename asHandler

end Psrt

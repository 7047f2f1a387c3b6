import Psrt.Client.DataStream
import Psrt.Timed.Connect
import Psrt.Timed.KeepAlive

/-! The data task of the client with its clock: `run_data_stream` of `client.rs`, and how long a slow peer
may keep the tasks of a connection waiting. -/

namespace Psrt.Timed
open Wire Interaction ClockProg

abbrev TimedClientDataProg (α : Type) := ClockProg ClientDataOp ClientDataOp.Resp Error α

abbrev TimedClientDataEvent := ClockEvent ClientDataOp ClientDataOp.Resp

namespace DataStream

def read (n timeout : Nat) : TimedClientDataProg Bytes :=
  (within (some timeout) (ClientDataOp.read n)).bind .ofExcept

def readFrame (timeout : Nat) : TimedClientDataProg Bytes := do
  let opStart ← now
  let lenBuf ← read 4 timeout
  let limit ← reduceTimeout timeout opStart
  read (leNat lenBuf) limit

def handleDataOp (timeout opStart : Nat) (op : UInt8) : TimedClientDataProg (Option Unit) :=
  if op = opNop then .ret none
  else if op = responseOk then do
    let limit ← reduceTimeout timeout opStart
    let prio ← read 1 limit
    let limit ← reduceTimeout timeout opStart
    let frame ← readFrame limit
    match Message.fromBuf frame (prio.headD defaultPriority) with
    | .ok v => do
      .ofExcept (← within none (ClientDataOp.deliver v))
      .ret none
    | .error _ => .ret none
  else do
    within none ClientDataOp.sendBye
    .throw (.invalidData "Invalid frame from the data channel")

/-- The timeout of a message starts before its first octet is there. -/
def turn (timeout : Nat) : TimedClientDataProg (Option Unit) := do
  let opStart ← now
  let buf ← read 1 timeout
  handleDataOp timeout opStart (buf.headD 0)

def runDataStream (timeout turns : Nat) : TimedClientDataProg Unit := Prog.loop (turn timeout) turns

theorem erases_read (n timeout : Nat) : Erases (read n timeout) (readData n) :=
  .within rfl fun r => .ofExcept r.2

theorem erases_readFrame (timeout : Nat) : Erases (readFrame timeout) (readFrameWith readData none) := by
  refine .now fun opStart => (erases_read 4 timeout).bind fun lenBuf => ?_
  simp only [Option.any_none, Bool.false_eq_true, if_false]
  exact .reduce fun limit => erases_read _ limit

theorem erases_turn (timeout : Nat) : Erases (turn timeout) runDataStreamTurn := by
  refine .now fun opStart => (erases_read 1 timeout).bind fun buf => ?_
  unfold handleDataOp Psrt.handleDataOp
  split_ifs
  · exact .ret rfl
  · refine .reduce fun limit => (erases_read 1 limit).bind fun prio => .reduce fun limit =>
      (erases_readFrame limit).bind fun frame => ?_
    cases Message.fromBuf frame (prio.headD defaultPriority) with
    | ok v => exact .within rfl fun r => Erases.bind (.ofExcept r.2) fun _ => .ret rfl
    | error e => exact .ret rfl
  · exact .within rfl fun _ => .throw _

theorem erases_runDataStream (timeout turns : Nat) :
    Erases (runDataStream timeout turns) (Psrt.runDataStream turns) :=
  (erases_turn timeout).loop turns

theorem takes_read (n timeout : Nat) : Takes timeout (read n timeout) :=
  takes_of_meets fun _ _ => ((takes_within timeout _).meets (Nat.zero_add timeout).le).bind
    (fun r => meets_ofExcept r) le_rfl

theorem takes_readFrame (timeout : Nat) : Takes timeout (readFrame timeout) :=
  takes_now fun _ _ => ((takes_read 4 timeout).meets (Nat.zero_add timeout).le).bind
    (fun _ => meets_reduce (fun limit => takes_read _ limit) le_rfl) le_rfl

theorem takes_turn (timeout : Nat) : Takes timeout (turn timeout) := by
  refine takes_now fun start base =>
    ((takes_read 1 timeout).meets (Nat.zero_add timeout).le).bind (fun buf => ?_) le_rfl
  unfold handleDataOp
  split_ifs
  · exact meets_ret none
  · simp only [Prog.bind_eq]
    rw [← Prog.bind_assoc]
    refine (meets_reduce (fun limit => takes_read 1 limit) le_rfl).bind (fun prio => ?_) le_rfl
    rw [← Prog.bind_assoc]
    refine (meets_reduce takes_readFrame le_rfl).bind (fun frame => ?_) le_rfl
    cases Message.fromBuf frame (prio.headD defaultPriority) with
    | ok v => exact (meets_within_none _).bind (fun r => (meets_ofExcept r).bind
        (fun _ => meets_ret none) le_rfl) le_rfl
    | error e => exact meets_ret none
  · exact (meets_within_none _).bind (fun _ => meets_throw _) le_rfl

end DataStream

def takesCommand (e : TimedClientEvent) : Bool :=
  match e.op with
  | .within _ .recv => true
  | _ => false

def takesFrame (e : TimedDataEvent) : Bool :=
  match e.op with
  | .within _ .recv => true
  | _ => false

section
variable {timeout beaconInterval turns clock : Nat}

theorem waited_runControlStream {h : List TimedClientEvent} {q : TimedClientProg Unit}
    (hr : Prog.Run (ControlStream.runControlStream timeout beaconInterval turns) h q)
    (ht : KeepsTime clock h) : waited h ≤ timeout * h.countP takesCommand := by
  refine waited_now_loopFrom (ControlStream.takes_turn timeout beaconInterval) ?_ hr ht
  intro opStart e h q hrun
  cases hrun with
  | cons hs _ =>
    cases hs with
    | call o k r => rfl

theorem waited_handleDataStream {latencyWarn : UInt32} {h : List TimedDataEvent}
    {q : TimedDataProg Unit}
    (hr : Prog.Run (handleDataStream latencyWarn timeout beaconInterval turns) h q)
    (ht : KeepsTime clock h) : waited h ≤ timeout * h.countP takesFrame := by
  refine waited_now_loopFrom (takes_handleDataStreamTurn latencyWarn timeout beaconInterval) ?_ hr ht
  intro last e h q hrun
  cases hrun with
  | cons hs _ =>
    cases hs with
    | call o k r => rfl

end

/-- However slow the peers are, whatever they send, and whatever else happens, in every run: `connect`
waits for one timeout in all at most (less TLS handshakes and the time a missing socket takes to appear),
the control task of a client for one for each command taken from its queue, its data task for one in each
turn of its loop, and the data task of the server for one for each frame taken from its queue; and without
their clocks they do what those of the model without clocks do. -/
theorem peers_wait {config : Client.Config} {latencyWarn : UInt32}
    {clock turns timeout beaconInterval : Nat}
    {hconnect : List TimedConnectEvent} {qconnect : TimedConnectProg Client.Connected}
    {hcontrol : List TimedClientEvent} {qcontrol : TimedClientProg Unit}
    {hdata : List TimedClientDataEvent} {qdata : TimedClientDataProg Unit}
    {hserver : List TimedDataEvent} {qserver : TimedDataProg Unit}
    (connectRun : Prog.Run (Connect.connect config turns) hconnect qconnect)
    (controlRun : Prog.Run
      (ControlStream.runControlStream config.timeout (controlBeacon config) turns) hcontrol qcontrol)
    (dataRun : Prog.Run (DataStream.runDataStream config.timeout turns) hdata qdata)
    (serverRun : Prog.Run (handleDataStream latencyWarn timeout beaconInterval turns) hserver qserver)
    (connectTime : KeepsTime clock hconnect) (controlTime : KeepsTime clock hcontrol)
    (dataTime : KeepsTime clock hdata) (serverTime : KeepsTime clock hserver) :
    (waited hconnect ≤ config.timeout ∧
      ErasesUpTo.UntimedRun Connect.readsElapsed (Client.connect config turns) hconnect) ∧
    (waited hcontrol ≤ config.timeout * hcontrol.countP takesCommand ∧
      ErasesUpTo.UntimedRun ControlStream.readsEarly (Prog.loop Psrt.ControlStream.turn turns)
        hcontrol) ∧
    ((∃ (rounds : List (List TimedClientDataEvent)) (last : List TimedClientDataEvent),
        hdata = rounds.flatten ++ last ∧ waited last ≤ config.timeout ∧
        ∀ round ∈ rounds, Prog.Run (DataStream.turn config.timeout) round (.ret none) ∧
          waited round ≤ config.timeout) ∧
      ∃ q, Prog.Run (Psrt.runDataStream turns) (untimed hdata) q) ∧
    waited hserver ≤ timeout * hserver.countP takesFrame ∧
      ErasesUpTo.UntimedRun readsBeacon (Psrt.handleDataStream latencyWarn turns) hserver := by
  refine ⟨⟨?_, ?_⟩, ⟨?_, ?_⟩, ⟨?_, ?_⟩, ?_, ?_⟩
  · exact (Connect.takes_connect config turns).waited_le connectRun connectTime
  · exact (Connect.erases_connect config turns).untimedRun connectRun
  · exact waited_runControlStream controlRun controlTime
  · exact (ControlStream.erases_runControlStream _ _ turns).untimedRun controlRun
  · obtain ⟨rounds, last, rfl, hrounds, q', hlast⟩ := dataRun.of_loop
    obtain ⟨hroundsTime, lastClock, hlastTime⟩ := KeepsTime.of_mem_flatten dataTime
    have htakes := DataStream.takes_turn config.timeout
    refine ⟨rounds, last, rfl, htakes.waited_le hlast hlastTime, fun round hround => ?_⟩
    obtain ⟨roundClock, hroundTime⟩ := hroundsTime round hround
    exact ⟨hrounds round hround, htakes.waited_le (hrounds round hround) hroundTime⟩
  · obtain ⟨q', hrun, -⟩ := (DataStream.erases_runDataStream config.timeout turns).run dataRun
    exact ⟨q', hrun⟩
  · exact waited_handleDataStream serverRun serverTime
  · exact (erases_handleDataStream latencyWarn timeout beaconInterval turns).untimedRun serverRun

def sampleConnectHistory : List TimedConnectEvent :=
  [⟨.now, (0 : Nat)⟩,
   ⟨.within (some 1000000000) (.connectTcp .control ['h', ':', '1']), (600000000, .ok ())⟩,
   ⟨.within none (.setNodelay .control), (0, .ok ())⟩,
   ⟨.now, (600000000 : Nat)⟩,
   ⟨.within (some 400000000) (.write .control (Client.greeting sampleClientConfig .control)),
    (400000000, .error (.io "deadline has elapsed"))⟩]

def sampleClientDataHistory : List TimedClientDataEvent :=
  [⟨.now, (0 : Nat)⟩,
   ⟨.within (some 1000000000) (.read 1), (0, .ok [opNop])⟩,
   ⟨.now, (0 : Nat)⟩,
   ⟨.within (some 1000000000) (.read 1), (900000000, .ok [responseOk])⟩,
   ⟨.now, (900000000 : Nat)⟩,
   ⟨.within (some 100000000) (.read 1), (100000000, .ok [5])⟩,
   ⟨.now, (1000000000 : Nat)⟩,
   ⟨.now, (1000000000 : Nat)⟩,
   ⟨.within (some 0) (.read 4), (0, .error (.io "deadline has elapsed"))⟩]

theorem run_sampleConnectHistory : ∃ q, Prog.Run (Connect.connect sampleClientConfig 3)
    sampleConnectHistory q :=
  ⟨_, .call _ (.call _ (.call _ (.call _ (.call _ (.nil _)))))⟩

theorem run_sampleClientDataHistory : ∃ q, Prog.Run (DataStream.runDataStream 1000000000 3)
    sampleClientDataHistory q :=
  ⟨_, .call _ (.call _ (.call _ (.call _ (.call _ (.call _ (.call _ (.call _ (.call _
    (.nil _)))))))))⟩

theorem peers_wait_sample : waited sampleConnectHistory = 1000000000 ∧
    waited sampleConnectHistory ≤ sampleClientConfig.timeout ∧
    waited sampleControlHistory = 70 ∧
    waited sampleControlHistory ≤ 1000000000 * sampleControlHistory.countP takesCommand ∧
    waited sampleClientDataHistory = 1000000000 ∧
    waited sampleDataHistory ≤ 5000000000 * sampleDataHistory.countP takesFrame := by
  obtain ⟨_, hconnect⟩ := run_sampleConnectHistory
  obtain ⟨_, hcontrol⟩ := run_sampleControlHistory
  obtain ⟨_, hdata⟩ := run_sampleClientDataHistory
  obtain ⟨_, hserver⟩ := run_sampleDataHistory
  have connectTime : KeepsTime 0 sampleConnectHistory := by decide
  have controlTime : KeepsTime 0 sampleControlHistory := by decide
  have dataTime : KeepsTime 0 sampleClientDataHistory := by decide
  have serverTime : KeepsTime 0 sampleDataHistory := by decide
  obtain ⟨⟨hconnectWaits, -⟩, ⟨hcontrolWaits, -⟩, -, hserverWaits, -⟩ :=
    peers_wait hconnect hcontrol hdata hserver connectTime controlTime
      dataTime serverTime
  exact ⟨rfl, hconnectWaits, rfl, hcontrolWaits, rfl, hserverWaits⟩

end Psrt.Timed

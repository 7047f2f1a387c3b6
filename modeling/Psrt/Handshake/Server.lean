import Psrt.Lib.Network
import Psrt.Server.Launch
import Psrt.Server.Registration
import Psrt.Server.Turns
import Psrt.Publish.Authorised

/-! What the handler of a connection has sent and read, wherever it stands, and whom it registered. -/

namespace Psrt
open Wire Interaction

def handlerPort : Port HandlerOp HandlerOp.Resp UInt8 where
  offer
    | .server o => ProcessControl.port.offer o
    | _ => []
  take
    | .server o, r => ProcessControl.port.take o r
    | _, _ => []
  Broke
    | .server o, r => ProcessControl.port.Broke o r
    | _, _ => False

/-- `handle_unix_stream` after the greeting of a control stream. -/
def unixControl (cfg : Config) (path : Str) (turns : Nat) : ServerProg Error Bool := do
  let frame ← readFrame (some maxAuthFrameSize)
  let login ← Prog.ofExcept (strFromUtf8 (splitFirst 0 frame).1)
  serveClient cfg Acl.newFull login path turns

/-- `handle_tcp_stream` after the greeting of a control stream. -/
def tcpControl (cfg : Config) (addr : Str) (turns : Nat) : ServerProg Error Bool := do
  let frame ← readFrame (some maxAuthFrameSize)
  let login ← Prog.ofExcept (strFromUtf8 (splitFirst 0 frame).1)
  match (splitFirst 0 frame).2 with
  | none => .throw (.invalidData errInvalidDataBlock)
  | some rest => do
    let password ← Prog.ofExcept (strFromUtf8 rest)
    authenticateTcp cfg login password addr
    match ← perform (.getAcl login) with
    | none => .throw (.access s!"No ACL for {formatLogin login}")
    | some acl => serveClient cfg acl login addr turns

inductive Streams (cfg : Config) : Peer → ServerProg Error StreamType → ServerProg Error Bool → Prop
  | tcp (addr : Str) (tlsConfigured allowNoTls : Bool) (turns : Nat) :
      Streams cfg (.tcp addr tlsConfigured allowNoTls turns)
        (initTcpStream tlsConfigured allowNoTls) (tcpControl cfg addr turns)
  | unix (path : Str) (turns : Nat) :
      Streams cfg (.unix path turns) initUnixStream (unixControl cfg path turns)

section
variable {cfg : Config} {peer : Peer} {init : ServerProg Error StreamType}
  {control : ServerProg Error Bool}

theorem handler_eq (h : Streams cfg peer init control) : peer.handler cfg = init.bind fun st =>
    if st = .data then (perform .launchDataStream).bind fun r =>
      (Prog.ofExcept r : ServerProg Error Unit).bind fun _ => .ret false
    else control := by
  cases h with
  | tcp => rfl
  | unix => rfl

theorem Streams.noLaunch (h : Streams cfg peer init control) :
    init.Calls NoLaunch ∧ control.Calls NoLaunch := by
  have hserve : ∀ acl login addr turns, (serveClient cfg acl login addr turns).Calls NoLaunch := by
    intro acl login addr turns
    refine calls_serveClient cfg acl (fun _ => trivial) ?_ trivial (fun _ => trivial)
      (fun _ => trivial) turns
    intro client o ho
    cases o with
    | launchDataStream => exact ho
    | _ => trivial
  cases h with
  | tcp addr tlsConfigured allowNoTls turns =>
    refine ⟨calls_initTcpStream (fun _ => trivial) (fun _ => trivial) trivial _ _, ?_⟩
    refine (calls_readFrame (fun _ => trivial) _).bind fun frame =>
      (Prog.calls_ofExcept _).bind fun login => ?_
    cases (splitFirst 0 frame).2 with
    | none => trivial
    | some rest =>
      refine (Prog.calls_ofExcept _).bind fun password =>
        (calls_authenticateTcp cfg (fun _ _ => trivial) ..).bind fun _ =>
          Prog.Calls.bind (Prog.calls_op trivial) fun acl => ?_
      cases acl with
      | none => trivial
      | some acl => exact hserve ..
  | unix path turns =>
    exact ⟨calls_initUnixStream (fun _ => trivial) (fun _ => trivial),
      (calls_readFrame (fun _ => trivial) _).bind fun frame =>
        (Prog.calls_ofExcept _).bind fun login => hserve ..⟩

theorem connection_eq (h : Streams cfg peer init control) :
    peer.connection cfg = (init.rename asHandler).bind (afterGreeting control) := by
  obtain ⟨hinit, hcontrol⟩ := h.noLaunch
  rw [Peer.connection, handler_eq h, Prog.interpret_bind, interpret_of_noLaunch hinit]
  refine congrArg (init.rename asHandler).bind (funext fun st => ?_)
  unfold afterGreeting
  split_ifs
  · exact interpret_launch
  · exact interpret_of_noLaunch hcontrol

end

section
variable {cfg : Config} {peer : Peer} {init : ServerProg Error StreamType}
  {control : ServerProg Error Bool}

theorem stopsOn_rename {α : Type} {p : ServerProg Error α}
    (hp : p.StopsOn ProcessControl.port.Broke) : (p.rename asHandler).StopsOn handlerPort.Broke :=
  Prog.StopsOn.rename hp

open ProcessControl in
theorem Streams.stopsOn_init (h : Streams cfg peer init control) : init.StopsOn port.Broke := by
  cases h with
  | tcp addr tlsConfigured allowNoTls turns =>
    refine (stopsOn_readExact 3).bind fun greeting => (Prog.stopsOn_ofExcept _).bind fun st => ?_
    dsimp only
    split_ifs
    · exact (stopsOn_writeAll _).bind fun _ => trivial
    · trivial
    · exact .call (fun _ => id) fun r => (Prog.stopsOn_ofExcept r).bind fun _ =>
        (stopsOn_writeAll _).bind fun _ => trivial
    · trivial
    · trivial
  | unix path turns =>
    exact (stopsOn_readExact 3).bind fun greeting => (Prog.stopsOn_ofExcept _).bind fun st =>
      (stopsOn_writeAll _).bind fun _ => trivial

theorem stopsOn_launchDataStream : launchDataStream.StopsOn handlerPort.Broke := by
  refine (stopsOn_rename (ProcessControl.stopsOn_readExact 32)).bind fun buf =>
    (stopsOn_rename (ProcessControl.stopsOn_readExact 1)).bind fun timeout =>
      .call (fun _ => id) fun channel => .call (fun _ => id) fun r => ?_
  cases r with
  | error e => exact (stopsOn_rename (ProcessControl.stopsOn_writeAll _)).bind fun _ => trivial
  | ok client =>
    exact (stopsOn_rename (ProcessControl.stopsOn_writeAll _)).bind fun _ =>
      .call (fun _ => id) fun pinger => .call (fun _ => id) fun _ =>
        .call (fun _ => id) fun task => .call (fun _ => id) fun _ => trivial

theorem wp_watch_serveClient (acl : Acl) (login addr : Str) (turns : Nat) {b : Prop} (hb : ¬ b) :
    handlerPort.watch.wp ((serveClient cfg acl login addr turns).rename asHandler)
      (fun _ _ => True) (fun _ _ => True) b := by
  refine ⟨fun h => absurd h hb, fun r _ => ?_⟩
  cases r with
  | error e => trivial
  | ok client =>
    refine ⟨fun h => h.elim (absurd · hb) False.elim, fun r _ => ?_⟩
    cases r with
    | error e => trivial
    | ok _ =>
      have hunregister : handlerPort.Idle (.server (.unregisterClient client)) :=
        ⟨rfl, fun _ => rfl, fun _ => id⟩
      have habort : handlerPort.Idle (.server (.abortTasks client)) :=
        ⟨rfl, fun _ => rfl, fun _ => id⟩
      have hleave : ∀ (result : Except Error Unit) (broken : Prop), handlerPort.watch.wp
          (((perform (.unregisterClient client)).bind fun _ =>
            (perform (.abortTasks client)).bind fun _ =>
              (Prog.ofExcept (result.map fun _ => true) : ServerProg Error Bool)).rename asHandler)
          (fun _ _ => True) (fun _ _ => True) broken := by
        intro result broken
        refine ⟨fun _ => hunregister, fun _ _ => ⟨fun _ => habort, fun _ _ => ?_⟩⟩
        cases result with
        | error e => trivial
        | ok _ => trivial
      have hsession : ((processControl cfg client acl turns).rename asHandler).StopsOn
          handlerPort.Broke := by
        apply stopsOn_rename
        induction turns with
        | zero => trivial
        | succ n ih =>
          refine (ProcessControl.stopsOn_processCommand cfg client acl).bind fun r => ?_
          cases r with
          | some a => trivial
          | none => exact ih
      have hsound : ¬ ((b ∨ handlerPort.Broke (.server (.registerClient login addr)) (.ok client)) ∨
          handlerPort.Broke (.server (.write client.token.bytes)) (.ok ())) :=
        fun h => h.elim (fun h => h.elim hb id) id
      change handlerPort.watch.wp (Prog.rename asHandler
        ((processControl cfg client acl turns).attempt.bind fun result =>
          (perform (.unregisterClient client)).bind fun _ =>
            (perform (.abortTasks client)).bind fun _ =>
              (Prog.ofExcept (result.map fun _ => true) : ServerProg Error Bool))) _ _ _
      rw [Prog.rename_bind, Prog.rename_attempt, Monitor.wp_bind, Monitor.wp_attempt]
      exact Monitor.wp_mono (fun a b _ => hleave (.ok a) b) (fun e b _ => hleave (.error e) b)
        (Port.wp_watch_of_stopsOn hsession hsound)

theorem wp_watch_bind {α β : Type} {p : HandlerProg α} {f : α → HandlerProg β} {b : Prop}
    (hp : p.StopsOn handlerPort.Broke) (hb : ¬ b)
    (hf : ∀ a b, ¬ b → handlerPort.watch.wp (f a) (fun _ _ => True) (fun _ _ => True) b) :
    handlerPort.watch.wp (p.bind f) (fun _ _ => True) (fun _ _ => True) b := by
  rw [Monitor.wp_bind]
  exact Monitor.wp_mono (fun a b hb => hf a b hb) (fun _ _ _ => trivial)
    (Port.wp_watch_of_stopsOn hp hb)

theorem wp_watch_rename_bind {α β : Type} {p : ServerProg Error α} {f : α → ServerProg Error β}
    {b : Prop} (hp : p.StopsOn ProcessControl.port.Broke) (hb : ¬ b)
    (hf : ∀ a b, ¬ b →
      handlerPort.watch.wp ((f a).rename asHandler) (fun _ _ => True) (fun _ _ => True) b) :
    handlerPort.watch.wp ((p.bind f).rename asHandler) (fun _ _ => True) (fun _ _ => True) b := by
  rw [Prog.rename_bind]
  exact wp_watch_bind (stopsOn_rename hp) hb hf

theorem Streams.wp_watch_control (h : Streams cfg peer init control) {b : Prop} (hb : ¬ b) :
    handlerPort.watch.wp (control.rename asHandler) (fun _ _ => True) (fun _ _ => True) b := by
  cases h with
  | tcp addr tlsConfigured allowNoTls turns =>
    refine wp_watch_rename_bind (ProcessControl.stopsOn_readFrame _) hb fun frame b hb => ?_
    refine wp_watch_rename_bind (Prog.stopsOn_ofExcept _) hb fun login b hb => ?_
    cases (splitFirst 0 frame).2 with
    | none => trivial
    | some rest =>
      refine wp_watch_rename_bind (Prog.stopsOn_ofExcept _) hb fun password b hb => ?_
      have hauth : (authenticateTcp cfg login password addr).StopsOn ProcessControl.port.Broke := by
        unfold authenticateTcp
        split_ifs
        · trivial
        · trivial
        · refine .call (fun _ => id) fun verified => ?_
          rw [Prog.ret_bind]
          split_ifs
          · trivial
          · trivial
      refine wp_watch_rename_bind hauth hb fun _ b hb => ?_
      refine wp_watch_rename_bind (p := perform (.getAcl login)) (.call (fun _ => id) fun _ => trivial)
        hb fun acl b hb => ?_
      cases acl with
      | none => trivial
      | some acl => exact wp_watch_serveClient acl login addr turns hb
  | unix path turns =>
    refine wp_watch_rename_bind (ProcessControl.stopsOn_readFrame _) hb fun frame b hb => ?_
    refine wp_watch_rename_bind (Prog.stopsOn_ofExcept _) hb fun login b hb => ?_
    exact wp_watch_serveClient Acl.newFull login path turns hb

theorem Streams.careful (h : Streams cfg peer init control) :
    handlerPort.Careful (peer.connection cfg) := by
  rw [connection_eq h]
  refine Port.careful_of_wp (wp_watch_bind (stopsOn_rename h.stopsOn_init) id fun st b hb => ?_)
  unfold afterGreeting
  split_ifs
  · exact wp_watch_bind stopsOn_launchDataStream hb fun _ _ _ => trivial
  · exact h.wp_watch_control hb

end

end Psrt

import Psrt.Timed.Server

/-! The handlers with their clock do what the handlers without it do: every run of the one is a run of the
other, so what is known of all runs of these is known of those. -/

namespace Psrt.Timed
open Wire Interaction ClockProg

theorem erases_own {α : Type} (timeout : Nat) (p : ServerProg Error α) :
    Erases (own timeout p) (p.rename asHandler) := .limited _ _

theorem erases_readWithTimeout (n timeout : Nat) :
    Erases (readWithTimeout n timeout) ((readExact n).rename asHandler) :=
  .within rfl fun r => by
    show Erases (.ofExcept r.2) ((Prog.ofExcept r.2).rename asHandler)
    rw [Prog.rename_ofExcept]
    exact .ofExcept r.2

theorem erases_readFrameWithTimeout (maxLength : Option Nat) (timeout : Nat) :
    Erases (readFrameWithTimeout maxLength timeout) ((readFrame maxLength).rename asHandler) := by
  refine .now fun opStart => ?_
  rw [readFrame, readFrameWith, Prog.bind_eq, Prog.rename_bind]
  refine (erases_readWithTimeout 4 timeout).bind fun lenBuf => ?_
  dsimp only
  split_ifs
  · exact .throw _
  · exact .reduce fun limit => erases_readWithTimeout _ limit

theorem erases_readArm (cfg : Config) (timeout opStart : Nat) (op : UInt8) :
    Erases (readArm cfg timeout opStart op) ((Psrt.readArm cfg op).rename asHandler) := by
  unfold readArm Psrt.readArm
  have hframe : ∀ (maxLength : Nat) (f : Bytes → Request),
      Erases (.bind (reduceTimeout timeout opStart) fun limit =>
          (readFrameWithTimeout (some maxLength) limit).bind fun data => .ret (f data))
        (((readFrame (some maxLength)).bind fun data => .ret (f data)).rename asHandler) := by
    intro maxLength f
    rw [Prog.rename_bind]
    exact .reduce fun limit => (erases_readFrameWithTimeout _ limit).bind fun data => .ret rfl
  split_ifs
  · exact .ret rfl
  · exact hframe _ _
  · exact hframe _ _
  · refine .within rfl fun r => .reduce fun limit => ?_
    simp only [Prog.bind_eq, Prog.rename_bind]
    refine (erases_readWithTimeout 1 limit).bind fun prio => ?_
    have hbuf := hframe cfg.maxPubSize fun buf => .publish r.2 (prio.headD defaultPriority) buf
    rwa [Prog.rename_bind] at hbuf
  · exact hframe _ _
  · exact .throw _
  · exact .ret rfl
  · exact .throw _

theorem erases_handlePublishRepl (cfg : Config) (acl : Acl) (timeout opStart : Nat)
    (topicData : Bytes) : Erases (handlePublishRepl acl cfg timeout opStart topicData)
      ((Psrt.handlePublishRepl cfg acl topicData).rename asHandler) := by
  unfold handlePublishRepl Psrt.handlePublishRepl
  simp only [Prog.bind_eq, Prog.rename_bind, Prog.rename_ofExcept]
  refine Erases.bind (.ofExcept _) fun topic => ?_
  split_ifs
  · rw [Prog.rename_bind]
    refine (erases_own timeout _).bind fun subscribers => ?_
    split_ifs
    · exact erases_own timeout _
    · simp only [Prog.rename_bind]
      exact (erases_own timeout _).bind fun _ => .reduce fun limit =>
        (erases_readWithTimeout 1 limit).bind fun prio => .reduce fun limit =>
          (erases_readWithTimeout 8 limit).bind fun tsBuf => .reduce fun limit =>
            (erases_readFrameWithTimeout _ limit).bind fun data =>
              (erases_own timeout _).bind fun _ => erases_own timeout _
  · exact erases_own timeout _

theorem erases_handleRequest (cfg : Config) (client : ServerClient) (acl : Acl)
    (timeout opStart : Nat) (request : Request) :
    Erases (handleRequest cfg client acl timeout opStart request)
      ((Psrt.handleRequest cfg client acl request).rename asHandler) := by
  cases request with
  | publishRepl topicData =>
    rw [Psrt.handleRequest, Prog.bind_eq, Prog.rename_bind]
    exact (erases_handlePublishRepl cfg acl timeout opStart topicData).bind fun _ => .ret rfl
  | nop => exact erases_own timeout _
  | subscribe data => exact erases_own timeout _
  | unsubscribe data => exact erases_own timeout _
  | publish timestamp priority buf => exact erases_own timeout _
  | bye => exact erases_own timeout _

theorem erases_processCommand (cfg : Config) (client : ServerClient) (acl : Acl) (timeout : Nat) :
    Erases (processCommand cfg client acl timeout)
      ((Psrt.processCommand cfg client acl).rename asHandler) := by
  unfold Psrt.processCommand readRequest
  simp only [Prog.bind_eq, Prog.rename_bind, Prog.bind_assoc]
  exact .now fun opStart => (erases_readWithTimeout 1 timeout).bind fun cmd =>
    (erases_readArm cfg timeout opStart _).bind fun request =>
      erases_handleRequest cfg client acl timeout opStart request

theorem erases_processControl (cfg : Config) (client : ServerClient) (acl : Acl)
    (timeout turns : Nat) : Erases (processControl cfg client acl timeout turns)
      ((Psrt.processControl cfg client acl turns).rename asHandler) := by
  unfold processControl Psrt.processControl
  rw [Prog.rename_loop]
  exact (erases_processCommand cfg client acl timeout).loop turns

theorem erases_serveClient (cfg : Config) (acl : Acl) (login addr : Str) (timeout turns : Nat) :
    Erases (serveClient cfg acl login addr timeout turns)
      ((Psrt.serveClient cfg acl login addr turns).rename asHandler) := by
  unfold serveClient Psrt.serveClient
  simp only [Prog.bind_eq, Prog.rename_bind, Prog.rename_ofExcept, Prog.rename_attempt]
  exact (erases_own timeout _).bind fun r => Erases.bind (.ofExcept r) fun client =>
    (erases_own timeout _).bind fun _ =>
      (erases_processControl cfg client acl timeout turns).attempt.bind fun result =>
        (erases_own timeout _).bind fun _ => (erases_own timeout _).bind fun _ => .ofExcept _

theorem erases_launchDataStream (timeout : Nat) :
    Erases (launchDataStream timeout) Psrt.launchDataStream := by
  refine .now fun opStart => (erases_readWithTimeout 32 timeout).bind fun buf =>
    .reduce fun limit => (erases_readWithTimeout 1 limit).bind fun octet =>
      .within rfl fun channel => .within rfl fun r => ?_
  obtain ⟨duration, r⟩ := r
  cases r with
  | ok client => exact Erases.limited _ _
  | error e => exact (erases_own timeout _).bind fun _ => .throw e

theorem erases_tcpControl (cfg : Config) (addr : Str) (timeout turns : Nat) :
    Erases (tcpControl cfg addr timeout turns)
      ((Psrt.tcpControl cfg addr turns).rename asHandler) := by
  unfold tcpControl Psrt.tcpControl
  simp only [Prog.bind_eq, Prog.rename_bind, Prog.rename_ofExcept]
  refine (erases_readFrameWithTimeout _ timeout).bind fun frame => Erases.bind (.ofExcept _) fun login => ?_
  cases (splitFirst 0 frame).2 with
  | none => exact .throw _
  | some rest =>
    simp only [Prog.rename_bind, Prog.rename_ofExcept]
    refine Erases.bind (.ofExcept _) fun password => (erases_own timeout _).bind fun _ =>
      (erases_own timeout _).bind fun acl => ?_
    cases acl with
    | none => exact .throw _
    | some acl => exact erases_serveClient cfg acl login addr timeout turns

theorem erases_unixControl (cfg : Config) (path : Str) (timeout turns : Nat) :
    Erases (unixControl cfg path timeout turns)
      ((Psrt.unixControl cfg path turns).rename asHandler) := by
  unfold unixControl Psrt.unixControl
  simp only [Prog.bind_eq, Prog.rename_bind, Prog.rename_ofExcept]
  exact (erases_readFrameWithTimeout _ timeout).bind fun frame => Erases.bind (.ofExcept _) fun login =>
    erases_serveClient cfg Acl.newFull login path timeout turns

theorem erases_afterGreeting {timeout : Nat} {control : TimedProg Bool}
    {control' : ServerProg Error Bool} (h : Erases control (control'.rename asHandler))
    (st : StreamType) :
    Erases (if st = .data then (launchDataStream timeout).bind fun _ => .ret false else control)
      (afterGreeting control' st) := by
  unfold afterGreeting
  split_ifs
  · exact (erases_launchDataStream timeout).bind fun _ => .ret rfl
  · exact h

/-- Without its clock a handler is the handler of the model without a clock. -/
theorem erases_connection (cfg : Config) (timeout : Nat) (peer : Peer) :
    Erases (connection cfg timeout peer) (peer.connection cfg) := by
  cases peer with
  | tcp addr tlsConfigured allowNoTls turns =>
    rw [connection_eq (.tcp addr tlsConfigured allowNoTls turns)]
    exact (erases_own timeout _).bind fun st =>
      erases_afterGreeting (erases_tcpControl cfg addr timeout turns) st
  | unix path turns =>
    rw [connection_eq (.unix path turns)]
    exact (erases_own timeout _).bind fun st =>
      erases_afterGreeting (erases_unixControl cfg path timeout turns) st
  | udp frame => exact .limited _ _

end Psrt.Timed

import Psrt.Client.Connect
import Psrt.Lib.Clock

/-! How a client connects, with its clock: `Client::connect` of `client.rs`, and how long it may wait. Both
of its streams share one timeout. -/

namespace Psrt.Timed
open Wire Interaction ClockProg Client

abbrev TimedConnectProg (α : Type) := ClockProg ConnectOp ConnectOp.Resp Error α

abbrev TimedConnectEvent := ClockEvent ConnectOp ConnectOp.Resp

namespace Connect

def write (config : Client.Config) (opStart : Nat) (link : Link) (buf : Bytes) :
    TimedConnectProg Unit := do
  let limit ← reduceTimeout config.timeout opStart
  .ofExcept (← within (some limit) (ConnectOp.write link buf))

def read (config : Client.Config) (opStart : Nat) (link : Link) (n : Nat) :
    TimedConnectProg Bytes := do
  let limit ← reduceTimeout config.timeout opStart
  .ofExcept (← within (some limit) (ConnectOp.read link n))

def waitSocketTurn (config : Client.Config) (opStart : Nat) : TimedConnectProg (Option Unit) := do
  let found ← within none ConnectOp.pathExists
  if found then .ret (some ())
  else do
    within none (ConnectOp.sleep 100000000)
    let t ← now
    if config.socketWaitTimeout < t - opStart then .throw (.io "UNIX socket not found")
    else .ret none

/-- The start of the timeout: it is set anew once a missing socket has appeared. -/
def waitSocket (config : Client.Config) (opStart turns : Nat) : TimedConnectProg Nat :=
  if isUnixSocket config.path then do
    let found ← within none ConnectOp.pathExists
    if found then .ret opStart
    else (Prog.loop (waitSocketTurn config opStart) turns).bind fun _ => now
  else .ret opStart

def connectLink (config : Client.Config) (link : Link) (limit : Nat) : TimedConnectProg Unit :=
  if isUnixSocket config.path then
    (within (some limit) (ConnectOp.connectUnix link config.path)).bind .ofExcept
  else (within (some limit) (ConnectOp.connectTcp link config.path)).bind .ofExcept

/-- What goes before the reply of the server; the TLS handshake has no limit. -/
def greet (config : Client.Config) (opStart : Nat) (link : Link) : TimedConnectProg Unit :=
  if isUnixSocket config.path then write config opStart link (greeting config link)
  else do
    .ofExcept (← within none (ConnectOp.setNodelay link))
    if config.tls then do
      write config opStart link (greeting config link)
      .ofExcept (← within none ConnectOp.buildConnector)
      .ofExcept (← within none (ConnectOp.connectTls link (pathDomain config.path)))
    else write config opStart link (greeting config link)

def openStream (config : Client.Config) (opStart : Nat) (link : Link) (limit : Nat) :
    TimedConnectProg Unit := do
  connectLink config link limit
  greet config opStart link

def checkReply (config : Client.Config) (opStart : Nat) (link : Link) : TimedConnectProg Unit := do
  let buf ← read config opStart link 2
  if buf ≠ link.header then .throw (.invalidData link.headerError)
  else do
    let buf ← read config opStart link 2
    if leNat buf ≠ protocolVersion then .throw (.invalidData "Protocol version unsupported")
    else .ret ()

def authenticate (config : Client.Config) (opStart : Nat) : TimedConnectProg Bytes := do
  write config opStart .control (authBuf config)
  let limit ← reduceTimeout config.timeout opStart
  (within (some limit) (ConnectOp.read .control 32)).bind fun
    | .ok token => .ret token
    | .error _ => .throw (.access "Login failed")

/-- The first connection has all of the timeout for its limit, not what is left of it. -/
def connectControl (config : Client.Config) (opStart : Nat) : TimedConnectProg Bytes := do
  openStream config opStart .control config.timeout
  checkReply config opStart .control
  authenticate config opStart

def connectData (config : Client.Config) (opStart : Nat) (token : Bytes) : TimedConnectProg Unit :=
  if config.needDataStream then do
    let limit ← reduceTimeout config.timeout opStart
    openStream config opStart .data limit
    checkReply config opStart .data
    write config opStart .data token
    write config opStart .data [UInt8.ofNat (timeoutSecs config)]
    let response ← read config opStart .data 1
    if response.headD 0 ≠ responseOk then .throw (.access "Data stream authentication failed")
    else .ret ()
  else .ret ()

def connectStreams (config : Client.Config) (opStart : Nat) : TimedConnectProg Connected := do
  let token ← connectControl config opStart
  connectData config opStart token
  .ret ⟨config.needDataStream, timeoutSecs config * 1000 / 2⟩

def connect (config : Client.Config) (turns : Nat) : TimedConnectProg Connected := do
  limited (fun _ => none) (addCa config)
  let opStart ← now
  let opStart ← waitSocket config opStart turns
  connectStreams config opStart

def readsElapsed : ConnectOp → Bool
  | .elapsed => true
  | _ => false

theorem erases_write (config : Client.Config) (opStart : Nat) (link : Link) (buf : Bytes) :
    ErasesUpTo readsElapsed Eq (write config opStart link buf) (Client.write link buf) :=
  .reduce fun _ => .within rfl fun r => .ofExcept r.2

theorem erases_read (config : Client.Config) (opStart : Nat) (link : Link) (n : Nat) :
    ErasesUpTo readsElapsed Eq (read config opStart link n) (Client.read link n) :=
  .reduce fun _ => .within rfl fun r => .ofExcept r.2

theorem erases_waitSocketTurn (config : Client.Config) (opStart : Nat) :
    ErasesUpTo readsElapsed Eq (waitSocketTurn config opStart) (Client.waitSocketTurn config) := by
  refine .within rfl fun found => ?_
  simp only [Prog.bind_eq, Prog.ret_bind]
  split_ifs
  · exact .ret rfl
  · refine .within rfl fun _ => .reading rfl (fun t => t - opStart) fun t => ?_
    simp only [Prog.ret_bind]
    split_ifs
    · exact .throw _
    · exact .ret rfl

theorem erases_waitSocket (config : Client.Config) (opStart turns : Nat) :
    ErasesUpTo readsElapsed (fun _ _ => True) (waitSocket config opStart turns)
      (Client.waitSocket config turns) := by
  have hloop : ∀ n, ErasesUpTo readsElapsed (fun _ _ => True)
      ((Prog.loop (waitSocketTurn config opStart) n).bind fun _ => now)
      (Prog.loop (Client.waitSocketTurn config) n) := by
    intro n
    induction n with
    | zero => exact .hang
    | succ n ih =>
      rw [Prog.loop, Prog.loop, Prog.bind_assoc]
      refine (erases_waitSocketTurn config opStart).bind fun r _ hr => ?_
      subst hr
      cases r with
      | some u => exact .now fun t => .ret trivial
      | none => exact ih
  unfold waitSocket Client.waitSocket
  split_ifs
  · refine .within rfl fun found => ?_
    simp only [Prog.ret_bind]
    split_ifs
    · exact .ret trivial
    · exact hloop turns
  · exact .ret trivial

theorem erases_openStream (config : Client.Config) (opStart : Nat) (link : Link) (limit : Nat) :
    ErasesUpTo readsElapsed Eq (openStream config opStart link limit)
      (Client.openStream config link) := by
  unfold openStream connectLink greet Client.openStream
  have hwrite := erases_write config opStart link (greeting config link)
  split_ifs
  · exact .within rfl fun r => (ErasesUpTo.ofExcept r.2).bind fun _ _ _ => hwrite
  · refine .within rfl fun r => (ErasesUpTo.ofExcept r.2).bind fun _ _ _ => .within rfl fun r =>
      (ErasesUpTo.ofExcept r.2).bind fun _ _ _ => ?_
    exact hwrite.bind fun _ _ _ => .within rfl fun r => (ErasesUpTo.ofExcept r.2).bind fun _ _ _ =>
      .within rfl fun r => .ofExcept r.2
  · exact .within rfl fun r => (ErasesUpTo.ofExcept r.2).bind fun _ _ _ => .within rfl fun r =>
      (ErasesUpTo.ofExcept r.2).bind fun _ _ _ => hwrite

theorem erases_checkReply (config : Client.Config) (opStart : Nat) (link : Link) :
    ErasesUpTo readsElapsed Eq (checkReply config opStart link) (Client.checkReply link) := by
  refine (erases_read config opStart link 2).bind fun buf _ hbuf => ?_
  subst hbuf
  split_ifs
  · exact .throw _
  · refine (erases_read config opStart link 2).bind fun buf _ hbuf => ?_
    subst hbuf
    split_ifs
    · exact .throw _
    · exact .ret rfl

theorem erases_connectControl (config : Client.Config) (opStart : Nat) :
    ErasesUpTo readsElapsed Eq (connectControl config opStart)
      ((Client.openStream config .control).bind fun _ => (Client.checkReply .control).bind fun _ =>
        Client.authenticate config) := by
  refine (erases_openStream config opStart .control _).bind fun _ _ _ =>
    (erases_checkReply config opStart .control).bind fun _ _ _ =>
      (erases_write config opStart .control _).bind fun _ _ _ => .reduce fun limit =>
        .within rfl fun r => ?_
  obtain ⟨duration, r⟩ := r
  cases r with
  | ok token => exact .ret rfl
  | error e => exact .throw _

theorem erases_connectData (config : Client.Config) (opStart : Nat) (token : Bytes) :
    ErasesUpTo readsElapsed Eq (connectData config opStart token)
      (Client.connectData config token) := by
  unfold connectData Client.connectData
  split_ifs
  · refine .reduce fun limit => (erases_openStream config opStart .data limit).bind fun _ _ _ =>
      (erases_checkReply config opStart .data).bind fun _ _ _ =>
        (erases_write config opStart .data token).bind fun _ _ _ =>
          (erases_write config opStart .data _).bind fun _ _ _ =>
            (erases_read config opStart .data 1).bind fun response _ hresponse => ?_
    subst hresponse
    split_ifs
    · exact .throw _
    · exact .ret rfl
  · exact .ret rfl

theorem erases_connect (config : Client.Config) (turns : Nat) :
    ErasesUpTo readsElapsed Eq (connect config turns) (Client.connect config turns) := by
  have haddCa : ErasesUpTo readsElapsed Eq (limited (fun _ => none) (addCa config))
      (addCa config) := by
    unfold addCa
    split_ifs
    · cases config.tlsCa with
      | none => exact .ret rfl
      | some ca =>
        refine .within rfl fun r => ?_
        obtain ⟨duration, r⟩ := r
        cases r with
        | ok u => exact .ret rfl
        | error e => exact .throw e
    · exact .ret rfl
  unfold Client.connect Client.connectControl
  simp only [Prog.bind_eq, Prog.bind_assoc]
  refine haddCa.bind fun _ _ _ => .now fun start => (erases_waitSocket config start turns).bind
    fun opStart _ _ => ?_
  have hstreams : ErasesUpTo readsElapsed Eq (connectStreams config opStart)
      (((Client.openStream config .control).bind fun _ => (Client.checkReply .control).bind fun _ =>
        Client.authenticate config).bind fun token => (Client.connectData config token).bind fun _ =>
          .ret ⟨config.needDataStream, timeoutSecs config * 1000 / 2⟩) := by
    refine (erases_connectControl config opStart).bind fun token _ htoken => ?_
    subst htoken
    exact (erases_connectData config opStart token).bind fun _ _ _ => .ret rfl
  simp only [Prog.bind_assoc] at hstreams
  exact hstreams

section
variable {config : Client.Config} {start base bound : Nat}

theorem takes_fallible {α : Type} (limit : Nat) {o : ConnectOp}
    (k : o.Resp → Except Error α) : Takes limit
      ((within (some limit) o).bind fun r => .ofExcept (k r) : TimedConnectProg α) :=
  takes_of_meets fun _ _ =>
    ((takes_within limit _).meets (Nat.zero_add limit).le).bind (fun _ => meets_ofExcept _) le_rfl

theorem meets_write (link : Link) (buf : Bytes) :
    Meets start base config.timeout config.timeout (write config start link buf) :=
  meets_reduce (fun limit => takes_fallible limit (o := .write link buf) id) le_rfl

theorem meets_read (link : Link) (n : Nat) :
    Meets start base config.timeout config.timeout (read config start link n) :=
  meets_reduce (fun limit => takes_fallible limit (o := .read link n) id) le_rfl

theorem takes_connectLink (link : Link) (limit : Nat) : Takes limit (connectLink config link limit) := by
  unfold connectLink
  split_ifs
  · exact takes_fallible limit (o := .connectUnix link config.path) id
  · exact takes_fallible limit (o := .connectTcp link config.path) id

theorem meets_greet (link : Link) :
    Meets start base config.timeout config.timeout (greet config start link) := by
  have hfree : ∀ {o : ConnectOp} (k : o.Resp → Except Error Unit) {f : Unit → TimedConnectProg Unit},
      (∀ u, Meets start base config.timeout config.timeout (f u)) →
        Meets start base config.timeout config.timeout
          ((within none o).bind fun r => (Prog.ofExcept (k r)).bind f) := by
    intro o k f hf
    exact (meets_within_none _).bind (fun r => (meets_ofExcept (k r)).bind hf le_rfl) le_rfl
  have hwrite : Meets start base config.timeout config.timeout
      (write config start link (greeting config link)) := meets_write link _
  unfold greet
  split_ifs
  · exact hwrite
  · exact hfree (o := .setNodelay link) id fun _ => hwrite.bind (fun _ =>
      hfree (o := .buildConnector) id fun _ => (meets_within_none _).bind
        (fun r => meets_ofExcept r) le_rfl) le_rfl
  · exact hfree (o := .setNodelay link) id fun _ => hwrite

theorem meets_checkReply (link : Link) :
    Meets start base config.timeout config.timeout (checkReply config start link) := by
  refine (meets_read link 2).bind (fun buf => ?_) le_rfl
  split_ifs
  · exact meets_throw _
  · refine (meets_read link 2).bind (fun buf => ?_) le_rfl
    split_ifs
    · exact meets_throw _
    · exact meets_ret _

theorem meets_connectControl :
    Meets start base 0 config.timeout (connectControl config start) := by
  have hopen : Meets start base 0 config.timeout (openStream config start .control config.timeout) :=
    ((takes_connectLink .control _).meets (Nat.zero_add _).le).bind (fun _ => meets_greet .control)
      le_rfl
  refine hopen.bind (fun _ => (meets_checkReply .control).bind (fun _ => ?_) le_rfl) le_rfl
  refine (meets_write .control _).bind (fun _ => ?_) le_rfl
  refine meets_reduce (fun limit => takes_of_meets fun _ _ =>
    ((takes_within limit _).meets (Nat.zero_add limit).le).bind (fun r => ?_) le_rfl) le_rfl
  cases r with
  | ok token => exact meets_ret token
  | error e => exact meets_throw _

theorem meets_connectData (token : Bytes) :
    Meets start base config.timeout config.timeout (connectData config start token) := by
  unfold connectData
  split_ifs
  · have hopen : Meets start base config.timeout config.timeout
        ((reduceTimeout config.timeout start).bind fun limit => connectLink config .data limit) :=
      meets_reduce (takes_connectLink .data) le_rfl
    simp only [openStream, Prog.bind_eq, Prog.bind_assoc]
    rw [← Prog.bind_assoc]
    refine hopen.bind (fun _ => (meets_greet .data).bind (fun _ => ?_) le_rfl) le_rfl
    refine (meets_checkReply .data).bind (fun _ => (meets_write .data token).bind (fun _ => ?_) le_rfl)
      le_rfl
    refine (meets_write .data _).bind (fun _ => (meets_read .data 1).bind (fun response => ?_) le_rfl)
      le_rfl
    split_ifs
    · exact meets_throw _
    · exact meets_ret _
  · exact meets_ret _

theorem meets_connectStreams :
    Meets start base 0 config.timeout (connectStreams config start) :=
  meets_connectControl.bind (fun token => (meets_connectData token).bind (fun _ => meets_ret _) le_rfl)
    le_rfl

theorem meets_waitSocketTurn : Meets start base bound bound (waitSocketTurn config start) := by
  refine (meets_within_none _).bind (fun found => ?_) le_rfl
  split_ifs
  · exact meets_ret _
  · refine (meets_within_none _).bind (fun _ => meets_now (fun t => ?_) le_rfl) le_rfl
    split_ifs
    · exact meets_throw _
    · exact meets_ret _

theorem meets_waitSocket (turns : Nat) : Meets start base 0 config.timeout
    ((waitSocket config start turns).bind (connectStreams config)) := by
  have hstreams : Meets start base 0 config.timeout (connectStreams config start) :=
    meets_connectStreams
  unfold waitSocket
  split_ifs
  · rw [Prog.bind_eq, Prog.bind_assoc]
    refine (meets_within_none _).bind (fun found => ?_) (Nat.zero_le _)
    split_ifs
    · exact hstreams
    · rw [Prog.bind_assoc]
      refine (meets_loop meets_waitSocketTurn turns).bind (fun _ => ?_) (Nat.zero_le _)
      exact (takes_now fun _ _ => meets_connectStreams).meets (Nat.zero_add _).le
  · exact hstreams

end

/-- However slow the server is: `connect` waits for its connections and for both of its streams for one
timeout in all at most, less TLS handshakes and the time a missing socket takes to appear. -/
theorem takes_connect (config : Client.Config) (turns : Nat) :
    Takes config.timeout (connect config turns) := by
  have haddCa : (addCa config).Calls fun _ => (none : Option Nat) = none := by
    unfold addCa
    split_ifs
    · cases config.tlsCa with
      | none => trivial
      | some ca => exact ⟨rfl, fun r => Prog.calls_ofExcept r⟩
    · trivial
  exact takes_of_meets fun start base => (meets_limited_of_calls haddCa).bind
    (fun _ => (takes_now fun _ _ => meets_waitSocket turns).meets (Nat.zero_add _).le) (Nat.zero_le _)

end Connect

end Psrt.Timed

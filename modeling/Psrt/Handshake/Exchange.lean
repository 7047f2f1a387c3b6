import Psrt.Handshake.Server

/-! The exchange of a handler: what it has sent and read of its stream, and the client or data channel it
has registered, at any point of its run. -/

namespace Psrt
open Wire Interaction

structure Exchange where
  offered : Bytes
  taken : Bytes
  events : List ServerEvent
  clients : List (Str × ServerClient)
  channels : List (Token × ServerClient)

namespace Exchange

def start : Exchange := ⟨[], [], [], [], []⟩

end Exchange

def clientsOf : HandlerEvent → List (Str × ServerClient)
  | ⟨.server (.registerClient login _), .ok client⟩ => [(login, client)]
  | _ => []

def channelsOf : HandlerEvent → List (Token × ServerClient)
  | ⟨.registerDataChannel token _, .ok client⟩ => [(token, client)]
  | _ => []

def serverEventsOf : HandlerEvent → List ServerEvent
  | ⟨.server o, r⟩ => [⟨o, r⟩]
  | _ => []

def Exchange.next (s : Exchange) (o : HandlerOp) (r : o.Resp) : Exchange where
  offered := s.offered ++ handlerPort.offer o
  taken := s.taken ++ handlerPort.take o r
  events := s.events ++ serverEventsOf ⟨o, r⟩
  clients := s.clients ++ clientsOf ⟨o, r⟩
  channels := s.channels ++ channelsOf ⟨o, r⟩

/-- What gives a peer the right to a login: the octets of its login frame, and on TCP the check of the
credentials in them and an access list. -/
def Vouched (cfg : Config) (events : List ServerEvent) (login : Str) (frame : Bytes) : Peer → Prop
  | .tcp _ _ _ _ => ∃ password acl, frame = utf8 login ++ 0 :: utf8 password ∧ 0 ∉ utf8 login ∧
      Credentials cfg (evidence events) login password ∧ (evidence events).acl login acl
  | .unix _ _ => (splitFirst 0 frame).1 = utf8 login
  | .udp _ => False

theorem Vouched.mono {cfg : Config} {events events' : List ServerEvent} {login : Str}
    {frame : Bytes} {peer : Peer} (h : Vouched cfg events login frame peer)
    (hsub : events ⊆ events') : Vouched cfg events' login frame peer := by
  cases peer with
  | tcp addr tlsConfigured allowNoTls turns =>
    obtain ⟨password, acl, hframe, hlogin, hcred, hacl⟩ := h
    have hle := evidence_le hsub
    exact ⟨password, acl, hframe, hlogin, hcred.mono hle, hle.acl _ _ hacl⟩
  | unix path turns => exact h
  | udp frame => exact h

structure Greeted (greeting : Bytes) (st : StreamType) (got : Bytes) (s : Exchange) : Prop where
  length : greeting.length = 3
  asks : streamType greeting = .ok st
  offered : s.offered = replyHeader greeting
  taken : s.taken = greeting ++ got
  clients : s.clients = []
  channels : s.channels = []

structure Unregistered (s : Exchange) : Prop where
  clients : s.clients = []
  channels : s.channels = []
  offered : s.offered = [] ∨ ∃ greeting got, s.taken = greeting ++ got ∧ greeting.length = 3 ∧
    s.offered <+: replyHeader greeting ++ [responseErr]

structure Serves (cfg : Config) (peer : Peer) (login : Str) (client : ServerClient) (sent : Bytes)
    (s : Exchange) : Prop where
  clients : s.clients = [(login, client)]
  channels : s.channels = []
  frames : ∃ greeting lenBuf frame got, s.taken = greeting ++ (lenBuf ++ (frame ++ got)) ∧
    greeting.length = 3 ∧ lenBuf.length = 4 ∧ frame.length = leNat lenBuf ∧
    streamType greeting = .ok .control ∧ s.offered = replyHeader greeting ++ sent ∧
    Vouched cfg s.events login frame peer

structure Feeds (token : Token) (client : ServerClient) (s : Exchange) : Prop where
  clients : s.clients = []
  channels : s.channels = [(token, client)]
  frames : ∃ greeting timeout, s.taken = greeting ++ (token.bytes ++ timeout) ∧ greeting.length = 3 ∧
    timeout.length = 1 ∧ streamType greeting = .ok .data ∧
    s.offered <+: replyHeader greeting ++ [responseOk]

inductive Shape (cfg : Config) (peer : Peer) (s : Exchange) : Prop
  | unregistered (h : Unregistered s)
  | serves (login : Str) (client : ServerClient) (sent : Bytes)
      (h : Serves cfg peer login client sent s) (hsent : sent = [] ∨ client.token.bytes <+: sent)
  | feeds (token : Token) (client : ServerClient) (h : Feeds token client s)

def HandlerExact : (o : HandlerOp) → o.Resp → Prop
  | .server o, r => ProcessControl.Exact o r
  | _, _ => True

abbrev exchangeMonitor (cfg : Config) (peer : Peer) : Monitor HandlerOp HandlerOp.Resp Exchange :=
  Monitor.keeps (fun _ => HandlerExact) Exchange.next (Shape cfg peer)

abbrev serverMonitor (cfg : Config) (peer : Peer) : Monitor ServerOp ServerOp.Resp Exchange :=
  Monitor.keeps (fun _ => ProcessControl.Exact) (fun s o r => s.next (.server o) r) (Shape cfg peer)

theorem wp_rename_server {cfg : Config} {peer : Peer} {α : Type} {p : ServerProg Error α}
    {Q : α → Exchange → Prop} {s : Exchange}
    (h : (serverMonitor cfg peer).wp p Q (fun _ _ => True) s) :
    (exchangeMonitor cfg peer).wp (p.rename asHandler) Q (fun _ _ => True) s :=
  Monitor.wp_rename asHandler h

section
variable {cfg : Config} {peer : Peer} {s : Exchange} {α : Type} {Q : α → Exchange → Prop}

def NoClient : ServerOp → Prop
  | .registerClient _ _ => False
  | _ => True

theorem clientsOf_eq_nil {o : ServerOp} (ho : NoClient o) (r : o.Resp) :
    clientsOf ⟨.server o, r⟩ = [] := by
  cases o with
  | registerClient login addr => exact ho.elim
  | _ => rfl

namespace Greeted
variable {greeting got : Bytes} {st : StreamType}

theorem shape (h : Greeted greeting st got s) : Shape cfg peer s := by
  refine .unregistered ⟨h.clients, h.channels, .inr ⟨greeting, got, h.taken, h.length, ?_⟩⟩
  rw [h.offered]
  exact List.prefix_append ..

theorem next (h : Greeted greeting st got s) {o : HandlerOp} {r : o.Resp}
    (hoffer : handlerPort.offer o = []) (hclients : clientsOf ⟨o, r⟩ = [])
    (hchannels : channelsOf ⟨o, r⟩ = []) :
    Greeted greeting st (got ++ handlerPort.take o r) (s.next o r) := by
  refine ⟨h.length, h.asks, ?_, ?_, ?_, ?_⟩
  · change s.offered ++ handlerPort.offer o = _
    rw [hoffer, List.append_nil, h.offered]
  · change s.taken ++ handlerPort.take o r = _
    rw [h.taken, List.append_assoc]
  · change s.clients ++ clientsOf ⟨o, r⟩ = []
    rw [hclients, List.append_nil, h.clients]
  · change s.channels ++ channelsOf ⟨o, r⟩ = []
    rw [hchannels, List.append_nil, h.channels]

theorem wp_readExact (h : Greeted greeting st got s) {n : Nat} {f : Bytes → ServerProg Error α}
    (hf : ∀ b s', b.length = n → Greeted greeting st (got ++ b) s' →
      (serverMonitor cfg peer).wp (f b) Q (fun _ _ => True) s') :
    (serverMonitor cfg peer).wp ((readExact n).bind f) Q (fun _ _ => True) s := by
  refine Monitor.wp_keeps_call fun r hr => ?_
  have hnext := h.next (o := .server (.read n)) (r := r) rfl rfl rfl
  refine ⟨hnext.shape, ?_⟩
  cases r with
  | error e => trivial
  | ok b => exact hf b _ (hr b rfl) hnext

theorem wp_ask (h : Greeted greeting st got s) {o : ServerOp} (hoffer : handlerPort.offer (.server o) = [])
    (htake : ∀ r, handlerPort.take (.server o) r = []) (ho : NoClient o) {f : o.Resp → ServerProg Error α}
    (hf : ∀ r, Greeted greeting st got (s.next (.server o) r) →
      (serverMonitor cfg peer).wp (f r) Q (fun _ _ => True) (s.next (.server o) r)) :
    (serverMonitor cfg peer).wp ((perform o).bind f) Q (fun _ _ => True) s := by
  refine Monitor.wp_keeps_call fun r _ => ?_
  have hnext := h.next (o := .server o) (r := r) hoffer (clientsOf_eq_nil ho r) rfl
  rw [htake, List.append_nil] at hnext
  exact ⟨hnext.shape, hf r hnext⟩

end Greeted

theorem Serves.next {login : Str} {client : ServerClient} {sent : Bytes}
    (h : Serves cfg peer login client sent s) {o : ServerOp} (ho : NoClient o) (r : o.Resp) :
    Serves cfg peer login client (sent ++ ProcessControl.port.offer o) (s.next (.server o) r) := by
  obtain ⟨greeting, lenBuf, frame, got, htaken, hgreeting, hlen, hframe, hasks, hoffered, hvouched⟩ :=
    h.frames
  refine ⟨?_, (List.append_nil _).trans h.channels, greeting, lenBuf, frame,
    got ++ handlerPort.take (.server o) r, ?_, hgreeting, hlen, hframe, hasks, ?_,
    hvouched.mono (List.subset_append_left ..)⟩
  · change s.clients ++ clientsOf ⟨.server o, r⟩ = _
    rw [clientsOf_eq_nil ho r, List.append_nil, h.clients]
  · change s.taken ++ handlerPort.take (.server o) r = _
    rw [htaken]
    simp only [List.append_assoc]
  · change s.offered ++ ProcessControl.port.offer o = _
    rw [hoffered, List.append_assoc]

theorem Serves.wp_of_calls {login : Str} {client : ServerClient} {sent : Bytes} {β : Type}
    {p : ServerProg Error β} (hp : p.Calls NoClient) (hs : Serves cfg peer login client sent s)
    (hsent : client.token.bytes <+: sent) :
    (serverMonitor cfg peer).wp p
      (fun _ s' => ∃ sent, Serves cfg peer login client sent s' ∧ client.token.bytes <+: sent)
      (fun _ s' => ∃ sent, Serves cfg peer login client sent s' ∧ client.token.bytes <+: sent) s := by
  have hstep : ∀ (s' : Exchange) (o : ServerOp) (r : o.Resp),
      (∃ sent, Serves cfg peer login client sent s' ∧ client.token.bytes <+: sent) → NoClient o →
        ∃ sent, Serves cfg peer login client sent (s'.next (.server o) r) ∧
          client.token.bytes <+: sent := by
    rintro s' o r ⟨sent, hserves, hsent⟩ ho
    exact ⟨_, hserves.next ho r, hsent.trans (List.prefix_append ..)⟩
  refine Monitor.wp_of_calls (I := fun s' => ∃ sent, Serves cfg peer login client sent s' ∧
    client.token.bytes <+: sent) (fun s' o r hi ho _ => hstep s' o r hi ho) ?_ hp ⟨sent, hs, hsent⟩
  intro s' o hi ho r _
  obtain ⟨sent, hserves, hsent⟩ := hstep s' o r hi ho
  exact .serves login client sent hserves (.inr hsent)

theorem wp_serveClient {greeting lenBuf frame : Bytes} {acl : Acl} {login addr : Str} {turns : Nat}
    (hs : Greeted greeting .control (lenBuf ++ frame) s) (hlen : lenBuf.length = 4)
    (hframe : frame.length = leNat lenBuf) (hvouched : Vouched cfg s.events login frame peer) :
    (serverMonitor cfg peer).wp (serveClient cfg acl login addr turns) (fun _ _ => True)
      (fun _ _ => True) s := by
  refine Monitor.wp_keeps_call fun r _ => ?_
  cases r with
  | error e =>
    have hnext := hs.next (o := .server (.registerClient login addr)) (r := .error e) rfl rfl rfl
    exact ⟨hnext.shape, trivial⟩
  | ok client =>
    have hserves : Serves cfg peer login client []
        (s.next (.server (.registerClient login addr)) (.ok client)) := by
      refine ⟨?_, (List.append_nil _).trans hs.channels, greeting, lenBuf, frame, [], ?_, hs.length,
        hlen, hframe, hs.asks, ?_, hvouched.mono (List.subset_append_left ..)⟩
      · change s.clients ++ [(login, client)] = _
        rw [hs.clients, List.nil_append]
      · change s.taken ++ [] = _
        rw [hs.taken, List.append_nil, List.append_nil]
      · change s.offered ++ [] = _
        rw [hs.offered]
    refine ⟨.serves login client [] hserves (.inl rfl), ?_⟩
    refine Monitor.wp_keeps_call fun r _ => ?_
    have htold := hserves.next (o := .write client.token.bytes) trivial r
    refine ⟨.serves login client _ htold (.inr List.prefix_rfl), ?_⟩
    cases r with
    | error e => trivial
    | ok _ =>
      have hcontrol : ((processControl cfg client acl turns).attempt.bind fun result =>
          (perform (.unregisterClient client)).bind fun _ =>
            (perform (.abortTasks client)).bind fun _ =>
              (Prog.ofExcept (result.map fun _ => true) : ServerProg Error Bool)).Calls NoClient := by
        have hsession : (processControl cfg client acl turns).Calls NoClient := by
          refine (calls_processControl cfg client acl turns).mono fun o ho => ?_
          cases o with
          | registerClient => exact ho.elim
          | _ => trivial
        exact hsession.attempt.bind fun result => Prog.Calls.bind (Prog.calls_op trivial) fun _ =>
          Prog.Calls.bind (Prog.calls_op trivial) fun _ => Prog.calls_ofExcept _
      exact Monitor.wp_mono (fun _ _ _ => trivial) (fun _ _ _ => trivial)
        (Serves.wp_of_calls hcontrol htold List.prefix_rfl)

theorem wp_readFrame_greeted {greeting : Bytes} {limit : Nat} {f : Bytes → ServerProg Error α}
    (hs : Greeted greeting .control [] s)
    (hf : ∀ lenBuf frame s', lenBuf.length = 4 → frame.length = leNat lenBuf →
      Greeted greeting .control (lenBuf ++ frame) s' →
        (serverMonitor cfg peer).wp (f frame) Q (fun _ _ => True) s') :
    (serverMonitor cfg peer).wp ((readFrame (some limit)).bind f) Q (fun _ _ => True) s := by
  unfold readFrame readFrameWith
  simp only [Prog.bind_eq, Prog.bind_assoc]
  refine hs.wp_readExact fun lenBuf s₁ hlen h₁ => ?_
  split_ifs
  · trivial
  · exact h₁.wp_readExact fun frame s₂ hframe h₂ => hf lenBuf frame s₂ hlen hframe h₂

theorem wp_authenticateTcp_greeted {greeting got : Bytes} (login password addr : Str)
    (hs : Greeted greeting .control got s) :
    (serverMonitor cfg peer).wp (authenticateTcp cfg login password addr)
      (fun _ s' => Greeted greeting .control got s' ∧ Credentials cfg (evidence s'.events) login password)
      (fun _ _ => True) s := by
  unfold authenticateTcp
  split_ifs with hempty hallow
  · simp only [Bool.and_eq_true, List.isEmpty_iff] at hempty
    exact ⟨hs, .inl ⟨hempty.1, hempty.2, hallow⟩⟩
  · trivial
  · refine hs.wp_ask (o := .authenticate login password) rfl (fun _ => rfl) trivial
      fun verified h' => ?_
    cases verified with
    | false => trivial
    | true => exact ⟨h', .inr (List.mem_append_right _ (List.mem_singleton_self _))⟩

theorem wp_tcpControl {greeting : Bytes} (addr : Str) (tlsConfigured allowNoTls : Bool)
    (turns : Nat) (hs : Greeted greeting .control [] s) :
    (serverMonitor cfg (.tcp addr tlsConfigured allowNoTls turns)).wp (tcpControl cfg addr turns)
      (fun _ _ => True) (fun _ _ => True) s := by
  refine wp_readFrame_greeted hs fun lenBuf frame s₁ hlen hframe h₁ => ?_
  cases hl : strFromUtf8 (splitFirst 0 frame).1 with
  | error e => trivial
  | ok login =>
    obtain ⟨hlogin, hwhole⟩ := field_of_splitFirst hl
    simp only [Prog.ofExcept_ok, Prog.bind_eq, Prog.ret_bind]
    cases hrest : (splitFirst 0 frame).2 with
    | none => trivial
    | some rest =>
      cases hp : strFromUtf8 rest with
      | error e =>
        simp only [hp, Prog.ofExcept_error, Prog.throw_bind]
        trivial
      | ok password =>
        simp only [hp, Prog.ofExcept_ok, Prog.ret_bind]
        have hfields : frame = utf8 login ++ 0 :: utf8 password := by
          rw [utf8_of_strFromUtf8 hp]
          exact hwhole rest hrest
        rw [Monitor.wp_bind]
        refine Monitor.wp_mono (fun _ s₂ ⟨h₂, hcred⟩ => ?_) (fun _ _ => id)
          (wp_authenticateTcp_greeted login password addr h₁)
        refine h₂.wp_ask (o := .getAcl login) rfl (fun _ => rfl) trivial fun acl h₃ => ?_
        cases acl with
        | none => trivial
        | some acl =>
          refine wp_serveClient h₃ hlen hframe ⟨password, acl, hfields, hlogin, ?_, ?_⟩
          · exact hcred.mono (evidence_le (List.subset_append_left ..))
          · exact List.mem_append_right _ (List.mem_singleton_self _)

theorem wp_unixControl {greeting : Bytes} (path : Str) (turns : Nat)
    (hs : Greeted greeting .control [] s) :
    (serverMonitor cfg (.unix path turns)).wp (unixControl cfg path turns)
      (fun _ _ => True) (fun _ _ => True) s := by
  refine wp_readFrame_greeted hs fun lenBuf frame s₁ hlen hframe h₁ => ?_
  cases hl : strFromUtf8 (splitFirst 0 frame).1 with
  | error e => trivial
  | ok login => exact wp_serveClient h₁ hlen hframe (utf8_of_strFromUtf8 hl).symm

theorem Streams.wp_control {init : ServerProg Error StreamType} {control : ServerProg Error Bool}
    (h : Streams cfg peer init control) {greeting : Bytes} (hs : Greeted greeting .control [] s) :
    (serverMonitor cfg peer).wp control (fun _ _ => True) (fun _ _ => True) s := by
  cases h with
  | tcp addr tlsConfigured allowNoTls turns =>
    exact wp_tcpControl addr tlsConfigured allowNoTls turns hs
  | unix path turns => exact wp_unixControl path turns hs

structure Silent (greeting : Bytes) (s : Exchange) : Prop where
  offered : s.offered = []
  taken : s.taken = greeting
  clients : s.clients = []
  channels : s.channels = []

theorem Silent.shape {greeting : Bytes} (h : Silent greeting s) : Shape cfg peer s :=
  .unregistered ⟨h.clients, h.channels, .inl h.offered⟩

theorem Silent.wp_reply {greeting : Bytes} {st : StreamType} (h : Silent greeting s)
    (hlen : greeting.length = 3) (hst : streamType greeting = .ok st) :
    (serverMonitor cfg peer).wp ((writeAll (replyHeader greeting)).bind fun _ => .ret st)
      (fun st s => ∃ greeting, Greeted greeting st [] s) (fun _ _ => True) s := by
  refine Monitor.wp_keeps_call fun r _ => ?_
  have hgreeted : Greeted greeting st []
      (s.next (.server (.write (replyHeader greeting))) r) := by
    refine ⟨hlen, hst, ?_, ?_, (List.append_nil _).trans h.clients,
      (List.append_nil _).trans h.channels⟩
    · change s.offered ++ replyHeader greeting = _
      rw [h.offered, List.nil_append]
    · change s.taken ++ [] = _
      rw [h.taken]
  refine ⟨hgreeted.shape, ?_⟩
  cases r with
  | error e => trivial
  | ok _ => exact ⟨greeting, hgreeted⟩

theorem Streams.wp_init {init : ServerProg Error StreamType} {control : ServerProg Error Bool}
    (h : Streams cfg peer init control) :
    (serverMonitor cfg peer).wp init (fun st s => ∃ greeting, Greeted greeting st [] s)
      (fun _ _ => True) .start := by
  have hread : ∀ {f : Bytes → ServerProg Error StreamType},
      (∀ greeting s, greeting.length = 3 → Silent greeting s → (serverMonitor cfg peer).wp (f greeting)
        (fun st s => ∃ greeting, Greeted greeting st [] s) (fun _ _ => True) s) →
      (serverMonitor cfg peer).wp ((readExact 3).bind f)
        (fun st s => ∃ greeting, Greeted greeting st [] s) (fun _ _ => True) .start := by
    intro f hf
    refine Monitor.wp_keeps_call fun r hr => ?_
    cases r with
    | error e =>
      have hsilent : Silent [] (Exchange.start.next (.server (.read 3)) (.error e)) :=
        ⟨rfl, rfl, rfl, rfl⟩
      exact ⟨hsilent.shape, trivial⟩
    | ok greeting =>
      have hsilent : Silent greeting
          (Exchange.start.next (.server (.read 3)) (.ok greeting)) := ⟨rfl, rfl, rfl, rfl⟩
      exact ⟨hsilent.shape, hf greeting _ (hr greeting rfl) hsilent⟩
  cases h with
  | tcp addr tlsConfigured allowNoTls turns =>
    refine hread fun greeting s hlen hs => ?_
    cases hst : streamType greeting with
    | error e => trivial
    | ok st =>
      simp only [Prog.ofExcept_ok, Prog.bind_eq, Prog.ret_bind]
      split_ifs
      · exact hs.wp_reply hlen hst
      · trivial
      · refine Monitor.wp_keeps_call fun r _ => ?_
        have haccepted : Silent greeting (s.next (.server .acceptTls) r) :=
          ⟨(List.append_nil _).trans hs.offered, (List.append_nil _).trans hs.taken,
            (List.append_nil _).trans hs.clients, (List.append_nil _).trans hs.channels⟩
        refine ⟨haccepted.shape, ?_⟩
        cases r with
        | error e => trivial
        | ok _ => exact haccepted.wp_reply hlen hst
      · trivial
      · trivial
  | unix path turns =>
    refine hread fun greeting s hlen hs => ?_
    cases hst : streamType greeting with
    | error e => trivial
    | ok st => exact hs.wp_reply hlen hst

theorem Greeted.wp_readHandler {greeting got : Bytes} {st : StreamType} (h : Greeted greeting st got s)
    {n : Nat} {f : Bytes → HandlerProg α}
    (hf : ∀ b s', b.length = n → Greeted greeting st (got ++ b) s' →
      (exchangeMonitor cfg peer).wp (f b) Q (fun _ _ => True) s') :
    (exchangeMonitor cfg peer).wp (((readExact n).rename asHandler).bind f) Q (fun _ _ => True) s := by
  refine Monitor.wp_keeps_call fun r hr => ?_
  have hnext := h.next (o := .server (.read n)) (r := r) rfl rfl rfl
  refine ⟨hnext.shape, ?_⟩
  cases r with
  | error e => trivial
  | ok b => exact hf b _ (hr b rfl) hnext

theorem Feeds.next {token : Token} {client : ServerClient} (h : Feeds token client s) {o : HandlerOp}
    {r : o.Resp} (hoffer : handlerPort.offer o = []) (htake : handlerPort.take o r = [])
    (hclients : clientsOf ⟨o, r⟩ = []) (hchannels : channelsOf ⟨o, r⟩ = []) :
    Feeds token client (s.next o r) := by
  obtain ⟨greeting, timeout, htaken, hgreeting, htimeout, hasks, hoffered⟩ := h.frames
  refine ⟨?_, ?_, greeting, timeout, ?_, hgreeting, htimeout, hasks, ?_⟩
  · change s.clients ++ clientsOf ⟨o, r⟩ = []
    rw [hclients, List.append_nil, h.clients]
  · change s.channels ++ channelsOf ⟨o, r⟩ = _
    rw [hchannels, List.append_nil, h.channels]
  · change s.taken ++ handlerPort.take o r = _
    rw [htake, List.append_nil, htaken]
  · change s.offered ++ handlerPort.offer o <+: _
    rw [hoffer, List.append_nil]
    exact hoffered

theorem wp_startDataTasks {greeting buf timeout : Bytes} {channel : ChannelId} {client : ServerClient}
    (hs : Greeted greeting .data (buf ++ timeout) s) (hbuf : buf.length = 32)
    (htimeout : timeout.length = 1) (beacon : UInt8) :
    (exchangeMonitor cfg peer).wp (startDataTasks (Token.from buf) channel client beacon)
      (fun _ _ => True) (fun _ _ => True)
      (s.next (.registerDataChannel (Token.from buf) channel) (.ok client)) := by
  have hfeeds : ∀ r, Feeds (Token.from buf) client
      ((s.next (.registerDataChannel (Token.from buf) channel) (.ok client)).next
        (.server (.write [responseOk])) r) := by
    intro r
    refine ⟨?_, ?_, greeting, timeout, ?_, hs.length, htimeout, hs.asks, ?_⟩
    · change (s.clients ++ []) ++ [] = []
      rw [hs.clients]
      rfl
    · change (s.channels ++ [(Token.from buf, client)]) ++ [] = _
      rw [hs.channels]
      rfl
    · change (s.taken ++ []) ++ [] = _
      rw [hs.taken, List.append_nil, List.append_nil, Token.from_bytes hbuf]
    · change (s.offered ++ []) ++ [responseOk] <+: _
      rw [hs.offered, List.append_nil]
  refine Monitor.wp_keeps_call fun r _ => ⟨.feeds _ client (hfeeds r), ?_⟩
  cases r with
  | error e => trivial
  | ok _ =>
    refine Monitor.wp_keeps_call fun pinger _ => ?_
    have hpinger := (hfeeds (.ok ())).next (o := .spawnPinger channel (beacon.toNat * 1000 / 2))
      (r := pinger) rfl rfl rfl rfl
    refine ⟨.feeds _ client hpinger, Monitor.wp_keeps_call fun r _ => ?_⟩
    have hregistered := hpinger.next (o := .registerTask client pinger) (r := r) rfl rfl rfl rfl
    refine ⟨.feeds _ client hregistered, Monitor.wp_keeps_call fun task _ => ?_⟩
    have htask := hregistered.next
      (o := .spawnDataStream (Token.from buf) channel (beacon.toNat * 1000 / 2)) (r := task)
      rfl rfl rfl rfl
    refine ⟨.feeds _ client htask, Monitor.wp_keeps_call fun r _ => ?_⟩
    exact ⟨.feeds _ client (htask.next (o := .registerTask client task) (r := r) rfl rfl rfl rfl),
      trivial⟩

theorem wp_launchDataStream {greeting : Bytes} (hs : Greeted greeting .data [] s) :
    (exchangeMonitor cfg peer).wp launchDataStream (fun _ _ => True) (fun _ _ => True) s := by
  unfold launchDataStream
  refine hs.wp_readHandler fun buf s₁ hbuf h₁ => h₁.wp_readHandler fun timeout s₂ htimeout h₂ => ?_
  rw [List.nil_append] at h₂
  refine Monitor.wp_keeps_call fun channel _ => ?_
  have h₃ := h₂.next (o := .newChannel) (r := channel) rfl rfl rfl
  rw [show handlerPort.take .newChannel channel = [] from rfl, List.append_nil] at h₃
  refine ⟨h₃.shape, Monitor.wp_keeps_call fun r _ => ?_⟩
  cases r with
  | error e =>
    have h₄ := h₃.next (o := .registerDataChannel (Token.from buf) channel) (r := .error e) rfl rfl rfl
    refine ⟨h₄.shape, Monitor.wp_keeps_call fun r _ => ?_⟩
    refine ⟨.unregistered ⟨(List.append_nil _).trans h₄.clients,
      (List.append_nil _).trans h₄.channels, .inr ⟨greeting, _, (List.append_nil _).trans h₄.taken,
        h₄.length, ?_⟩⟩, ?_⟩
    · change _ ++ [responseErr] <+: _
      rw [h₄.offered]
    · cases r with
      | error e => trivial
      | ok _ => trivial
  | ok client =>
    have hfeeds : Feeds (Token.from buf) client
        ((s₂.next .newChannel channel).next (.registerDataChannel (Token.from buf) channel)
          (.ok client)) := by
      refine ⟨(List.append_nil _).trans h₃.clients, ?_, greeting, timeout, ?_, h₃.length, htimeout,
        h₃.asks, ?_⟩
      · change _ ++ [(Token.from buf, client)] = _
        rw [h₃.channels, List.nil_append]
      · change _ ++ [] = _
        rw [h₃.taken, List.append_nil, Token.from_bytes hbuf]
      · change _ ++ [] <+: _
        rw [h₃.offered, List.append_nil]
        exact List.prefix_append ..
    exact ⟨.feeds _ client hfeeds, wp_startDataTasks h₃ hbuf htimeout _⟩

theorem Streams.wp_connection {init : ServerProg Error StreamType} {control : ServerProg Error Bool}
    (h : Streams cfg peer init control) :
    (exchangeMonitor cfg peer).wp (peer.connection cfg) (fun _ _ => True) (fun _ _ => True)
      .start := by
  rw [connection_eq h, Monitor.wp_bind]
  refine Monitor.wp_mono ?_ (fun _ _ _ => trivial) (wp_rename_server h.wp_init)
  rintro st s' ⟨greeting, hs⟩
  unfold afterGreeting
  split_ifs with hst
  · subst hst
    rw [Monitor.wp_bind]
    exact Monitor.wp_mono (fun _ _ _ => trivial) (fun _ _ _ => trivial) (wp_launchDataStream hs)
  · cases st with
    | data => exact absurd rfl hst
    | control => exact wp_rename_server (h.wp_control hs)

end

def exchange (h : List HandlerEvent) : Exchange where
  offered := handlerPort.offered h
  taken := handlerPort.taken h
  events := h.flatMap serverEventsOf
  clients := h.flatMap clientsOf
  channels := h.flatMap channelsOf

section
variable {cfg : Config} {peer : Peer} {init : ServerProg Error StreamType}
  {control : ServerProg Error Bool} {h : List HandlerEvent}

variable (cfg peer) in
theorem after_exchangeMonitor (h : List HandlerEvent) :
    (exchangeMonitor cfg peer).after .start h = exchange h := by
  have hoffered : ((exchangeMonitor cfg peer).after .start h).offered = handlerPort.offered h :=
    Monitor.after_flatMap (M := exchangeMonitor cfg peer) (f := Exchange.offered)
      (g := fun e => handlerPort.offer e.op) (fun _ _ => rfl) .start h
  have htaken : ((exchangeMonitor cfg peer).after .start h).taken = handlerPort.taken h :=
    Monitor.after_flatMap (M := exchangeMonitor cfg peer) (f := Exchange.taken)
      (g := fun e => handlerPort.take e.op e.resp) (fun _ _ => rfl) .start h
  have hevents : ((exchangeMonitor cfg peer).after .start h).events = h.flatMap serverEventsOf :=
    Monitor.after_flatMap (M := exchangeMonitor cfg peer) (f := Exchange.events)
      (fun _ _ => rfl) .start h
  have hclients : ((exchangeMonitor cfg peer).after .start h).clients = h.flatMap clientsOf :=
    Monitor.after_flatMap (M := exchangeMonitor cfg peer) (f := Exchange.clients)
      (fun _ _ => rfl) .start h
  have hchannels : ((exchangeMonitor cfg peer).after .start h).channels = h.flatMap channelsOf :=
    Monitor.after_flatMap (M := exchangeMonitor cfg peer) (f := Exchange.channels)
      (fun _ _ => rfl) .start h
  rw [exchange, ← hoffered, ← htaken, ← hevents, ← hclients, ← hchannels]

/-- Wherever the handler of a stream stands, what it has exchanged has the shape of a handshake. -/
theorem Streams.shape_of_run (hst : Streams cfg peer init control) {q : HandlerProg Bool}
    (hr : Prog.Run (peer.connection cfg) h q) (hexact : ∀ e ∈ h, HandlerExact e.op e.resp) :
    Shape cfg peer (exchange h) := by
  have hadmits : (exchangeMonitor cfg peer).Admits .start h :=
    Monitor.admits_of_forall (fun e he _ => hexact e he) _
  have haccepts := (Monitor.wp_run hst.wp_connection hr hadmits).1
  rw [← after_exchangeMonitor cfg peer]
  exact Monitor.keeps_after (.unregistered ⟨rfl, rfl, .inl rfl⟩) haccepts hadmits

end

end Psrt

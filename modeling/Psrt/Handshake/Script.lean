import Psrt.Handshake.Network

/-! What a client and its two handlers do until the client is connected, over a plain stream, TLS or a UNIX
socket, and what their streams carry meanwhile. -/

namespace Psrt.Handshake
open Wire Interaction

variable {m : SubMap} {cfg : Config} {crypto : Crypto} {sha256 : Token → Digest}

structure Fine (e : Client.ConnectEvent) : Prop where
  exact : Client.Exact e.op e.resp
  sound : ∀ l, ¬ (Client.port l).Broke e.op e.resp

section
variable (config : Client.Config)

def preparing : List Client.ConnectEvent :=
  if config.tls then
    match config.tlsCa with
    | some ca => [⟨.addRootCertificate (utf8 ca), .ok ()⟩]
    | none => []
  else []

def waiting : List Client.ConnectEvent :=
  if Client.isUnixSocket config.path then [⟨.pathExists, true⟩] else []

def opening (l : Client.Link) : List Client.ConnectEvent :=
  if Client.isUnixSocket config.path then
    [⟨.connectUnix l config.path, .ok ()⟩, ⟨.write l (Client.greeting config l), .ok ()⟩]
  else
    [⟨.connectTcp l config.path, .ok ()⟩, ⟨.setNodelay l, .ok ()⟩,
      ⟨.write l (Client.greeting config l), .ok ()⟩] ++
      if config.tls then
        [⟨.buildConnector, .ok ()⟩, ⟨.connectTls l (Client.pathDomain config.path), .ok ()⟩]
      else []

def arriving : List Client.ConnectEvent :=
  preparing config ++ waiting config ++ opening config .control

def hearing (l : Client.Link) : List Client.ConnectEvent :=
  [⟨.read l 2, .ok l.header⟩, ⟨.read l 2, .ok (leBytes 2 protocolVersion)⟩]

def loggingIn (token : Bytes) : List Client.ConnectEvent :=
  [⟨.write .control (Client.authBuf config), .ok ()⟩, ⟨.read .control 32, .ok token⟩]

def attaching (token : Bytes) : List Client.ConnectEvent :=
  [⟨.write .data token, .ok ()⟩, ⟨.write .data [UInt8.ofNat (Client.timeoutSecs config)], .ok ()⟩,
    ⟨.read .data 1, .ok [responseOk]⟩]

def connecting (token : Bytes) : List Client.ConnectEvent :=
  arriving config ++ (hearing .control ++ loggingIn config token) ++
    if config.needDataStream then
      opening config .data ++ (hearing .data ++ attaching config token)
    else []

theorem run_addCa : Prog.Run (Client.addCa config) (preparing config) (.ret ()) := by
  unfold Client.addCa preparing
  split_ifs
  · cases config.tlsCa with
    | none => exact .nil _
    | some ca => exact Prog.Run.call _ (.nil _)
  · exact .nil _

theorem run_waitSocket (turns : Nat) :
    Prog.Run (Client.waitSocket config turns) (waiting config) (.ret ()) := by
  unfold Client.waitSocket waiting
  split_ifs
  · exact Prog.Run.call _ (.nil _)
  · exact .nil _

theorem run_openStream (l : Client.Link) :
    Prog.Run (Client.openStream config l) (opening config l) (.ret ()) := by
  unfold Client.openStream opening
  split_ifs
  · exact Prog.Run.call _ (Prog.Run.call _ (.nil _))
  · exact Prog.Run.call _ (Prog.Run.call _ (Prog.Run.call _ (Prog.Run.call _ (Prog.Run.call _
      (.nil _)))))
  · exact Prog.Run.call _ (Prog.Run.call _ (Prog.Run.call _ (.nil _)))

theorem run_checkReply (l : Client.Link) :
    Prog.Run (Client.checkReply l) (hearing l) (.ret ()) := by
  refine Prog.Run.call _ ?_
  simp only [Prog.ofExcept_ok, Prog.ret_bind, ne_eq, not_true_eq_false, if_false]
  exact Prog.Run.call _ (.nil _)

theorem run_connectControl (turns : Nat) (token : Bytes) :
    Prog.Run ((Client.addCa config).bind fun _ => Client.connectControl config turns)
      (arriving config ++ (hearing .control ++ loggingIn config token)) (.ret token) := by
  unfold arriving
  rw [List.append_assoc, List.append_assoc]
  refine (run_addCa config).bind ((run_waitSocket config turns).bind ?_)
  refine (run_openStream config .control).bind ((run_checkReply .control).bind ?_)
  exact Prog.Run.call _ (Prog.Run.call _ (.nil _))

theorem run_connectData (hneed : config.needDataStream = true) (token : Bytes) :
    Prog.Run (Client.connectData config token)
      (opening config .data ++ (hearing .data ++ attaching config token)) (.ret ()) := by
  unfold Client.connectData
  rw [if_pos hneed]
  refine (run_openStream config .data).bind ((run_checkReply .data).bind ?_)
  exact Prog.Run.call _ (Prog.Run.call _ (Prog.Run.call _ (.nil _)))

end

inductive Accepts (config : Client.Config) : Peer → Prop
  | plain (addr : Str) (tlsConfigured : Bool) (turns : Nat)
      (htcp : Client.isUnixSocket config.path = false) (hplain : config.tls = false) :
      Accepts config (.tcp addr tlsConfigured true turns)
  | tls (addr : Str) (allowNoTls : Bool) (turns : Nat)
      (htcp : Client.isUnixSocket config.path = false) (htls : config.tls = true) :
      Accepts config (.tcp addr true allowNoTls turns)
  | unix (path : Str) (turns : Nat) (hunix : Client.isUnixSocket config.path = true) :
      Accepts config (.unix path turns)

structure Acceptable (config : Client.Config) : Prop where
  user : 0 ∉ utf8 config.user
  fits : (Client.authText config).length ≤ maxAuthFrameSize

structure Entitled (cfg : Config) (crypto : Crypto) (st : ServerState m) (config : Client.Config)
    (acl : Acl) : Prop where
  anonymous : (config.user.isEmpty && config.password.isEmpty) = true → cfg.allowAnonymous = true
  verified : (config.user.isEmpty && config.password.isEmpty) = false →
    st.passwords.verify crypto config.user config.password = true
  acl : st.acls.getAcl config.user = some acl

section
variable {config : Client.Config} {peer : Peer} {init : ServerProg Error StreamType}
  {control : ServerProg Error Bool}

def asked : Client.Link → StreamType
  | .control => .control
  | .data => .data

def replying (config : Client.Config) (l : Client.Link) : List ServerEvent :=
  ⟨.read 3, .ok (Client.greeting config l)⟩ ::
    ((if Client.isTls config then [⟨.acceptTls, .ok ()⟩] else []) ++
      [⟨.write (replyHeader (Client.greeting config l)), .ok ()⟩])

def questions (config : Client.Config) (acl : Acl) : List ServerEvent :=
  if Client.isUnixSocket config.path then []
  else if config.user.isEmpty && config.password.isEmpty then [⟨.getAcl config.user, some acl⟩]
  else [⟨.authenticate config.user config.password, true⟩, ⟨.getAcl config.user, some acl⟩]

def loginEvents (config : Client.Config) (acl : Acl) (addr : Str) (client : ServerClient) :
    List ServerEvent :=
  [⟨.read 4, .ok (leBytes 4 (Client.authLength config).toNat)⟩,
    ⟨.read (Client.authText config).length, .ok (Client.authText config)⟩] ++
    (questions config acl ++
      [⟨.registerClient config.user addr, .ok client⟩, ⟨.write client.token.bytes, .ok ()⟩])

theorem Accepts.run_init (h : Accepts config peer) (hs : Streams cfg peer init control)
    (l : Client.Link) : Prog.Run init (replying config l) (.ret (asked l)) := by
  have htype : streamType (Client.greeting config l) = .ok (asked l) := by
    cases l with
    | control => rfl
    | data => rfl
  have hmode : (Client.greeting config l).getD 2 0 = Client.commMode config := by
    cases l with
    | control => rfl
    | data => rfl
  unfold replying
  cases h with
  | plain addr tlsConfigured turns htcp hplain =>
    have hinsecure : Client.isTls config = false := by rw [Client.isTls, hplain, Bool.false_and]
    cases hs
    unfold initTcpStream
    refine Prog.Run.call _ ?_
    simp only [Prog.bind_eq, Prog.ofExcept_ok, Prog.ret_bind, htype, hmode, Client.commMode,
      hinsecure, Bool.false_eq_true, if_false, if_true]
    exact Prog.Run.call _ (.nil _)
  | tls addr allowNoTls turns htcp htls =>
    have hsecure : Client.isTls config = true := by
      rw [Client.isTls, htls, htcp, Bool.not_false, Bool.and_true]
    have hne : ¬ commTls = commInsecure := by decide
    cases hs
    unfold initTcpStream
    refine Prog.Run.call _ ?_
    simp only [Prog.bind_eq, Prog.ofExcept_ok, Prog.ret_bind, htype, hmode, Client.commMode,
      hsecure, if_true, if_neg hne]
    exact Prog.Run.call _ (Prog.Run.call _ (.nil _))
  | unix path turns hunix =>
    have hinsecure : Client.isTls config = false := by
      rw [Client.isTls, hunix, Bool.not_true, Bool.and_false]
    cases hs
    unfold initUnixStream
    refine Prog.Run.call _ ?_
    simp only [Prog.bind_eq, Prog.ofExcept_ok, Prog.ret_bind, htype, hinsecure, Bool.false_eq_true,
      if_false]
    exact Prog.Run.call _ (.nil _)

theorem run_readFrame (hok : Acceptable config) : Prog.Run (readFrame (some maxAuthFrameSize))
    [⟨.read 4, .ok (leBytes 4 (Client.authLength config).toNat)⟩,
      ⟨.read (Client.authText config).length, .ok (Client.authText config)⟩]
    (.ret (Client.authText config)) := by
  have hlt : (Client.authText config).length < 2 ^ 32 := hok.fits.trans_lt (by decide)
  have hlen : leNat (leBytes 4 (Client.authLength config).toNat) =
      (Client.authText config).length := by
    rw [leNat_leBytes_of_lt (Client.authLength config).toNat_lt, Client.toNat_authLength hlt]
  refine Prog.Run.call _ ?_
  simp only [Prog.ofExcept_ok, Prog.ret_bind, hlen]
  rw [if_neg (by simpa using hok.fits)]
  exact Prog.Run.call _ (.nil _)

theorem run_serveClient (cfg : Config) (acl : Acl) (login addr : Str) (client : ServerClient)
    (turns : Nat) : ∃ q, Prog.Run (serveClient cfg acl login addr turns)
      [⟨.registerClient login addr, .ok client⟩, ⟨.write client.token.bytes, .ok ()⟩] q :=
  ⟨_, Prog.Run.call _ (Prog.Run.call _ (.nil _))⟩

theorem run_tcpControl (hok : Acceptable config) (htcp : Client.isUnixSocket config.path = false)
    (hanonymous : (config.user.isEmpty && config.password.isEmpty) = true → cfg.allowAnonymous = true)
    (acl : Acl) (addr : Str) (client : ServerClient) (turns : Nat) :
    ∃ q, Prog.Run (tcpControl cfg addr turns) (loginEvents config acl addr client) q := by
  have hsplit : splitFirst 0 (Client.authText config) =
      (utf8 config.user, some (utf8 config.password)) := splitFirst_append hok.user _
  obtain ⟨q, hserve⟩ := run_serveClient cfg acl config.user addr client turns
  refine ⟨q, (run_readFrame hok).bind ?_⟩
  simp only [hsplit, strFromUtf8_utf8, Prog.ofExcept_ok, Prog.bind_eq, Prog.ret_bind, questions,
    htcp, Bool.false_eq_true, if_false, authenticateTcp]
  split_ifs with hempty hallow
  · exact Prog.Run.call _ hserve
  · exact absurd (hanonymous hempty) hallow
  · exact Prog.Run.call _ (Prog.Run.call _ hserve)

theorem run_unixControl (hok : Acceptable config) (hunix : Client.isUnixSocket config.path = true)
    (acl : Acl) (path : Str) (client : ServerClient) (turns : Nat) :
    ∃ q, Prog.Run (unixControl cfg path turns) (loginEvents config acl path client) q := by
  have hsplit : splitFirst 0 (Client.authText config) =
      (utf8 config.user, some (utf8 config.password)) := splitFirst_append hok.user _
  obtain ⟨q, hserve⟩ := run_serveClient cfg Acl.newFull config.user path client turns
  refine ⟨q, (run_readFrame hok).bind ?_⟩
  simp only [hsplit, strFromUtf8_utf8, Prog.ofExcept_ok, Prog.bind_eq, Prog.ret_bind, questions,
    hunix, if_true, List.nil_append]
  exact hserve

theorem Accepts.run_control (h : Accepts config peer) (hs : Streams cfg peer init control)
    (hok : Acceptable config) (acl : Acl)
    (hanonymous : Client.isUnixSocket config.path = false →
      (config.user.isEmpty && config.password.isEmpty) = true → cfg.allowAnonymous = true) :
    ∃ addr, ∀ client, ∃ q, Prog.Run control (loginEvents config acl addr client) q := by
  cases h with
  | plain addr tlsConfigured turns htcp hplain =>
    cases hs
    exact ⟨addr, fun client => run_tcpControl hok htcp (hanonymous htcp) acl addr client turns⟩
  | tls addr allowNoTls turns htcp htls =>
    cases hs
    exact ⟨addr, fun client => run_tcpControl hok htcp (hanonymous htcp) acl addr client turns⟩
  | unix path turns hunix =>
    cases hs
    exact ⟨path, fun client => run_unixControl hok hunix acl path client turns⟩

def launchEvents (token : Token) (timeout : UInt8) (channel : ChannelId) (client : ServerClient) :
    List HandlerEvent :=
  [⟨.server (.read 32), .ok token.bytes⟩, ⟨.server (.read 1), .ok [timeout]⟩, ⟨.newChannel, channel⟩,
    ⟨.registerDataChannel token channel, .ok client⟩, ⟨.server (.write [responseOk]), .ok ()⟩]

theorem run_launchDataStream (token : Token) (timeout : UInt8) (channel : ChannelId)
    (client : ServerClient) :
    ∃ q, Prog.Run launchDataStream (launchEvents token timeout channel client) q := by
  have htoken : Token.from token.bytes = token :=
    Token.eq_of_bytes (Token.from_bytes token.length_eq)
  have hrun : ∃ q, Prog.Run launchDataStream [⟨.server (.read 32), .ok token.bytes⟩,
      ⟨.server (.read 1), .ok [timeout]⟩, ⟨.newChannel, channel⟩,
      ⟨.registerDataChannel (Token.from token.bytes) channel, .ok client⟩,
      ⟨.server (.write [responseOk]), .ok ()⟩] q :=
    ⟨_, Prog.Run.call _ (Prog.Run.call _ (Prog.Run.call _ (Prog.Run.call _ (Prog.Run.call _
      (.nil _)))))⟩
  rw [htoken] at hrun
  exact hrun

end

section
variable {w : World m} {config : Client.Config} {v : m.View} (hl : m.RegistryLaws v)

def newClient (sha256 : Token → Digest) (w : World m) (login addr : Str) (token : Token) :
    ServerClient :=
  ⟨w.server.db.nextId, login, addr, token, sha256 token⟩

def withClient (w : World m) (client : ServerClient) : World m where
  server :=
    { w.server with
      db :=
        { submap := (m.registerClient w.server.db.submap client).1
          clientsByToken := Function.update w.server.db.clientsByToken client.token (some client)
          nextId := w.server.db.nextId + 1 } }
  dataChannel := Function.update w.dataChannel client none
  nextChannel := w.nextChannel

theorem exec_same {o : ServerOp} {r : o.Resp}
    (h : ServerState.Exec cfg crypto sha256 w.server o r w.server)
    (hcells : World.Cells w.dataChannel w.dataChannel o r) :
    World.Exec cfg crypto sha256 w (.server o) r w := ⟨h, hcells, rfl⟩

theorem exec_read {n : Nat} {b : Bytes} (h : b.length = n) :
    World.Exec cfg crypto sha256 w (.server (.read n)) (.ok b) w := by
  refine exec_same ⟨rfl, fun b' hb' => ?_⟩ rfl
  rw [← Except.ok.inj hb', h]

theorem execs_questions {acl : Acl} (hentitled : Client.isUnixSocket config.path = false →
      Entitled cfg crypto w.server config acl) :
    System.Execs (World.Exec cfg crypto sha256) w ((questions config acl).map asHandler.event) w := by
  have hacl : Client.isUnixSocket config.path = false →
      World.Exec cfg crypto sha256 w (.server (.getAcl config.user)) (some acl) w :=
    fun htcp => exec_same ⟨rfl, (hentitled htcp).acl.symm⟩ rfl
  unfold questions
  split_ifs with hunix hempty
  · exact .nil w
  · exact .cons (hacl (Bool.eq_false_of_not_eq_true hunix)) (.nil w)
  · have htcp := Bool.eq_false_of_not_eq_true hunix
    refine .cons (exec_same ⟨rfl, ?_⟩ rfl) (.cons (hacl htcp) (.nil w))
    exact ((hentitled htcp).verified (Bool.eq_false_of_not_eq_true hempty)).symm

theorem execs_replying (config : Client.Config) (l : Client.Link) :
    System.Execs (World.Exec cfg crypto sha256) w ((replying config l).map asHandler.event) w := by
  have hlength : (Client.greeting config l).length = 3 := by
    cases l with
    | control => rfl
    | data => rfl
  unfold replying
  split_ifs
  · exact .cons (exec_read hlength) (.cons (exec_same rfl rfl) (.cons (exec_same rfl rfl) (.nil w)))
  · exact .cons (exec_read hlength) (.cons (exec_same rfl rfl) (.nil w))

include hl in
theorem exec_registerClient {login addr : Str} {token : Token}
    (hnew : ∀ c ∈ w.server.db.clients v, c.digest ≠ sha256 token) :
    World.Exec cfg crypto sha256 w (.server (.registerClient login addr))
      (.ok (newClient sha256 w login addr token))
      (withClient w (newClient sha256 w login addr token)) := by
  have hunknown : ¬ v.Known w.server.db.submap (newClient sha256 w login addr token) := by
    rintro ⟨c, hc, hdigest⟩
    exact hnew c hc hdigest
  have htaken := (hl.register_new _ _ hunknown).1
  refine ⟨⟨[.ok token], _, ?_, rfl⟩, rfl, rfl⟩
  unfold ServerClientDB.registerClient
  exact if_pos htaken

include hl in
theorem execs_loginEvents (cfg : Config) (crypto : Crypto) (addr : Str) {acl : Acl} {token : Token}
    (hentitled : Client.isUnixSocket config.path = false →
      Entitled cfg crypto w.server config acl)
    (hnew : ∀ c ∈ w.server.db.clients v, c.digest ≠ sha256 token) :
    System.Execs (World.Exec cfg crypto sha256) w
      ((loginEvents config acl addr (newClient sha256 w config.user addr token)).map
        asHandler.event)
      (withClient w (newClient sha256 w config.user addr token)) := by
  unfold loginEvents
  rw [List.map_append, List.map_append]
  refine .cons (exec_read (length_leBytes 4 _)) (.cons (exec_read rfl) ?_)
  refine (execs_questions hentitled).append (.cons (exec_registerClient hl hnew) ?_)
  exact .cons (exec_same rfl rfl) (.nil _)

theorem execs_launchEvents (cfg : Config) (crypto : Crypto) (timeout : UInt8) {client : ServerClient}
    (hstored : w.server.db.clientsByToken client.token = some client)
    (hempty : w.dataChannel client = none) :
    ∃ w', System.Execs (World.Exec cfg crypto sha256) w
      (launchEvents client.token timeout w.nextChannel client) w' := by
  have hregister : registerDataChannel w.server.db.clientsByToken w.dataChannel client.token
      w.nextChannel = (.ok client, Function.update w.dataChannel client (some w.nextChannel)) := by
    unfold registerDataChannel
    rw [hstored]
    simp only [hempty, Option.isSome_none, Bool.false_eq_true, if_false]
  refine ⟨_, .cons (exec_read client.token.length_eq) (.cons (exec_read rfl)
    (.cons ⟨rfl, rfl⟩ (.cons ⟨?_, rfl⟩ (.cons (exec_same rfl rfl) (.nil _)))))⟩
  exact (congrArg Prod.fst hregister).symm

end

section
variable {config : Client.Config}

theorem fine_opening (l : Client.Link) : ∀ e ∈ opening config l, Fine e := by
  unfold opening
  split_ifs
  · simp only [List.forall_mem_cons]
    exact ⟨⟨trivial, fun _ => id⟩, ⟨trivial, fun _ => id⟩, List.forall_mem_nil _⟩
  · simp only [List.cons_append, List.nil_append, List.forall_mem_cons]
    exact ⟨⟨trivial, fun _ => id⟩, ⟨trivial, fun _ => id⟩, ⟨trivial, fun _ => id⟩,
      ⟨trivial, fun _ => id⟩, ⟨trivial, fun _ => id⟩, List.forall_mem_nil _⟩
  · simp only [List.append_nil, List.forall_mem_cons]
    exact ⟨⟨trivial, fun _ => id⟩, ⟨trivial, fun _ => id⟩, ⟨trivial, fun _ => id⟩, List.forall_mem_nil _⟩

structure Mute (e : Client.ConnectEvent) : Prop where
  fine : Fine e
  offer : ∀ l, (Client.port l).offer e.op = []
  take : ∀ l, (Client.port l).take e.op e.resp = []

theorem mute_preparing : ∀ e ∈ preparing config ++ waiting config, Mute e := by
  refine List.forall_mem_append.mpr ⟨?_, ?_⟩
  · unfold preparing
    split_ifs
    · cases config.tlsCa with
      | none => exact List.forall_mem_nil _
      | some ca =>
        exact List.forall_mem_singleton.mpr ⟨⟨trivial, fun _ => id⟩, fun _ => rfl, fun _ => rfl⟩
    · exact List.forall_mem_nil _
  · unfold waiting
    split_ifs
    · exact List.forall_mem_singleton.mpr ⟨⟨trivial, fun _ => id⟩, fun _ => rfl, fun _ => rfl⟩
    · exact List.forall_mem_nil _

theorem fine_arriving : ∀ e ∈ arriving config, Fine e :=
  List.forall_mem_append.mpr ⟨fun e he => (mute_preparing e he).fine, fine_opening .control⟩

theorem fine_read {l : Client.Link} {n : Nat} {b : Bytes} (h : b.length = n) :
    Fine ⟨.read l n, .ok b⟩ := by
  refine ⟨fun b' hb' => ?_, fun _ => id⟩
  rw [← Except.ok.inj hb', h]

theorem fine_hearing (l : Client.Link) : ∀ e ∈ hearing l, Fine e := by
  intro e he
  simp only [hearing, List.mem_cons, List.not_mem_nil, or_false] at he
  rcases he with rfl | rfl
  · cases l with
    | control => exact fine_read rfl
    | data => exact fine_read rfl
  · exact fine_read rfl

theorem taken_opening (l l' : Client.Link) : (Client.port l').taken (opening config l) = [] := by
  unfold opening
  split_ifs
  · rfl
  · rfl
  · rfl

theorem offered_opening (l l' : Client.Link) : (Client.port l').offered (opening config l) =
    if l = l' then Client.greeting config l else [] := by
  have hgreeting : ((if l = l' then Client.greeting config l else []) ++ [] : Bytes) =
      if l = l' then Client.greeting config l else [] := List.append_nil _
  unfold opening
  by_cases hunix : Client.isUnixSocket config.path = true
  · rw [if_pos hunix]
    exact hgreeting
  · rw [if_neg hunix]
    by_cases htls : config.tls = true
    · rw [if_pos htls]
      exact hgreeting
    · rw [if_neg htls]
      exact hgreeting

theorem taken_arriving (l : Client.Link) : (Client.port l).taken (arriving config) = [] := by
  unfold arriving
  rw [Port.taken_append, taken_opening, List.append_nil]
  exact List.flatMap_eq_nil_iff.mpr fun e he => (mute_preparing e he).take l

theorem offered_arriving (l : Client.Link) : (Client.port l).offered (arriving config) =
    if .control = l then Client.greeting config .control else [] := by
  have hmute : (Client.port l).offered (preparing config ++ waiting config) = [] :=
    List.flatMap_eq_nil_iff.mpr fun e he => (mute_preparing e he).offer l
  unfold arriving
  rw [Port.offered_append, hmute, offered_opening]
  rfl

theorem offered_hearing (l l' : Client.Link) : (Client.port l').offered (hearing l) = [] := rfl

theorem taken_hearing (l l' : Client.Link) : (Client.port l').taken (hearing l) =
    if l = l' then l.reply else [] := by
  unfold Port.taken hearing
  simp only [List.flatMap_cons, List.flatMap_nil, List.append_nil, Client.port]
  split_ifs
  · rfl
  · rfl

theorem taken_replying (l : Client.Link) :
    handlerPort.taken ((replying config l).map asHandler.event) = Client.greeting config l := by
  unfold replying
  split_ifs
  · exact List.append_nil _
  · exact List.append_nil _

theorem offered_replying (l : Client.Link) :
    handlerPort.offered ((replying config l).map asHandler.event) = l.reply := by
  unfold replying
  split_ifs
  · cases l with
    | control => rfl
    | data => rfl
  · cases l with
    | control => rfl
    | data => rfl

theorem taken_loginEvents (acl : Acl) (addr : Str) (client : ServerClient) :
    handlerPort.taken ((loginEvents config acl addr client).map asHandler.event) =
      Client.authBuf config := by
  unfold Port.taken loginEvents questions
  split_ifs
  · simp [handlerPort, ProcessControl.port, asHandler, Renaming.event, Client.authBuf]
  · simp [handlerPort, ProcessControl.port, asHandler, Renaming.event, Client.authBuf]
  · simp [handlerPort, ProcessControl.port, asHandler, Renaming.event, Client.authBuf]

theorem offered_loginEvents (acl : Acl) (addr : Str) (client : ServerClient) :
    handlerPort.offered ((loginEvents config acl addr client).map asHandler.event) =
      client.token.bytes := by
  unfold Port.offered loginEvents questions
  split_ifs
  · simp [handlerPort, ProcessControl.port, asHandler, Renaming.event]
  · simp [handlerPort, ProcessControl.port, asHandler, Renaming.event]
  · simp [handlerPort, ProcessControl.port, asHandler, Renaming.event]

theorem taken_launchEvents (token : Token) (timeout : UInt8) (channel : ChannelId)
    (client : ServerClient) : handlerPort.taken (launchEvents token timeout channel client) =
      token.bytes ++ [timeout] := rfl

theorem offered_launchEvents (token : Token) (timeout : UInt8) (channel : ChannelId)
    (client : ServerClient) : handlerPort.offered (launchEvents token timeout channel client) =
      [responseOk] := rfl

end

section
variable {config : Client.Config} {peer : Peer} {addr : Str}

variable (cfg) in
theorem Accepts.streams (h : Accepts config peer) : ∃ init control, Streams cfg peer init control := by
  cases h with
  | plain => exact ⟨_, _, .tcp ..⟩
  | tls => exact ⟨_, _, .tcp ..⟩
  | unix => exact ⟨_, _, .unix ..⟩

theorem Accepts.run_connection_control (h : Accepts config peer) (hok : Acceptable config) (acl : Acl)
    (hanonymous : Client.isUnixSocket config.path = false →
      (config.user.isEmpty && config.password.isEmpty) = true → cfg.allowAnonymous = true) :
    ∃ addr, ∀ client, ∃ q, Prog.Run (peer.connection cfg)
      ((replying config .control).map asHandler.event ++
        (loginEvents config acl addr client).map asHandler.event) q := by
  obtain ⟨init, control, hs⟩ := h.streams cfg
  obtain ⟨addr, hcontrol⟩ := h.run_control hs hok acl hanonymous
  refine ⟨addr, fun client => ?_⟩
  obtain ⟨q, hq⟩ := hcontrol client
  rw [connection_eq hs]
  exact ⟨_, (h.run_init hs .control).rename.bind hq.rename⟩

variable (cfg) in
theorem Accepts.run_connection_data (h : Accepts config peer) (token : Token) (timeout : UInt8)
    (channel : ChannelId) (client : ServerClient) :
    ∃ q, Prog.Run (peer.connection cfg) ((replying config .data).map asHandler.event ++
      launchEvents token timeout channel client) q := by
  obtain ⟨init, control, hs⟩ := h.streams cfg
  obtain ⟨q, hq⟩ := run_launchDataStream token timeout channel client
  rw [connection_eq hs]
  exact ⟨_, (h.run_init hs .data).rename.bind (hq.bind_left _)⟩

theorem sound_map {h : List ServerEvent}
    (hs : ∀ e ∈ h, ¬ ProcessControl.port.Broke e.op e.resp) :
    ∀ e ∈ h.map asHandler.event, ¬ handlerPort.Broke e.op e.resp := by
  intro e he
  obtain ⟨e', he', rfl⟩ := List.mem_map.mp he
  exact hs e' he'

theorem sound_replying (l : Client.Link) :
    ∀ e ∈ (replying config l).map asHandler.event, ¬ handlerPort.Broke e.op e.resp := by
  apply sound_map
  unfold replying
  split_ifs
  · simp only [List.cons_append, List.nil_append, List.forall_mem_cons]
    exact ⟨id, id, id, List.forall_mem_nil _⟩
  · simp only [List.nil_append, List.forall_mem_cons]
    exact ⟨id, id, List.forall_mem_nil _⟩

theorem sound_loginEvents (acl : Acl) (client : ServerClient) :
    ∀ e ∈ (loginEvents config acl addr client).map asHandler.event,
      ¬ handlerPort.Broke e.op e.resp := by
  have hquestions : ∀ e ∈ questions config acl, ¬ ProcessControl.port.Broke e.op e.resp := by
    unfold questions
    split_ifs
    · exact List.forall_mem_nil _
    · exact List.forall_mem_singleton.mpr id
    · simp only [List.forall_mem_cons]
      exact ⟨id, id, List.forall_mem_nil _⟩
  apply sound_map
  refine List.forall_mem_append.mpr ⟨?_, List.forall_mem_append.mpr ⟨hquestions, ?_⟩⟩
  · simp only [List.forall_mem_cons]
    exact ⟨id, id, List.forall_mem_nil _⟩
  · simp only [List.forall_mem_cons]
    exact ⟨id, id, List.forall_mem_nil _⟩

theorem sound_launchEvents (token : Token) (timeout : UInt8) (channel : ChannelId)
    (client : ServerClient) :
    ∀ e ∈ launchEvents token timeout channel client, ¬ handlerPort.Broke e.op e.resp := by
  intro e he
  simp only [launchEvents, List.mem_cons, List.not_mem_nil, or_false] at he
  rcases he with rfl | rfl | rfl | rfl | rfl
  all_goals exact id

end

end Psrt.Handshake

import Psrt.Server.Datagram

/-! The operations the parts of a handler may come to call. -/

namespace Psrt
open Wire Interaction

def ControlOp (cfg : Config) (client : ServerClient) (acl : Acl) : ServerOp → Prop
  | .read _ => True
  | .write _ => True
  | .nowNs => True
  | .getSubscribers _ => True
  | .subscribe acl' _ client' => acl' = acl ∧ client' = client
  | .unsubscribe _ client' => client' = client
  | .pushToSubscribers _ _ topic _ _ => acl.allowWrite topic = true ∨ cfg.cluster = true
  | .replicationPush _ _ _ _ => cfg.cluster = true
  | _ => False

def LoginOp : ServerOp → Prop
  | .read _ => True
  | .write _ => True
  | .acceptTls => True
  | .authenticate _ _ => True
  | .getAcl _ => True
  | .launchDataStream => True
  | _ => False

def NoQuery : ServerOp → Prop
  | .pushToSubscribers _ _ _ _ _ => False
  | .getSubscribers _ => False
  | _ => True

def NoPush : ServerOp → Prop
  | .pushToSubscribers _ _ _ _ _ => False
  | _ => True

section
variable {P : ServerOp → Prop}

theorem calls_readExact (h : ∀ n, P (.read n)) (n : Nat) : (readExact n).Calls P :=
  ⟨h n, fun r => Prog.calls_ofExcept r⟩

theorem calls_writeAll (h : ∀ buf, P (.write buf)) (buf : Bytes) : (writeAll buf).Calls P :=
  ⟨h buf, fun r => Prog.calls_ofExcept r⟩

theorem calls_readFrame (h : ∀ n, P (.read n)) (maxLength : Option Nat) :
    (readFrame maxLength).Calls P := by
  unfold readFrame readFrameWith
  refine Prog.Calls.bind (calls_readExact h 4) fun lenBuf => ?_
  dsimp only
  split_ifs
  · trivial
  · exact calls_readExact h _

end

section
variable (cfg : Config) (client : ServerClient) (acl : Acl)

theorem calls_deliver {ε α : Type} {P : ServerOp → Prop} {priority : UInt8} {topic : Str}
    {message : Bytes} {timestamp : UInt64} (hget : P (.getSubscribers topic))
    (hpush : ∀ subscribers, P (.pushToSubscribers subscribers priority topic message timestamp))
    (hrepl : cfg.cluster = true → P (.replicationPush priority topic message timestamp))
    {last : ServerProg ε α} (hlast : last.Calls P) :
    ((perform (.getSubscribers topic)).bind fun subscribers =>
      (pushIfAny subscribers priority topic message timestamp).bind fun _ =>
        (replicate cfg priority topic message timestamp).bind fun _ => last).Calls P := by
  refine Prog.Calls.bind (Prog.calls_op hget) fun subscribers =>
    Prog.Calls.bind ?_ fun _ => Prog.Calls.bind ?_ fun _ => hlast
  · unfold pushIfAny
    split_ifs
    · trivial
    · exact Prog.calls_op (hpush subscribers)
  · unfold replicate
    split_ifs with hcluster
    · exact Prog.calls_op (hrepl hcluster)
    · trivial

/-- Only topics the access list lets be written are pushed, after they were prepared. -/
theorem calls_handlePublish (timestamp : UInt64) (priority : UInt8) (buf : Bytes) :
    (handlePublish cfg acl timestamp priority buf).Calls (ControlOp cfg client acl) := by
  unfold handlePublish
  cases buf.idxOf? 0 with
  | none => trivial
  | some n =>
    dsimp only
    split_ifs
    · trivial
    · unfold publishNamed
      refine Prog.Calls.bind (Prog.calls_ofExcept _) fun raw => ?_
      cases prepareTopic cfg.maxTopicDepth raw with
      | error e => exact calls_writeAll (fun _ => trivial) _
      | ok topic =>
        dsimp only
        split_ifs with hinvalid hwrite
        · trivial
        · exact calls_deliver cfg trivial (fun _ => .inl hwrite) (fun hc => hc)
            (calls_writeAll (fun _ => trivial) _)
        · exact calls_writeAll (fun _ => trivial) _

theorem calls_handlePublishRepl (topicData : Bytes) (hcluster : cfg.cluster = true) :
    (handlePublishRepl cfg acl topicData).Calls (ControlOp cfg client acl) := by
  have hread : ∀ n, ControlOp cfg client acl (.read n) := fun _ => trivial
  have hwrite : ∀ buf, ControlOp cfg client acl (.write buf) := fun _ => trivial
  unfold handlePublishRepl
  refine Prog.Calls.bind (Prog.calls_ofExcept _) fun topic => ?_
  split_ifs
  · refine Prog.Calls.bind (Prog.calls_op trivial) fun subscribers => ?_
    split_ifs
    · exact calls_writeAll hwrite _
    · refine Prog.Calls.bind (calls_writeAll hwrite _) fun _ => ?_
      refine Prog.Calls.bind (calls_readExact hread _) fun prio => ?_
      refine Prog.Calls.bind (calls_readExact hread _) fun tsBuf => ?_
      refine Prog.Calls.bind (calls_readFrame hread _) fun data => ?_
      exact Prog.Calls.bind (Prog.calls_op (.inr hcluster)) fun _ => calls_writeAll hwrite _
  · exact calls_writeAll hwrite _

theorem calls_processCommand :
    (processCommand cfg client acl).Calls (ControlOp cfg client acl) := by
  have hread : ∀ n, ControlOp cfg client acl (.read n) := fun _ => trivial
  have hwrite : ∀ buf, ControlOp cfg client acl (.write buf) := fun _ => trivial
  have hreply : ∀ buf (r : Option Unit),
      ((writeAll buf).bind fun _ => .ret r).Calls (ControlOp cfg client acl) :=
    fun buf r => Prog.Calls.bind (calls_writeAll hwrite buf) fun _ => trivial
  unfold processCommand readRequest
  rw [Prog.bind_eq, Prog.bind_eq, Prog.bind_assoc]
  refine Prog.Calls.bind (calls_readExact hread 1) fun cmd => ?_
  unfold readArm
  split_ifs with hnop hsub hunsub hpub hrepl hcluster hbye
  · exact hreply _ _
  · simp only [Prog.bind_eq, Prog.bind_assoc, Prog.ret_bind, handleRequest]
    refine Prog.Calls.bind (calls_readFrame hread _) fun data => ?_
    refine Prog.Calls.bind (Prog.calls_ofExcept _) fun topics => ?_
    exact Prog.Calls.bind (Prog.calls_op ⟨rfl, rfl⟩) fun res => hreply _ _
  · simp only [Prog.bind_eq, Prog.bind_assoc, Prog.ret_bind, handleRequest]
    refine Prog.Calls.bind (calls_readFrame hread _) fun data => ?_
    refine Prog.Calls.bind (Prog.calls_ofExcept _) fun topics => ?_
    exact Prog.Calls.bind (Prog.calls_op rfl) fun success => hreply _ _
  · simp only [Prog.bind_eq, Prog.bind_assoc, Prog.ret_bind, handleRequest]
    refine Prog.Calls.bind (Prog.calls_op trivial) fun timestamp => ?_
    refine Prog.Calls.bind (calls_readExact hread _) fun prio => ?_
    refine Prog.Calls.bind (calls_readFrame hread _) fun buf => ?_
    exact Prog.Calls.bind (calls_handlePublish cfg client acl _ _ _) fun _ => trivial
  · simp only [Prog.bind_eq, Prog.bind_assoc, Prog.ret_bind, handleRequest]
    refine Prog.Calls.bind (calls_readFrame hread _) fun topicData => ?_
    exact Prog.Calls.bind (calls_handlePublishRepl cfg client acl _ hcluster) fun _ => trivial
  · trivial
  · exact hreply _ _
  · trivial

theorem calls_processControl (turns : Nat) :
    (processControl cfg client acl turns).Calls (ControlOp cfg client acl) :=
  Prog.calls_loop (calls_processCommand cfg client acl) turns

section
variable {P : ServerOp → Prop} (hread : ∀ n, P (.read n)) (hwrite : ∀ buf, P (.write buf))
include hread hwrite

theorem calls_initUnixStream : initUnixStream.Calls P := by
  refine Prog.Calls.bind (calls_readExact hread 3) fun greeting => ?_
  refine Prog.Calls.bind (Prog.calls_ofExcept _) fun st => ?_
  exact Prog.Calls.bind (calls_writeAll hwrite _) fun _ => trivial

theorem calls_initTcpStream (htls : P .acceptTls) (tlsConfigured allowNoTls : Bool) :
    (initTcpStream tlsConfigured allowNoTls).Calls P := by
  have hreply : ∀ buf (st : StreamType), ((writeAll buf).bind fun _ => .ret st).Calls P :=
    fun buf st => Prog.Calls.bind (calls_writeAll hwrite buf) fun _ => trivial
  refine Prog.Calls.bind (calls_readExact hread 3) fun greeting => ?_
  refine Prog.Calls.bind (Prog.calls_ofExcept _) fun st => ?_
  dsimp only
  split_ifs
  · exact hreply _ _
  · trivial
  · refine Prog.Calls.bind (Prog.calls_op htls) fun r => ?_
    exact Prog.Calls.bind (Prog.calls_ofExcept _) fun _ => hreply _ _
  · trivial
  · trivial

omit hread hwrite in
theorem calls_authenticateTcp (hauth : ∀ login password, P (.authenticate login password))
    (login password addr : Str) : (authenticateTcp cfg login password addr).Calls P := by
  unfold authenticateTcp
  split_ifs
  · trivial
  · trivial
  · refine Prog.Calls.bind (Prog.calls_op (hauth login password)) fun verified => ?_
    split_ifs
    · trivial
    · trivial

omit hread in
theorem calls_serveClient (hcontrol : ∀ client o, ControlOp cfg client acl o → P o)
    {login addr : Str} (hregister : P (.registerClient login addr))
    (hunregister : ∀ client, P (.unregisterClient client))
    (habort : ∀ client, P (.abortTasks client)) (turns : Nat) :
    (serveClient cfg acl login addr turns).Calls P := by
  unfold serveClient
  refine Prog.Calls.bind (Prog.calls_op hregister) fun r => ?_
  refine Prog.Calls.bind (Prog.calls_ofExcept r) fun client => ?_
  refine Prog.Calls.bind (calls_writeAll hwrite _) fun _ => ?_
  have hsession := (calls_processControl cfg client acl turns).mono (hcontrol client)
  refine Prog.Calls.bind hsession.attempt fun result => ?_
  refine Prog.Calls.bind (Prog.calls_op (hunregister client)) fun _ => ?_
  exact Prog.Calls.bind (Prog.calls_op (habort client)) fun _ => Prog.calls_ofExcept _

end

/-! What holds of a stream handler: a property that login operations may come before, that every
refusal has, and that a client is served with. -/

section
variable {T : ServerProg Error Bool → Prop}
  (hbind : ∀ {β : Type} {p : ServerProg Error β} {f : β → ServerProg Error Bool},
    p.Calls LoginOp → (∀ b, T (f b)) → T (p.bind f))
  (hret : T (.ret false))
include hbind hret

theorem launchDataStream_rule : T ((perform .launchDataStream).bind fun r =>
    (Prog.ofExcept r : ServerProg Error Unit).bind fun _ => .ret false) :=
  hbind (Prog.calls_op trivial) fun r => hbind (Prog.calls_ofExcept r) fun _ => hret

theorem handleUnixStream_rule {path : Str} {turns : Nat}
    (hserve : ∀ login, T (serveClient cfg Acl.newFull login path turns)) :
    T (handleUnixStream cfg path turns) := by
  refine hbind (calls_initUnixStream (fun _ => trivial) fun _ => trivial) fun st => ?_
  split_ifs
  · exact launchDataStream_rule hbind hret
  · refine hbind (calls_readFrame (fun _ => trivial) _) fun frame => ?_
    exact hbind (Prog.calls_ofExcept _) hserve

theorem handleTcpStream_rule (hthrow : ∀ e, T (.throw e)) {addr : Str} {turns : Nat}
    (hserve : ∀ acl login, T (serveClient cfg acl login addr turns)) (tlsConfigured allowNoTls : Bool) :
    T (handleTcpStream cfg addr tlsConfigured allowNoTls turns) := by
  have hinit := calls_initTcpStream (P := LoginOp) (fun _ => trivial) (fun _ => trivial) trivial
    tlsConfigured allowNoTls
  refine hbind hinit fun st => ?_
  split_ifs
  · exact launchDataStream_rule hbind hret
  · refine hbind (calls_readFrame (fun _ => trivial) _) fun frame => ?_
    refine hbind (Prog.calls_ofExcept _) fun login => ?_
    cases (splitFirst 0 frame).2 with
    | none => exact hthrow _
    | some rest =>
      refine hbind (Prog.calls_ofExcept _) fun password => ?_
      refine hbind (calls_authenticateTcp cfg (fun _ _ => trivial) login password addr) fun _ => ?_
      refine hbind (Prog.calls_op trivial) fun acl => ?_
      cases acl with
      | none => exact hthrow _
      | some acl => exact hserve acl login

end

def DatagramOp : ServerOp → Prop
  | .nowNs => True
  | .authenticate _ _ => True
  | .getAcl _ => True
  | .authAndDecr _ _ _ => True
  | .getSubscribers _ => True
  | .pushToSubscribers _ _ _ _ _ => True
  | .replicationPush _ _ _ _ => True
  | .sendTo _ => True
  | _ => False

theorem calls_authenticateUdp {P : ServerOp → Prop}
    (hauth : ∀ login password, P (.authenticate login password)) (login : Str)
    (password : Option Str) (needAck : Bool) :
    (authenticateUdp cfg login password needAck).Calls P := by
  unfold authenticateUdp
  cases password with
  | none => trivial
  | some password =>
    dsimp only
    split_ifs
    · trivial
    · trivial
    · refine Prog.Calls.bind (Prog.calls_op (hauth login password)) fun verified => ?_
      split_ifs
      · trivial
      · trivial

theorem calls_publishUdp {P : ServerOp → Prop}
    (hauth : ∀ login password, P (.authenticate login password))
    (hacl : ∀ login, P (.getAcl login)) {raw : Str} {data : Bytes} {priority : UInt8}
    {timestamp : UInt64}
    (hdeliver : ∀ (acl : Acl) topic, prepareTopic cfg.maxTopicDepth raw = .ok topic →
      containsInvalidSymbols topic = false → acl.allowWrite topic = true →
      P (.getSubscribers topic) ∧
        (∀ subscribers, P (.pushToSubscribers subscribers priority topic data timestamp)) ∧
        (cfg.cluster = true → P (.replicationPush priority topic data timestamp)))
    (login : Str) (password : Option Str) (needAck : Bool) :
    (publishUdp cfg login password needAck priority raw data timestamp).Calls P := by
  unfold publishUdp
  refine Prog.Calls.bind (calls_authenticateUdp cfg hauth login password needAck) fun _ =>
    Prog.Calls.bind (Prog.calls_op (hacl login)) fun acl => ?_
  cases acl with
  | none => trivial
  | some acl =>
    cases hprepared : prepareTopic cfg.maxTopicDepth raw with
    | error e => trivial
    | ok topic =>
      simp only [Prog.bind_eq, Prog.ofExcept_ok, Prog.ret_mapError, Prog.ret_bind]
      split_ifs with hinvalid hwrite
      · trivial
      · trivial
      · have hw : acl.allowWrite topic = true := by
          simpa only [Bool.not_eq_true', Bool.not_eq_false] using hwrite
        obtain ⟨hget, hpush, hrepl⟩ :=
          hdeliver acl topic hprepared (Bool.eq_false_of_not_eq_true hinvalid) hw
        exact calls_deliver cfg hget hpush hrepl trivial

theorem calls_processUdpBlock (login : Str) (password : Option Str) (block : Bytes)
    (timestamp : UInt64) :
    (processUdpBlock cfg login password block timestamp).Calls DatagramOp := by
  rw [processUdpBlock_eq]
  refine Prog.Calls.bind (Prog.calls_ofExcept _) fun b => ?_
  exact calls_publishUdp cfg (fun _ _ => trivial) (fun _ => trivial)
    (fun _ _ _ _ _ => ⟨trivial, fun _ => trivial, fun _ => trivial⟩) login password b.needAck

theorem calls_processUdpPacket (frame : Bytes) :
    (processUdpPacket cfg frame).Calls DatagramOp := by
  rw [processUdpPacket_eq]
  refine ⟨trivial, fun timestamp => ?_⟩
  refine Prog.Calls.bind ((Prog.calls_ofExcept _).mapError _) fun envelope => ?_
  cases envelope with
  | plain login password block => exact calls_processUdpBlock cfg login (some password) block _
  | «sealed» login etp encrypted =>
    refine ⟨trivial, fun r => ?_⟩
    exact Prog.Calls.bind ((Prog.calls_ofExcept r).mapError _) fun block =>
      calls_processUdpBlock cfg login none block timestamp

theorem calls_handleUdpDatagram (frame : Bytes) :
    (handleUdpDatagram cfg frame).Calls DatagramOp := by
  unfold handleUdpDatagram
  refine Prog.Calls.bind (calls_processUdpPacket cfg frame).attempt fun result => ?_
  cases udpAckCode result with
  | none => trivial
  | some code => exact Prog.Calls.bind (Prog.calls_op trivial) fun _ => trivial

end

end Psrt

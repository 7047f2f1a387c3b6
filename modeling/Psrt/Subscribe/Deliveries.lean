import Psrt.Server.Calls
import Psrt.Server.Peers
import Psrt.Subscribe.Filter

/-! Whom a message is pushed to: the subscribers that the same handler has just asked for. -/

namespace Psrt
open Wire Interaction

abbrev Query := Option (Str × List ServerClient)

/-- A push goes to the subscribers of the last query. Its topic is one a publish may have, unless
another node of a cluster sent it. -/
def deliveryMonitor (cfg : Config) : Monitor ServerOp ServerOp.Resp Query where
  allowed q
    | .pushToSubscribers subscribers _ topic _ _ => q = some (topic, subscribers) ∧
      (Publishable cfg.maxTopicDepth topic ∨ cfg.cluster = true)
    | _ => True
  possible _ _ _ := True
  next q
    | .getSubscribers topic, subscribers => some (topic, subscribers)
    | _, _ => q

section
variable {cfg : Config} {ε α : Type}

theorem safe_quiet {p : ServerProg ε α} (hp : p.Calls NoPush) : (deliveryMonitor cfg).Safe p := by
  refine Monitor.safe_of_calls (fun q o ho => ?_) hp
  cases o with
  | pushToSubscribers => exact ho.elim
  | _ => trivial

theorem safe_readExact (n : Nat) : (deliveryMonitor cfg).Safe (readExact n) :=
  safe_quiet (calls_readExact (fun _ => trivial) n)

theorem safe_writeAll (buf : Bytes) : (deliveryMonitor cfg).Safe (writeAll buf) :=
  safe_quiet (calls_writeAll (fun _ => trivial) buf)

theorem safe_readFrame (maxLength : Option Nat) :
    (deliveryMonitor cfg).Safe (readFrame maxLength) :=
  safe_quiet (calls_readFrame (fun _ => trivial) maxLength)

theorem safe_ret (a : α) : (deliveryMonitor cfg).Safe (.ret a : ServerProg ε α) :=
  fun _ => trivial

theorem safe_throw (e : ε) : (deliveryMonitor cfg).Safe (.throw e : ServerProg ε α) :=
  fun _ => trivial

theorem safe_deliver {priority : UInt8} {topic : Str} {message : Bytes} {timestamp : UInt64}
    (htopic : Publishable cfg.maxTopicDepth topic) {last : ServerProg ε α}
    (hlast : (deliveryMonitor cfg).Safe last) :
    (deliveryMonitor cfg).Safe ((perform (.getSubscribers topic)).bind fun subscribers =>
      (pushIfAny subscribers priority topic message timestamp).bind fun _ =>
        (replicate cfg priority topic message timestamp).bind fun _ => last) := by
  have hreplicate : (deliveryMonitor cfg).Safe
      ((replicate cfg priority topic message timestamp).bind fun _ => last) := by
    refine Monitor.Safe.bind (safe_quiet ?_) fun _ => hlast
    unfold replicate
    split_ifs
    · exact Prog.calls_op trivial
    · trivial
  intro q
  rw [Prog.op_bind]
  refine ⟨trivial, fun subscribers _ => ?_⟩
  unfold pushIfAny
  dsimp only
  split_ifs
  · exact hreplicate _
  · exact ⟨⟨rfl, .inl htopic⟩, fun _ _ => hreplicate _⟩

theorem safe_handlePublish (acl : Acl) (timestamp : UInt64) (priority : UInt8) (buf : Bytes) :
    (deliveryMonitor cfg).Safe (handlePublish cfg acl timestamp priority buf) := by
  unfold handlePublish
  cases buf.idxOf? 0 with
  | none => exact safe_throw _
  | some n =>
    dsimp only
    split_ifs
    · exact safe_throw _
    · unfold publishNamed
      refine Monitor.Safe.bind (Monitor.safe_ofExcept _) fun raw => ?_
      cases hprepared : prepareTopic cfg.maxTopicDepth raw with
      | error e => exact safe_writeAll _
      | ok topic =>
        dsimp only
        split_ifs with hinvalid hwrite
        · exact safe_throw _
        · exact safe_deliver ⟨raw, hprepared, Bool.eq_false_of_not_eq_true hinvalid⟩
            (safe_writeAll _)
        · exact safe_writeAll _

theorem safe_handlePublishRepl (hcluster : cfg.cluster = true) (acl : Acl) (topicData : Bytes) :
    (deliveryMonitor cfg).Safe (handlePublishRepl cfg acl topicData) := by
  unfold handlePublishRepl
  refine Monitor.Safe.bind (Monitor.safe_ofExcept _) fun topic => ?_
  split_ifs
  · intro q
    rw [Prog.bind_eq, Prog.op_bind]
    refine ⟨trivial, fun subscribers _ => ?_⟩
    dsimp only
    split_ifs
    · exact safe_writeAll _ _
    · -- the query stays the last one while the rest of the command is read
      have hquiet : ∀ {β γ : Type} {p : ServerProg Error β} {f : β → ServerProg Error γ},
          p.Calls NoQuery → (∀ b, (deliveryMonitor cfg).wp (f b) (fun _ _ => True)
            (fun _ _ => True) (some (topic, subscribers))) →
          (deliveryMonitor cfg).wp (p.bind f) (fun _ _ => True) (fun _ _ => True)
            (some (topic, subscribers)) := by
        intro β γ p f hp hf
        rw [Monitor.wp_bind]
        refine Monitor.wp_mono ?_ (fun _ _ _ => trivial)
          (Monitor.wp_of_calls (I := fun q => q = some (topic, subscribers)) ?_ ?_ hp rfl)
        · rintro b q rfl
          exact hf b
        · rintro q o r rfl ho _
          cases o with
          | getSubscribers => exact ho.elim
          | _ => rfl
        · rintro q o rfl ho
          cases o with
          | pushToSubscribers => exact ho.elim
          | _ => trivial
      refine hquiet (calls_writeAll (fun _ => trivial) _) fun _ => ?_
      refine hquiet (calls_readExact (fun _ => trivial) _) fun prio => ?_
      refine hquiet (calls_readExact (fun _ => trivial) _) fun tsBuf => ?_
      refine hquiet (calls_readFrame (fun _ => trivial) _) fun data => ?_
      exact ⟨⟨rfl, .inr hcluster⟩, fun _ _ => safe_writeAll _ _⟩
  · exact safe_writeAll _

theorem safe_processCommand (client : ServerClient) (acl : Acl) :
    (deliveryMonitor cfg).Safe (processCommand cfg client acl) := by
  have hreply : ∀ buf (r : Option Unit), (deliveryMonitor cfg).Safe
      ((writeAll buf).bind fun _ => .ret r) := fun buf r =>
    (safe_writeAll buf).bind fun _ => safe_ret r
  have hquiet : ∀ {o : ServerOp}, NoPush o →
      (deliveryMonitor cfg).Safe (perform o : ServerProg Error o.Resp) := fun ho =>
    safe_quiet (Prog.calls_op ho)
  unfold processCommand readRequest
  rw [Prog.bind_eq, Prog.bind_eq, Prog.bind_assoc]
  refine (safe_readExact 1).bind fun cmd => ?_
  unfold readArm
  split_ifs with hnop hsub hunsub hpub hrepl hcluster hbye
  · exact hreply _ _
  · simp only [Prog.bind_eq, Prog.bind_assoc, Prog.ret_bind, handleRequest]
    refine (safe_readFrame _).bind fun data => ?_
    refine (Monitor.safe_ofExcept _).bind fun topics => ?_
    exact Monitor.Safe.bind (hquiet trivial) fun res => hreply _ _
  · simp only [Prog.bind_eq, Prog.bind_assoc, Prog.ret_bind, handleRequest]
    refine (safe_readFrame _).bind fun data => ?_
    refine (Monitor.safe_ofExcept _).bind fun topics => ?_
    exact Monitor.Safe.bind (hquiet trivial) fun success => hreply _ _
  · simp only [Prog.bind_eq, Prog.bind_assoc, Prog.ret_bind, handleRequest]
    refine Monitor.Safe.bind (hquiet trivial) fun timestamp => ?_
    refine (safe_readExact _).bind fun prio => ?_
    refine (safe_readFrame _).bind fun buf => ?_
    exact (safe_handlePublish acl _ _ _).bind fun _ => safe_ret none
  · simp only [Prog.bind_eq, Prog.bind_assoc, Prog.ret_bind, handleRequest]
    refine (safe_readFrame _).bind fun topicData => ?_
    exact (safe_handlePublishRepl hcluster acl _).bind fun _ => safe_ret none
  · exact safe_throw _
  · exact hreply _ _
  · exact safe_throw _

theorem safe_serveClient (acl : Acl) (login addr : Str) (turns : Nat) :
    (deliveryMonitor cfg).Safe (serveClient cfg acl login addr turns) := by
  have hquiet : ∀ {o : ServerOp}, NoPush o →
      (deliveryMonitor cfg).Safe (perform o : ServerProg Error o.Resp) := fun ho =>
    safe_quiet (Prog.calls_op ho)
  unfold serveClient
  refine Monitor.Safe.bind (hquiet trivial) fun r => (Monitor.safe_ofExcept r).bind fun client => ?_
  refine (safe_writeAll _).bind fun _ => ?_
  have hcommand : (deliveryMonitor cfg).Safe (processCommand cfg client acl) :=
    safe_processCommand client acl
  have hsession := Monitor.safe_loop hcommand turns
  refine hsession.attempt.bind fun result => ?_
  refine Monitor.Safe.bind (hquiet trivial) fun _ => Monitor.Safe.bind (hquiet trivial) fun _ => ?_
  exact Monitor.safe_ofExcept _

theorem safe_publishUdp (login : Str) (password : Option Str) (needAck : Bool) (priority : UInt8)
    (raw : Str) (data : Bytes) (timestamp : UInt64) :
    (deliveryMonitor cfg).Safe
      (publishUdp cfg login password needAck priority raw data timestamp) := by
  unfold publishUdp
  refine (safe_quiet (calls_authenticateUdp cfg (fun _ _ => trivial) login password needAck)).bind
    fun _ => ?_
  refine Monitor.Safe.bind (safe_quiet (Prog.calls_op trivial)) fun acl => ?_
  cases acl with
  | none => exact safe_throw _
  | some acl =>
    cases hprepared : prepareTopic cfg.maxTopicDepth raw with
    | error e => exact safe_throw _
    | ok topic =>
      dsimp only [Prog.ofExcept_ok, Prog.ret_mapError, Prog.bind_eq, Prog.ret_bind]
      split_ifs with hinvalid hwrite
      · exact safe_throw _
      · exact safe_throw _
      · exact safe_deliver ⟨raw, hprepared, Bool.eq_false_of_not_eq_true hinvalid⟩ (safe_ret _)

theorem safe_processUdpBlock (login : Str) (password : Option Str) (block : Bytes)
    (timestamp : UInt64) :
    (deliveryMonitor cfg).Safe (processUdpBlock cfg login password block timestamp) := by
  rw [processUdpBlock_eq]
  exact (Monitor.safe_ofExcept _).bind fun b => safe_publishUdp _ _ _ _ _ _ _

theorem safe_processUdpPacket (frame : Bytes) :
    (deliveryMonitor cfg).Safe (processUdpPacket cfg frame) := by
  have hquiet : ∀ o : ServerOp, NoPush o → (deliveryMonitor cfg).Safe
      (perform o : ServerProg UdpError o.Resp) := fun o ho => safe_quiet (Prog.calls_op ho)
  rw [processUdpPacket_eq]
  refine (hquiet .nowNs trivial).bind fun timestamp => ?_
  refine ((Monitor.safe_ofExcept _).mapError _).bind fun envelope => ?_
  cases envelope with
  | plain login password block => exact safe_processUdpBlock _ _ _ _
  | «sealed» login etp encrypted =>
    refine (hquiet (.authAndDecr encrypted (udpKeyId login) etp) trivial).bind fun r => ?_
    exact ((Monitor.safe_ofExcept r).mapError _).bind fun block => safe_processUdpBlock _ _ _ _

theorem safe_handler (peer : Peer) : (deliveryMonitor cfg).Safe (peer.handler cfg) := by
  have hlogin : ∀ o, LoginOp o → NoPush o := by
    intro o ho
    cases o with
    | pushToSubscribers => exact ho.elim
    | _ => trivial
  have hbind : ∀ {β : Type} {p : ServerProg Error β} {f : β → ServerProg Error Bool},
      p.Calls LoginOp → (∀ b, (deliveryMonitor cfg).Safe (f b)) →
        (deliveryMonitor cfg).Safe (p.bind f) :=
    fun hp hf => (safe_quiet (hp.mono hlogin)).bind hf
  cases peer with
  | tcp addr tlsConfigured allowNoTls turns =>
    exact handleTcpStream_rule cfg hbind (safe_ret false) safe_throw
      (fun acl login => safe_serveClient acl login addr turns) tlsConfigured allowNoTls
  | unix path turns =>
    exact handleUnixStream_rule cfg hbind (safe_ret false) fun login =>
      safe_serveClient Acl.newFull login path turns
  | udp frame =>
    refine Monitor.Safe.bind ?_ fun _ => safe_ret false
    refine (safe_processUdpPacket frame).attempt.bind fun result => ?_
    cases udpAckCode result with
    | none => exact safe_ret ()
    | some code => exact Monitor.Safe.bind (safe_quiet (Prog.calls_op trivial)) fun _ => safe_ret ()

end

theorem query_of_after {cfg : Config} {h : List ServerEvent} {topic : Str}
    {subscribers : List ServerClient}
    (hq : (deliveryMonitor cfg).after none h = some (topic, subscribers)) :
    ⟨.getSubscribers topic, subscribers⟩ ∈ h := by
  induction h using List.reverseRecOn with
  | nil => cases hq
  | append_singleton h e ih =>
    rw [Monitor.after_snoc] at hq
    obtain ⟨o, r⟩ := e
    cases o with
    | getSubscribers topic' =>
      obtain ⟨rfl, rfl⟩ := Prod.mk.inj (Option.some.inj hq)
      exact List.mem_append_right _ (List.mem_singleton_self _)
    | _ => exact List.mem_append_left _ (ih hq)

theorem push_of_query {m : SubMap} {cfg : Config} {crypto : Crypto} {sha256 : Token → Digest}
    {s : Server m} (hr : ServerReachable cfg crypto sha256 s) {i : Nat} {st : ServerState m}
    {subscribers : List ServerClient} {priority : UInt8} {topic : Str} {message : Bytes}
    {timestamp : UInt64}
    (hmem : ⟨i, st, ⟨.pushToSubscribers subscribers priority topic message timestamp, ()⟩⟩ ∈
      s.trace) :
    (Publishable cfg.maxTopicDepth topic ∨ cfg.cluster = true) ∧
      ∃ e ∈ s.trace, subscribers = e.world.db.getSubscribers topic := by
  obtain ⟨peer, rest, hprocess⟩ := System.started_of_mem_trace hr hmem
  obtain ⟨before, after, htrace⟩ := List.append_of_mem hmem
  have hadmits : ∀ q h, (deliveryMonitor cfg).Admits q h := by
    intro q h
    induction h generalizing q with
    | nil => trivial
    | cons e h ih => exact ⟨trivial, ih _⟩
  have haccepts := (System.accepts_history (safe_handler peer none) hr hprocess (hadmits _ _)).1
  rw [htrace, System.history_split, Monitor.accepts_append] at haccepts
  obtain ⟨hquery, htopic⟩ := haccepts.2.1
  obtain ⟨w, hasked⟩ := System.mem_history.mp (query_of_after hquery)
  have hin : ⟨i, w, ⟨.getSubscribers topic, subscribers⟩⟩ ∈ s.trace := by
    rw [htrace]
    exact List.mem_append_left _ hasked
  obtain ⟨_, hexec⟩ := System.exec_of_mem_trace hr hin
  exact ⟨htopic, _, hin, hexec.2⟩

end Psrt

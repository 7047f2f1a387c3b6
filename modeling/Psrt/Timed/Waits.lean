import Psrt.Timed.Erasure
import Psrt.Handshake.Exchange

/-! How long a peer may keep its handler waiting. -/

namespace Psrt.Timed
open Wire Interaction ClockProg

section
variable {start base bound bound' timeout : Nat} {α β : Type}

theorem takes_readWithTimeout (n timeout : Nat) : Takes timeout (readWithTimeout n timeout) :=
  takes_of_meets fun _ _ =>
    ((takes_within timeout _).meets (Nat.zero_add timeout).le).bind (fun r => meets_ofExcept r) le_rfl

theorem takes_writeWithTimeout (buf : Bytes) (timeout : Nat) :
    Takes timeout (writeWithTimeout buf timeout) :=
  takes_of_meets fun _ _ =>
    ((takes_within timeout _).meets (Nat.zero_add timeout).le).bind (fun r => meets_ofExcept r) le_rfl

theorem takes_readFrameWithTimeout (maxLength : Option Nat) (timeout : Nat) :
    Takes timeout (readFrameWithTimeout maxLength timeout) := by
  refine takes_now fun start base =>
    ((takes_readWithTimeout 4 timeout).meets (Nat.zero_add timeout).le).bind (fun lenBuf => ?_) le_rfl
  dsimp only
  split_ifs
  · exact meets_throw _
  · exact meets_reduce (fun limit => takes_readWithTimeout _ limit) le_rfl

theorem meets_reduce_bind {f : Nat → TimedProg α} {g : α → TimedProg β}
    (hf : ∀ limit, Takes limit (f limit)) (hle : timeout ≤ bound)
    (hg : ∀ a, Meets start base bound bound' (g a)) (hle' : bound ≤ bound') :
    Meets start base bound bound'
      ((reduceTimeout timeout start).bind fun limit => (f limit).bind g) := by
  rw [← Prog.bind_assoc]
  exact (meets_reduce hf hle).bind hg hle'

theorem own_bind (timeout : Nat) (p : ServerProg Error α) (f : α → ServerProg Error β) :
    own timeout (p.bind f) = (own timeout p).bind fun a => own timeout (f a) := by
  unfold own
  rw [Prog.rename_bind, limited_bind]

def OffStream : ServerOp → Prop
  | .read _ => False
  | .write _ => False
  | _ => True

theorem meets_own_of_calls {p : ServerProg Error α} (hp : p.Calls OffStream) :
    Meets start base bound bound (own timeout p) := by
  refine meets_limited_of_calls (Prog.Calls.rename (hp.mono fun o ho => ?_))
  cases o with
  | read n => exact ho.elim
  | write buf => exact ho.elim
  | _ => rfl

theorem meets_own_writeAll (buf : Bytes) (hle : bound + timeout ≤ bound') :
    Meets start base bound bound' (own timeout (writeAll buf)) := by
  have hown : own timeout (writeAll buf) = writeWithTimeout buf timeout := by
    show (within (some timeout) (HandlerOp.server (.write buf))).bind (fun r =>
      limited (ownTimeout timeout) ((Prog.ofExcept r : ServerProg Error Unit).rename asHandler)) = _
    refine congrArg (Prog.bind _) (funext fun r => ?_)
    cases r with
    | ok a => rfl
    | error e => rfl
  rw [hown]
  exact (takes_writeWithTimeout buf timeout).meets hle

theorem meets_own_readExact (n : Nat) (hle : bound + timeout ≤ bound') :
    Meets start base bound bound' (own timeout (readExact n)) := by
  have hown : own timeout (readExact n) = readWithTimeout n timeout := by
    show (within (some timeout) (HandlerOp.server (.read n))).bind (fun r =>
      limited (ownTimeout timeout) ((Prog.ofExcept r : ServerProg Error Bytes).rename asHandler)) = _
    refine congrArg (Prog.bind _) (funext fun r => ?_)
    cases r with
    | ok a => rfl
    | error e => rfl
  rw [hown]
  exact (takes_readWithTimeout n timeout).meets hle

theorem meets_own_op {o : ServerOp} (ho : OffStream o) :
    Meets start base bound bound (own timeout (perform o)) :=
  meets_own_of_calls (Prog.calls_op ho)

theorem meets_own_reply (buf : Bytes) (b : β) (hle : bound + timeout ≤ bound') :
    Meets start base bound bound' (own timeout ((writeAll buf).bind fun _ => .ret b)) := by
  rw [own_bind]
  exact (meets_own_writeAll _ hle).bind (fun _ => meets_ret b) le_rfl

theorem meets_own_topics {data : Bytes} {o : List Str → ServerOp} (ho : ∀ topics, OffStream (o topics))
    {buf : (topics : List Str) → (o topics).Resp → Bytes} {b : β} (hle : bound + timeout ≤ bound') :
    Meets start base bound bound' (own timeout ((Prog.ofExcept (parseTopics data)).bind fun topics =>
      (perform (o topics)).bind fun r => (writeAll (buf topics r)).bind fun _ => .ret b)) := by
  have hrise : bound ≤ bound' := by omega
  rw [own_bind]
  refine (meets_own_of_calls (Prog.calls_ofExcept _)).bind (fun topics => ?_) hrise
  rw [own_bind]
  exact (meets_own_op (ho topics)).bind (fun r => meets_own_reply _ b hle) hrise

theorem meets_own_handlePublish (cfg : Config) (acl : Acl) (timestamp : UInt64) (priority : UInt8)
    (buf : Bytes) (hle : bound + timeout ≤ bound') : Meets start base bound bound'
      (own timeout (handlePublish cfg acl timestamp priority buf)) := by
  have hrise : bound ≤ bound' := by omega
  unfold handlePublish
  cases buf.idxOf? 0 with
  | none => exact (meets_throw _).mono hrise
  | some npos =>
    dsimp only
    split_ifs
    · exact (meets_throw _).mono hrise
    · rw [publishNamed, Prog.bind_eq, own_bind]
      refine (meets_own_of_calls (Prog.calls_ofExcept _)).bind (fun raw => ?_) hrise
      cases prepareTopic cfg.maxTopicDepth raw with
      | error e => exact meets_own_writeAll _ hle
      | ok topic =>
        dsimp only
        split_ifs
        · exact (meets_throw _).mono hrise
        · simp only [Prog.bind_eq, own_bind]
          refine (meets_own_op (o := .getSubscribers topic) trivial).bind (fun subscribers => ?_) hrise
          refine (meets_own_of_calls ?_).bind (fun _ => ?_) hrise
          · unfold pushIfAny
            split_ifs
            · trivial
            · exact Prog.calls_op trivial
          · refine (meets_own_of_calls ?_).bind (fun _ => meets_own_writeAll _ hle) hrise
            unfold replicate
            split_ifs
            · exact Prog.calls_op trivial
            · trivial
        · exact meets_own_writeAll _ hle

theorem meets_handlePublishRepl (cfg : Config) (acl : Acl) (topicData : Bytes) :
    Meets start base timeout (3 * timeout) (handlePublishRepl acl cfg timeout start topicData) := by
  refine (meets_ofExcept _).bind (fun topic => ?_) (by omega)
  split_ifs
  · refine (meets_own_op (o := .getSubscribers topic) trivial).bind (fun subscribers => ?_) (by omega)
    split_ifs
    · exact meets_own_writeAll _ (by omega)
    · -- the reply that asks for the message may have taken a timeout of its own
      have hle : timeout ≤ 2 * timeout := by omega
      have hwaiting : Meets start base timeout (2 * timeout) (own timeout (writeAll [responseOkWaiting])) :=
        meets_own_writeAll _ (by omega)
      refine hwaiting.bind (fun _ => ?_) (by omega)
      refine meets_reduce_bind (takes_readWithTimeout 1) hle (fun prio => ?_) (by omega)
      refine meets_reduce_bind (takes_readWithTimeout 8) hle (fun tsBuf => ?_) (by omega)
      refine meets_reduce_bind (takes_readFrameWithTimeout _) hle (fun data => ?_) (by omega)
      exact (meets_own_op (o := .pushToSubscribers ..) trivial).bind
        (fun _ => meets_own_writeAll _ (by omega)) (by omega)
  · exact meets_own_writeAll _ (by omega)

/-- A command is read in one timeout and answered in another; in a cluster there may be two answers. -/
def turnLimit (cfg : Config) (timeout : Nat) : Nat :=
  if cfg.cluster then 3 * timeout else 2 * timeout

theorem le_turnLimit (cfg : Config) (timeout : Nat) : timeout + timeout ≤ turnLimit cfg timeout := by
  unfold turnLimit
  split_ifs <;> omega

theorem meets_request (cfg : Config) (client : ServerClient) (acl : Acl) (op : UInt8) :
    Meets start base timeout (turnLimit cfg timeout)
      ((readArm cfg timeout start op).bind (handleRequest cfg client acl timeout start)) := by
  have hle := le_turnLimit cfg timeout
  have hrise : timeout ≤ turnLimit cfg timeout := by omega
  unfold readArm
  split_ifs with _ _ _ _ _ hcluster
  · exact meets_own_reply _ _ hle
  · simp only [Prog.bind_eq, Prog.bind_assoc]
    refine meets_reduce_bind (takes_readFrameWithTimeout _) le_rfl (fun data => ?_) hrise
    exact meets_own_topics (o := (.subscribe acl · client)) (fun _ => trivial) hle
  · simp only [Prog.bind_eq, Prog.bind_assoc]
    refine meets_reduce_bind (takes_readFrameWithTimeout _) le_rfl (fun data => ?_) hrise
    exact meets_own_topics (o := (.unsubscribe · client)) (fun _ => trivial) hle
  · simp only [Prog.bind_eq, Prog.bind_assoc]
    refine (meets_own_op (o := .nowNs) trivial).bind (fun timestamp => ?_) hrise
    refine meets_reduce_bind (takes_readWithTimeout 1) le_rfl (fun prio => ?_) hrise
    refine meets_reduce_bind (takes_readFrameWithTimeout _) le_rfl (fun buf => ?_) hrise
    show Meets start base timeout _ (own timeout
      ((handlePublish cfg acl timestamp (prio.headD defaultPriority) buf).bind fun _ => .ret none))
    rw [own_bind]
    exact (meets_own_handlePublish cfg acl timestamp _ buf hle).bind (fun _ => meets_ret _) le_rfl
  · simp only [Prog.bind_eq, Prog.bind_assoc]
    refine meets_reduce_bind (takes_readFrameWithTimeout _) le_rfl (fun topicData => ?_) hrise
    rw [turnLimit, if_pos hcluster]
    exact (meets_handlePublishRepl cfg acl topicData).bind (fun _ => meets_ret _) le_rfl
  · exact (meets_throw _).mono hrise
  · exact meets_own_reply _ _ hle
  · exact (meets_throw _).mono hrise

theorem takes_processCommand (cfg : Config) (client : ServerClient) (acl : Acl) (timeout : Nat) :
    Takes (turnLimit cfg timeout) (processCommand cfg client acl timeout) := by
  have hle := le_turnLimit cfg timeout
  exact takes_now fun start base =>
    ((takes_readWithTimeout 1 timeout).meets (Nat.zero_add timeout).le).bind
      (fun cmd => meets_request cfg client acl _) (by omega)

end

def IsTurn (cfg : Config) (timeout : Nat) (h : List TimedEvent) : Prop :=
  ∃ client acl, Prog.Run (processCommand cfg client acl timeout) h (.ret none)

def InTurns (cfg : Config) (timeout : Nat) (h : List TimedEvent) : Prop :=
  ∃ (turns : List (List TimedEvent)) (last : List TimedEvent), h = turns.flatten ++ last ∧
    (∀ turn ∈ turns, IsTurn cfg timeout turn ∧ waited turn ≤ turnLimit cfg timeout) ∧
      waited last ≤ turnLimit cfg timeout

def RegistersNone (e : HandlerEvent) : Prop := clientsOf e = [] ∧ channelsOf e = []

structure Paced (cfg : Config) (timeout limit : Nat) (h : List TimedEvent) : Prop where
  stranger : (∀ e ∈ untimed h, RegistersNone e) → waited h ≤ limit
  turns : ∃ opening session, h = opening ++ session ∧ waited opening ≤ limit ∧
    InTurns cfg timeout session

def Paces {α : Type} (cfg : Config) (timeout limit : Nat) (p : TimedProg α) : Prop :=
  ∀ h q clock, Prog.Run p h q → KeepsTime clock h → Paced cfg timeout limit h

section
variable {cfg : Config} {timeout limit limit' : Nat} {α β : Type}

theorem inTurns_nil : InTurns cfg timeout [] :=
  ⟨[], [], rfl, fun _ hm => absurd hm List.not_mem_nil, Nat.zero_le _⟩

theorem paced_of_waited {h : List TimedEvent} (hw : waited h ≤ limit) : Paced cfg timeout limit h :=
  ⟨fun _ => hw, h, [], (List.append_nil h).symm, hw, inTurns_nil⟩

theorem paces_of_takes {p : TimedProg α} (hp : Takes limit p) : Paces cfg timeout limit p :=
  fun _ _ _ hr ht => paced_of_waited (hp.waited_le hr ht)

theorem Paced.append {h h' : List TimedEvent} (hw : waited h ≤ limit)
    (hp : Paced cfg timeout limit' h') : Paced cfg timeout (limit + limit') (h ++ h') := by
  constructor
  · intro hnone
    rw [waited_append]
    refine Nat.add_le_add hw (hp.stranger fun e he => hnone e ?_)
    rw [untimed_append]
    exact List.mem_append_right _ he
  · obtain ⟨opening, session, rfl, hopening, hsession⟩ := hp.turns
    refine ⟨h ++ opening, session, (List.append_assoc ..).symm, ?_, hsession⟩
    rw [waited_append]
    exact Nat.add_le_add hw hopening

theorem Paces.bind {p : TimedProg α} {f : α → TimedProg β} (hp : Takes limit p)
    (hf : ∀ a, Paces cfg timeout limit' (f a)) : Paces cfg timeout (limit + limit') (p.bind f) := by
  intro h q clock hr ht
  rcases hr.of_bind with ⟨p', hp', -⟩ | ⟨h₁, h₂, a, rfl, h₁run, h₂run⟩
  · exact paced_of_waited ((hp.waited_le hp' ht).trans (Nat.le_add_right ..))
  · obtain ⟨h₁time, clock', h₂time⟩ := keepsTime_append ht
    exact (hf a h₂ q clock' h₂run h₂time).append (hp.waited_le h₁run h₁time)

theorem takes_of_calls {p : ServerProg Error α} (hp : p.Calls OffStream) :
    Takes 0 (own timeout p) := takes_of_meets fun _ _ => meets_own_of_calls hp

theorem takes_own_writeAll (buf : Bytes) : Takes timeout (own timeout (writeAll buf)) :=
  takes_of_meets fun _ _ => meets_own_writeAll buf (Nat.zero_add timeout).le

theorem inTurns_of_session (client : ServerClient) (acl : Acl) (turns : Nat)
    {h : List TimedEvent} {clock : Nat} {q : TimedProg Bool}
    (hr : Prog.Run ((processControl cfg client acl timeout turns).attempt.bind fun result =>
      (own timeout (perform (.unregisterClient client))).bind fun _ =>
        (own timeout (perform (.abortTasks client))).bind fun _ =>
          (.ofExcept (result.map fun _ => true) : TimedProg Bool)) h q)
    (ht : KeepsTime clock h) : InTurns cfg timeout h := by
  have hbody := takes_processCommand cfg client acl timeout
  have hloop : ∀ {h₁ : List TimedEvent} {q₁ : TimedProg Unit} {clock₁ : Nat},
      Prog.Run (processControl cfg client acl timeout turns) h₁ q₁ → KeepsTime clock₁ h₁ →
        InTurns cfg timeout h₁ := by
    intro h₁ q₁ clock₁ hrun htime
    obtain ⟨turns, last, rfl, hturns, q', hlast⟩ := Prog.Run.of_loop hrun
    obtain ⟨hturnsTime, clock', hlastTime⟩ := KeepsTime.of_mem_flatten htime
    refine ⟨turns, last, rfl, fun turn hturn => ?_, hbody.waited_le hlast hlastTime⟩
    obtain ⟨clock'', hturnTime⟩ := hturnsTime turn hturn
    exact ⟨⟨client, acl, hturns turn hturn⟩, hbody.waited_le (hturns turn hturn) hturnTime⟩
  rcases hr.of_bind with ⟨p', hp', -⟩ | ⟨h₁, h₂, result, rfl, h₁run, h₂run⟩
  · obtain ⟨q', hq', -⟩ := Prog.Run.of_attempt hp'
    exact hloop hq' ht
  · obtain ⟨h₁time, clock', h₂time⟩ := keepsTime_append ht
    obtain ⟨q', hq', -⟩ := Prog.Run.of_attempt h₁run
    obtain ⟨turns, last, rfl, hturns, hlast⟩ := hloop hq' h₁time
    have hleave : waited h₂ ≤ 0 := by
      refine Takes.waited_le (takes_of_meets fun start base => ?_) h₂run h₂time
      exact (meets_own_op (o := .unregisterClient client) trivial).bind (fun _ =>
        (meets_own_op (o := .abortTasks client) trivial).bind (fun _ => meets_ofExcept _) le_rfl) le_rfl
    refine ⟨turns, last ++ h₂, List.append_assoc .., hturns, ?_⟩
    rw [waited_append]
    exact (Nat.add_le_add_left hleave _).trans hlast

theorem paces_serveClient (acl : Acl) (login addr : Str) (turns : Nat) :
    Paces cfg timeout timeout (serveClient cfg acl login addr timeout turns) := by
  intro h q clock hr ht
  rcases hr.of_bind with ⟨p', hp', -⟩ | ⟨h₁, h₂, r, rfl, h₁run, h₂run⟩
  · have hregister : Takes 0 (own timeout (perform (.registerClient login addr))) :=
      takes_of_calls (Prog.calls_op (o := ServerOp.registerClient login addr) trivial)
    exact paced_of_waited ((hregister.waited_le hp' ht).trans (Nat.zero_le _))
  · have hevent : untimed h₁ = [⟨.server (.registerClient login addr), r⟩] ∧ waited h₁ = 0 := by
      cases h₁run with
      | cons hs hrest =>
        cases hs with
        | call o k r' =>
          obtain ⟨rfl, hret⟩ := Prog.Run.of_ret hrest
          obtain rfl : r = r'.2 := (Prog.ret.inj hret)
          exact ⟨rfl, rfl⟩
    cases r with
    | error e =>
      obtain ⟨rfl, -⟩ := Prog.Run.of_throw h₂run
      refine paced_of_waited ?_
      rw [List.append_nil, hevent.2]
      exact Nat.zero_le _
    | ok client =>
      obtain ⟨-, clock', h₂time⟩ := keepsTime_append ht
      have hregisters : ¬ ∀ e ∈ untimed (h₁ ++ h₂), RegistersNone e := by
        intro hnone
        have hmem : (⟨.server (.registerClient login addr), .ok client⟩ : HandlerEvent) ∈
            untimed (h₁ ++ h₂) := by
          rw [untimed_append, hevent.1]
          exact List.mem_append_left _ (List.mem_singleton_self _)
        exact List.cons_ne_nil _ _ (hnone _ hmem).1
      refine ⟨fun hnone => absurd hnone hregisters, ?_⟩
      rw [Prog.ofExcept_ok, Prog.bind_eq, Prog.ret_bind] at h₂run
      rcases h₂run.of_bind with ⟨p', hp', -⟩ | ⟨h₃, h₄, a, rfl, h₃run, h₄run⟩
      · refine ⟨h₁ ++ h₂, [], (List.append_nil _).symm, ?_, inTurns_nil⟩
        rw [waited_append, hevent.2, Nat.zero_add]
        exact (takes_own_writeAll _).waited_le hp' h₂time
      · obtain ⟨h₃time, clock'', h₄time⟩ := keepsTime_append h₂time
        refine ⟨h₁ ++ h₃, h₄, (List.append_assoc ..).symm, ?_,
          inTurns_of_session client acl _ h₄run h₄time⟩
        rw [waited_append, hevent.2, Nat.zero_add]
        exact (takes_own_writeAll _).waited_le h₃run h₃time

theorem Paces.mono {p : TimedProg α} (hp : Paces cfg timeout limit p) (hle : limit ≤ limit') :
    Paces cfg timeout limit' p := by
  intro h q clock hr ht
  obtain ⟨hstranger, opening, session, rfl, hopening, hsession⟩ := hp h q clock hr ht
  exact ⟨fun hnone => (hstranger hnone).trans hle, opening, session, rfl, hopening.trans hle, hsession⟩

theorem paces_tcpControl (addr : Str) (turns : Nat) :
    Paces cfg timeout (2 * timeout) (tcpControl cfg addr timeout turns) := by
  have hnone : ∀ {p : TimedProg Bool}, Takes 0 p → Paces cfg timeout timeout p :=
    fun hp => (paces_of_takes hp).mono (Nat.zero_le _)
  refine (Paces.bind (takes_readFrameWithTimeout _ timeout) fun frame => ?_).mono (Nat.two_mul _).ge
  refine (Paces.bind (takes_of_meets fun _ _ => meets_ofExcept _) fun login => ?_).mono
    (Nat.zero_add _).le
  cases (splitFirst 0 frame).2 with
  | none => exact hnone (takes_of_meets fun _ _ => meets_throw _)
  | some rest =>
    refine (Paces.bind (takes_of_meets fun _ _ => meets_ofExcept _) fun password => ?_).mono
      (Nat.zero_add _).le
    refine (Paces.bind (takes_of_calls (calls_authenticateTcp cfg (fun _ _ => trivial) ..)) fun _ =>
      ?_).mono (Nat.zero_add _).le
    refine (Paces.bind (takes_of_calls (Prog.calls_op (o := ServerOp.getAcl login) trivial)) fun acl =>
      ?_).mono (Nat.zero_add _).le
    cases acl with
    | none => exact hnone (takes_of_meets fun _ _ => meets_throw _)
    | some acl => exact paces_serveClient acl login addr turns

theorem paces_unixControl (path : Str) (turns : Nat) :
    Paces cfg timeout (2 * timeout) (unixControl cfg path timeout turns) := by
  refine (Paces.bind (takes_readFrameWithTimeout _ timeout) fun frame => ?_).mono (Nat.two_mul _).ge
  refine (Paces.bind (takes_of_meets fun _ _ => meets_ofExcept _) fun login => ?_).mono
    (Nat.zero_add _).le
  exact paces_serveClient Acl.newFull login path turns

theorem takes_launchDataStream (timeout : Nat) : Takes (2 * timeout) (launchDataStream timeout) := by
  have hrise : timeout ≤ 2 * timeout := by omega
  refine takes_now fun start base =>
    ((takes_readWithTimeout 32 timeout).meets (Nat.zero_add timeout).le).bind (fun buf => ?_) hrise
  refine meets_reduce_bind (takes_readWithTimeout 1) le_rfl (fun octet => ?_) hrise
  refine (meets_within_none _).bind (fun channel => ?_) hrise
  refine (meets_within_none _).bind (fun r => ?_) hrise
  cases r with
  | ok client =>
    show Meets start base timeout (2 * timeout)
      (limited _ (((writeAll [responseOk]).rename asHandler).bind _))
    rw [limited_bind]
    exact (meets_own_writeAll [responseOk] (by omega)).bind (fun _ => meets_limited_of_calls
      ⟨rfl, fun pinger => ⟨rfl, fun _ => ⟨rfl, fun task => ⟨rfl, fun _ => trivial⟩⟩⟩⟩) le_rfl
  | error e =>
    exact (meets_own_writeAll _ (by omega)).bind (fun _ => meets_throw e) le_rfl

theorem takes_own_greeting {f : Bytes → ServerProg Error StreamType}
    (hf : ∀ greeting start base,
      Meets start base timeout (2 * timeout) (own timeout (f greeting))) :
    Takes (2 * timeout) (own timeout ((readExact 3).bind f)) := by
  refine takes_of_meets fun start base => ?_
  rw [own_bind]
  exact (meets_own_readExact 3 (Nat.zero_add timeout).le).bind (fun b => hf b start base) (by omega)

theorem takes_initUnixStream : Takes (2 * timeout) (own timeout initUnixStream) := by
  refine takes_own_greeting fun greeting start base => ?_
  rw [Prog.bind_eq, own_bind]
  exact (meets_own_of_calls (Prog.calls_ofExcept _)).bind
    (fun st => meets_own_reply _ _ (by omega)) (by omega)

theorem takes_initTcpStream (tlsConfigured allowNoTls : Bool) :
    Takes (2 * timeout) (own timeout (initTcpStream tlsConfigured allowNoTls)) := by
  have hrise : timeout ≤ 2 * timeout := by omega
  refine takes_own_greeting fun greeting start base => ?_
  rw [Prog.bind_eq, own_bind]
  refine (meets_own_of_calls (Prog.calls_ofExcept _)).bind (fun st => ?_) hrise
  dsimp only
  split_ifs
  · exact meets_own_reply _ _ (by omega)
  · exact (meets_throw _).mono hrise
  · rw [Prog.bind_eq, own_bind]
    refine (meets_own_op (o := .acceptTls) trivial).bind (fun r => ?_) hrise
    rw [Prog.bind_eq, own_bind]
    exact (meets_own_of_calls (Prog.calls_ofExcept _)).bind
      (fun _ => meets_own_reply _ _ (by omega)) hrise
  · exact (meets_throw _).mono hrise
  · exact (meets_throw _).mono hrise

theorem paces_afterGreeting {control : TimedProg Bool} (h : Paces cfg timeout (2 * timeout) control)
    (st : StreamType) : Paces cfg timeout (2 * timeout)
      (if st = .data then (launchDataStream timeout).bind fun _ => .ret false else control) := by
  split_ifs
  · exact paces_of_takes (takes_of_meets fun _ _ =>
      ((takes_launchDataStream timeout).meets (Nat.zero_add _).le).bind (fun _ => meets_ret _) le_rfl)
  · exact h

theorem noLaunch_of_datagramOp (o : ServerOp) (ho : DatagramOp o) : NoLaunch o := by
  cases o with
  | launchDataStream => exact ho.elim
  | _ => trivial

theorem offStream_of_datagramOp (o : ServerOp) (ho : DatagramOp o) : OffStream o := by
  cases o with
  | read n => exact ho.elim
  | write buf => exact ho.elim
  | _ => trivial

theorem paces_connection (cfg : Config) (timeout : Nat) (peer : Peer) :
    Paces cfg timeout (4 * timeout) (connection cfg timeout peer) := by
  have htwice : 2 * timeout + 2 * timeout ≤ 4 * timeout := by omega
  cases peer with
  | tcp addr tlsConfigured allowNoTls turns =>
    exact (Paces.bind (takes_initTcpStream tlsConfigured allowNoTls) fun st =>
      paces_afterGreeting (paces_tcpControl addr turns) st).mono htwice
  | unix path turns =>
    exact (Paces.bind takes_initUnixStream fun st =>
      paces_afterGreeting (paces_unixControl path turns) st).mono htwice
  | udp frame =>
    have hcalls : ((handleUdpDatagram cfg frame).bind fun _ =>
        (.ret false : ServerProg Error Bool)).Calls DatagramOp :=
      (calls_handleUdpDatagram cfg frame).bind fun _ => trivial
    have hplain : Takes 0 (connection cfg timeout (.udp frame)) := by
      show Takes 0 (limited (ownTimeout timeout) (((handleUdpDatagram cfg frame).bind fun _ =>
        (.ret false : ServerProg Error Bool)).interpret carryOut))
      rw [interpret_of_noLaunch (hcalls.mono noLaunch_of_datagramOp)]
      exact takes_of_calls (hcalls.mono offStream_of_datagramOp)
    exact (paces_of_takes hplain).mono (Nat.zero_le _)

end

/-- Whatever a peer sends and however slowly: a handler with its clock does what the handlers without it
do, it waits for a peer that it has not registered for four timeouts in all at most (less the TLS
handshake, which has no limit), and for each command of a registered one for two, or three in a cluster. -/
theorem handler_waits {cfg : Config} {timeout : Nat} {peer : Peer} {h : List TimedEvent}
    {q : TimedProg Bool} {clock : Nat} (hr : Prog.Run (connection cfg timeout peer) h q)
    (ht : KeepsTime clock h) :
    (∃ q', Prog.Run (peer.connection cfg) (untimed h) q') ∧
      ((∀ e ∈ untimed h, RegistersNone e) → waited h ≤ 4 * timeout) ∧
        ∃ opening session, h = opening ++ session ∧ waited opening ≤ 4 * timeout ∧
          InTurns cfg timeout session := by
  obtain ⟨q', hrun, -⟩ := (erases_connection cfg timeout peer).run hr
  have hpaced := paces_connection cfg timeout peer h q clock hr ht
  exact ⟨⟨q', hrun⟩, hpaced.stranger, hpaced.turns⟩

def sampleHistory : List TimedEvent :=
  [⟨.within (some 100) (.server (.read 3)), (10, .ok (controlHeader ++ [0]))⟩,
   ⟨.within (some 100) (.server (.write (replyHeader (controlHeader ++ [0])))), (1, .ok ())⟩,
   ⟨.now, (11 : Nat)⟩,
   ⟨.within (some 100) (.server (.read 4)), (20, .ok [1, 0, 0, 0])⟩,
   ⟨.now, (31 : Nat)⟩,
   ⟨.within (some 80) (.server (.read 1)), (80, .ok [97])⟩,
   ⟨.within none (.server (.registerClient ['a'] [])), (0, .ok sampleClient)⟩,
   ⟨.within (some 100) (.server (.write sampleClient.token.bytes)), (1, .ok ())⟩,
   ⟨.now, (120 : Nat)⟩,
   ⟨.within (some 100) (.server (.read 1)), (90, .ok [opNop])⟩,
   ⟨.within (some 100) (.server (.write [responseOk])), (100, .ok ())⟩]

theorem run_sampleHistory :
    ∃ q, Prog.Run (connection sampleConfig 100 (.unix [] 1)) sampleHistory q :=
  ⟨_, .call _ (.call _ (.call _ (.call _ (.call _ (.call _ (.call _ (.call _ (.call _ (.call _
    (.call _ (.nil _)))))))))))⟩

theorem handler_waits_sample : ∃ opening session, sampleHistory = opening ++ session ∧
    waited opening ≤ 400 ∧ InTurns sampleConfig 100 session ∧ waited sampleHistory = 302 := by
  obtain ⟨q, hr⟩ := run_sampleHistory
  have ht : KeepsTime 0 sampleHistory := by decide
  obtain ⟨-, -, opening, session, heq, hopening, hsession⟩ := handler_waits hr ht
  exact ⟨opening, session, heq, hopening, hsession, rfl⟩

end Psrt.Timed

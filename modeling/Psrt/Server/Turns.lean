import Psrt.Client.Commands
import Psrt.Client.Rounds

/-! A turn of `process_control` on the octets of a command: what it takes them for, what it does about
them and what it replies. -/

namespace Psrt
open Wire Interaction Lockstep

namespace ControlCommand

def bodies : ControlCommand → List Bytes
  | publishRepl _ topic message _ => [utf8 topic, message]
  | cmd => [cmd.body]

structure WellFormed (cmd : ControlCommand) : Prop where
  topics : ∀ t ∈ cmd.topics, Char.ofNat 0 ∉ t
  bodies : ∀ b ∈ cmd.bodies, b.length < 2 ^ 32

def Performs (cfg : Config) (client : ServerClient) (acl : Acl) (cmd : ControlCommand) :
    ServerOp → Prop
  | .subscribe acl' topics client' => acl' = acl ∧ client' = client ∧
      ∃ ts, cmd.demand = some (.subscribe ts) ∧ topics = ts.filter (· ≠ [])
  | .unsubscribe topics client' => client' = client ∧
      ∃ ts, cmd.demand = some (.unsubscribe ts) ∧ topics = ts.filter (· ≠ [])
  | .pushToSubscribers _ priority topic data timestamp =>
      (∃ raw, cmd = .publish priority raw data ∧ prepareTopic cfg.maxTopicDepth raw = .ok topic) ∨
        cmd = .publishRepl priority topic data timestamp
  | .replicationPush priority topic data _ =>
      ∃ raw, cmd = .publish priority raw data ∧ prepareTopic cfg.maxTopicDepth raw = .ok topic
  | _ => True

end ControlCommand

def ServerOp.isEffect : ServerOp → Bool
  | subscribe .. | unsubscribe .. | pushToSubscribers .. | replicationPush .. => true
  | _ => false

namespace ProcessControl

def port : Port ServerOp ServerOp.Resp UInt8 where
  offer
    | .write buf => buf
    | _ => []
  take
    | .read _, .ok b => b
    | _, _ => []
  Broke
    | .write _, .error _ => True
    | .read _, .error _ => True
    | _, _ => False

def Alike : ServerOp → ServerOp → Prop
  | .subscribe _ _ _, .subscribe _ _ _ => True
  | .unsubscribe _ _, .unsubscribe _ _ => True
  | .pushToSubscribers _ _ _ _ _, .pushToSubscribers _ _ _ _ _ => True
  | .replicationPush _ _ _ _, .replicationPush _ _ _ _ => True
  | _, _ => False

structure Trail where
  taken : Bytes
  offered : Bytes
  effects : List ServerOp

namespace Trail

def start : Trail := ⟨[], [], []⟩

def next (s : Trail) : (o : ServerOp) → o.Resp → Trail
  | .read n, r => { s with taken := s.taken ++ port.take (.read n) r }
  | .write buf, _ => { s with offered := s.offered ++ buf }
  | o, _ => if o.isEffect then { s with effects := s.effects ++ [o] } else s

end Trail

section
variable (cfg : Config) (client : ServerClient) (acl : Acl) (input : Bytes) (cmd : Command)

/-- Nothing is replied before the request is read, and nothing takes effect before all of the command
is, or more than once. -/
structure Keeps (s : Trail) : Prop where
  replies : controlProtocol.Partial cmd s.offered
  request : s.offered ≠ [] → cmd.controlCommand.stream <+: s.taken
  effects : ∀ o ∈ s.effects, cmd.controlCommand.Performs cfg client acl o ∧
    s.taken = cmd.controlCommand.stream ++ cmd.controlCommand.second
  once : s.effects.Pairwise fun o o' => ¬ Alike o o'

def Answers (s : Trail) : (o : ServerOp) → o.Resp → Prop
  | .read n, r => ∀ b, r = .ok b → b.length = n ∧ s.taken ++ b <+: input
  | .write buf, _ => controlProtocol.Partial cmd (s.offered ++ buf) →
      Fits input (controlProtocol.octets cmd (s.offered ++ buf))
  | _, _ => True

def monitor : Monitor ServerOp ServerOp.Resp Trail :=
  Monitor.keeps (Answers input cmd) Trail.next (Keeps cfg client acl cmd)

def Ended (s : Trail) : Prop :=
  controlProtocol.Finished cmd s.offered ∧ s.taken = controlProtocol.octets cmd s.offered

end

section
variable {cfg : Config} {client : ServerClient} {acl : Acl} {input : Bytes} {cmd : Command}
  {taken offered : Bytes} {effects : List ServerOp}

theorem Keeps.read (h : Keeps cfg client acl cmd ⟨taken, offered, []⟩) (b : Bytes) :
    Keeps cfg client acl cmd ⟨taken ++ b, offered, []⟩ where
  replies := h.replies
  request hne := (h.request hne).trans (List.prefix_append ..)
  effects _ ho := absurd ho List.not_mem_nil
  once := .nil

theorem eq_of_fits {lit more b : Bytes} (hfits : Fits input (taken ++ (lit ++ more)))
    (hb : taken ++ b <+: input) (hlen : b.length = lit.length) : b = lit := by
  have hlit : taken ++ lit <+: taken ++ (lit ++ more) := by
    rw [← List.append_assoc]
    exact List.prefix_append ..
  have hsame : (taken ++ b).length = (taken ++ lit).length := by
    rw [List.length_append, List.length_append, hlen]
  have heq : taken ++ b = taken ++ lit := by
    rcases hfits with hle | hge
    · exact (List.prefix_of_prefix_length_le (hb.trans hle) hlit hsame.le).eq_of_length hsame
    · exact (List.prefix_of_prefix_length_le hb (hlit.trans hge) hsame.le).eq_of_length hsame
  exact List.append_cancel_left heq

theorem wp_readExact {lit more : Bytes} {n : Nat} {Q : Bytes → Trail → Prop}
    (hfits : Fits input (taken ++ (lit ++ more))) (hlen : lit.length = n)
    (hnow : Keeps cfg client acl cmd ⟨taken, offered, []⟩)
    (hQ : Q lit ⟨taken ++ lit, offered, []⟩) :
    (monitor cfg client acl input cmd).wp (readExact n) Q (fun _ _ => True)
      ⟨taken, offered, []⟩ := by
  apply Monitor.wp_keeps_call
  intro r hr
  cases r with
  | ok b =>
    obtain ⟨hb, hprefix⟩ := hr b rfl
    obtain rfl := eq_of_fits hfits hprefix (hb.trans hlen.symm)
    exact ⟨hnow.read b, hQ⟩
  | error e =>
    have hnext : Trail.next ⟨taken, offered, []⟩ (.read n) (.error e) = ⟨taken, offered, []⟩ := by
      simp only [Trail.next, port, List.append_nil]
    rw [hnext]
    exact ⟨hnow, trivial⟩

theorem wp_readFrame {body more : Bytes} {limit : Nat} {n : UInt32} {Q : Bytes → Trail → Prop}
    (hfits : Fits input (taken ++ (leBytes 4 n.toNat ++ (body ++ more))))
    (hlen : body.length = n.toNat) (hnow : Keeps cfg client acl cmd ⟨taken, offered, []⟩)
    (hQ : Q body ⟨taken ++ leBytes 4 n.toNat ++ body, offered, []⟩) :
    (monitor cfg client acl input cmd).wp (readFrame (some limit)) Q (fun _ _ => True)
      ⟨taken, offered, []⟩ := by
  have hlt : n.toNat < 256 ^ 4 := n.toNat_lt
  rw [readFrame, readFrameWith, Prog.bind_eq, Monitor.wp_bind]
  refine wp_readExact hfits (length_leBytes 4 _) hnow ?_
  rw [leNat_leBytes_of_lt hlt]
  dsimp only
  split_ifs
  · trivial
  · rw [← List.append_assoc] at hfits
    exact wp_readExact hfits hlen (hnow.read _) hQ

theorem wp_writeAll {buf : Bytes} {Q : Unit → Trail → Prop}
    (hkeeps : Keeps cfg client acl cmd ⟨taken, offered ++ buf, effects⟩)
    (hQ : Fits input (controlProtocol.octets cmd (offered ++ buf)) →
      Q () ⟨taken, offered ++ buf, effects⟩) :
    (monitor cfg client acl input cmd).wp (writeAll buf) Q (fun _ _ => True)
      ⟨taken, offered, effects⟩ := by
  apply Monitor.wp_keeps_call
  intro r hr
  refine ⟨hkeeps, ?_⟩
  cases r with
  | ok u => exact hQ (hr hkeeps.replies)
  | error e => trivial

theorem keeps_empty (taken : Bytes) : Keeps cfg client acl cmd ⟨taken, [], []⟩ where
  replies := partial_nil cmd
  request h := absurd rfl h
  effects _ ho := absurd ho List.not_mem_nil
  once := .nil

theorem wp_readRequest_cons {op : UInt8} {rest : Bytes} {Q : Request → Trail → Prop}
    (hfits : Fits input (op :: rest))
    (hQ : (monitor cfg client acl input cmd).wp (readArm cfg op) Q (fun _ _ => True)
      ⟨[op], [], []⟩) :
    (monitor cfg client acl input cmd).wp (readRequest cfg) Q (fun _ _ => True) Trail.start := by
  have hfirst : Fits input ([] ++ ([op] ++ rest)) := hfits
  rw [readRequest, Prog.bind_eq, Monitor.wp_bind]
  exact wp_readExact hfirst rfl (keeps_empty []) hQ

def IsRequest (cmd : ControlCommand) (request : Request) (s : Trail) : Prop :=
  (∃ now, request = cmd.request now cmd.body) ∧ s = ⟨cmd.stream, [], []⟩

theorem wp_readRequest_framed {op : UInt8} {limit : Nat} {n : UInt32} {body : Bytes}
    {request : Bytes → Request}
    (harm : readArm cfg op = (readFrame (some limit)).bind fun data => .ret (request data))
    (hstream : cmd.controlCommand.stream = op :: (leBytes 4 n.toNat ++ body))
    (hlen : body.length = n.toNat) (hfits : Fits input cmd.controlCommand.stream)
    (hrequest : request body = cmd.controlCommand.request 0 cmd.controlCommand.body) :
    (monitor cfg client acl input cmd).wp (readRequest cfg) (IsRequest cmd.controlCommand)
      (fun _ _ => True) Trail.start := by
  rw [hstream] at hfits
  apply wp_readRequest_cons hfits
  rw [harm, Monitor.wp_bind]
  have hframe : Fits input ([op] ++ (leBytes 4 n.toNat ++ (body ++ []))) := by
    rw [List.append_nil]
    exact hfits
  refine wp_readFrame hframe hlen (keeps_empty _) ⟨⟨0, hrequest⟩, ?_⟩
  rw [hstream, List.append_assoc]
  rfl

theorem wp_readRequest_publish {priority : UInt8} {topic : Str} {message : Bytes}
    (hcmd : cmd.controlCommand = .publish priority topic message)
    (hlen : cmd.controlCommand.body.length = cmd.controlCommand.declared.toNat)
    (hfits : Fits input cmd.controlCommand.stream) :
    (monitor cfg client acl input cmd).wp (readRequest cfg) (IsRequest cmd.controlCommand)
      (fun _ _ => True) Trail.start := by
  have hdemand : cmd.controlCommand.demand.isSome := by
    rw [hcmd]
    rfl
  have hstream : cmd.controlCommand.stream = [opPublish] ++ ([priority] ++
      (leBytes 4 cmd.controlCommand.declared.toNat ++ cmd.controlCommand.body)) := by
    rw [ControlCommand.stream_eq hdemand, hcmd]
    rfl
  rw [hstream] at hfits
  apply wp_readRequest_cons hfits
  rw [readArm_opPublish]
  apply Monitor.wp_keeps_call
  intro now _
  refine ⟨keeps_empty _, ?_⟩
  rw [Monitor.wp_bind]
  refine wp_readExact hfits rfl (keeps_empty _) ?_
  rw [Monitor.wp_bind]
  have hframe : Fits input ([opPublish] ++ [priority] ++
      (leBytes 4 cmd.controlCommand.declared.toNat ++ (cmd.controlCommand.body ++ []))) := by
    rw [List.append_nil, List.append_assoc]
    exact hfits
  refine wp_readFrame hframe hlen (keeps_empty _) ⟨⟨now, ?_⟩, ?_⟩
  · rw [hcmd]
    rfl
  · rw [hstream, List.append_assoc, List.append_assoc]

theorem wp_readRequest_octet {op : UInt8} {request : Request}
    (harm : readArm cfg op = .ret request) (hstream : cmd.controlCommand.stream = [op])
    (hfits : Fits input cmd.controlCommand.stream)
    (hrequest : request = cmd.controlCommand.request 0 cmd.controlCommand.body) :
    (monitor cfg client acl input cmd).wp (readRequest cfg) (IsRequest cmd.controlCommand)
      (fun _ _ => True) Trail.start := by
  rw [hstream] at hfits
  apply wp_readRequest_cons hfits
  rw [harm]
  refine ⟨⟨0, hrequest⟩, ?_⟩
  rw [hstream]

theorem wp_readRequest_publishRepl {priority : UInt8} {topic : Str} {message : Bytes}
    {timestamp : UInt64}
    (hcmd : cmd.controlCommand = .publishRepl priority topic message timestamp)
    (hlt : cmd.controlCommand.body.length < 2 ^ 32)
    (hfits : Fits input cmd.controlCommand.stream) :
    (monitor cfg client acl input cmd).wp (readRequest cfg) (IsRequest cmd.controlCommand)
      (fun _ _ => True) Trail.start := by
  have harm := readArm_opPublishRepl cfg
  have hstream : cmd.controlCommand.stream =
      opPublishRepl :: (leBytes 4 (lenU32 (utf8 topic)).toNat ++ utf8 topic) := by
    rw [hcmd]
    exact List.append_nil _
  split_ifs at harm
  · have hlen : (utf8 topic).length = (lenU32 (utf8 topic)).toNat := by
      rw [hcmd] at hlt
      rw [lenU32_toNat]
      exact (Nat.mod_eq_of_lt hlt).symm
    refine wp_readRequest_framed harm hstream hlen hfits ?_
    rw [hcmd]
    rfl
  · rw [hstream] at hfits
    apply wp_readRequest_cons hfits
    rw [harm]
    trivial

theorem length_body (hwf : cmd.controlCommand.WellFormed) :
    cmd.controlCommand.body.length < 2 ^ 32 := by
  have hbodies := hwf.bodies
  cases hcmd : cmd.controlCommand with
  | publishRepl priority topic message timestamp =>
    rw [hcmd] at hbodies
    exact hbodies _ (List.mem_cons_self ..)
  | _ =>
    rw [hcmd] at hbodies
    exact hbodies _ (List.mem_singleton_self _)

theorem wp_readRequest (hwf : cmd.controlCommand.WellFormed)
    (hfits : Fits input cmd.controlCommand.stream) :
    (monitor cfg client acl input cmd).wp (readRequest cfg) (IsRequest cmd.controlCommand)
      (fun _ _ => True) Trail.start := by
  have hlt := length_body hwf
  have hlen : ∀ (h : cmd.controlCommand.demand.isSome),
      cmd.controlCommand.body.length = cmd.controlCommand.declared.toNat := fun h =>
    ((ControlCommand.declared_eq_iff h).mpr hlt).symm
  have hstream : ∀ (h : cmd.controlCommand.demand.isSome), cmd.controlCommand.stream =
      cmd.controlCommand.head ++ (leBytes 4 cmd.controlCommand.declared.toNat ++
        cmd.controlCommand.body) := fun h => ControlCommand.stream_eq h
  obtain ⟨cmd, ch⟩ := cmd
  cases cmd with
  | nop => exact wp_readRequest_octet rfl rfl hfits rfl
  | bye => exact wp_readRequest_octet rfl rfl hfits rfl
  | subscribe topic => exact wp_readRequest_framed rfl (hstream rfl) (hlen rfl) hfits rfl
  | subscribeBulk topics => exact wp_readRequest_framed rfl (hstream rfl) (hlen rfl) hfits rfl
  | unsubscribe topic => exact wp_readRequest_framed rfl (hstream rfl) (hlen rfl) hfits rfl
  | unsubscribeBulk topics => exact wp_readRequest_framed rfl (hstream rfl) (hlen rfl) hfits rfl
  | publish priority topic message => exact wp_readRequest_publish rfl (hlen rfl) hfits
  | publishRepl priority topic message timestamp =>
    exact wp_readRequest_publishRepl rfl hlt hfits

theorem next_effect {s : Trail} {o : ServerOp} (h : o.isEffect = true) (r : o.Resp) :
    Trail.next s o r = { s with effects := s.effects ++ [o] } := by
  cases o with
  | subscribe => rfl
  | unsubscribe => rfl
  | pushToSubscribers => rfl
  | replicationPush => rfl
  | _ => cases h

theorem wp_effect {o : ServerOp} {Q : o.Resp → Trail → Prop} (ho : o.isEffect = true)
    (hkeeps : Keeps cfg client acl cmd ⟨taken, offered, effects⟩)
    (hperforms : cmd.controlCommand.Performs cfg client acl o)
    (hwhole : taken = cmd.controlCommand.stream ++ cmd.controlCommand.second)
    (hfirst : ∀ o' ∈ effects, ¬ Alike o' o)
    (hQ : ∀ r, Keeps cfg client acl cmd ⟨taken, offered, effects ++ [o]⟩ →
      Q r ⟨taken, offered, effects ++ [o]⟩) :
    (monitor cfg client acl input cmd).wp (perform o) Q (fun (_ : Error) _ => True)
      ⟨taken, offered, effects⟩ := by
  apply Monitor.wp_keeps_call
  intro r _
  rw [next_effect ho]
  have hnext : Keeps cfg client acl cmd ⟨taken, offered, effects ++ [o]⟩ := by
    refine ⟨hkeeps.replies, hkeeps.request, List.forall_mem_append.mpr
      ⟨hkeeps.effects, List.forall_mem_singleton.mpr ⟨hperforms, hwhole⟩⟩, ?_⟩
    refine List.pairwise_append.mpr ⟨hkeeps.once, List.pairwise_singleton .., fun o' ho' => ?_⟩
    exact List.forall_mem_singleton.mpr (hfirst o' ho')
  exact ⟨hnext, hQ r hnext⟩

theorem wp_getSubscribers {topic : Str} {Q : List ServerClient → Trail → Prop}
    (hkeeps : Keeps cfg client acl cmd ⟨taken, offered, effects⟩)
    (hQ : ∀ subscribers, Q subscribers ⟨taken, offered, effects⟩) :
    (monitor cfg client acl input cmd).wp (perform (.getSubscribers topic)) Q (fun (_ : Error) _ => True)
      ⟨taken, offered, effects⟩ := by
  apply Monitor.wp_keeps_call
  intro subscribers _
  exact ⟨hkeeps, hQ subscribers⟩

section
variable {priority : UInt8} {topic : Str} {message : Bytes} {timestamp : UInt64}
  {Q : Unit → Trail → Prop}

theorem wp_pushIfAny {subscribers : List ServerClient}
    (hkeeps : Keeps cfg client acl cmd ⟨taken, offered, []⟩)
    (hperforms : cmd.controlCommand.Performs cfg client acl
      (.pushToSubscribers subscribers priority topic message timestamp))
    (hwhole : taken = cmd.controlCommand.stream ++ cmd.controlCommand.second)
    (hQ : ∀ effects, Keeps cfg client acl cmd ⟨taken, offered, effects⟩ →
      (∀ o ∈ effects, ¬ Alike o (.replicationPush priority topic message timestamp)) →
        Q () ⟨taken, offered, effects⟩) :
    (monitor cfg client acl input cmd).wp
      (pushIfAny subscribers priority topic message timestamp) Q (fun (_ : Error) _ => True)
      ⟨taken, offered, []⟩ := by
  unfold pushIfAny
  split_ifs
  · exact hQ _ hkeeps (List.forall_mem_nil _)
  · exact wp_effect rfl hkeeps hperforms hwhole (List.forall_mem_nil _) fun _ hpushed =>
      hQ _ hpushed (List.forall_mem_singleton.mpr id)

theorem wp_replicate (hkeeps : Keeps cfg client acl cmd ⟨taken, offered, effects⟩)
    (hperforms : cmd.controlCommand.Performs cfg client acl
      (.replicationPush priority topic message timestamp))
    (hwhole : taken = cmd.controlCommand.stream ++ cmd.controlCommand.second)
    (hfirst : ∀ o ∈ effects, ¬ Alike o (.replicationPush priority topic message timestamp))
    (hQ : ∀ effects, Keeps cfg client acl cmd ⟨taken, offered, effects⟩ →
      Q () ⟨taken, offered, effects⟩) :
    (monitor cfg client acl input cmd).wp (replicate cfg priority topic message timestamp) Q
      (fun (_ : Error) _ => True) ⟨taken, offered, effects⟩ := by
  unfold replicate
  split_ifs
  · exact wp_effect rfl hkeeps hperforms hwhole hfirst fun _ => hQ _
  · exact hQ _ hkeeps

end

theorem wp_reply {code : UInt8}
    (hkeeps : Keeps cfg client acl cmd ⟨cmd.controlCommand.stream, [], effects⟩)
    (hfinished : cmd.controlCommand.Finished [code])
    (hoctets : cmd.controlCommand.octets [code] = cmd.controlCommand.stream) :
    (monitor cfg client acl input cmd).wp (writeAll [code]) (fun _ s => Ended cmd s)
      (fun (_ : Error) _ => True) ⟨cmd.controlCommand.stream, [], effects⟩ :=
  wp_writeAll ⟨⟨[code], hfinished, List.prefix_rfl⟩, fun _ => List.prefix_rfl, hkeeps.effects,
    hkeeps.once⟩ fun _ => ⟨hfinished, hoctets.symm⟩

section
variable (hsingle : cmd.controlCommand.Single)
include hsingle

theorem wp_reply_single (code : UInt8)
    (hkeeps : Keeps cfg client acl cmd ⟨cmd.controlCommand.stream, [], effects⟩) :
    (monitor cfg client acl input cmd).wp (writeAll [code]) (fun _ s => Ended cmd s)
      (fun (_ : Error) _ => True) ⟨cmd.controlCommand.stream, [], effects⟩ :=
  wp_reply hkeeps ((hsingle.finished _).mpr ⟨code, rfl⟩) (hsingle.octets_eq _)

theorem stream_eq_whole : cmd.controlCommand.stream =
    cmd.controlCommand.stream ++ cmd.controlCommand.second := by
  rw [hsingle.second, List.append_nil]

theorem wp_effect_reply {o : ServerOp} (ho : o.isEffect = true)
    (hperforms : cmd.controlCommand.Performs cfg client acl o) (code : o.Resp → UInt8) :
    (monitor cfg client acl input cmd).wp
      ((perform o).bind fun r => writeAll [code r]) (fun _ s => Ended cmd s)
      (fun (_ : Error) _ => True) ⟨cmd.controlCommand.stream, [], []⟩ := by
  rw [Monitor.wp_bind]
  exact wp_effect ho (keeps_empty _) hperforms (stream_eq_whole hsingle) (List.forall_mem_nil _)
    fun r hkeeps => wp_reply_single hsingle (code r) hkeeps

theorem wp_publishNamed {priority : UInt8} {topic : Str} {message : Bytes} {timestamp : UInt64}
    (hcmd : cmd.controlCommand = .publish priority topic message) :
    (monitor cfg client acl input cmd).wp
      (publishNamed cfg acl timestamp priority (utf8 topic) message) (fun _ s => Ended cmd s)
      (fun (_ : Error) _ => True) ⟨cmd.controlCommand.stream, [], []⟩ := by
  unfold publishNamed
  rw [strFromUtf8_utf8, Prog.ofExcept_ok, Prog.bind_eq, Prog.ret_bind]
  cases hprepared : prepareTopic cfg.maxTopicDepth topic with
  | error e => exact wp_reply_single hsingle _ (keeps_empty _)
  | ok prepared =>
    have hperforms : ∃ raw, cmd.controlCommand = .publish priority raw message ∧
        prepareTopic cfg.maxTopicDepth raw = .ok prepared := ⟨topic, hcmd, hprepared⟩
    have hwhole := stream_eq_whole hsingle
    dsimp only
    split_ifs
    · trivial
    · rw [Prog.bind_eq, Monitor.wp_bind]
      refine wp_getSubscribers (keeps_empty _) fun subscribers => ?_
      rw [Prog.bind_eq, Monitor.wp_bind]
      refine wp_pushIfAny (keeps_empty _) (.inl hperforms) hwhole fun effects hkeeps hfirst => ?_
      rw [Prog.bind_eq, Monitor.wp_bind]
      exact wp_replicate hkeeps hperforms hwhole hfirst fun effects hkeeps =>
        wp_reply_single hsingle _ hkeeps
    · exact wp_reply_single hsingle _ (keeps_empty _)

theorem wp_handlePublish {priority : UInt8} {topic : Str} {message : Bytes} (timestamp : UInt64)
    (hcmd : cmd.controlCommand = .publish priority topic message)
    (h0 : Char.ofNat 0 ∉ topic) :
    (monitor cfg client acl input cmd).wp
      (handlePublish cfg acl timestamp priority (utf8 topic ++ 0 :: message))
      (fun _ s => Ended cmd s) (fun (_ : Error) _ => True)
      ⟨cmd.controlCommand.stream, [], []⟩ := by
  rw [handlePublish_append cfg acl timestamp priority (mt (zero_mem_utf8 topic).mp h0)]
  split_ifs
  · trivial
  · exact wp_publishNamed hsingle hcmd

end

theorem keeps_waiting {taken : Bytes} (htaken : cmd.controlCommand.stream <+: taken) :
    Keeps cfg client acl cmd ⟨taken, [responseOkWaiting], []⟩ :=
  ⟨partial_singleton cmd _, fun _ => htaken, fun _ ho => absurd ho List.not_mem_nil, .nil⟩

/-! A replicated publish, whose message is read only when somebody subscribed to the topic. -/

section
variable {priority : UInt8} {topic : Str} {message : Bytes} {timestamp : UInt64}
  (hcmd : cmd.controlCommand = .publishRepl priority topic message timestamp)
include hcmd

theorem wp_reply_repl {code : UInt8} (hcode : code ≠ responseOkWaiting) :
    (monitor cfg client acl input cmd).wp (writeAll [code]) (fun _ s => Ended cmd s)
      (fun (_ : Error) _ => True) ⟨cmd.controlCommand.stream, [], []⟩ := by
  refine wp_reply (keeps_empty _) ?_ (ControlCommand.octets_of_ne hcode [])
  rw [hcmd]
  exact ⟨code, .inl ⟨hcode, rfl⟩⟩

theorem wp_waiting (hlt : message.length < 2 ^ 32)
    (hfits : Fits input (cmd.controlCommand.stream ++ cmd.controlCommand.second))
    (subscribers : List ServerClient) :
    (monitor cfg client acl input cmd).wp
      ((readExact 1).bind fun prio => (readExact 8).bind fun tsBuf =>
        (readFrame (some cfg.maxPubSize)).bind fun data =>
          (perform (.pushToSubscribers subscribers (prio.headD defaultPriority) topic data
            (UInt64.ofNat (leNat tsBuf)))).bind fun _ => writeAll [responseOk])
      (fun _ s => Ended cmd s) (fun (_ : Error) _ => True)
      ⟨cmd.controlCommand.stream, [responseOkWaiting], []⟩ := by
  have hlen : message.length = (lenU32 message).toNat := by
    rw [lenU32_toNat, Nat.mod_eq_of_lt hlt]
  have hts : UInt64.ofNat (leNat (leBytes 8 timestamp.toNat)) = timestamp := by
    have hbound : timestamp.toNat < 256 ^ 8 := timestamp.toNat_lt
    rw [leNat_leBytes_of_lt hbound, UInt64.ofNat_toNat]
  have hsecond : cmd.controlCommand.second = [priority] ++ (leBytes 8 timestamp.toNat ++
      (leBytes 4 (lenU32 message).toNat ++ (message ++ []))) := by
    rw [hcmd, List.append_nil]
    simp only [ControlCommand.second, ControlStream.msgBuf, List.cons_append, List.nil_append,
      List.append_assoc]
  -- the reads of the second part, one after the other, each of what the client has sent
  rw [hsecond] at hfits
  rw [Monitor.wp_bind]
  refine wp_readExact hfits rfl (keeps_waiting List.prefix_rfl) ?_
  rw [Monitor.wp_bind]
  rw [← List.append_assoc] at hfits
  refine wp_readExact hfits (length_leBytes 8 _) (keeps_waiting (List.prefix_append ..)) ?_
  rw [Monitor.wp_bind]
  rw [← List.append_assoc] at hfits
  have hread : cmd.controlCommand.stream <+: cmd.controlCommand.stream ++ [priority] ++
      leBytes 8 timestamp.toNat := by
    rw [List.append_assoc]
    exact List.prefix_append ..
  refine wp_readFrame hfits hlen (keeps_waiting hread) ?_
  have hwhole : cmd.controlCommand.stream ++ [priority] ++ leBytes 8 timestamp.toNat ++
      leBytes 4 (lenU32 message).toNat ++ message =
        cmd.controlCommand.stream ++ cmd.controlCommand.second := by
    rw [hsecond]
    simp only [List.append_assoc, List.append_nil]
  rw [hwhole, hts, Monitor.wp_bind]
  refine wp_effect rfl (keeps_waiting (List.prefix_append ..)) (.inr hcmd) rfl
    (List.forall_mem_nil _) fun _ hkeeps => ?_
  have hfinished : cmd.controlCommand.Finished [responseOkWaiting, responseOk] := by
    rw [hcmd]
    exact ⟨responseOk, .inr rfl⟩
  exact wp_writeAll
    ⟨⟨_, hfinished, List.prefix_rfl⟩, fun _ => List.prefix_append .., hkeeps.effects, hkeeps.once⟩
    fun _ => ⟨hfinished, rfl⟩

theorem wp_handlePublishRepl (hlt : message.length < 2 ^ 32) :
    (monitor cfg client acl input cmd).wp (handlePublishRepl cfg acl (utf8 topic))
      (fun _ s => Ended cmd s) (fun (_ : Error) _ => True)
      ⟨cmd.controlCommand.stream, [], []⟩ := by
  unfold handlePublishRepl
  rw [strFromUtf8_utf8, Prog.ofExcept_ok, Prog.bind_eq, Prog.ret_bind]
  split_ifs
  · rw [Prog.bind_eq, Monitor.wp_bind]
    refine wp_getSubscribers (keeps_empty _) fun subscribers => ?_
    split_ifs
    · exact wp_reply_repl hcmd (by decide)
    · rw [Prog.bind_eq, Monitor.wp_bind]
      refine wp_writeAll (keeps_waiting List.prefix_rfl) fun hfits => ?_
      exact wp_waiting hcmd hlt hfits subscribers
  · exact wp_reply_repl hcmd (by decide)

end

theorem wp_bind_ret {p : ServerProg Error Unit} {s : Trail}
    (h : (monitor cfg client acl input cmd).wp p (fun _ s => Ended cmd s)
      (fun (_ : Error) _ => True) s) (left : Option Unit) :
    (monitor cfg client acl input cmd).wp (p.bind fun _ => .ret left) (fun _ s => Ended cmd s)
      (fun (_ : Error) _ => True) s := by
  rw [Monitor.wp_bind]
  exact h

section
variable (hsingle : cmd.controlCommand.Single) {data : Bytes} {topics : List Str}
  (hparse : parseTopics data = .ok (topics.filter (· ≠ [])))
include hsingle hparse

theorem wp_handleRequest_subscribe
    (hdemand : cmd.controlCommand.demand = some (.subscribe topics)) :
    (monitor cfg client acl input cmd).wp (handleRequest cfg client acl (.subscribe data))
      (fun _ s => Ended cmd s) (fun (_ : Error) _ => True)
      ⟨cmd.controlCommand.stream, [], []⟩ := by
  have heq : handleRequest cfg client acl (.subscribe data) =
      ((perform (.subscribe acl (topics.filter (· ≠ [])) client)).bind fun res =>
        writeAll [res]).bind fun _ => .ret none := by
    unfold handleRequest
    dsimp only
    rw [hparse]
    rfl
  have hperforms : cmd.controlCommand.Performs cfg client acl
      (.subscribe acl (topics.filter (· ≠ [])) client) := ⟨rfl, rfl, topics, hdemand, rfl⟩
  rw [heq]
  exact wp_bind_ret (wp_effect_reply hsingle rfl hperforms id) none

theorem wp_handleRequest_unsubscribe
    (hdemand : cmd.controlCommand.demand = some (.unsubscribe topics)) :
    (monitor cfg client acl input cmd).wp (handleRequest cfg client acl (.unsubscribe data))
      (fun _ s => Ended cmd s) (fun (_ : Error) _ => True)
      ⟨cmd.controlCommand.stream, [], []⟩ := by
  have heq : handleRequest cfg client acl (.unsubscribe data) =
      ((perform (.unsubscribe (topics.filter (· ≠ [])) client)).bind fun success =>
        writeAll [if success then responseOk else responseErr]).bind fun _ => .ret none := by
    unfold handleRequest
    dsimp only
    rw [hparse]
    rfl
  have hperforms : cmd.controlCommand.Performs cfg client acl
      (.unsubscribe (topics.filter (· ≠ [])) client) := ⟨rfl, topics, hdemand, rfl⟩
  rw [heq]
  exact wp_bind_ret (wp_effect_reply hsingle rfl hperforms
    fun success => if success then responseOk else responseErr) none

end

theorem wp_handleRequest {now : UInt64} (hwf : cmd.controlCommand.WellFormed) :
    (monitor cfg client acl input cmd).wp
      (handleRequest cfg client acl (cmd.controlCommand.request now cmd.controlCommand.body))
      (fun _ s => Ended cmd s) (fun (_ : Error) _ => True)
      ⟨cmd.controlCommand.stream, [], []⟩ := by
  have h0 : ∀ t ∈ cmd.controlCommand.topics, 0 ∉ utf8 t := fun t ht =>
    mt (zero_mem_utf8 t).mp (hwf.topics t ht)
  have hbodies := hwf.bodies
  obtain ⟨cmd, ch⟩ := cmd
  cases cmd with
  | nop =>
    exact wp_bind_ret (wp_reply_single ⟨rfl, fun _ => Iff.rfl, fun _ => rfl⟩ _ (keeps_empty _)) none
  | bye =>
    exact wp_bind_ret (wp_reply_single ⟨rfl, fun _ => Iff.rfl, fun _ => rfl⟩ _ (keeps_empty _)) _
  | subscribe topic =>
    exact wp_handleRequest_subscribe ⟨rfl, fun _ => Iff.rfl, fun _ => rfl⟩
      (parseTopics_utf8_filter (h0 topic (List.mem_singleton_self _))) rfl
  | subscribeBulk topics =>
    exact wp_handleRequest_subscribe ⟨rfl, fun _ => Iff.rfl, fun _ => rfl⟩
      (parseTopics_topicsBody_filter h0) rfl
  | unsubscribe topic =>
    exact wp_handleRequest_unsubscribe ⟨rfl, fun _ => Iff.rfl, fun _ => rfl⟩
      (parseTopics_utf8_filter (h0 topic (List.mem_singleton_self _))) rfl
  | unsubscribeBulk topics =>
    exact wp_handleRequest_unsubscribe ⟨rfl, fun _ => Iff.rfl, fun _ => rfl⟩
      (parseTopics_topicsBody_filter h0) rfl
  | publish priority topic message =>
    exact wp_bind_ret (wp_handlePublish ⟨rfl, fun _ => Iff.rfl, fun _ => rfl⟩ now rfl
      (hwf.topics topic (List.mem_singleton_self _))) none
  | publishRepl priority topic message timestamp =>
    have hlt : message.length < 2 ^ 32 := hbodies message (by simp [ControlCommand.bodies])
    exact wp_bind_ret (wp_handlePublishRepl rfl hlt) none

theorem wp_processCommand (hwf : cmd.controlCommand.WellFormed)
    (hfits : Fits input cmd.controlCommand.stream) :
    (monitor cfg client acl input cmd).wp (processCommand cfg client acl)
      (fun _ s => Ended cmd s) (fun (_ : Error) _ => True) Trail.start := by
  rw [processCommand, Prog.bind_eq, Monitor.wp_bind]
  refine Monitor.wp_mono ?_ (fun _ _ he => he) (wp_readRequest hwf hfits)
  rintro request _ ⟨⟨now, rfl⟩, rfl⟩
  exact wp_handleRequest hwf

end

/-! `process_control` gives up at the first error of the stream. -/

theorem stopsOn_readExact (n : Nat) : (readExact n).StopsOn port.Broke := by
  intro r
  refine ⟨fun hbroke => ?_, Prog.stopsOn_ofExcept r⟩
  cases r with
  | ok b => exact hbroke.elim
  | error e => exact ⟨e, rfl⟩

theorem stopsOn_writeAll (buf : Bytes) : (writeAll buf).StopsOn port.Broke := by
  intro r
  refine ⟨fun hbroke => ?_, Prog.stopsOn_ofExcept r⟩
  cases r with
  | ok u => exact hbroke.elim
  | error e => exact ⟨e, rfl⟩

theorem stopsOn_readFrame (limit : Option Nat) : (readFrame limit).StopsOn port.Broke := by
  apply (stopsOn_readExact 4).bind
  intro lenBuf
  dsimp only
  split_ifs
  · trivial
  · exact stopsOn_readExact _

theorem stopsOn_readArm (cfg : Config) (op : UInt8) : (readArm cfg op).StopsOn port.Broke := by
  unfold readArm
  split_ifs
  · trivial
  · exact (stopsOn_readFrame _).bind fun _ => trivial
  · exact (stopsOn_readFrame _).bind fun _ => trivial
  · apply Prog.StopsOn.call (fun _ => id)
    exact fun _ => (stopsOn_readExact 1).bind fun _ => (stopsOn_readFrame _).bind fun _ => trivial
  · exact (stopsOn_readFrame _).bind fun _ => trivial
  · trivial
  · trivial
  · trivial

theorem stopsOn_pushIfAny (subscribers : List ServerClient) (priority : UInt8) (topic : Str)
    (message : Bytes) (timestamp : UInt64) :
    (pushIfAny subscribers priority topic message timestamp : ServerProg Error Unit).StopsOn
      port.Broke := by
  unfold pushIfAny
  split_ifs
  · trivial
  · exact .call (fun _ => id) fun _ => trivial

theorem stopsOn_replicate (cfg : Config) (priority : UInt8) (topic : Str) (message : Bytes)
    (timestamp : UInt64) :
    (replicate cfg priority topic message timestamp : ServerProg Error Unit).StopsOn
      port.Broke := by
  unfold replicate
  split_ifs
  · exact .call (fun _ => id) fun _ => trivial
  · trivial

theorem stopsOn_publishNamed (cfg : Config) (acl : Acl) (timestamp : UInt64) (priority : UInt8)
    (name data : Bytes) :
    (publishNamed cfg acl timestamp priority name data).StopsOn port.Broke := by
  apply (Prog.stopsOn_ofExcept _).bind
  intro raw
  split
  · exact stopsOn_writeAll _
  · split_ifs
    · trivial
    · apply Prog.StopsOn.call (fun _ => id)
      exact fun subscribers => (stopsOn_pushIfAny ..).bind fun _ =>
        (stopsOn_replicate ..).bind fun _ => stopsOn_writeAll _
    · exact stopsOn_writeAll _

theorem stopsOn_handlePublish (cfg : Config) (acl : Acl) (timestamp : UInt64) (priority : UInt8)
    (buf : Bytes) : (handlePublish cfg acl timestamp priority buf).StopsOn port.Broke := by
  unfold handlePublish
  split
  · trivial
  · dsimp only
    split_ifs
    · trivial
    · exact stopsOn_publishNamed ..

theorem stopsOn_handlePublishRepl (cfg : Config) (acl : Acl) (topicData : Bytes) :
    (handlePublishRepl cfg acl topicData).StopsOn port.Broke := by
  apply (Prog.stopsOn_ofExcept _).bind
  intro topic
  split_ifs
  · apply Prog.StopsOn.call (fun _ => id)
    intro subscribers
    dsimp only [Prog.ret_bind]
    split_ifs
    · exact stopsOn_writeAll _
    · exact (stopsOn_writeAll _).bind fun _ => (stopsOn_readExact 1).bind fun _ =>
        (stopsOn_readExact 8).bind fun _ => (stopsOn_readFrame _).bind fun _ =>
          .call (fun _ => id) fun _ => stopsOn_writeAll _
  · exact stopsOn_writeAll _

theorem stopsOn_processCommand (cfg : Config) (client : ServerClient) (acl : Acl) :
    (processCommand cfg client acl).StopsOn port.Broke := by
  have hrequest : (readRequest cfg).StopsOn port.Broke :=
    (stopsOn_readExact 1).bind fun _ => stopsOn_readArm cfg _
  apply hrequest.bind
  intro request
  cases request with
  | nop => exact (stopsOn_writeAll _).bind fun _ => trivial
  | subscribe data =>
    exact (Prog.stopsOn_ofExcept _).bind fun topics => .call (fun _ => id) fun _ =>
      (stopsOn_writeAll _).bind fun _ => trivial
  | unsubscribe data =>
    exact (Prog.stopsOn_ofExcept _).bind fun topics => .call (fun _ => id) fun _ =>
      (stopsOn_writeAll _).bind fun _ => trivial
  | publish timestamp priority buf =>
    exact (stopsOn_handlePublish ..).bind fun _ => trivial
  | publishRepl topicData => exact (stopsOn_handlePublishRepl ..).bind fun _ => trivial
  | bye => exact (stopsOn_writeAll _).bind fun _ => trivial

theorem take_of_broke (o : ServerOp) (r : o.Resp) (h : port.Broke o r) : port.take o r = [] := by
  cases o with
  | read n =>
    cases r with
    | ok b => exact h.elim
    | error e => rfl
  | write buf => rfl
  | _ => exact h.elim

def Exact : (o : ServerOp) → o.Resp → Prop
  | .read n, r => ∀ b, r = .ok b → b.length = n
  | _, _ => True

def view (cfg : Config) (client : ServerClient) (acl : Acl) : View (List ServerEvent) UInt8 where
  taken := port.taken
  offered := port.offered
  Done t := ∃ left, Prog.Run (processCommand cfg client acl) t (.ret left)

def effectOf (o : ServerOp) : List ServerOp := if o.isEffect then [o] else []

def effects (t : List ServerEvent) : List ServerOp := t.flatMap fun e => effectOf e.op

/-- The turn serves a command: it replies when it has read the request, and what takes effect, each
effect once, is the command, of which it has read all. -/
structure Executes (cfg : Config) (client : ServerClient) (acl : Acl) (cmd : Command)
    (t : List ServerEvent) : Prop where
  request : port.offered t ≠ [] → cmd.controlCommand.stream <+: port.taken t
  once : (effects t).Pairwise fun o o' => ¬ Alike o o'
  effects : ∀ e ∈ t, e.op.isEffect = true → cmd.controlCommand.Performs cfg client acl e.op ∧
    port.taken t = cmd.controlCommand.stream ++ cmd.controlCommand.second

theorem next_eq (s : Trail) (o : ServerOp) (r : o.Resp) : Trail.next s o r =
    ⟨s.taken ++ port.take o r, s.offered ++ port.offer o, s.effects ++ effectOf o⟩ := by
  have hnone : Trail.mk (s.taken ++ []) (s.offered ++ []) (s.effects ++ []) = s := by
    simp only [List.append_nil]
  cases o with
  | read n => exact congrArg₂ (Trail.mk _) (List.append_nil _).symm (List.append_nil _).symm
  | write buf =>
    exact congrArg₂ (fun a b => Trail.mk a _ b) (List.append_nil _).symm (List.append_nil _).symm
  | subscribe | unsubscribe | pushToSubscribers | replicationPush =>
    exact congrArg₂ (fun a b => Trail.mk a b _) (List.append_nil _).symm (List.append_nil _).symm
  | _ => exact hnone.symm

section
variable {cfg : Config} {client : ServerClient} {acl : Acl} {input : Bytes} {cmd : Command}
  {t : List ServerEvent} {q : ServerProg Error (Option Unit)}

theorem after_eq (s : Trail) (t : List ServerEvent) :
    (monitor cfg client acl input cmd).after s t =
      ⟨s.taken ++ port.taken t, s.offered ++ port.offered t, s.effects ++ effects t⟩ := by
  induction t generalizing s with
  | nil =>
    change s = ⟨s.taken ++ [], s.offered ++ [], s.effects ++ []⟩
    simp only [List.append_nil]
  | cons e t ih =>
    have hnext := ih (Trail.next s e.op e.resp)
    rw [next_eq] at hnext
    simp only [List.append_assoc] at hnext
    exact (congrArg (fun s' => Monitor.after _ s' t) (next_eq s e.op e.resp)).trans hnext

theorem admits (hexact : ∀ e ∈ t, Exact e.op e.resp) {s : Trail}
    (htaken : s.taken ++ port.taken t <+: input)
    (hfits : ∀ r, r <+: s.offered ++ port.offered t → controlProtocol.Partial cmd r →
      Fits input (controlProtocol.octets cmd r)) :
    (monitor cfg client acl input cmd).Admits s t := by
  induction t generalizing s with
  | nil => trivial
  | cons e t ih =>
    obtain ⟨hfirst, hrest⟩ := List.forall_mem_cons.mp hexact
    have htaken' : s.taken ++ port.take e.op e.resp ++ port.taken t <+: input := by
      rw [List.append_assoc]
      exact htaken
    have hfits' : ∀ r, r <+: s.offered ++ port.offer e.op ++ port.offered t →
        controlProtocol.Partial cmd r → Fits input (controlProtocol.octets cmd r) := by
      intro r hr
      rw [List.append_assoc] at hr
      exact hfits r hr
    refine ⟨?_, ?_⟩
    · obtain ⟨o, r⟩ := e
      cases o with
      | read n =>
        rintro b rfl
        exact ⟨hfirst b rfl, (List.prefix_append ..).trans htaken'⟩
      | write buf => exact hfits' _ (List.prefix_append ..)
      | _ => trivial
    · have hadmits := @ih hrest ⟨_, _, s.effects ++ effectOf e.op⟩ htaken' hfits'
      rw [← next_eq] at hadmits
      exact hadmits

theorem keeps_turn (hwf : cmd.controlCommand.WellFormed)
    (hr : Prog.Run (processCommand cfg client acl) t q) (hexact : ∀ e ∈ t, Exact e.op e.resp)
    (htaken : port.taken t <+: input)
    (hfits : ∀ r, r <+: port.offered t → controlProtocol.Partial cmd r →
      Fits input (controlProtocol.octets cmd r)) :
    Keeps cfg client acl cmd ⟨port.taken t, port.offered t, effects t⟩ ∧
      ∀ left, q = .ret left → Ended cmd ⟨port.taken t, port.offered t, effects t⟩ := by
  have hadmits : (monitor cfg client acl input cmd).Admits Trail.start t :=
    admits hexact htaken hfits
  have hstart : Fits input cmd.controlCommand.stream :=
    hfits [] List.nil_prefix (partial_nil cmd)
  have hrun := Monitor.wp_run (wp_processCommand hwf hstart) hr hadmits
  have hafter : (monitor cfg client acl input cmd).after Trail.start t =
      ⟨port.taken t, port.offered t, effects t⟩ := after_eq Trail.start t
  refine ⟨?_, ?_⟩
  · rw [← hafter]
    exact Monitor.keeps_after (keeps_empty []) hrun.1 hadmits
  · rintro left rfl
    rw [← hafter]
    exact hrun.2

theorem mem_effects {e : ServerEvent} (he : e ∈ t) (heffect : e.op.isEffect = true) :
    e.op ∈ effects t := by
  refine List.mem_flatMap.mpr ⟨e, he, ?_⟩
  unfold effectOf
  rw [if_pos heffect]
  exact List.mem_singleton_self _

theorem serves (hwf : cmd.controlCommand.WellFormed)
    (hr : Prog.Run (processCommand cfg client acl) t q) (hexact : ∀ e ∈ t, Exact e.op e.resp) :
    controlProtocol.Serves (view cfg client acl) (Executes cfg client acl) cmd input t := by
  intro htaken hfits
  have hkeeps := (keeps_turn hwf hr hexact htaken hfits).1
  refine ⟨hkeeps.replies, ⟨hkeeps.request, hkeeps.once, fun e he heffect => ?_⟩, ?_⟩
  · exact hkeeps.effects e.op (mem_effects he heffect)
  · rintro ⟨left, hr⟩
    exact (keeps_turn hwf hr hexact htaken hfits).2 left rfl

/-! A turn that has read nothing did nothing, whatever is sent next. -/

def idleCommand : Command := ⟨.nop, none⟩

theorem wellFormed_nop : ControlCommand.nop.WellFormed :=
  ⟨fun _ ht => absurd ht List.not_mem_nil,
    List.forall_mem_singleton.mpr (by decide)⟩

theorem ended_of_idle (hr : Prog.Run (processCommand cfg client acl) t q)
    (hexact : ∀ e ∈ t, Exact e.op e.resp) (hidle : port.taken t = []) :
    port.offered t = [] ∧ (∀ e ∈ t, e.op.isEffect = false) ∧ ∀ left, q ≠ .ret left := by
  have htaken : port.taken t <+: [] := by
    rw [hidle]
  have hfits : ∀ r, r <+: port.offered t → controlProtocol.Partial idleCommand r →
      Fits [] (controlProtocol.octets idleCommand r) := fun _ _ _ => .inl List.nil_prefix
  obtain ⟨hkeeps, hended⟩ := keeps_turn wellFormed_nop hr hexact htaken hfits
  have hstream : idleCommand.controlCommand.stream ≠ [] := ControlStream.stream_ne_nil _
  refine ⟨?_, fun e he => ?_, fun left hq => ?_⟩
  · by_contra hne
    have hprefix := hkeeps.request hne
    dsimp only at hprefix
    rw [hidle, List.prefix_nil] at hprefix
    exact hstream hprefix
  · by_contra heffect
    have hwhole := (hkeeps.effects e.op (mem_effects he (by simpa using heffect))).2
    dsimp only at hwhole
    rw [hidle] at hwhole
    exact List.append_ne_nil_of_left_ne_nil hstream _ hwhole.symm
  · have hoctets := (hended left hq).2
    dsimp only at hoctets
    rw [hidle] at hoctets
    exact hstream (List.prefix_nil.mp (hoctets ▸ ControlCommand.stream_prefix_octets _ _))

end

end ProcessControl

end Psrt

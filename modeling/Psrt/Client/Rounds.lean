import Psrt.Lib.Duplex
import Psrt.Lib.Lockstep
import Psrt.Client.ControlStream

/-! What a command sends, what ends it, and that a turn of the control task keeps to that. -/

namespace Psrt
open Wire Interaction Lockstep

namespace ControlCommand

def second : ControlCommand → Bytes
  | publishRepl priority _ message timestamp =>
    ControlStream.msgBuf priority timestamp message ++ message
  | _ => []

def octets (cmd : ControlCommand) (replies : Bytes) : Bytes :=
  if replies.head? = some responseOkWaiting then cmd.stream ++ cmd.second else cmd.stream

def Finished : ControlCommand → Bytes → Prop
  | publishRepl .., replies =>
    ∃ code, (code ≠ responseOkWaiting ∧ replies = [code]) ∨ replies = [responseOkWaiting, code]
  | _, replies => ∃ code, replies = [code]

def outcome : ControlCommand → Bytes → Except Error Unit
  | publishRepl .., [code] =>
    if code = responseNotRequired then .ok () else .error (ControlStream.replyError code)
  | _, replies =>
    let code := replies.getLastD 0
    if code = responseOk then .ok () else .error (ControlStream.replyError code)

variable {cmd : ControlCommand}

structure Single (cmd : ControlCommand) : Prop where
  second : cmd.second = []
  finished : ∀ replies, cmd.Finished replies ↔ ∃ code, replies = [code]
  outcome : ∀ code, cmd.outcome [code] =
    if code = responseOk then .ok () else .error (ControlStream.replyError code)

theorem single_or_repl (cmd : ControlCommand) : cmd.Single ∨
    ∃ priority topic message timestamp, cmd = publishRepl priority topic message timestamp := by
  cases cmd with
  | publishRepl priority topic message timestamp => exact .inr ⟨_, _, _, _, rfl⟩
  | _ => exact .inl ⟨rfl, fun _ => Iff.rfl, fun _ => rfl⟩

theorem octets_waiting (cmd : ControlCommand) (replies : Bytes) :
    cmd.octets (responseOkWaiting :: replies) = cmd.stream ++ cmd.second := rfl

theorem octets_of_ne {code : UInt8} (h : code ≠ responseOkWaiting) (replies : Bytes) :
    cmd.octets (code :: replies) = cmd.stream :=
  if_neg fun heq => h (Option.some.inj heq)

theorem Single.octets_eq (h : cmd.Single) (replies : Bytes) : cmd.octets replies = cmd.stream := by
  unfold octets
  rw [h.second, List.append_nil]
  exact ite_self _

theorem stream_prefix_octets (cmd : ControlCommand) (replies : Bytes) :
    cmd.stream <+: cmd.octets replies := by
  unfold octets
  split_ifs
  · exact List.prefix_append ..
  · exact List.prefix_rfl

theorem octets_mono {r r' : Bytes} (h : r <+: r') : cmd.octets r <+: cmd.octets r' := by
  obtain ⟨tail, rfl⟩ := h
  cases r with
  | nil => exact cmd.stream_prefix_octets _
  | cons code r => exact List.prefix_rfl

theorem finished_unique {r r' : Bytes} (h : cmd.Finished r) (h' : cmd.Finished r')
    (hr : r <+: r') : r = r' := by
  rcases cmd.single_or_repl with hsingle | ⟨priority, topic, message, timestamp, rfl⟩
  · obtain ⟨code, rfl⟩ := (hsingle.finished r).mp h
    obtain ⟨code', rfl⟩ := (hsingle.finished r').mp h'
    exact hr.eq_of_length rfl
  · obtain ⟨code, ⟨hne, rfl⟩ | rfl⟩ := h
    · obtain ⟨code', ⟨_, rfl⟩ | rfl⟩ := h'
      · exact hr.eq_of_length rfl
      · exact absurd (List.cons_prefix_cons.mp hr).1 hne
    · obtain ⟨code', ⟨_, rfl⟩ | rfl⟩ := h'
      · exact absurd hr.length_le (by simp)
      · exact hr.eq_of_length rfl

theorem ne_nil_of_finished {replies : Bytes} (h : cmd.Finished replies) : replies ≠ [] := by
  rcases cmd.single_or_repl with hsingle | ⟨priority, topic, message, timestamp, rfl⟩
  · obtain ⟨code, rfl⟩ := (hsingle.finished replies).mp h
    exact List.cons_ne_nil _ _
  · obtain ⟨code, ⟨_, rfl⟩ | rfl⟩ := h
    · exact List.cons_ne_nil _ _
    · exact List.cons_ne_nil _ _

end ControlCommand

def controlProtocol : Protocol Command UInt8 where
  octets cmd := cmd.controlCommand.octets
  Finished cmd := cmd.controlCommand.Finished
  octets_mono := ControlCommand.octets_mono
  finished_unique := ControlCommand.finished_unique

theorem partial_singleton (cmd : Command) (code : UInt8) : controlProtocol.Partial cmd [code] := by
  rcases cmd.controlCommand.single_or_repl with hsingle | ⟨priority, topic, message, timestamp, hc⟩
  · exact ⟨[code], (hsingle.finished _).mpr ⟨code, rfl⟩, List.prefix_rfl⟩
  · by_cases hcode : code = responseOkWaiting
    · refine ⟨[code, 0], ?_, List.prefix_append [code] [0]⟩
      change cmd.controlCommand.Finished [code, 0]
      rw [hc, hcode]
      exact ⟨0, .inr rfl⟩
    · refine ⟨[code], ?_, List.prefix_rfl⟩
      change cmd.controlCommand.Finished [code]
      rw [hc]
      exact ⟨code, .inl ⟨hcode, rfl⟩⟩

theorem partial_nil (cmd : Command) : controlProtocol.Partial cmd [] :=
  (partial_singleton cmd 0).mono List.nil_prefix

namespace ControlStream

def port : Port ClientOp ClientOp.Resp UInt8 where
  offer
    | .write buf => buf
    | _ => []
  take
    | .read _, .ok b => b
    | _, _ => []
  Broke
    | .write _, .error _ => True
    | .read _, .error _ => True
    | _, _ => False

structure Trail where
  request : Option Command
  offered : Bytes
  taken : Bytes
  told : List (Nat × Except Error Unit)

namespace Trail

def start : Trail := ⟨none, [], [], []⟩

def next (s : Trail) : (o : ClientOp) → o.Resp → Trail
  | .recv, r => { s with request := r }
  | .early, _ => s
  | .write buf, _ => { s with offered := s.offered ++ buf }
  | .read n, r => { s with taken := s.taken ++ port.take (.read n) r }
  | .send ch result, _ => { s with told := s.told ++ [(ch, result)] }

/-- What was exchanged for `cmd` is what the protocol asks for, and what was told is its outcome. -/
structure Keeps (cmd : Command) (offered taken : Bytes) (told : List (Nat × Except Error Unit)) :
    Prop where
  octets : offered <+: controlProtocol.octets cmd taken
  replies : controlProtocol.Partial cmd taken
  silent : offered = [] → taken = []
  results : ∀ p ∈ told, cmd.responseChannel = some p.1 ∧ controlProtocol.Finished cmd taken ∧
    p.2 = cmd.controlCommand.outcome taken

def Kept (s : Trail) : Prop :=
  match s.request with
  | none => s.offered = [] ∧ s.taken = [] ∧ s.told = []
  | some cmd => Keeps cmd s.offered s.taken s.told

end Trail

def Exact : (o : ClientOp) → o.Resp → Prop
  | .read n, r => ∀ b, r = .ok b → b.length = n
  | _, _ => True

def monitor : Monitor ClientOp ClientOp.Resp Trail :=
  Monitor.keeps (fun _ o r => Exact o r) Trail.next Trail.Kept

/-- At the end of a turn that does not end the task: nothing was sent, or the command is over. -/
def Over : Option Unit → Trail → Prop
  | none, s => s.offered = [] ∨ ∃ cmd, s.request = some cmd ∧
      s.offered = controlProtocol.octets cmd s.taken ∧ controlProtocol.Finished cmd s.taken
  | some (), _ => True

section
variable {cmd : Command} {offered taken : Bytes} {Q : Unit → Trail → Prop}

theorem keeps_start (cmd : Command) : Trail.Keeps cmd [] [] [] where
  octets := List.nil_prefix
  replies := partial_nil cmd
  silent _ := rfl
  results _ hp := absurd hp List.not_mem_nil

theorem wp_write {buf : Bytes} (hkept : Trail.Keeps cmd (offered ++ buf) taken [])
    (hQ : Q () ⟨some cmd, offered ++ buf, taken, []⟩) :
    monitor.wp (write buf) Q (fun _ _ => True) ⟨some cmd, offered, taken, []⟩ := by
  apply Monitor.wp_keeps_call
  intro r _
  refine ⟨hkept, ?_⟩
  cases r with
  | ok u => exact hQ
  | error e => trivial

theorem wp_readCode {Q : UInt8 → Trail → Prop} (hnow : Trail.Keeps cmd offered taken [])
    (hkept : ∀ code, Trail.Keeps cmd offered (taken ++ [code]) [])
    (hQ : ∀ code, Q code ⟨some cmd, offered, taken ++ [code], []⟩) :
    monitor.wp readCode Q (fun _ _ => True) ⟨some cmd, offered, taken, []⟩ := by
  apply Monitor.wp_keeps_call
  intro r hexact
  cases r with
  | ok b =>
    obtain ⟨code, rfl⟩ := List.length_eq_one_iff.mp (hexact b rfl)
    exact ⟨hkept code, hQ code⟩
  | error e =>
    have hnext : Trail.next ⟨some cmd, offered, taken, []⟩ (.read 1) (.error e) =
        ⟨some cmd, offered, taken, []⟩ := by
      simp only [Trail.next, port, List.append_nil]
    rw [hnext]
    exact ⟨hnow, trivial⟩

theorem wp_respond {result : Except Error Unit} (hnow : Trail.Keeps cmd offered taken [])
    (hfinished : controlProtocol.Finished cmd taken)
    (hresult : result = cmd.controlCommand.outcome taken)
    (hQ : ∀ told, Q () ⟨some cmd, offered, taken, told⟩) :
    monitor.wp (respond cmd result) Q (fun _ _ => True) ⟨some cmd, offered, taken, []⟩ := by
  unfold respond
  cases hch : cmd.responseChannel with
  | none => exact hQ []
  | some ch =>
    apply Monitor.wp_keeps_call
    intro r _
    refine ⟨⟨hnow.octets, hnow.replies, hnow.silent, ?_⟩, hQ _⟩
    exact List.forall_mem_singleton.mpr ⟨hch, hfinished, hresult⟩

end

def Done (cmd : Command) : Unit → Trail → Prop := fun _ s =>
  s.request = some cmd ∧ s.offered = controlProtocol.octets cmd s.taken ∧
    controlProtocol.Finished cmd s.taken

section
variable {cmd : Command} {offered taken : Bytes}

theorem keeps_of_whole (hne : offered ≠ []) (ho : offered = controlProtocol.octets cmd taken)
    (hf : controlProtocol.Finished cmd taken) : Trail.Keeps cmd offered taken [] where
  octets := by
    rw [← ho]
  replies := ⟨taken, hf, List.prefix_rfl⟩
  silent h := absurd h hne
  results _ hp := absurd hp List.not_mem_nil

theorem keeps_of_stream (h : offered <+: cmd.controlCommand.stream) :
    Trail.Keeps cmd offered [] [] where
  octets := h
  replies := partial_nil cmd
  silent _ := rfl
  results _ hp := absurd hp List.not_mem_nil

theorem wp_handleErr {code : UInt8} (hne : offered ≠ [])
    (ho : offered = controlProtocol.octets cmd taken) (hf : controlProtocol.Finished cmd taken)
    (hresult : cmd.controlCommand.outcome taken = .error (replyError code)) :
    monitor.wp (handleErr cmd code) (Done cmd) (fun _ _ => True)
      ⟨some cmd, offered, taken, []⟩ := by
  rw [handleErr, Prog.bind_eq, Monitor.wp_bind]
  refine wp_respond (keeps_of_whole hne ho hf) hf hresult.symm fun told => ?_
  split_ifs
  · trivial
  · exact ⟨rfl, ho, hf⟩

theorem wp_processReply (hne : offered ≠ []) (hnow : Trail.Keeps cmd offered taken [])
    (ho : ∀ code, offered = controlProtocol.octets cmd (taken ++ [code]))
    (hf : ∀ code, controlProtocol.Finished cmd (taken ++ [code]))
    (hresult : ∀ code, cmd.controlCommand.outcome (taken ++ [code]) =
      if code = responseOk then .ok () else .error (replyError code)) :
    monitor.wp (processReply cmd) (Done cmd) (fun _ _ => True)
      ⟨some cmd, offered, taken, []⟩ := by
  rw [processReply, Prog.bind_eq, Monitor.wp_bind]
  refine wp_readCode hnow (fun code => keeps_of_whole hne (ho code) (hf code)) fun code => ?_
  have hcode := hresult code
  split_ifs at hcode ⊢ with hok
  · exact wp_respond (keeps_of_whole hne (ho code) (hf code)) (hf code) hcode.symm
      fun _ => ⟨rfl, ho code, hf code⟩
  · exact wp_handleErr hne (ho code) (hf code) hcode

end

theorem asBytes_ne_nil (cmd : ControlCommand) : cmd.asBytes ≠ [] := by
  cases cmd with
  | _ => exact List.cons_ne_nil _ _

theorem stream_ne_nil (cmd : ControlCommand) : cmd.stream ≠ [] :=
  List.append_ne_nil_of_left_ne_nil (asBytes_ne_nil cmd) _

theorem wp_processReply_single {cmd : Command} (h : cmd.controlCommand.Single) :
    monitor.wp (processReply cmd) (Done cmd) (fun _ _ => True)
      ⟨some cmd, cmd.controlCommand.stream, [], []⟩ :=
  wp_processReply (stream_ne_nil _) (keeps_of_stream List.prefix_rfl)
    (fun code => (h.octets_eq [code]).symm) (fun code => (h.finished _).mpr ⟨code, rfl⟩) h.outcome

theorem wp_exchange_plain {cmd : Command} (h : cmd.controlCommand.Single)
    (htrailer : cmd.controlCommand.trailer = [])
    (heq : exchange cmd =
      (write cmd.controlCommand.asBytes).bind fun _ => processReply cmd) :
    monitor.wp (exchange cmd) (Done cmd) (fun _ _ => True) ⟨some cmd, [], [], []⟩ := by
  have hstream : cmd.controlCommand.asBytes = cmd.controlCommand.stream := by
    rw [ControlCommand.stream, htrailer, List.append_nil]
  rw [heq, Monitor.wp_bind, hstream]
  exact wp_write (keeps_of_stream List.prefix_rfl) (wp_processReply_single h)

section
variable (priority : UInt8) (topic : Str) (message : Bytes) (timestamp : UInt64)
  (ch : Option Nat)

theorem wp_exchange_publish : monitor.wp (exchange ⟨.publish priority topic message, ch⟩)
    (Done ⟨.publish priority topic message, ch⟩) (fun _ _ => True)
    ⟨some ⟨.publish priority topic message, ch⟩, [], [], []⟩ := by
  have heq : exchange ⟨.publish priority topic message, ch⟩ =
      (write (ControlCommand.publish priority topic message).asBytes).bind fun _ =>
        (write message).bind fun _ => processReply ⟨.publish priority topic message, ch⟩ := rfl
  rw [heq, Monitor.wp_bind]
  refine wp_write (keeps_of_stream (List.prefix_append ..)) ?_
  rw [Monitor.wp_bind]
  refine wp_write (keeps_of_stream List.prefix_rfl) ?_
  exact wp_processReply_single ⟨rfl, fun _ => Iff.rfl, fun _ => rfl⟩

theorem wp_exchange_waiting {cmd : Command}
    (hc : cmd.controlCommand = .publishRepl priority topic message timestamp) :
    monitor.wp ((write (msgBuf priority timestamp message)).bind fun _ =>
        (write message).bind fun _ => processReply cmd) (Done cmd) (fun _ _ => True)
      ⟨some cmd, cmd.controlCommand.stream, [responseOkWaiting], []⟩ := by
  have hoctets : ∀ replies, controlProtocol.octets cmd (responseOkWaiting :: replies) =
      cmd.controlCommand.stream ++ msgBuf priority timestamp message ++ message := by
    intro replies
    rw [List.append_assoc]
    change cmd.controlCommand.octets (responseOkWaiting :: replies) = _
    rw [ControlCommand.octets_waiting, hc]
    rfl
  have hfinished : ∀ code, controlProtocol.Finished cmd ([responseOkWaiting] ++ [code]) := by
    intro code
    change cmd.controlCommand.Finished _
    rw [hc]
    exact ⟨code, .inr rfl⟩
  -- all that is offered from now on is of the octets for `RESPONSE_OK_WAITING`
  have hkeeps : ∀ offered, offered ≠ [] →
      offered <+: cmd.controlCommand.stream ++ msgBuf priority timestamp message ++ message →
      Trail.Keeps cmd offered [responseOkWaiting] [] := by
    intro offered hne ho
    refine ⟨?_, ⟨_, hfinished 0, List.prefix_append ..⟩, fun h => absurd h hne,
      fun _ hp => absurd hp List.not_mem_nil⟩
    rw [hoctets]
    exact ho
  have hne := stream_ne_nil cmd.controlCommand
  rw [Monitor.wp_bind]
  refine wp_write (hkeeps _ (List.append_ne_nil_of_left_ne_nil hne _) (List.prefix_append ..)) ?_
  rw [Monitor.wp_bind]
  have hwhole := List.append_ne_nil_of_left_ne_nil
    (List.append_ne_nil_of_left_ne_nil hne (msgBuf priority timestamp message)) message
  refine wp_write (hkeeps _ hwhole List.prefix_rfl) ?_
  refine wp_processReply hwhole (hkeeps _ hwhole List.prefix_rfl) (fun code => (hoctets _).symm)
    hfinished fun code => ?_
  rw [hc]
  rfl

theorem wp_exchange_publishRepl :
    monitor.wp (exchange ⟨.publishRepl priority topic message timestamp, ch⟩)
      (Done ⟨.publishRepl priority topic message timestamp, ch⟩) (fun _ _ => True)
      ⟨some ⟨.publishRepl priority topic message timestamp, ch⟩, [], [], []⟩ := by
  generalize hcmd : (⟨.publishRepl priority topic message timestamp, ch⟩ : Command) = cmd
  have hc : cmd.controlCommand = .publishRepl priority topic message timestamp := by
    rw [← hcmd]
  have heq : exchange cmd = (write cmd.controlCommand.asBytes).bind fun _ =>
      readCode.bind fun code =>
        if code = responseOkWaiting then
          (write (msgBuf priority timestamp message)).bind fun _ =>
            (write message).bind fun _ => processReply cmd
        else if code = responseNotRequired then respond cmd (.ok ()) else handleErr cmd code := by
    rw [← hcmd]
    rfl
  have hstream : cmd.controlCommand.asBytes = cmd.controlCommand.stream := by
    rw [hc]
    exact (List.append_nil _).symm
  have hne := stream_ne_nil cmd.controlCommand
  have hkeeps : ∀ code, Trail.Keeps cmd cmd.controlCommand.stream [code] [] := fun code =>
    ⟨ControlCommand.stream_prefix_octets _ _, partial_singleton cmd code, fun h => absurd h hne,
      fun _ hp => absurd hp List.not_mem_nil⟩
  rw [heq, hstream, Monitor.wp_bind]
  refine wp_write (keeps_of_stream List.prefix_rfl) ?_
  rw [Monitor.wp_bind]
  refine wp_readCode (keeps_of_stream List.prefix_rfl) hkeeps fun code => ?_
  split_ifs with hwaiting hnot
  · subst hwaiting
    exact wp_exchange_waiting priority topic message timestamp hc
  -- any other code is the only reply, and the message is not sent
  all_goals
    have ho : cmd.controlCommand.stream = controlProtocol.octets cmd [code] :=
      (ControlCommand.octets_of_ne hwaiting []).symm
    have hf : controlProtocol.Finished cmd [code] := by
      change cmd.controlCommand.Finished [code]
      rw [hc]
      exact ⟨code, .inl ⟨hwaiting, rfl⟩⟩
    have hresult : cmd.controlCommand.outcome [code] =
        if code = responseNotRequired then .ok () else .error (replyError code) := by
      rw [hc]
      rfl
  · rw [if_pos hnot] at hresult
    exact wp_respond (hkeeps code) hf hresult.symm fun _ => ⟨rfl, ho, hf⟩
  · rw [if_neg hnot] at hresult
    exact wp_handleErr hne ho hf hresult

end

theorem wp_exchange (cmd : Command) :
    monitor.wp (exchange cmd) (Done cmd) (fun _ _ => True) ⟨some cmd, [], [], []⟩ := by
  obtain ⟨cmd, ch⟩ := cmd
  cases cmd with
  | publish priority topic message => exact wp_exchange_publish priority topic message ch
  | publishRepl priority topic message timestamp =>
    exact wp_exchange_publishRepl priority topic message timestamp ch
  | _ => exact wp_exchange_plain ⟨rfl, fun _ => Iff.rfl, fun _ => rfl⟩ rfl rfl

theorem wp_exchange_over (cmd : Command) :
    monitor.wp ((exchange cmd).bind fun _ => .ret none) Over (fun _ _ => True)
      ⟨some cmd, [], [], []⟩ := by
  rw [Monitor.wp_bind]
  exact Monitor.wp_mono (fun _ s hdone => .inr ⟨cmd, hdone⟩) (fun _ _ he => he) (wp_exchange cmd)

theorem wp_turn : monitor.wp turn Over (fun _ _ => True) Trail.start := by
  apply Monitor.wp_keeps_call
  intro r _
  cases r with
  | none => exact ⟨⟨rfl, rfl, rfl⟩, trivial⟩
  | some cmd =>
    refine ⟨keeps_start cmd, ?_⟩
    dsimp only [Prog.ret_bind]
    split_ifs with hnop
    · apply Monitor.wp_keeps_call
      intro early _
      refine ⟨keeps_start cmd, ?_⟩
      cases early with
      | true => exact .inl rfl
      | false => exact wp_exchange_over cmd
    · exact wp_exchange_over cmd

/-! The control task gives up at the first error of the stream. -/

theorem stopsOn_write (buf : Bytes) : (write buf).StopsOn port.Broke := by
  intro r
  refine ⟨fun hbroke => ?_, Prog.stopsOn_ofExcept r⟩
  cases r with
  | ok u => exact hbroke.elim
  | error e => exact ⟨e, rfl⟩

theorem stopsOn_readCode : readCode.StopsOn port.Broke := by
  apply Prog.StopsOn.bind
  · intro r
    refine ⟨fun hbroke => ?_, Prog.stopsOn_ofExcept r⟩
    cases r with
    | ok b => exact hbroke.elim
    | error e => exact ⟨e, rfl⟩
  · exact fun _ => trivial

theorem stopsOn_respond (cmd : Command) (result : Except Error Unit) :
    (respond cmd result).StopsOn port.Broke := by
  unfold respond
  split
  · trivial
  · exact .call (fun _ => id) fun _ => trivial

theorem stopsOn_handleErr (cmd : Command) (code : UInt8) :
    (handleErr cmd code).StopsOn port.Broke := by
  apply (stopsOn_respond cmd _).bind
  intro _
  split_ifs
  · trivial
  · trivial

theorem stopsOn_processReply (cmd : Command) : (processReply cmd).StopsOn port.Broke := by
  apply stopsOn_readCode.bind
  intro code
  split_ifs
  · exact stopsOn_respond cmd _
  · exact stopsOn_handleErr cmd code

theorem stopsOn_exchange (cmd : Command) : (exchange cmd).StopsOn port.Broke := by
  apply (stopsOn_write _).bind
  intro _
  split
  · exact (stopsOn_write _).bind fun _ => stopsOn_processReply cmd
  · apply stopsOn_readCode.bind
    intro code
    split_ifs
    · exact (stopsOn_write _).bind fun _ =>
        (stopsOn_write _).bind fun _ => stopsOn_processReply cmd
    · exact stopsOn_respond cmd _
    · exact stopsOn_handleErr cmd code
  · exact stopsOn_processReply cmd

theorem stopsOn_turn : turn.StopsOn port.Broke := by
  apply Prog.StopsOn.call (fun _ => id)
  intro r
  cases r with
  | none => trivial
  | some cmd =>
    have hend : ((exchange cmd).bind fun _ => .ret none : ClientProg (Option Unit)).StopsOn
        port.Broke := (stopsOn_exchange cmd).bind fun _ => trivial
    dsimp only [Prog.ret_bind]
    split_ifs
    · apply Prog.StopsOn.call (fun _ => id)
      intro early
      cases early with
      | true => trivial
      | false => exact hend
    · exact hend

theorem take_of_broke (o : ClientOp) (r : o.Resp) (h : port.Broke o r) : port.take o r = [] := by
  cases o with
  | read n =>
    cases r with
    | ok b => exact h.elim
    | error e => rfl
  | write buf => rfl
  | _ => exact h.elim

def trail (t : List ClientEvent) : Trail := monitor.after Trail.start t

theorem after_offered (s : Trail) (t : List ClientEvent) :
    (monitor.after s t).offered = s.offered ++ port.offered t := by
  apply Monitor.after_flatMap (f := Trail.offered)
  rintro s ⟨op, resp⟩
  cases op with
  | write buf => rfl
  | _ => exact (List.append_nil _).symm

theorem after_taken (s : Trail) (t : List ClientEvent) :
    (monitor.after s t).taken = s.taken ++ port.taken t := by
  apply Monitor.after_flatMap (f := Trail.taken)
  rintro s ⟨op, resp⟩
  cases op with
  | read n => rfl
  | _ => exact (List.append_nil _).symm

theorem trail_offered (t : List ClientEvent) : (trail t).offered = port.offered t :=
  after_offered Trail.start t

theorem trail_taken (t : List ClientEvent) : (trail t).taken = port.taken t :=
  after_taken Trail.start t

theorem after_told (s : Trail) (t : List ClientEvent) :
    s.told ⊆ (monitor.after s t).told ∧ ∀ id result, ⟨.send id result, ()⟩ ∈ t →
      (id, result) ∈ (monitor.after s t).told := by
  induction t generalizing s with
  | nil => exact ⟨fun _ h => h, fun _ _ h => absurd h List.not_mem_nil⟩
  | cons e t ih =>
    obtain ⟨hkept, htold⟩ := ih (Trail.next s e.op e.resp)
    refine ⟨fun p hp => hkept ?_, fun id result he => ?_⟩
    · cases e with
      | mk op resp =>
        cases op with
        | send id result => exact List.mem_append_left _ hp
        | _ => exact hp
    · rcases List.mem_cons.mp he with rfl | hmem
      · exact hkept (List.mem_append_right _ (List.mem_singleton_self _))
      · exact htold id result hmem

theorem after_request (s : Trail) (t : List ClientEvent) {cmd : Command}
    (h : (monitor.after s t).request = some cmd) :
    s.request = some cmd ∨ ⟨.recv, some cmd⟩ ∈ t := by
  induction t generalizing s with
  | nil => exact .inl h
  | cons e t ih =>
    rcases ih (Trail.next s e.op e.resp) h with hnext | hmem
    · cases e with
      | mk op resp =>
        cases op with
        | recv =>
          obtain rfl : resp = some cmd := hnext
          exact .inr (List.mem_cons_self ..)
        | _ => exact .inl hnext
    · exact .inr (List.mem_cons_of_mem _ hmem)

def round (t : List ClientEvent) : Option (Round Command UInt8) :=
  if (trail t).offered = [] then none
  else (trail t).request.map fun cmd => ⟨cmd, (trail t).offered, (trail t).taken⟩

def rounds (turns : List (List ClientEvent)) : List (Round Command UInt8) :=
  turns.filterMap round

section
variable {t : List ClientEvent} {q : ClientProg (Option Unit)}

theorem kept_trail (hr : Prog.Run turn t q) (hexact : ∀ e ∈ t, Exact e.op e.resp) :
    (trail t).Kept := by
  have hadmits : monitor.Admits Trail.start t :=
    Monitor.admits_of_forall (fun e he _ => hexact e he) _
  exact Monitor.keeps_after ⟨rfl, rfl, rfl⟩ (Monitor.wp_run wp_turn hr hadmits).1 hadmits

theorem over_trail (hr : Prog.Run turn t (.ret none)) (hexact : ∀ e ∈ t, Exact e.op e.resp) :
    Over none (trail t) :=
  (Monitor.wp_run wp_turn hr (Monitor.admits_of_forall (fun e he _ => hexact e he) _)).2

theorem Trail.Keeps.told_eq_nil {cmd : Command} {offered taken : Bytes}
    {told : List (Nat × Except Error Unit)} (h : Trail.Keeps cmd offered taken told)
    (htaken : taken = []) : told = [] := by
  by_contra hne
  obtain ⟨p, hp⟩ := List.exists_mem_of_ne_nil _ hne
  exact ControlCommand.ne_nil_of_finished (h.results p hp).2.1 htaken

theorem round_eq_none (hkept : (trail t).Kept) (h : round t = none) :
    (trail t).offered = [] ∧ (trail t).taken = [] ∧ (trail t).told = [] := by
  unfold round at h
  unfold Trail.Kept at hkept
  cases hreq : (trail t).request with
  | none =>
    rw [hreq] at hkept
    exact hkept
  | some cmd =>
    rw [hreq] at hkept h
    split_ifs at h with ho
    · have htaken := hkept.silent ho
      exact ⟨ho, htaken, hkept.told_eq_nil htaken⟩
    · cases h

theorem round_eq_some (hkept : (trail t).Kept) {r : Round Command UInt8} (h : round t = some r) :
    r.offered = (trail t).offered ∧ r.taken = (trail t).taken ∧
      (trail t).request = some r.request ∧
      Trail.Keeps r.request (trail t).offered (trail t).taken (trail t).told := by
  unfold round at h
  unfold Trail.Kept at hkept
  cases hreq : (trail t).request with
  | none =>
    rw [hreq] at h
    split_ifs at h
    cases h
  | some cmd =>
    rw [hreq] at hkept h
    split_ifs at h
    obtain rfl := Option.some.inj h
    exact ⟨rfl, rfl, rfl, hkept⟩

theorem recv_of_round (hkept : (trail t).Kept) {r : Round Command UInt8}
    (h : round t = some r) : ⟨.recv, some r.request⟩ ∈ t := by
  rcases after_request Trail.start t (round_eq_some hkept h).2.2.1 with hstart | hmem
  · cases hstart
  · exact hmem

/-- A result is sent in the round of its own command, when that is over. -/
theorem round_of_send (hkept : (trail t).Kept) {id : Nat} {result : Except Error Unit}
    (he : ⟨.send id result, ()⟩ ∈ t) : ∃ r, round t = some r ∧
      r.request.responseChannel = some id ∧ controlProtocol.Finished r.request r.taken ∧
      result = r.request.controlCommand.outcome r.taken := by
  have htold := (after_told Trail.start t).2 id result he
  cases hround : round t with
  | none =>
    have hnone : (trail t).told = [] := (round_eq_none hkept hround).2.2
    rw [← trail, hnone] at htold
    cases htold
  | some r =>
    obtain ⟨_, htaken, _, hkeeps⟩ := round_eq_some hkept hround
    rw [← htaken] at hkeeps
    exact ⟨r, rfl, hkeeps.results _ htold⟩

theorem finished_of_round (hover : Over none (trail t)) {r : Round Command UInt8}
    (h : round t = some r) : r.offered = controlProtocol.octets r.request r.taken ∧
      controlProtocol.Finished r.request r.taken := by
  unfold round at h
  split_ifs at h with hne
  obtain ⟨cmd, hreq, rfl⟩ := Option.map_eq_some_iff.mp h
  rcases hover with ho | ⟨cmd', hreq', hdone⟩
  · exact absurd ho hne
  · obtain rfl := Option.some.inj (hreq.symm.trans hreq')
    exact hdone

theorem flatMap_rounds {turns : List (List ClientEvent)} (hkept : ∀ t ∈ turns, (trail t).Kept) :
    (rounds turns).flatMap Round.offered = turns.flatMap port.offered ∧
      (rounds turns).flatMap Round.taken = turns.flatMap port.taken := by
  induction turns with
  | nil => exact ⟨rfl, rfl⟩
  | cons t turns ih =>
    obtain ⟨hfirst, hrest⟩ := List.forall_mem_cons.mp hkept
    obtain ⟨ihoffered, ihtaken⟩ := ih hrest
    unfold rounds at ihoffered ihtaken ⊢
    cases hround : round t with
    | none =>
      obtain ⟨ho, ht, _⟩ := round_eq_none hfirst hround
      rw [trail_offered] at ho
      rw [trail_taken] at ht
      rw [List.filterMap_cons_none hround, List.flatMap_cons, List.flatMap_cons, ho, ht]
      exact ⟨ihoffered, ihtaken⟩
    | some r =>
      obtain ⟨ho, ht, _⟩ := round_eq_some hfirst hround
      rw [trail_offered] at ho
      rw [trail_taken] at ht
      rw [List.filterMap_cons_some hround, List.flatMap_cons, List.flatMap_cons, List.flatMap_cons,
        List.flatMap_cons, ho, ht, ihoffered, ihtaken]
      exact ⟨rfl, rfl⟩

theorem asks_rounds {finished : List (List ClientEvent)} {current : List ClientEvent}
    (hfinished : ∀ t ∈ finished, (trail t).Kept ∧ Over none (trail t))
    (hcurrent : (trail current).Kept) :
    controlProtocol.Asks (rounds (finished ++ [current])) := by
  induction finished with
  | nil =>
    unfold rounds
    rw [List.nil_append]
    cases hround : round current with
    | none =>
      rw [List.filterMap_cons_none hround]
      exact .nil
    | some r =>
      obtain ⟨ho, ht, _, hkeeps⟩ := round_eq_some hcurrent hround
      rw [← ho, ← ht] at hkeeps
      rw [List.filterMap_cons_some hround]
      exact .last r hkeeps.octets hkeeps.replies
  | cons t finished ih =>
    obtain ⟨hfirst, hrest⟩ := List.forall_mem_cons.mp hfinished
    have hasks := ih hrest
    unfold rounds at hasks ⊢
    rw [List.cons_append]
    cases hround : round t with
    | none =>
      rw [List.filterMap_cons_none hround]
      exact hasks
    | some r =>
      obtain ⟨ho, hf⟩ := finished_of_round hfirst.2 hround
      rw [List.filterMap_cons_some hround]
      exact .cons r _ ho hf hasks

end

end ControlStream

end Psrt

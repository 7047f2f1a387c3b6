import Psrt.Server.Turns

/-! A control session: callers, the control task, `process_control`, and the stream between the two,
which may break anywhere. -/

namespace Psrt.ControlSession
open Wire Interaction Lockstep

structure Call where
  command : ControlCommand
  result : Option (Except Error Unit)

structure Calls where
  queue : List Command
  calls : Nat → Option Call

namespace Calls

def setCall (w : Calls) (id : Nat) (command : ControlCommand)
    (result : Option (Except Error Unit)) : Calls :=
  { w with calls := Function.update w.calls id (some ⟨command, result⟩) }

def tell (w : Calls) (id : Nat) (result : Except Error Unit) : Calls :=
  match w.calls id with
  | some ⟨command, none⟩ => w.setCall id command (some result)
  | _ => w

end Calls

def errCommunicationLost : String := "Communication lost"

/-- The results a caller gives itself: the channel is closed, or the time is over. -/
def Abandoned (result : Except Error Unit) : Prop :=
  result = .error (.internal errCommunicationLost) ∨ ∃ elapsed, result = .error (.timedOut elapsed)

inductive ClientExec : Calls → (o : ClientOp) → o.Resp → Calls → Prop
  | recv {w} (cmd : Command) (queue : List Command) (h : w.queue = cmd :: queue) :
      ClientExec w .recv (some cmd) { w with queue := queue }
  | closed {w} : ClientExec w .recv none w
  | early {w} (b : Bool) : ClientExec w .early b w
  | write {w} (buf : Bytes) (r : Except Error Unit) : ClientExec w (.write buf) r w
  | read {w} (n : Nat) (r : Except Error Bytes) (h : ∀ b, r = .ok b → b.length = n) :
      ClientExec w (.read n) r w
  | send {w} (id : Nat) (result : Except Error Unit) :
      ClientExec w (.send id result) () (w.tell id result)

def ServerExec (w : Calls) (o : ServerOp) (r : o.Resp) (w' : Calls) : Prop :=
  w' = w ∧ ProcessControl.Exact o r

inductive Env : Calls → Calls → Prop
  | call {w} (id : Nat) (cmd : ControlCommand) (h : w.calls id = none) (hwf : cmd.WellFormed) :
      Env w { w.setCall id cmd none with queue := w.queue ++ [⟨cmd, some id⟩] }
  | refuse {w} (id : Nat) (cmd : ControlCommand) (result : Except Error Unit)
      (h : w.calls id = none) (hresult : Abandoned result) :
      Env w (w.setCall id cmd (some result))
  | giveUp {w} (id : Nat) (cmd : ControlCommand) (result : Except Error Unit)
      (h : w.calls id = some ⟨cmd, none⟩) (hresult : Abandoned result) :
      Env w (w.setCall id cmd (some result))
  | notify {w} (cmd : ControlCommand) (h : cmd = .nop ∨ cmd = .bye) :
      Env w { w with queue := w.queue ++ [⟨cmd, none⟩] }

def clientSide : Side Calls UInt8 ClientOp ClientOp.Resp Error Unit where
  body := ControlStream.turn
  port := ControlStream.port
  Exec := ClientExec

def serverSide (cfg : Config) (client : ServerClient) (acl : Acl) :
    Side Calls UInt8 ServerOp ServerOp.Resp Error Unit where
  body := processCommand cfg client acl
  port := ProcessControl.port
  Exec := ServerExec

abbrev Session :=
  Duplex Calls UInt8 ClientOp ClientOp.Resp Error Unit ServerOp ServerOp.Resp Error Unit

def Reachable (cfg : Config) (client : ServerClient) (acl : Acl) : Session → Prop :=
  Duplex.Reachable clientSide (serverSide cfg client acl) Env (· = ⟨[], fun _ => none⟩)

def sent (s : Session) : List Command := (ControlStream.rounds s.left.turns).map Round.request

def acts (t : List ServerEvent) : Bool :=
  !(ProcessControl.port.offered t).isEmpty || t.any fun e => e.op.isEffect

def executed (s : Session) : List (List ServerEvent) := s.right.turns.filter acts

/-- The last reply is a success: `RESPONSE_OK`, or that nobody needs a replicated publish. -/
def Succeeded (command : ControlCommand) (replies : Bytes) : Prop :=
  replies.getLast? = some responseOk ∨
    (replies = [responseNotRequired] ∧ ∃ priority topic message timestamp,
      command = .publishRepl priority topic message timestamp)

structure Lockstep (cfg : Config) (client : ServerClient) (acl : Acl) (s : Session) : Prop where
  /-- What was executed are the first commands sent, each as a whole and by a turn of its own. -/
  inOrder : ∃ commands, commands <+: sent s ∧
    List.Forall₂ (ProcessControl.Executes cfg client acl) commands (executed s)
  /-- The octets they were executed from were written to the stream. -/
  written : ProcessControl.port.taken s.right.history <+: s.toRight.written
  /-- A result that a caller did not give itself is what the replies to its own command say. -/
  results : ∀ id command result, s.world.calls id = some ⟨command, some result⟩ →
    Abandoned result ∨ ∃ (i : Nat) (turn : List ServerEvent),
      (sent s)[i]? = some ⟨command, some id⟩ ∧ (executed s)[i]? = some turn ∧
      result = command.outcome (ProcessControl.port.offered turn)
  succeeded : ∀ id command, s.world.calls id = some ⟨command, some (.ok ())⟩ →
    ∃ (i : Nat) (turn : List ServerEvent), (sent s)[i]? = some ⟨command, some id⟩ ∧
      (executed s)[i]? = some turn ∧
      Succeeded command (ProcessControl.port.offered turn)

def Registered (w : Calls) (cmd : Command) : Prop :=
  cmd.controlCommand.WellFormed ∧ ∀ id, cmd.responseChannel = some id →
    ∃ result, w.calls id = some ⟨cmd.controlCommand, result⟩

def Extends (w w' : Calls) : Prop :=
  ∀ id command result, w.calls id = some ⟨command, result⟩ →
    ∃ result', w'.calls id = some ⟨command, result'⟩

structure Tracked (w : Calls) (h : List ClientEvent) : Prop where
  queue : ∀ cmd ∈ w.queue, Registered w cmd
  received : ∀ cmd, ⟨.recv, some cmd⟩ ∈ h → Registered w cmd
  results : ∀ id command result, w.calls id = some ⟨command, some result⟩ →
    Abandoned result ∨ ⟨.send id result, ()⟩ ∈ h

section
variable {w w' : Calls} {h : List ClientEvent}

theorem Registered.mono {cmd : Command} (hr : Registered w cmd) (he : Extends w w') :
    Registered w' cmd := by
  refine ⟨hr.1, fun id hid => ?_⟩
  obtain ⟨result, hcall⟩ := hr.2 id hid
  exact he id _ result hcall

theorem extends_refl (w : Calls) : Extends w w := fun _ _ result h => ⟨result, h⟩

theorem calls_setCall_self (id : Nat) (command : ControlCommand)
    (result : Option (Except Error Unit)) :
    (w.setCall id command result).calls id = some ⟨command, result⟩ := Function.update_self ..

theorem calls_setCall_of_ne {id id' : Nat} (hne : id' ≠ id) (command : ControlCommand)
    (result : Option (Except Error Unit)) :
    (w.setCall id command result).calls id' = w.calls id' := Function.update_of_ne hne ..

theorem extends_setCall {id : Nat} {command : ControlCommand}
    {result : Option (Except Error Unit)}
    (hcall : ∀ call, w.calls id = some call → call.command = command) :
    Extends w (w.setCall id command result) := by
  intro id' command' result' hsome
  by_cases hid : id' = id
  · subst hid
    obtain rfl := hcall _ hsome
    exact ⟨result, calls_setCall_self ..⟩
  · rw [calls_setCall_of_ne hid]
    exact ⟨result', hsome⟩

theorem Tracked.mono (ht : Tracked w h) (hextends : Extends w w')
    (hqueue : ∀ cmd ∈ w'.queue, cmd ∈ w.queue ∨ Registered w' cmd)
    (hresults : ∀ id command result, w'.calls id = some ⟨command, some result⟩ →
      w.calls id = some ⟨command, some result⟩ ∨ Abandoned result) : Tracked w' h where
  queue cmd hcmd := by
    rcases hqueue cmd hcmd with hold | hnew
    · exact (ht.queue cmd hold).mono hextends
    · exact hnew
  received cmd hcmd := (ht.received cmd hcmd).mono hextends
  results id command result hcall := by
    rcases hresults id command result hcall with hold | hnew
    · exact ht.results id command result hold
    · exact .inl hnew

theorem Tracked.setCall (ht : Tracked w h) {id : Nat} {command : ControlCommand}
    {result : Except Error Unit} (hcall : ∀ call, w.calls id = some call → call.command = command)
    (hresult : Abandoned result ∨ ⟨.send id result, ()⟩ ∈ h) :
    Tracked (w.setCall id command (some result)) h where
  queue cmd hcmd := (ht.queue cmd hcmd).mono (extends_setCall hcall)
  received cmd hcmd := (ht.received cmd hcmd).mono (extends_setCall hcall)
  results id' command' result' hsome := by
    by_cases hid : id' = id
    · subst hid
      rw [calls_setCall_self, Option.some.injEq, Call.mk.injEq, Option.some.injEq] at hsome
      rw [← hsome.2]
      exact hresult
    · rw [calls_setCall_of_ne hid] at hsome
      exact ht.results id' command' result' hsome

theorem Tracked.env (ht : Tracked w h) (he : Env w w') : Tracked w' h := by
  cases he with
  | call id cmd hnone hwf =>
    have hextends : Extends w (w.setCall id cmd none) :=
      extends_setCall fun call hcall => by rw [hnone] at hcall; cases hcall
    refine ht.mono hextends (fun c hc => ?_) fun id' command result hsome => ?_
    · refine (List.mem_append.mp hc).imp_right fun hnew => ?_
      obtain rfl := List.mem_singleton.mp hnew
      refine ⟨hwf, fun id' hid => ?_⟩
      obtain rfl := Option.some.inj hid
      exact ⟨none, calls_setCall_self ..⟩
    · by_cases hid : id' = id
      · subst hid
        have hself : (w.setCall id' cmd none).calls id' = some ⟨cmd, none⟩ :=
          calls_setCall_self ..
        rw [hself] at hsome
        cases hsome
      · left
        rw [← hsome]
        exact (calls_setCall_of_ne hid cmd none).symm
  | refuse id cmd result hnone hresult =>
    exact ht.setCall (fun call hcall => by rw [hnone] at hcall; cases hcall) (.inl hresult)
  | giveUp id cmd result hwaiting hresult =>
    refine ht.setCall (fun call hcall => ?_) (.inl hresult)
    obtain rfl := Option.some.inj (hwaiting.symm.trans hcall)
    rfl
  | notify cmd hcmd =>
    refine ht.mono (extends_refl _) (fun c hc => ?_) fun id command result hsome => .inl hsome
    refine (List.mem_append.mp hc).imp_right fun hnew => ?_
    obtain rfl := List.mem_singleton.mp hnew
    refine ⟨?_, fun id hid => by cases hid⟩
    rcases hcmd with rfl | rfl
    · exact ProcessControl.wellFormed_nop
    · exact ⟨fun _ ht => absurd ht List.not_mem_nil, List.forall_mem_singleton.mpr (by decide)⟩

theorem Tracked.snoc (ht : Tracked w h) {e : ClientEvent}
    (hreceived : ∀ cmd, ⟨.recv, some cmd⟩ = e → Registered w cmd) : Tracked w (h ++ [e]) where
  queue := ht.queue
  received cmd hcmd := by
    rcases List.mem_append.mp hcmd with hold | hnew
    · exact ht.received cmd hold
    · exact hreceived cmd (List.mem_singleton.mp hnew)
  results id command result hsome :=
    (ht.results id command result hsome).imp_right (List.mem_append_left _)

theorem Tracked.exec (ht : Tracked w h) {e : ClientEvent} (he : ClientExec w e.op e.resp w') :
    Tracked w' (h ++ [e]) := by
  obtain ⟨o, r⟩ := e
  cases he with
  | recv cmd queue hqueue =>
    have hcmd : Registered w cmd := ht.queue cmd (by rw [hqueue]; exact List.mem_cons_self ..)
    have hnext : Tracked w (h ++ [⟨.recv, some cmd⟩]) := ht.snoc fun cmd' heq => by
      cases heq
      exact hcmd
    refine hnext.mono (fun _ _ result hcall => ⟨result, hcall⟩) (fun c hc => .inl ?_)
      fun _ _ _ hsome => .inl hsome
    rw [hqueue]
    exact List.mem_cons_of_mem _ hc
  | closed => exact ht.snoc fun cmd heq => by cases heq
  | early b => exact ht.snoc fun cmd heq => by cases heq
  | write buf r => exact ht.snoc fun cmd heq => by cases heq
  | read n r hexact => exact ht.snoc fun cmd heq => by cases heq
  | send id result =>
    have hnext : Tracked w (h ++ [⟨.send id result, ()⟩]) :=
      ht.snoc fun cmd heq => by cases heq
    unfold Calls.tell
    split
    · next command hwaiting =>
      refine hnext.setCall (fun call hcall => ?_)
        (.inr (List.mem_append_right _ (List.mem_singleton_self _)))
      obtain rfl := Option.some.inj (hwaiting.symm.trans hcall)
      rfl
    · exact hnext

end

variable {cfg : Config} {client : ServerClient} {acl : Acl} {s s' : Session}

theorem failStop_client : clientSide.FailStop :=
  ⟨ControlStream.stopsOn_turn, ControlStream.take_of_broke⟩

theorem failStop_server (cfg : Config) (client : ServerClient) (acl : Acl) :
    (serverSide cfg client acl).FailStop :=
  ⟨ProcessControl.stopsOn_processCommand cfg client acl, ProcessControl.take_of_broke⟩

theorem Tracked.step (ht : Tracked s.world s.left.history)
    (hs : Duplex.Step clientSide (serverSide cfg client acl) Env s s') :
    Tracked s'.world s'.left.history := by
  cases hs with
  | left e left world unread more hs hw hm =>
    dsimp only
    rw [hs.history_eq]
    exact ht.exec hw
  | right e right world unread more hs hw hm =>
    obtain ⟨rfl, _⟩ := hw
    exact ht
  | leftAgain h =>
    dsimp only
    rw [Party.history_again]
    exact ht
  | rightAgain h => exact ht
  | env world h => exact ht.env h

theorem tracked_of_reachable (h : Reachable cfg client acl s) :
    Tracked s.world s.left.history := by
  apply Duplex.Reachable.invariant ?_ (fun _ _ ht hs => ht.step hs) h
  rintro _ rfl
  exact ⟨fun _ hc => absurd hc List.not_mem_nil, fun _ hc => absurd hc List.not_mem_nil,
    fun _ _ _ hcall => by cases hcall⟩

theorem exact_of_clientExec {w w' : Calls} {o : ClientOp} {r : o.Resp}
    (h : ClientExec w o r w') : ControlStream.Exact o r := by
  cases h with
  | read n r hexact => exact hexact
  | _ => trivial

abbrev ProperSession (cfg : Config) (client : ServerClient) (acl : Acl) (s : Session) : Prop :=
  Duplex.Proper clientSide (serverSide cfg client acl) s

section
variable (hp : ProperSession cfg client acl s)
include hp

theorem exact_client {t : List ClientEvent} (ht : t ∈ s.left.turns) :
    ∀ e ∈ t, ControlStream.Exact e.op e.resp := by
  intro e he
  obtain ⟨w, w', hexec⟩ := hp.left.exec e (List.mem_flatten.mpr ⟨t, ht, he⟩)
  exact exact_of_clientExec hexec

theorem exact_server {t : List ServerEvent} (ht : t ∈ s.right.turns) :
    ∀ e ∈ t, ProcessControl.Exact e.op e.resp := by
  intro e he
  obtain ⟨w, w', hexec⟩ := hp.right.exec e (List.mem_flatten.mpr ⟨t, ht, he⟩)
  exact hexec.2

theorem run_server {t : List ServerEvent} (ht : t ∈ s.right.turns) :
    ∃ q, Prog.Run (processCommand cfg client acl) t q := by
  rcases List.mem_append.mp ht with hold | hnew
  · exact ⟨_, hp.right.finished t hold⟩
  · obtain rfl := List.mem_singleton.mp hnew
    exact ⟨_, hp.right.current⟩

theorem kept_client {t : List ClientEvent} (ht : t ∈ s.left.turns) :
    (ControlStream.trail t).Kept := by
  have hexact := exact_client hp ht
  rcases List.mem_append.mp ht with hold | hnew
  · exact ControlStream.kept_trail (hp.left.finished t hold) hexact
  · obtain rfl := List.mem_singleton.mp hnew
    exact ControlStream.kept_trail hp.left.current hexact

theorem asks_client : controlProtocol.Asks (ControlStream.rounds s.left.turns) := by
  apply ControlStream.asks_rounds
  · intro t ht
    have hmem : t ∈ s.left.turns := List.mem_append_left _ ht
    exact ⟨kept_client hp hmem,
      ControlStream.over_trail (hp.left.finished t ht) (exact_client hp hmem)⟩
  · exact kept_client hp (List.mem_append_right _ (List.mem_singleton_self _))

theorem taken_finished {t : List ServerEvent} (ht : t ∈ s.right.finished) :
    ProcessControl.port.taken t ≠ [] := by
  intro hnone
  have hmem : t ∈ s.right.turns := List.mem_append_left _ ht
  exact (ProcessControl.ended_of_idle (hp.right.finished t ht) (exact_server hp hmem) hnone).2.2
    none rfl

theorem paired_session
    (hwf : ∀ round ∈ ControlStream.rounds s.left.turns,
      round.request.controlCommand.WellFormed) :
    controlProtocol.Paired (ProcessControl.view cfg client acl) (ProcessControl.Executes cfg client acl)
      (ControlStream.rounds s.left.turns) s.right.turns := by
  obtain ⟨hoffered, htaken⟩ := ControlStream.flatMap_rounds fun t ht => kept_client hp ht
  apply (asks_client hp).paired
  · intro round hround input t ht
    obtain ⟨q, hr⟩ := run_server hp ht
    exact ProcessControl.serves (hwf round hround) hr (exact_server hp ht)
  · exact fun t ht => ⟨none, hp.right.finished t ht⟩
  · exact fun t ht => taken_finished hp ht
  · have hflow := hp.toRight.taken.trans hp.toRight.written
    rw [hoffered]
    change s.right.turns.flatMap ProcessControl.port.taken <+: _
    rw [← ProcessControl.port.taken_flatten, ← ControlStream.port.offered_flatten]
    exact hflow
  · have hflow := hp.toLeft.taken.trans hp.toLeft.written
    rw [htaken]
    change _ <+: s.right.turns.flatMap ProcessControl.port.offered
    rw [← ProcessControl.port.offered_flatten, ← ControlStream.port.taken_flatten]
    exact hflow

theorem registered_round (ht : Tracked s.world s.left.history) {round : Round Command UInt8}
    (hround : round ∈ ControlStream.rounds s.left.turns) : Registered s.world round.request := by
  obtain ⟨t, hmem, heq⟩ := List.mem_filterMap.mp hround
  apply ht.received
  exact List.mem_flatten.mpr ⟨t, hmem, ControlStream.recv_of_round (kept_client hp hmem) heq⟩

theorem acts_of_finished
    (hpaired : controlProtocol.Paired (ProcessControl.view cfg client acl)
      (ProcessControl.Executes cfg client acl) (ControlStream.rounds s.left.turns) s.right.turns)
    {t : List ServerEvent} (ht : t ∈ s.right.finished) : acts t = true := by
  obtain ⟨cmd, hfinished⟩ := hpaired.finished_of_done (List.mem_append_left _ ht)
    ⟨none, hp.right.finished t ht⟩ (taken_finished hp ht)
  have hne : ProcessControl.port.offered t ≠ [] := ControlCommand.ne_nil_of_finished hfinished
  unfold acts
  rw [List.isEmpty_eq_false_iff.mpr hne]
  rfl

theorem acts_eq_false {t : List ServerEvent} (ht : t ∈ s.right.turns)
    (hidle : ProcessControl.port.taken t = []) : acts t = false := by
  obtain ⟨q, hr⟩ := run_server hp ht
  obtain ⟨hoffered, heffects, _⟩ := ProcessControl.ended_of_idle hr (exact_server hp ht) hidle
  unfold acts
  rw [hoffered, List.any_eq_false.mpr fun e he => by simp [heffects e he]]
  rfl

end

theorem executed_getElem? {finished : List (List ServerEvent)} {last : List ServerEvent}
    (hfinished : ∀ t ∈ finished, acts t = true) {i : Nat} {t : List ServerEvent}
    (ht : (finished ++ [last])[i]? = some t) (hacts : acts t = true) :
    ((finished ++ [last]).filter acts)[i]? = some t := by
  rw [List.filter_append, List.filter_eq_self.mpr hfinished]
  rcases Nat.lt_or_ge i finished.length with hlt | hge
  · rw [List.getElem?_append_left hlt] at ht ⊢
    exact ht
  · rw [List.getElem?_append_right hge] at ht ⊢
    obtain rfl := List.mem_singleton.mp (List.mem_of_getElem? ht)
    rw [List.filter_cons_of_pos hacts]
    exact ht

theorem getLast?_of_last {replies : Bytes}
    (h : (if replies.getLastD 0 = responseOk then .ok ()
      else .error (ControlStream.replyError (replies.getLastD 0)) : Except Error Unit) = .ok ()) :
    replies.getLast? = some responseOk := by
  split_ifs at h with hok
  rw [List.getLastD_eq_getLast?] at hok
  cases hlast : replies.getLast? with
  | none =>
    rw [hlast] at hok
    exact absurd hok (by decide)
  | some code =>
    rw [hlast] at hok
    exact congrArg some hok

theorem succeeded_of_outcome {cmd : ControlCommand} {replies : Bytes}
    (h : cmd.outcome replies = .ok ()) : Succeeded cmd replies := by
  cases cmd with
  | publishRepl priority topic message timestamp =>
    rcases replies with _ | ⟨code, _ | ⟨second, replies⟩⟩
    · exact .inl (getLast?_of_last h)
    · have houtcome : (if code = responseNotRequired then .ok ()
        else .error (ControlStream.replyError code) : Except Error Unit) = .ok () := h
      split_ifs at houtcome with hcode
      rw [hcode]
      exact .inr ⟨rfl, _, _, _, _, rfl⟩
    · exact .inl (getLast?_of_last h)
  | _ => exact .inl (getLast?_of_last h)

theorem run_processControl (h : Reachable cfg client acl s) :
    ∃ q, Prog.Run (processControl cfg client acl s.right.turns.length) s.right.history q := by
  have hp : ProperSession cfg client acl s :=
    Duplex.Reachable.proper failStop_client (failStop_server cfg client acl) h
  have hlength : s.right.finished.length < s.right.turns.length := by
    unfold Party.turns
    rw [List.length_append]
    exact Nat.lt_succ_self _
  exact hp.right.toSound.run_loop hlength

/-- Whatever is queued, whoever gives up, whatever is answered and wherever the stream breaks: what
`process_control` executed are the first commands sent, in order and as a whole, and no caller gets the
reply to another command. -/
theorem control_session_lockstep (h : Reachable cfg client acl s) : Lockstep cfg client acl s := by
  have hp : ProperSession cfg client acl s :=
    Duplex.Reachable.proper failStop_client (failStop_server cfg client acl) h
  have ht := tracked_of_reachable h
  have hpaired := paired_session hp fun round hround => (registered_round hp ht hround).1
  have hacts : ∀ t ∈ s.right.finished, acts t = true := fun t hmem =>
    acts_of_finished hp hpaired hmem
  have hcurrent : s.right.current ∈ s.right.turns :=
    List.mem_append_right _ (List.mem_singleton_self _)
  have hresults : ∀ id command result, s.world.calls id = some ⟨command, some result⟩ →
      Abandoned result ∨ ∃ (i : Nat) (turn : List ServerEvent),
        (sent s)[i]? = some ⟨command, some id⟩ ∧ (executed s)[i]? = some turn ∧
        result = command.outcome (ProcessControl.port.offered turn) := by
    intro id command result hcall
    refine (ht.results id command result hcall).imp_right fun hsend => ?_
    obtain ⟨t, hmem, he⟩ := List.mem_flatten.mp hsend
    obtain ⟨r, hround, hch, hfinished, houtcome⟩ :=
      ControlStream.round_of_send (kept_client hp hmem) he
    have hrmem : r ∈ ControlStream.rounds s.left.turns :=
      List.mem_filterMap.mpr ⟨t, hmem, hround⟩
    obtain ⟨i, hi⟩ := List.mem_iff_getElem?.mp hrmem
    obtain ⟨_, hcaller⟩ := (registered_round hp ht hrmem).2 id hch
    obtain ⟨rfl, _⟩ := Call.mk.inj (Option.some.inj (hcall.symm.trans hcaller))
    obtain ⟨turn, hturn⟩ := hpaired.exists_turn hi (ControlCommand.ne_nil_of_finished hfinished)
    obtain ⟨_, hpart, hreplies⟩ := hpaired.executes hi hturn
    have heq : r.taken = ProcessControl.port.offered turn :=
      hpart.eq_of_finished hfinished hreplies
    have hturnActs : acts turn = true := by
      unfold acts
      rw [← heq, List.isEmpty_eq_false_iff.mpr (ControlCommand.ne_nil_of_finished hfinished)]
      rfl
    refine ⟨i, turn, ?_, executed_getElem? hacts hturn hturnActs, ?_⟩
    · unfold sent
      rw [List.getElem?_map, hi, ← hch]
      rfl
    · rw [houtcome, heq]
  refine ⟨?_, hp.toRight.taken, hresults, fun id command hcall => ?_⟩
  · exact hpaired.exists_forall₂ (acts_eq_false hp hcurrent) hacts
  · rcases hresults id command (.ok ()) hcall with (habandoned | ⟨_, habandoned⟩) | hserved
    · cases habandoned
    · cases habandoned
    · obtain ⟨i, turn, hsent, hturn, houtcome⟩ := hserved
      exact ⟨i, turn, hsent, hturn, succeeded_of_outcome houtcome.symm⟩

theorem control_session_lockstep_sample : ∃ s : Session,
    Reachable sampleConfig sampleClient Acl.newFull s ∧
      s.world.calls 0 = some ⟨.subscribe ['a'], some (.ok ())⟩ ∧
      s.world.calls 1 = some ⟨.unsubscribe ['a'], some (.ok ())⟩ ∧
      sent s = [⟨.subscribe ['a'], some 0⟩, ⟨.unsubscribe ['a'], some 1⟩] ∧
      (executed s).length = 2 ∧
      Lockstep sampleConfig sampleClient Acl.newFull s := by
  have hsubscribe : (ControlCommand.subscribe ['a']).WellFormed :=
    ⟨List.forall_mem_singleton.mpr (by decide), List.forall_mem_singleton.mpr (by decide)⟩
  have hunsubscribe : (ControlCommand.unsubscribe ['a']).WellFormed :=
    ⟨List.forall_mem_singleton.mpr (by decide), List.forall_mem_singleton.mpr (by decide)⟩
  have hinit : Reachable sampleConfig sampleClient Acl.newFull _ := .init rfl
  have hcall := Duplex.Reachable.step hinit (.env _ (.call 0 (.subscribe ['a']) rfl hsubscribe))
  have hcalls := Duplex.Reachable.step hcall (.env _ (.call 1 (.unsubscribe ['a']) rfl hunsubscribe))
  have hrecv := hcalls.left rfl (some ⟨.subscribe ['a'], some 0⟩) (.recv _ _ rfl) id
    (List.nil_append _).symm
  have hwrite := hrecv.left rfl (.ok ()) (.write _ _) id (List.nil_append _).symm
  have hop := hwrite.right rfl (.ok [2]) ⟨rfl, fun b hb => by cases hb; rfl⟩ id
    (show [2, 1, 0, 0, 0, 97] = [2] ++ [1, 0, 0, 0, 97] from rfl)
  have hlen := hop.right rfl (.ok [1, 0, 0, 0]) ⟨rfl, fun b hb => by cases hb; rfl⟩ id
    (show [1, 0, 0, 0, 97] = [1, 0, 0, 0] ++ [97] from rfl)
  have htopic := hlen.right rfl (.ok [97]) ⟨rfl, fun b hb => by cases hb; rfl⟩ id
    (show [97] = [97] ++ [] from rfl)
  have heffect := htopic.right rfl responseOk ⟨rfl, trivial⟩ id (List.nil_append _).symm
  have hreply := heffect.right rfl (.ok ()) ⟨rfl, trivial⟩ id (List.nil_append _).symm
  have hread := hreply.left rfl (.ok [responseOk]) (.read 1 _ fun b hb => by cases hb; rfl) id
    (show [responseOk] = [responseOk] ++ [] from rfl)
  have hsend := hread.left rfl () (.send 0 (.ok ())) id (List.nil_append _).symm
  have hclient := Duplex.Reachable.step hsend (.leftAgain rfl)
  have hserver := Duplex.Reachable.step hclient (.rightAgain rfl)
  have hrecv := hserver.left rfl (some ⟨.unsubscribe ['a'], some 1⟩) (.recv _ _ rfl) id
    (List.nil_append _).symm
  have hwrite := hrecv.left rfl (.ok ()) (.write _ _) id (List.nil_append _).symm
  have hop := hwrite.right rfl (.ok [3]) ⟨rfl, fun b hb => by cases hb; rfl⟩ id
    (show [3, 1, 0, 0, 0, 97] = [3] ++ [1, 0, 0, 0, 97] from rfl)
  have hlen := hop.right rfl (.ok [1, 0, 0, 0]) ⟨rfl, fun b hb => by cases hb; rfl⟩ id
    (show [1, 0, 0, 0, 97] = [1, 0, 0, 0] ++ [97] from rfl)
  have htopic := hlen.right rfl (.ok [97]) ⟨rfl, fun b hb => by cases hb; rfl⟩ id
    (show [97] = [97] ++ [] from rfl)
  have heffect := htopic.right rfl true ⟨rfl, trivial⟩ id (List.nil_append _).symm
  have hreply := heffect.right rfl (.ok ()) ⟨rfl, trivial⟩ id (List.nil_append _).symm
  have hread := hreply.left rfl (.ok [responseOk]) (.read 1 _ fun b hb => by cases hb; rfl) id
    (show [responseOk] = [responseOk] ++ [] from rfl)
  have hsend := hread.left rfl () (.send 1 (.ok ())) id (List.nil_append _).symm
  exact ⟨_, hsend, rfl, rfl, rfl, rfl, control_session_lockstep hsend⟩

end Psrt.ControlSession

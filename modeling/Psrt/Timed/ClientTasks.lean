import Psrt.Client.ControlStream
import Psrt.Lib.Heartbeat

/-! The control task of the client with its clock: `run_control_stream` of `client.rs`, how long a command
may take, and how long the task may keep silent. -/

namespace Psrt.Timed
open Wire Interaction ClockProg

abbrev TimedClientProg (α : Type) := ClockProg ClientOp ClientOp.Resp Error α

abbrev TimedClientEvent := ClockEvent ClientOp ClientOp.Resp

namespace ControlStream

def write (buf : Bytes) (timeout : Nat) : TimedClientProg Unit :=
  (within (some timeout) (ClientOp.write buf)).bind .ofExcept

def readCode (timeout : Nat) : TimedClientProg UInt8 :=
  (within (some timeout) (ClientOp.read 1)).bind fun r => (Prog.ofExcept r).bind fun buf =>
    .ret (buf.headD 0)

def offStream {α : Type} (p : ClientProg α) : TimedClientProg α := limited (fun _ => none) p

def processReply (timeout opStart : Nat) (cmd : Command) : TimedClientProg Unit := do
  let limit ← reduceTimeout timeout opStart
  let code ← readCode limit
  if code = responseOk then offStream (Psrt.ControlStream.respond cmd (.ok ()))
  else offStream (Psrt.ControlStream.handleErr cmd code)

/-- The writes and reads of a command share the timeout; the first write has all of it. -/
def exchange (timeout opStart : Nat) (cmd : Command) : TimedClientProg Unit := do
  write cmd.controlCommand.asBytes timeout
  match cmd.controlCommand with
  | .publish _ _ message => do
    let limit ← reduceTimeout timeout opStart
    write message limit
    processReply timeout opStart cmd
  | .publishRepl priority _ message timestamp => do
    let limit ← reduceTimeout timeout opStart
    let code ← readCode limit
    if code = responseOkWaiting then do
      let limit ← reduceTimeout timeout opStart
      write (Psrt.ControlStream.msgBuf priority timestamp message) limit
      let limit ← reduceTimeout timeout opStart
      write message limit
      processReply timeout opStart cmd
    else if code = responseNotRequired then offStream (Psrt.ControlStream.respond cmd (.ok ()))
    else offStream (Psrt.ControlStream.handleErr cmd code)
  | _ => processReply timeout opStart cmd

def execute (timeout : Nat) (cmd : Command) : TimedClientProg (Option Nat) := do
  let opStart ← now
  exchange timeout opStart cmd
  .ret (some opStart)

def turn (timeout beaconInterval opStart : Nat) : TimedClientProg (Option Nat) :=
  (within none ClientOp.recv).bind fun
    | none => .ret none
    | some cmd =>
      if cmd.controlCommand = .nop then now.bind fun t =>
        if t - opStart < beaconInterval then .ret (some opStart) else execute timeout cmd
      else execute timeout cmd

def runControlStream (timeout beaconInterval turns : Nat) : TimedClientProg Unit :=
  now.bind fun opStart => Prog.loopFrom (turn timeout beaconInterval) turns opStart

def readsEarly : ClientOp → Bool
  | .early => true
  | _ => false

theorem erases_write (buf : Bytes) (timeout : Nat) :
    ErasesUpTo readsEarly Eq (write buf timeout) (Psrt.ControlStream.write buf) :=
  .within rfl fun r => .ofExcept r.2

theorem erases_readCode (timeout : Nat) :
    ErasesUpTo readsEarly Eq (readCode timeout) Psrt.ControlStream.readCode :=
  .within rfl fun r => (ErasesUpTo.ofExcept r.2).bind fun _ _ hbuf => .ret (hbuf ▸ rfl)

theorem erases_respond (cmd : Command) (result : Except Error Unit) :
    ErasesUpTo readsEarly Eq (offStream (Psrt.ControlStream.respond cmd result))
      (Psrt.ControlStream.respond cmd result) := by
  unfold Psrt.ControlStream.respond
  cases cmd.responseChannel with
  | none => exact .ret rfl
  | some ch => exact .within rfl fun _ => .ret rfl

theorem erases_handleErr (cmd : Command) (code : UInt8) :
    ErasesUpTo readsEarly Eq (offStream (Psrt.ControlStream.handleErr cmd code))
      (Psrt.ControlStream.handleErr cmd code) := by
  unfold Psrt.ControlStream.handleErr offStream
  rw [Prog.bind_eq, limited_bind]
  refine (erases_respond cmd _).bind fun _ _ _ => ?_
  split_ifs
  · exact .throw _
  · exact .ret rfl

theorem erases_processReply (timeout opStart : Nat) (cmd : Command) :
    ErasesUpTo readsEarly Eq (processReply timeout opStart cmd)
      (Psrt.ControlStream.processReply cmd) := by
  refine .reduce fun limit => (erases_readCode limit).bind fun code _ hcode => ?_
  subst hcode
  split_ifs
  · exact erases_respond cmd _
  · exact erases_handleErr cmd code

theorem erases_exchange (timeout opStart : Nat) (cmd : Command) :
    ErasesUpTo readsEarly Eq (exchange timeout opStart cmd) (Psrt.ControlStream.exchange cmd) := by
  refine (erases_write _ timeout).bind fun _ _ _ => ?_
  cases cmd.controlCommand with
  | publish priority topic message =>
    exact .reduce fun limit => (erases_write message limit).bind fun _ _ _ =>
      erases_processReply timeout opStart cmd
  | publishRepl priority topic message timestamp =>
    refine .reduce fun limit => (erases_readCode limit).bind fun code _ hcode => ?_
    subst hcode
    split_ifs
    · exact .reduce fun limit => (erases_write _ limit).bind fun _ _ _ => .reduce fun limit =>
        (erases_write message limit).bind fun _ _ _ => erases_processReply timeout opStart cmd
    · exact erases_respond cmd _
    · exact erases_handleErr cmd code
  | _ => exact erases_processReply timeout opStart cmd

theorem erases_execute (timeout : Nat) (cmd : Command) :
    ErasesUpTo readsEarly Goes (execute timeout cmd)
      ((Psrt.ControlStream.exchange cmd).bind fun _ => .ret none) :=
  .now fun opStart => (erases_exchange timeout opStart cmd).bind fun _ _ _ => .ret rfl

theorem erases_runControlStream (timeout beaconInterval turns : Nat) :
    ErasesUpTo readsEarly Eq (runControlStream timeout beaconInterval turns)
      (Prog.loop Psrt.ControlStream.turn turns) := by
  refine .now fun start => ErasesUpTo.loopFrom (fun opStart => .within rfl fun r => ?_) turns start
  obtain ⟨duration, r⟩ := r
  cases r with
  | none => exact .ret rfl
  | some cmd =>
    simp only [Prog.ret_bind]
    split_ifs
    · -- the answer to `early` is whether the interval has not elapsed yet
      refine .reading rfl (fun t => decide (t - opStart < beaconInterval)) fun t => ?_
      by_cases hearly : t - opStart < beaconInterval
      · simp only [Prog.ret_bind, hearly, if_true, decide_true]
        exact .ret rfl
      · simp only [Prog.ret_bind, hearly, if_false, decide_false, Bool.false_eq_true]
        exact erases_execute timeout cmd
    · exact erases_execute timeout cmd

section
variable {start base bound bound' timeout : Nat}

theorem takes_write (buf : Bytes) (limit : Nat) : Takes limit (write buf limit) :=
  takes_of_meets fun _ _ =>
    ((takes_within limit _).meets (Nat.zero_add limit).le).bind (fun r => meets_ofExcept r) le_rfl

theorem takes_readCode (limit : Nat) : Takes limit (readCode limit) :=
  takes_of_meets fun _ _ => ((takes_within limit _).meets (Nat.zero_add limit).le).bind
    (fun r => (meets_ofExcept r).bind (fun _ => meets_ret _) le_rfl) le_rfl

theorem meets_offStream {α : Type} (p : ClientProg α) : Meets start base bound bound (offStream p) := by
  have hcalls : ∀ p : ClientProg α, p.Calls fun _ => True := by
    intro p
    induction p with
    | ret a => trivial
    | throw e => trivial
    | call o k ih => exact ⟨trivial, ih⟩
    | hang => trivial
  exact meets_limited_of_calls ((hcalls p).mono fun _ _ => rfl)

theorem meets_rest {α β : Type} {f : Nat → TimedClientProg α} {g : α → TimedClientProg β}
    (hf : ∀ limit, Takes limit (f limit)) (hg : ∀ a, Meets start base timeout timeout (g a)) :
    Meets start base timeout timeout
      ((reduceTimeout timeout start).bind fun limit => (f limit).bind g) := by
  rw [← Prog.bind_assoc]
  exact (meets_reduce hf le_rfl).bind hg le_rfl

theorem meets_processReply (cmd : Command) :
    Meets start base timeout timeout (processReply timeout start cmd) := by
  refine meets_rest takes_readCode fun code => ?_
  split_ifs
  · exact meets_offStream _
  · exact meets_offStream _

theorem takes_execute (timeout : Nat) (cmd : Command) : Takes timeout (execute timeout cmd) := by
  refine takes_now fun start base => ?_
  rw [Prog.bind_eq, exchange, Prog.bind_eq, Prog.bind_assoc]
  refine ((takes_write _ timeout).meets (Nat.zero_add timeout).le).bind (fun _ => ?_) le_rfl
  have hend : ∀ {p : TimedClientProg Unit}, Meets start base timeout timeout p →
      Meets start base timeout timeout (p.bind fun _ => .ret (some start)) :=
    fun hp => hp.bind (fun _ => meets_ret _) le_rfl
  refine hend ?_
  cases cmd.controlCommand with
  | publish priority topic message =>
    exact meets_rest (takes_write message) fun _ => meets_processReply cmd
  | publishRepl priority topic message timestamp =>
    refine meets_rest takes_readCode fun code => ?_
    split_ifs
    · exact meets_rest (takes_write _) fun _ => meets_rest (takes_write message) fun _ =>
        meets_processReply cmd
    · exact meets_offStream _
    · exact meets_offStream _
  | _ => exact meets_processReply cmd

theorem takes_turn (timeout beaconInterval opStart : Nat) :
    Takes timeout (turn timeout beaconInterval opStart) := by
  refine takes_of_meets fun start base => (meets_within_none _).bind (fun r => ?_) (Nat.zero_le _)
  have hexecute : ∀ cmd, Meets start base 0 timeout (execute timeout cmd) :=
    fun cmd => (takes_execute timeout cmd).meets (Nat.zero_add timeout).le
  cases r with
  | none => exact (meets_ret none).mono (Nat.zero_le _)
  | some cmd =>
    dsimp only
    split_ifs
    · have hnop : Takes timeout (now.bind fun t =>
          if t - opStart < beaconInterval then .ret (some opStart) else execute timeout cmd) := by
        refine takes_now fun t base => ?_
        split_ifs
        · exact (meets_ret _).mono (Nat.zero_le _)
        · exact (takes_execute timeout cmd).meets (Nat.zero_add timeout).le
      exact hnop.meets (Nat.zero_add timeout).le
    · exact hexecute cmd

end

def controlTempo (beaconInterval slack : Nat) : Tempo ClientOp ClientOp.Resp where
  isWrite
    | .write _ => true
    | _ => false
  awaits
    | .recv => true
    | _ => false
  isTick
    | .recv, some cmd => cmd.controlCommand = .nop
    | _, _ => false
  period := beaconInterval + slack
  slack := slack

/-- What the stream may be silent for; a command may wait for its reply as long as its timeout. -/
def commandSilence (timeout slack : Nat) : Nat := timeout + 9 * slack

section
variable {timeout beaconInterval slack opStart n : Nat} {s : Beat} {α : Type}

abbrev controlSilence (timeout beaconInterval slack : Nat) :
    Monitor (ClockOp ClientOp) (ClockOp.Answer ClientOp.Resp) Beat :=
  (controlTempo beaconInterval slack).silence (commandSilence timeout slack)

structure Busy (timeout slack opStart n : Nat) (s : Beat) : Prop where
  clock : s.clock ≤ opStart + timeout + n * slack
  wrote : opStart ≤ s.wrote
  started : opStart ≤ s.clock
  ticked : s.ticked ≤ opStart

theorem Busy.mono {n' : Nat} (h : Busy timeout slack opStart n s) (hle : n ≤ n') :
    Busy timeout slack opStart n' s :=
  ⟨h.clock.trans (Nat.add_le_add_left (Nat.mul_le_mul_right slack hle) _), h.wrote, h.started,
    h.ticked⟩

theorem Busy.room (h : Busy timeout slack opStart n s) (hn : n < 9) :
    s.clock + slack ≤ s.wrote + commandSilence timeout slack := by
  obtain ⟨hclock, hwrote, -, -⟩ := h
  have hmul := Nat.mul_le_mul_right slack (show n + 1 ≤ 9 by omega)
  rw [Nat.succ_mul] at hmul
  unfold commandSilence
  omega

theorem Busy.wp_write (h : Busy timeout slack opStart n s) (hn : n < 9) {buf : Bytes}
    {g : Unit → TimedClientProg α} {Q : α → Beat → Prop}
    (hg : ∀ s', Busy timeout slack opStart (n + 1) s' →
      (controlSilence timeout beaconInterval slack).wp (g ()) Q (fun _ _ => True) s') :
    (controlSilence timeout beaconInterval slack).wp
      ((reduceTimeout timeout opStart).bind fun limit => (write buf limit).bind g) Q
      (fun _ _ => True) s := by
  refine Tempo.wp_now (h.room hn) fun t hle hslack => ?_
  refine Tempo.wp_write rfl (fun _ => rfl) fun r t' hle' hlimit => ?_
  obtain ⟨hclock, hwrote, hstarted, hticked⟩ := h
  have hslack : t ≤ s.clock + slack := hslack
  have hle' : t ≤ t' := hle'
  have hend : t' ≤ opStart + timeout + (n + 1) * slack := by
    rw [Nat.succ_mul]
    simp only at hlimit
    split_ifs at hlimit <;> omega
  obtain ⟨duration, r⟩ := r
  cases r with
  | error e => trivial
  | ok u => exact hg _ ⟨hend, by simp only; omega, by simp only; omega, hticked⟩

theorem Busy.wp_readCode (h : Busy timeout slack opStart n s) (hn : n < 9)
    {g : UInt8 → TimedClientProg α} {Q : α → Beat → Prop}
    (hg : ∀ code s', Busy timeout slack opStart (n + 1) s' →
      (controlSilence timeout beaconInterval slack).wp (g code) Q (fun _ _ => True) s') :
    (controlSilence timeout beaconInterval slack).wp
      ((reduceTimeout timeout opStart).bind fun limit => (readCode limit).bind g) Q
      (fun _ _ => True) s := by
  have hroom := h.room hn
  obtain ⟨hclock, hwrote, hstarted, hticked⟩ := h
  have hmul := Nat.mul_le_mul_right slack (show n + 1 ≤ 9 by omega)
  rw [Nat.succ_mul] at hmul
  refine Tempo.wp_now hroom fun t hle hslack => ?_
  have hslack : t ≤ s.clock + slack := hslack
  refine Tempo.wp_read rfl (fun _ => rfl) ?_ fun r t' hle' hlimit => ?_
  · unfold commandSilence
    simp only
    split_ifs <;> omega
  · have hle' : t ≤ t' := hle'
    have hend : t' ≤ opStart + timeout + (n + 1) * slack := by
      rw [Nat.succ_mul]
      simp only at hlimit
      split_ifs at hlimit <;> omega
    obtain ⟨duration, r⟩ := r
    cases r with
    | error e => trivial
    | ok buf => exact hg _ _ ⟨hend, hwrote, by simp only; omega, hticked⟩

theorem Busy.wp_respond (h : Busy timeout slack opStart n s) (hn : n < 9) (cmd : Command)
    (result : Except Error Unit) :
    (controlSilence timeout beaconInterval slack).wp
      (offStream (Psrt.ControlStream.respond cmd result))
      (fun _ s' => Busy timeout slack opStart (n + 1) s') (fun _ _ => True) s := by
  unfold Psrt.ControlStream.respond
  cases cmd.responseChannel with
  | none => exact h.mono (Nat.le_succ n)
  | some ch =>
    refine Tempo.wp_other rfl (fun _ => rfl) rfl (h.room hn) fun r t hle hslack => ?_
    obtain ⟨hclock, hwrote, hstarted, hticked⟩ := h
    have hslack : t ≤ s.clock + slack := hslack
    refine ⟨?_, hwrote, hstarted.trans hle, hticked⟩
    rw [Nat.succ_mul]
    simp only
    omega

theorem Busy.wp_handleErr (h : Busy timeout slack opStart n s) (hn : n < 9) (cmd : Command)
    (code : UInt8) :
    (controlSilence timeout beaconInterval slack).wp
      (offStream (Psrt.ControlStream.handleErr cmd code))
      (fun _ s' => Busy timeout slack opStart (n + 1) s') (fun _ _ => True) s := by
  unfold Psrt.ControlStream.handleErr offStream
  rw [Prog.bind_eq, limited_bind, Monitor.wp_bind]
  refine Monitor.wp_mono (fun _ s' hs => ?_) (fun _ _ he => he) (h.wp_respond hn cmd _)
  split_ifs
  · trivial
  · exact hs

theorem Busy.wp_processReply (h : Busy timeout slack opStart n s) (hn : n < 8) (cmd : Command) :
    (controlSilence timeout beaconInterval slack).wp (processReply timeout opStart cmd)
      (fun _ s' => Busy timeout slack opStart (n + 2) s') (fun _ _ => True) s := by
  refine h.wp_readCode (by omega) fun code s' hs => ?_
  split_ifs
  · exact hs.wp_respond (by omega) cmd _
  · exact hs.wp_handleErr (by omega) cmd code

theorem wp_exchange (cmd : Command) (hclock : s.clock = opStart) (hticked : s.ticked ≤ opStart) :
    (controlSilence timeout beaconInterval slack).wp (exchange timeout opStart cmd)
      (fun _ s' => Busy timeout slack opStart 6 s') (fun _ _ => True) s := by
  refine Tempo.wp_write rfl (fun _ => rfl) fun r t hle hlimit => ?_
  obtain ⟨duration, r⟩ := r
  cases r with
  | error e => trivial
  | ok u =>
    have hle : opStart ≤ t := hclock ▸ hle
    have hbusy : Busy timeout slack opStart 0 ⟨t, t, s.ticked⟩ :=
      ⟨by simp only; omega, hle, hle, hticked⟩
    have hreply : ∀ {n : Nat} {s : Beat}, Busy timeout slack opStart n s → n ≤ 4 →
        (controlSilence timeout beaconInterval slack).wp (processReply timeout opStart cmd)
          (fun _ s' => Busy timeout slack opStart 6 s') (fun _ _ => True) s := fun hs hn =>
      Monitor.wp_mono (fun _ _ hd => hd.mono (by omega)) (fun _ _ he => he)
        (hs.wp_processReply (by omega) cmd)
    simp only [Prog.ofExcept_ok, Prog.ret_bind]
    cases cmd.controlCommand with
    | publish priority topic message =>
      exact hbusy.wp_write (by omega) fun s' hs => hreply hs (by omega)
    | publishRepl priority topic message timestamp =>
      refine hbusy.wp_readCode (by omega) fun code s₁ h₁ => ?_
      split_ifs
      · exact h₁.wp_write (by omega) fun s₂ h₂ => h₂.wp_write (by omega) fun s₃ h₃ =>
          hreply h₃ (by omega)
      · exact Monitor.wp_mono (fun _ _ hd => hd.mono (by omega)) (fun _ _ he => he)
          (h₁.wp_respond (by omega) cmd _)
      · exact Monitor.wp_mono (fun _ _ hd => hd.mono (by omega)) (fun _ _ he => he)
          (h₁.wp_handleErr (by omega) cmd code)
    | _ => exact hreply hbusy (by omega)

structure Quiet (timeout beaconInterval slack opStart : Nat) (s : Beat) : Prop where
  noted : opStart ≤ s.wrote + slack
  clock : s.clock ≤ opStart + timeout + 6 * slack
  ticked : s.ticked ≤ opStart + beaconInterval
  order : s.ticked ≤ s.clock

theorem wp_execute (cmd : Command) (hticked : s.ticked ≤ s.clock)
    (hclock : s.clock ≤ s.wrote + (timeout + 8 * slack)) :
    (controlSilence timeout beaconInterval slack).wp (execute timeout cmd)
      (fun r s' => ∀ opStart, r = some opStart → Quiet timeout beaconInterval slack opStart s')
      (fun _ _ => True) s := by
  have hroom : s.clock + slack ≤ s.wrote + commandSilence timeout slack := by
    unfold commandSilence
    omega
  refine Tempo.wp_now hroom fun opStart hle hslack => ?_
  rw [Prog.ret_bind, Prog.bind_eq, Monitor.wp_bind]
  refine Monitor.wp_mono (fun _ s' hs => ?_) (fun _ _ he => he)
    (wp_exchange cmd rfl (hticked.trans hle))
  intro opStart' heq
  obtain rfl := Option.some.inj heq
  exact ⟨hs.wrote.trans (Nat.le_add_right ..), hs.clock, hs.ticked.trans (Nat.le_add_right ..),
    hs.ticked.trans hs.started⟩

theorem wp_turn (htimeout : 2 * beaconInterval ≤ timeout)
    (h : Quiet timeout beaconInterval slack opStart s) :
    (controlSilence timeout beaconInterval slack).wp (turn timeout beaconInterval opStart)
      (fun r s' => ∀ opStart, r = some opStart → Quiet timeout beaconInterval slack opStart s')
      (fun _ _ => True) s := by
  obtain ⟨hnoted, hclock, hticked, horder⟩ := h
  refine Tempo.wp_await rfl rfl ?_ ?_ fun r t ticked hle hlimit htick => ?_
  · unfold commandSilence
    omega
  · simp only [controlTempo, commandSilence]
    omega
  · simp only [controlTempo] at hlimit
    obtain ⟨duration, r⟩ := r
    have horder' : ticked ≤ t := by omega
    cases r with
    | none => exact fun opStart' heq => absurd heq (Option.some_ne_none opStart').symm
    | some cmd =>
      simp only [Prog.ret_bind]
      split_ifs
      · refine Tempo.wp_now ?_ fun t' hle' hslack => ?_
        · simp only [controlTempo, commandSilence]
          omega
        · have hslack : t' ≤ t + slack := hslack
          have hle' : t ≤ t' := hle'
          simp only [Prog.ret_bind]
          split_ifs with hearly
          · intro opStart' heq
            obtain rfl := Option.some.inj heq
            exact ⟨hnoted, by simp only; omega, by simp only; omega, by simp only; omega⟩
          · exact wp_execute cmd (by simp only; omega) (by simp only; omega)
      · exact wp_execute cmd horder' (by simp only; omega)

end

/-- Whatever commands come and however slow the server is: the control task of a client never keeps silent
for more than its timeout and nine delays of its surroundings, two beacon intervals being in the timeout. -/
theorem control_stream_never_silent {timeout beaconInterval slack turns clock : Nat}
    (htimeout : 2 * beaconInterval ≤ timeout) {h : List TimedClientEvent} {q : TimedClientProg Unit}
    (hr : Prog.Run (runControlStream timeout beaconInterval turns) h q)
    (hpace : (controlTempo beaconInterval slack).KeepsPace clock h) :
    (controlTempo beaconInterval slack).silentFor clock h ≤ commandSilence timeout slack := by
  refine Tempo.silent_le (Q := fun _ _ => True) (E := fun _ _ => True) ?_ hr hpace
  refine Tempo.wp_now ?_ fun opStart hle hslack => ?_
  · simp only [controlTempo, commandSilence]
    omega
  · have hslack : opStart ≤ clock + slack := hslack
    have hle : clock ≤ opStart := hle
    exact Monitor.wp_loopFrom (I := Quiet timeout beaconInterval slack)
      (fun opStart s h => wp_turn htimeout h) turns
      ⟨hslack, by simp only; omega, by simp only; omega, hle⟩

end ControlStream

end Psrt.Timed

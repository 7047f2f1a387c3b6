import Psrt.Lib.Heartbeat
import Psrt.Server.DataStream

/-! The data task of the server with its clock: `handle_data_stream` of `server.rs`, how long a slow
subscriber may keep it waiting, and how long it may keep silent. -/

namespace Psrt.Timed
open Wire Interaction ClockProg

abbrev TimedDataProg (α : Type) := ClockProg DataOp DataOp.Resp DataStop α

abbrev TimedDataEvent := ClockEvent DataOp DataOp.Resp

def renew : TimedDataProg (Option Nat) := now.bind fun t => .ret (some t)

def writeEofIsOk (buf : Bytes) (timeout : Nat) (k : TimedDataProg (Option Nat)) :
    TimedDataProg (Option Nat) :=
  (within (some timeout) (DataOp.write buf)).bind fun
    | .ok () => k
    | .error e => if e.kind = .eof then .ret none else .throw (.error e)

def noLimit : DataOp → Option Nat := fun _ => none

/-- What the loop does with a received frame, `last` being the time of the last command; a result without
a time leaves the loop. -/
def writeMessage (latencyWarn : UInt32) (timeout beaconInterval last : Nat) (message : MessageFrame) :
    TimedDataProg (Option Nat) :=
  match message.frame with
  | [] => .throw .panic
  | first :: _ =>
    if first = opNop then now.bind fun t =>
      if t - last < beaconInterval then .ret (some last) else writeEofIsOk [opNop] timeout renew
    else now.bind fun opStart =>
      writeEofIsOk message.frame timeout <|
        match message.data with
        | some data => (reduceTimeout timeout opStart).bind fun limit =>
          writeEofIsOk data limit <|
            (limited noLimit (accountSent latencyWarn message)).bind fun _ => renew
        | none => (limited noLimit (accountSent latencyWarn message)).bind fun _ => renew

def handleDataStreamTurn (latencyWarn : UInt32) (timeout beaconInterval last : Nat) :
    TimedDataProg (Option Nat) :=
  (within none DataOp.recv).bind fun
    | none => .ret none
    | some message => writeMessage latencyWarn timeout beaconInterval last message

def handleDataStream (latencyWarn : UInt32) (timeout beaconInterval turns : Nat) :
    TimedDataProg Unit :=
  now.bind fun last =>
    Prog.loopFrom (handleDataStreamTurn latencyWarn timeout beaconInterval) turns last

def readsBeacon : DataOp → Bool
  | .beaconDue => true
  | _ => false

theorem erases_writeEofIsOk {buf : Bytes} {timeout : Nat} {k : TimedDataProg (Option Nat)}
    {k' : DataProg (Option Unit)} (h : ErasesUpTo readsBeacon Goes k k') :
    ErasesUpTo readsBeacon Goes (writeEofIsOk buf timeout k) (Psrt.writeEofIsOk buf k') := by
  refine .within rfl fun r => ?_
  obtain ⟨duration, r⟩ := r
  cases r with
  | ok u => exact h
  | error e =>
    simp only [Prog.ret_bind]
    split_ifs
    · exact .ret rfl
    · exact .throw _

theorem erases_renew : ErasesUpTo readsBeacon Goes renew (.ret none) := .now fun _ => .ret rfl

theorem erases_accountSent (latencyWarn : UInt32) (message : MessageFrame) :
    ErasesUpTo readsBeacon Goes
      ((limited noLimit (accountSent latencyWarn message)).bind fun _ => renew)
      (accountSent latencyWarn message) := by
  unfold accountSent
  cases message.timestamp with
  | none => exact erases_renew
  | some timestamp =>
    refine .within rfl fun sent => .within rfl fun u => ?_
    dsimp only
    split_ifs
    · unfold warnHighLatency
      split_ifs
      · exact .throw _
      · cases fromUtf8 (splitFirst 0 (message.frame.drop 6)).1 with
        | none => exact .throw _
        | some topic => exact .within rfl fun _ => erases_renew
    · exact erases_renew

theorem erases_writeMessage (latencyWarn : UInt32) (timeout beaconInterval last : Nat)
    (message : MessageFrame) : ErasesUpTo readsBeacon Goes
      (writeMessage latencyWarn timeout beaconInterval last message)
      (Psrt.writeMessage latencyWarn message) := by
  unfold writeMessage Psrt.writeMessage
  cases message.frame with
  | nil => exact .throw _
  | cons first rest =>
    dsimp only
    split_ifs
    · -- the answer to `beaconDue` is whether the interval has elapsed
      refine .reading rfl (fun t => decide ¬ t - last < beaconInterval) fun t => ?_
      by_cases hearly : t - last < beaconInterval
      · simp only [Prog.ret_bind, hearly, if_true, not_true, decide_false, Bool.false_eq_true, if_false]
        exact .ret rfl
      · simp only [Prog.ret_bind, hearly, if_false, not_false_iff, decide_true, if_true]
        exact erases_writeEofIsOk erases_renew
    · refine .now fun opStart => erases_writeEofIsOk ?_
      cases message.data with
      | none => exact erases_accountSent latencyWarn message
      | some data =>
        exact .reduce fun limit => erases_writeEofIsOk (erases_accountSent latencyWarn message)

theorem erases_handleDataStream (latencyWarn : UInt32) (timeout beaconInterval turns : Nat) :
    ErasesUpTo readsBeacon Eq (handleDataStream latencyWarn timeout beaconInterval turns)
      (Psrt.handleDataStream latencyWarn turns) := by
  refine .now fun start => ErasesUpTo.loopFrom (fun last => .within rfl fun r => ?_) turns start
  obtain ⟨duration, r⟩ := r
  cases r with
  | none => exact .ret rfl
  | some message => exact erases_writeMessage latencyWarn timeout beaconInterval last message

section
variable {start base bound bound' timeout : Nat}

theorem meets_writeEofIsOk (buf : Bytes) {k : TimedDataProg (Option Nat)} (limit : Nat)
    (hk : Meets start base bound' bound' k) (hle : bound + limit ≤ bound') :
    Meets start base bound bound' (writeEofIsOk buf limit k) := by
  refine ((takes_within limit _).meets hle).bind (fun r => ?_) le_rfl
  cases r with
  | ok u => exact hk
  | error e =>
    dsimp only
    split_ifs
    · exact meets_ret none
    · exact meets_throw _

theorem meets_renew : Meets start base bound bound renew :=
  meets_now (fun _ => meets_ret _) le_rfl

theorem meets_account (latencyWarn : UInt32) (message : MessageFrame) :
    Meets start base bound bound
      ((limited noLimit (accountSent latencyWarn message)).bind fun _ => renew) := by
  have hcalls : (accountSent latencyWarn message).Calls fun o => noLimit o = none := by
    refine Prog.Calls.mono (P := fun _ => True) ?_ fun _ _ => rfl
    unfold accountSent
    cases message.timestamp with
    | none => trivial
    | some timestamp =>
      refine ⟨trivial, fun sent => ⟨trivial, fun _ => ?_⟩⟩
      dsimp only
      split_ifs
      · unfold warnHighLatency
        split_ifs
        · trivial
        · cases fromUtf8 (splitFirst 0 (message.frame.drop 6)).1 with
          | none => trivial
          | some topic => exact ⟨trivial, fun _ => trivial⟩
      · trivial
  exact (meets_limited_of_calls hcalls).bind (fun _ => meets_renew) le_rfl

theorem takes_handleDataStreamTurn (latencyWarn : UInt32) (timeout beaconInterval last : Nat) :
    Takes timeout (handleDataStreamTurn latencyWarn timeout beaconInterval last) := by
  refine takes_of_meets fun start base => (meets_within_none _).bind (fun r => ?_) (Nat.zero_le _)
  cases r with
  | none => exact (meets_ret none).mono (Nat.zero_le _)
  | some message =>
    have hzero : Takes timeout (writeMessage latencyWarn timeout beaconInterval last message) := by
      unfold writeMessage
      cases message.frame with
      | nil => exact takes_of_meets fun _ _ => (meets_throw _).mono (Nat.zero_le _)
      | cons first rest =>
        dsimp only
        split_ifs
        · refine takes_now fun t base => ?_
          split_ifs
          · exact (meets_ret _).mono (Nat.zero_le _)
          · exact meets_writeEofIsOk _ timeout meets_renew (Nat.zero_add timeout).le
        · refine takes_now fun opStart base =>
            meets_writeEofIsOk _ timeout ?_ (Nat.zero_add timeout).le
          cases message.data with
          | none => exact meets_account latencyWarn message
          | some data =>
            refine meets_reduce (fun limit => takes_of_meets fun _ _ => ?_) le_rfl
            exact meets_writeEofIsOk _ limit (meets_account latencyWarn message)
              (Nat.zero_add limit).le
    exact hzero.meets (Nat.zero_add timeout).le

end

def dataTempo (beaconInterval slack : Nat) : Tempo DataOp DataOp.Resp where
  isWrite
    | .write _ => true
    | _ => false
  awaits
    | .recv => true
    | _ => false
  isTick
    | .recv, some message => message.frame.head? = some opNop
    | _, _ => false
  period := beaconInterval + slack
  slack := slack

structure Awake (beaconInterval slack last : Nat) (s : Beat) : Prop where
  noted : last ≤ s.wrote + 4 * slack
  early : s.clock ≤ last + beaconInterval
  ticked : s.ticked ≤ s.clock

section
variable {beaconInterval slack last timeout : Nat} {s : Beat} {α : Type}

def silenceLimit (beaconInterval slack : Nat) : Nat := 2 * beaconInterval + 6 * slack

abbrev dataSilence (beaconInterval slack : Nat) :
    Monitor (ClockOp DataOp) (ClockOp.Answer DataOp.Resp) Beat :=
  (dataTempo beaconInterval slack).silence (silenceLimit beaconInterval slack)

abbrev GoesOn (beaconInterval slack : Nat) (r : Option Nat) (s : Beat) : Prop :=
  ∀ last, r = some last → Awake beaconInterval slack last s

theorem wp_renew (hclock : s.clock ≤ s.wrote + 3 * slack) (hticked : s.ticked ≤ s.clock) :
    (dataSilence beaconInterval slack).wp renew (GoesOn beaconInterval slack) (fun _ _ => True) s := by
  refine Tempo.wp_now ?_ fun t hle hslack last hlast => ?_
  · simp only [dataTempo, silenceLimit]
    omega
  · obtain rfl := Option.some.inj hlast
    have hslack : t ≤ s.clock + slack := hslack
    exact ⟨by simp only; omega, Nat.le_add_right .., hticked.trans hle⟩

theorem wp_account (latencyWarn : UInt32) (message : MessageFrame) (hclock : s.clock = s.wrote)
    (hticked : s.ticked ≤ s.clock) :
    (dataSilence beaconInterval slack).wp
      ((limited noLimit (accountSent latencyWarn message)).bind fun _ => renew)
      (GoesOn beaconInterval slack) (fun _ _ => True) s := by
  unfold accountSent
  cases message.timestamp with
  | none => exact wp_renew (by omega) hticked
  | some timestamp =>
    have hbound : ∀ k ≤ 5, s.wrote + k * slack ≤ s.wrote + silenceLimit beaconInterval slack := by
      intro k hk
      have hmul := Nat.mul_le_mul_right slack hk
      unfold silenceLimit
      omega
    refine Tempo.wp_other rfl (fun _ => rfl) rfl ?_ fun sent t₁ hle₁ hslack₁ => ?_
    · have := hbound 1 (by omega)
      simp only [dataTempo]
      omega
    have hslack₁ : t₁ ≤ s.clock + slack := hslack₁
    refine Tempo.wp_other rfl (fun _ => rfl) rfl ?_ fun u t₂ hle₂ hslack₂ => ?_
    · have := hbound 2 (by omega)
      simp only [dataTempo]
      omega
    have hslack₂ : t₂ ≤ t₁ + slack := hslack₂
    have hle₂ : t₁ ≤ t₂ := hle₂
    dsimp only [Prog.interpret]
    split_ifs
    · unfold warnHighLatency
      split_ifs
      · trivial
      · cases fromUtf8 (splitFirst 0 (message.frame.drop 6)).1 with
        | none => trivial
        | some topic =>
          refine Tempo.wp_other rfl (fun _ => rfl) rfl ?_ fun u t₃ hle₃ hslack₃ => ?_
          · have := hbound 3 (by omega)
            simp only [dataTempo]
            omega
          have hslack₃ : t₃ ≤ t₂ + slack := hslack₃
          have hle₃ : t₂ ≤ t₃ := hle₃
          exact wp_renew (by simp only; omega) (by simp only; omega)
    · exact wp_renew (by simp only; omega) (by simp only; omega)

theorem wp_writeEofIsOk {buf : Bytes} {limit : Nat} {k : TimedDataProg (Option Nat)}
    (hk : ∀ t, s.clock ≤ t → (dataSilence beaconInterval slack).wp k
      (GoesOn beaconInterval slack) (fun _ _ => True) ⟨t, t, s.ticked⟩) :
    (dataSilence beaconInterval slack).wp (writeEofIsOk buf limit k)
      (GoesOn beaconInterval slack) (fun _ _ => True) s := by
  refine Tempo.wp_write rfl (fun _ => rfl) fun r t hle _ => ?_
  obtain ⟨duration, r⟩ := r
  cases r with
  | ok u => exact hk t hle
  | error e =>
    simp only [Prog.ret_bind]
    split_ifs
    · exact fun last hlast => absurd hlast (Option.some_ne_none last).symm
    · trivial

theorem wp_writeMessage (latencyWarn : UInt32) (message : MessageFrame)
    (hclock : s.clock ≤ s.wrote + (2 * beaconInterval + 5 * slack)) (hticked : s.ticked ≤ s.clock)
    (hnoted : last ≤ s.wrote + 4 * slack) :
    (dataSilence beaconInterval slack).wp
      (writeMessage latencyWarn timeout beaconInterval last message)
      (GoesOn beaconInterval slack) (fun _ _ => True) s := by
  have hroom : s.clock + slack ≤ s.wrote + silenceLimit beaconInterval slack := by
    unfold silenceLimit
    omega
  unfold writeMessage
  cases message.frame with
  | nil => trivial
  | cons first rest =>
    dsimp only
    split_ifs
    · -- a tick: nothing is written while the last command is recent
      refine Tempo.wp_now hroom fun t hle hslack => ?_
      simp only [Prog.ret_bind]
      split_ifs with hearly
      · intro last' hlast
        obtain rfl := Option.some.inj hlast
        exact ⟨hnoted, by simp only; omega, hticked.trans hle⟩
      · refine wp_writeEofIsOk fun t' hle' => wp_renew (Nat.le_add_right ..) ?_
        exact (hticked.trans hle).trans hle'
    · refine Tempo.wp_now hroom fun opStart hle hslack => wp_writeEofIsOk fun t hle' => ?_
      have htick : s.ticked ≤ t := (hticked.trans hle).trans hle'
      cases message.data with
      | none => exact wp_account latencyWarn message rfl htick
      | some data =>
        refine Tempo.wp_now ?_ fun now hle'' _ => wp_writeEofIsOk fun t' hle''' => ?_
        · simp only [silenceLimit, dataTempo]
          omega
        · exact wp_account latencyWarn message rfl ((htick.trans hle'').trans hle''')

theorem wp_handleDataStreamTurn (latencyWarn : UInt32) (h : Awake beaconInterval slack last s) :
    (dataSilence beaconInterval slack).wp
      (handleDataStreamTurn latencyWarn timeout beaconInterval last)
      (GoesOn beaconInterval slack) (fun _ _ => True) s := by
  obtain ⟨hnoted, hearly, hticked⟩ := h
  refine Tempo.wp_await rfl rfl ?_ ?_ fun r t ticked hle hlimit htick => ?_
  · unfold silenceLimit
    omega
  · simp only [dataTempo, silenceLimit]
    omega
  · simp only [dataTempo] at hlimit
    obtain ⟨duration, r⟩ := r
    cases r with
    | none => exact fun last hlast => absurd hlast (Option.some_ne_none last).symm
    | some message =>
      exact wp_writeMessage latencyWarn message (by simp only; omega) (by simp only; omega) hnoted

end

/-- However the frames come and however slowly they are taken: the data task never keeps silent for more
than two beacon intervals and six delays of its surroundings. -/
theorem data_stream_never_silent {latencyWarn : UInt32} {timeout beaconInterval slack turns clock : Nat}
    {h : List TimedDataEvent} {q : TimedDataProg Unit}
    (hr : Prog.Run (handleDataStream latencyWarn timeout beaconInterval turns) h q)
    (hpace : (dataTempo beaconInterval slack).KeepsPace clock h) :
    (dataTempo beaconInterval slack).silentFor clock h ≤ silenceLimit beaconInterval slack := by
  refine Tempo.silent_le (Q := fun _ _ => True) (E := fun _ _ => True) ?_ hr hpace
  refine Tempo.wp_now ?_ fun last hle hslack => ?_
  · simp only [dataTempo, silenceLimit]
    omega
  · have hslack : last ≤ clock + slack := hslack
    exact Monitor.wp_loopFrom (I := Awake beaconInterval slack)
      (fun last s h => wp_handleDataStreamTurn latencyWarn h) turns
      ⟨by simp only; omega, Nat.le_add_right .., hle⟩

end Psrt.Timed

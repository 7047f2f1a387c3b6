import Psrt.Publish.Codec
import Mathlib.Algebra.BigOperators.Group.List.Basic

/-! The latency accounting of the data stream: what each message adds to the counters, and when that is
the time the message was on its way. -/

namespace Psrt
open Wire Interaction

structure Counters where
  cSentMessages : UInt64
  cSentBytes : UInt64
  cSentLatency : UInt64
  deriving DecidableEq, Repr

def Counters.countSentBytes (c : Counters) (size : UInt64) (latency : UInt32) : Counters where
  cSentMessages := c.cSentMessages + 1
  cSentBytes := c.cSentBytes + size
  cSentLatency := c.cSentLatency + latency.toUInt64

/-- What the data task makes of a time stamp when the clock reads `now`. -/
def latencyMks (timestamp now : UInt64) : UInt32 := ((now - timestamp) / 1000).toUInt32

/-- The time a message was on its way, as far as 32 bits can hold it. -/
def realLatency (timestamp now : UInt64) : Nat :=
  min (2 ^ 32 - 1) ((now.toNat - timestamp.toNat) / 1000)

/-- The clock is not behind the time stamp, and less than 2³² microseconds ahead. Apart from that only
chance makes the remainder of the difference come out right. -/
def Accountable (timestamp now : UInt64) : Prop :=
  if timestamp ≤ now then
    (now.toNat - timestamp.toNat) / 1000 < 2 ^ 32 ∨
      (now.toNat - timestamp.toNat) / 1000 % 2 ^ 32 = 2 ^ 32 - 1
  else (2 ^ 64 - (timestamp.toNat - now.toNat)) / 1000 % 2 ^ 32 = 0

theorem latencyMks_toNat (timestamp now : UInt64) :
    (latencyMks timestamp now).toNat =
      (2 ^ 64 - timestamp.toNat + now.toNat) % 2 ^ 64 / 1000 % 2 ^ 32 := by
  unfold latencyMks
  rw [UInt64.toNat_toUInt32, UInt64.toNat_div, UInt64.toNat_sub]
  rfl

theorem latencyMks_eq_iff (timestamp now : UInt64) :
    (latencyMks timestamp now).toNat = realLatency timestamp now ↔ Accountable timestamp now := by
  have ht := timestamp.toNat_lt
  have hn := now.toNat_lt
  rw [latencyMks_toNat]
  unfold realLatency Accountable
  split_ifs with hle
  · rw [UInt64.le_iff_toNat_le] at hle
    have hdiff : (2 ^ 64 - timestamp.toNat + now.toNat) % 2 ^ 64 = now.toNat - timestamp.toNat := by
      omega
    rw [hdiff]
    omega
  · rw [UInt64.le_iff_toNat_le] at hle
    have hdiff : (2 ^ 64 - timestamp.toNat + now.toNat) % 2 ^ 64 =
        2 ^ 64 - (timestamp.toNat - now.toNat) := by
      omega
    rw [hdiff]
    omega

structure Delivery where
  timestamp : UInt64
  now : UInt64
  added : UInt32
  warned : Option UInt32

structure Ledger where
  counters : Counters
  message : Option MessageFrame
  clock : UInt64
  done : List Delivery
  current : Option Delivery

namespace Ledger

def start (counters : Counters) : Ledger := ⟨counters, none, 0, [], none⟩

def deliveries (l : Ledger) : List Delivery := l.done ++ l.current.toList

def next (l : Ledger) : (o : DataOp) → o.Resp → Ledger
  | .recv, message =>
    { l with message := message, done := l.done ++ l.current.toList, current := none }
  | .beaconDue, _ => l
  | .write _, _ => l
  | .nowNs, now => { l with clock := now }
  | .countSentBytes bytes latency, _ =>
    { l with
      counters := l.counters.countSentBytes (UInt64.ofNat bytes) latency
      current := (l.message.bind MessageFrame.timestamp).map fun timestamp =>
        ⟨timestamp, l.clock, latency, none⟩ }
  | .warnLatency latency _, _ =>
    { l with current := l.current.map fun d => { d with warned := some latency } }

def realTotal (l : Ledger) : Nat :=
  (l.deliveries.map fun d => realLatency d.timestamp d.now).sum

end Ledger

def accounts (before : Counters) (h : List DataEvent) : Ledger :=
  h.foldl (fun l e => l.next e.op e.resp) (.start before)

/-- The latency accounting is right: each message adds the time it was on its way, a warning is given
just when that is too long, and the counter has grown by the sum. -/
structure AccountedFor (latencyWarn : UInt32) (before : Counters) (l : Ledger) : Prop where
  added : ∀ d ∈ l.deliveries, d.added.toNat = realLatency d.timestamp d.now
  warned : ∀ d ∈ l.done,
    d.warned.isSome = true ↔ latencyWarn.toNat < realLatency d.timestamp d.now
  total : l.counters.cSentLatency.toNat = before.cSentLatency.toNat + l.realTotal

def Delivery.Settled (latencyWarn : UInt32) (d : Delivery) : Prop :=
  d.warned = if d.added > latencyWarn then some d.added else none

structure Ledger.Kept (latencyWarn : UInt32) (before : Counters) (l : Ledger) : Prop where
  added : ∀ d ∈ l.deliveries, d.added = latencyMks d.timestamp d.now
  settled : ∀ d ∈ l.done, d.Settled latencyWarn
  total : l.counters.cSentLatency.toNat =
    (before.cSentLatency.toNat + (l.deliveries.map fun d => d.added.toNat).sum) % 2 ^ 64

structure Ledger.AtRest (latencyWarn : UInt32) (before : Counters) (l : Ledger) : Prop
    extends l.Kept latencyWarn before where
  current : ∀ d ∈ l.current, d.Settled latencyWarn

section
variable {latencyWarn : UInt32} {before : Counters} {l : Ledger}

namespace Ledger

theorem atRest_start : (start before).AtRest latencyWarn before where
  added d hd := absurd hd List.not_mem_nil
  settled d hd := absurd hd List.not_mem_nil
  total := (Nat.mod_eq_of_lt before.cSentLatency.toNat_lt).symm
  current d hd := by cases hd

theorem AtRest.recv (h : l.AtRest latencyWarn before) (message : Option MessageFrame) :
    (l.next .recv message).AtRest latencyWarn before := by
  have hdeliveries : (l.next .recv message).deliveries = l.deliveries := List.append_nil _
  refine ⟨⟨?_, ?_, ?_⟩, fun d hd => by cases hd⟩
  · rw [hdeliveries]
    exact h.added
  · refine List.forall_mem_append.mpr ⟨h.settled, fun d hd => ?_⟩
    exact h.current d (Option.mem_toList.mp hd)
  · rw [hdeliveries]
    exact h.total

theorem AtRest.nowNs (h : l.AtRest latencyWarn before) (now : UInt64) :
    (l.next .nowNs now).AtRest latencyWarn before := ⟨⟨h.added, h.settled, h.total⟩, h.current⟩

theorem AtRest.count (h : l.AtRest latencyWarn before) (hcurrent : l.current = none)
    {timestamp : UInt64} (hstamp : l.message.bind MessageFrame.timestamp = some timestamp)
    (bytes : Nat) :
    (l.next (.countSentBytes bytes (latencyMks timestamp l.clock)) ()).Kept latencyWarn before := by
  have hold : l.deliveries = l.done := by
    unfold deliveries
    rw [hcurrent]
    exact List.append_nil _
  have hnew : (l.next (.countSentBytes bytes (latencyMks timestamp l.clock)) ()).deliveries =
      l.done ++ [⟨timestamp, l.clock, latencyMks timestamp l.clock, none⟩] := by
    unfold deliveries next
    simp [hstamp]
  have hadded := h.added
  have htotal := h.total
  rw [hold] at hadded htotal
  refine ⟨?_, h.settled, ?_⟩
  · rw [hnew]
    exact List.forall_mem_append.mpr ⟨hadded, List.forall_mem_singleton.mpr rfl⟩
  · have hcounter :
        (l.next (.countSentBytes bytes (latencyMks timestamp l.clock)) ()).counters.cSentLatency =
        l.counters.cSentLatency + (latencyMks timestamp l.clock).toUInt64 := rfl
    rw [hnew, hcounter, UInt64.toNat_add, htotal, UInt32.toNat_toUInt64, List.map_append,
      List.sum_append]
    simp only [List.map_cons, List.map_nil, List.sum_cons, List.sum_nil]
    omega

theorem current_count {timestamp : UInt64}
    (hstamp : l.message.bind MessageFrame.timestamp = some timestamp) (bytes : Nat)
    (latency : UInt32) :
    (l.next (.countSentBytes bytes latency) ()).current =
      some ⟨timestamp, l.clock, latency, none⟩ := by
  unfold next
  simp [hstamp]

theorem current_warn {d : Delivery} (hcurrent : l.current = some d) (latency : UInt32)
    (topic : Str) : (l.next (.warnLatency latency topic) ()).current =
      some { d with warned := some latency } := by
  unfold next
  simp [hcurrent]

theorem Kept.warn (h : l.Kept latencyWarn before) {d : Delivery} (hcurrent : l.current = some d)
    (latency : UInt32) (topic : Str) :
    (l.next (.warnLatency latency topic) ()).Kept latencyWarn before := by
  have hold : l.deliveries = l.done ++ [d] := by
    unfold deliveries
    rw [hcurrent]
    rfl
  have hnew : (l.next (.warnLatency latency topic) ()).deliveries =
      l.done ++ [{ d with warned := some latency }] := by
    unfold deliveries next
    simp [hcurrent]
  have hadded := h.added
  have htotal := h.total
  rw [hold] at hadded htotal
  obtain ⟨hdone, hd⟩ := List.forall_mem_append.mp hadded
  have hlast : d.added = latencyMks d.timestamp d.now := hd d (List.mem_singleton_self d)
  refine ⟨?_, h.settled, ?_⟩
  · rw [hnew]
    exact List.forall_mem_append.mpr ⟨hdone, List.forall_mem_singleton.mpr hlast⟩
  · rw [hnew, List.map_append]
    rw [List.map_append] at htotal
    exact htotal

end Ledger

def books (latencyWarn : UInt32) (before : Counters) : Monitor DataOp DataOp.Resp Ledger :=
  .keeps (fun _ _ _ => True) Ledger.next (·.Kept latencyWarn before)

def AfterTurn (latencyWarn : UInt32) (before : Counters) : Option Unit → Ledger → Prop
  | some _, _ => True
  | none, l => l.AtRest latencyWarn before

theorem wp_writeEofIsOk (h : l.Kept latencyWarn before) (buf : Bytes)
    {k : DataProg (Option Unit)} {E : DataStop → Ledger → Prop} (hE : ∀ e l, E e l)
    (hk : (books latencyWarn before).wp k (AfterTurn latencyWarn before) E l) :
    (books latencyWarn before).wp (writeEofIsOk buf k) (AfterTurn latencyWarn before) E l := by
  apply Monitor.wp_keeps_call
  intro r _
  refine ⟨h, ?_⟩
  cases r with
  | ok u => exact hk
  | error e =>
    dsimp only
    split_ifs
    · trivial
    · exact hE _ _

theorem wp_accountSent (h : l.AtRest latencyWarn before) (hcurrent : l.current = none)
    {message : MessageFrame} (hmessage : l.message = some message)
    {E : DataStop → Ledger → Prop} (hE : ∀ e l, E e l) :
    (books latencyWarn before).wp (accountSent latencyWarn message)
      (AfterTurn latencyWarn before) E l := by
  unfold accountSent
  cases hstamp : message.timestamp with
  | none => exact h
  | some timestamp =>
    apply Monitor.wp_keeps_call
    intro now _
    have hnow := h.nowNs now
    refine ⟨hnow.toKept, ?_⟩
    apply Monitor.wp_keeps_call
    intro u _
    have hbind : (l.next .nowNs now).message.bind MessageFrame.timestamp = some timestamp := by
      show l.message.bind _ = _
      rw [hmessage]
      exact hstamp
    have hcount := hnow.count hcurrent hbind
      (message.frame.length + message.data.elim 0 List.length)
    have hhand := Ledger.current_count hbind
      (message.frame.length + message.data.elim 0 List.length) (latencyMks timestamp now)
    refine ⟨hcount, ?_⟩
    show (books latencyWarn before).wp (if latencyMks timestamp now > latencyWarn then
      warnHighLatency message (latencyMks timestamp now) else .ret none) _ _ _
    split_ifs with hhigh
    · unfold warnHighLatency
      split_ifs
      · exact hE _ _
      · cases fromUtf8 (splitFirst 0 (message.frame.drop 6)).1 with
        | none => exact hE _ _
        | some topic =>
          apply Monitor.wp_keeps_call
          intro u _
          have hwarn := hcount.warn hhand (latencyMks timestamp now) topic
          refine ⟨hwarn, hwarn, fun d hd => ?_⟩
          have hlast := Ledger.current_warn hhand (latencyMks timestamp now) topic
          obtain rfl := Option.some.inj (hlast.symm.trans hd)
          exact (if_pos hhigh).symm
    · refine ⟨hcount, fun d hd => ?_⟩
      obtain rfl := Option.some.inj (hhand.symm.trans hd)
      exact (if_neg hhigh).symm

theorem wp_writeMessage (h : l.AtRest latencyWarn before) (hcurrent : l.current = none)
    {message : MessageFrame} (hmessage : l.message = some message)
    {E : DataStop → Ledger → Prop} (hE : ∀ e l, E e l) :
    (books latencyWarn before).wp (writeMessage latencyWarn message)
      (AfterTurn latencyWarn before) E l := by
  have haccount := wp_accountSent h hcurrent hmessage hE
  unfold writeMessage
  cases message.frame with
  | nil => exact hE _ _
  | cons first rest =>
    dsimp only
    split_ifs
    · apply Monitor.wp_keeps_call
      intro due _
      refine ⟨h.toKept, ?_⟩
      split_ifs
      · exact wp_writeEofIsOk h.toKept _ hE h
      · exact h
    · apply wp_writeEofIsOk h.toKept _ hE
      cases message.data with
      | none => exact haccount
      | some data => exact wp_writeEofIsOk h.toKept _ hE haccount

theorem wp_handleDataStreamTurn (h : l.AtRest latencyWarn before)
    {E : DataStop → Ledger → Prop} (hE : ∀ e l, E e l) :
    (books latencyWarn before).wp (handleDataStreamTurn latencyWarn)
      (AfterTurn latencyWarn before) E l := by
  apply Monitor.wp_keeps_call
  intro message _
  have hrecv := h.recv message
  refine ⟨hrecv.toKept, ?_⟩
  cases message with
  | none => trivial
  | some message => exact wp_writeMessage hrecv rfl rfl hE

theorem kept_accounts {turns : Nat} {h : List DataEvent} {q : DataProg Unit}
    (hr : Prog.Run (handleDataStream latencyWarn turns) h q) :
    (accounts before h).Kept latencyWarn before := by
  have hstart : (Ledger.start before).AtRest latencyWarn before := Ledger.atRest_start
  have hwp : (books latencyWarn before).wp (handleDataStream latencyWarn turns)
      (fun _ _ => True) (fun _ _ => True) (.start before) := by
    apply Monitor.wp_loop (I := fun l => l.AtRest latencyWarn before) _ turns hstart
    intro l hl
    refine Monitor.wp_mono (fun r l' hafter => ?_) (fun _ _ he => he)
      (wp_handleDataStreamTurn hl fun _ _ => trivial)
    cases r with
    | some u => trivial
    | none => exact hafter
  have hadmits : (books latencyWarn before).Admits (.start before) h :=
    Monitor.admits_of_forall (fun _ _ _ => trivial) _
  have haccepts := (Monitor.wp_run hwp hr hadmits).1
  have hafter := Monitor.keeps_after hstart.toKept haccepts hadmits
  have hfold : ∀ l, (books latencyWarn before).after l h =
      h.foldl (fun l e => l.next e.op e.resp) l := by
    intro l
    clear hr hadmits haccepts hafter
    induction h generalizing l with
    | nil => rfl
    | cons e h ih => exact ih _
  unfold accounts
  rw [← hfold]
  exact hafter

/-- What the accounting does is right if and only if every clock reading can be accounted for, and the
counter has room for the sum. -/
theorem latency_accounting_iff {turns : Nat} {h : List DataEvent} {q : DataProg Unit}
    (hr : Prog.Run (handleDataStream latencyWarn turns) h q) :
    AccountedFor latencyWarn before (accounts before h) ↔
      (∀ d ∈ (accounts before h).deliveries, Accountable d.timestamp d.now) ∧
        before.cSentLatency.toNat + (accounts before h).realTotal < 2 ^ 64 := by
  have hkept : (accounts before h).Kept latencyWarn before := kept_accounts hr
  generalize accounts before h = l at hkept
  have hadded : (∀ d ∈ l.deliveries, d.added.toNat = realLatency d.timestamp d.now) ↔
      ∀ d ∈ l.deliveries, Accountable d.timestamp d.now := by
    refine forall_congr' fun d => forall_congr' fun hd => ?_
    rw [hkept.added d hd, latencyMks_eq_iff]
  constructor
  · intro haccounted
    refine ⟨hadded.mp haccounted.added, ?_⟩
    rw [← haccounted.total]
    exact l.counters.cSentLatency.toNat_lt
  · rintro ⟨haccountable, hroom⟩
    have hreal := hadded.mpr haccountable
    refine ⟨hreal, fun d hd => ?_, ?_⟩
    · have hd' : d ∈ l.deliveries := List.mem_append_left _ hd
      rw [hkept.settled d hd, ← hreal d hd', ← UInt32.lt_iff_toNat_lt]
      split_ifs with hhigh
      · simpa using hhigh
      · simpa using hhigh
    · have hsum : (l.deliveries.map fun d => d.added.toNat) =
          l.deliveries.map fun d => realLatency d.timestamp d.now := by
        apply List.map_congr_left
        exact hreal
      rw [hkept.total, hsum]
      exact Nat.mod_eq_of_lt hroom

end

theorem latency_accounting_sample : ∃ h q, Prog.Run (handleDataStream 50000 1) h q ∧
    (accounts ⟨0, 0, 0⟩ h).counters.cSentLatency = 3 ∧
    AccountedFor 50000 ⟨0, 0, 0⟩ (accounts ⟨0, 0, 0⟩ h) := by
  obtain ⟨q, hr⟩ := Prog.run_eval (dataAnswer (fun _ => true) fun _ => 5000)
    (handleDataStream 50000 1) [messageFrame 127 ['a'] [1] 2000]
  have hdeliveries : (accounts ⟨0, 0, 0⟩ (Prog.eval (dataAnswer (fun _ => true) fun _ => 5000)
      (handleDataStream 50000 1) [messageFrame 127 ['a'] [1] 2000]).1).deliveries =
      [⟨2000, 5000, 3, none⟩] := rfl
  refine ⟨_, q, hr, rfl, (latency_accounting_iff hr).mpr ⟨?_, ?_⟩⟩
  · rw [hdeliveries]
    have haccountable : Accountable 2000 5000 := by
      unfold Accountable
      decide
    exact List.forall_mem_singleton.mpr haccountable
  · unfold Ledger.realTotal
    rw [hdeliveries]
    decide

/-- The clock has been stepped back by a microsecond since the message was stamped: twenty minutes
are added and warned of. -/
theorem latency_wraps : ∃ h q, Prog.Run (handleDataStream 50000 1) h q ∧
    (accounts ⟨0, 0, 0⟩ h).deliveries = [⟨2000, 1000, 1271310318, some 1271310318⟩] ∧
    ¬ AccountedFor 50000 ⟨0, 0, 0⟩ (accounts ⟨0, 0, 0⟩ h) := by
  obtain ⟨q, hr⟩ := Prog.run_eval (dataAnswer (fun _ => true) fun _ => 1000)
    (handleDataStream 50000 1) [messageFrame 127 ['a'] [1] 2000]
  have hdeliveries : (accounts ⟨0, 0, 0⟩ (Prog.eval (dataAnswer (fun _ => true) fun _ => 1000)
      (handleDataStream 50000 1) [messageFrame 127 ['a'] [1] 2000]).1).deliveries =
      [⟨2000, 1000, 1271310318, some 1271310318⟩] := rfl
  refine ⟨_, q, hr, hdeliveries, fun haccounted => ?_⟩
  have hadded := haccounted.added
  rw [hdeliveries] at hadded
  exact absurd (hadded _ (List.mem_singleton_self _)) (by decide)

end Psrt

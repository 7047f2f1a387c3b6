import Mathlib.Data.List.Nodup
import Psrt.DataChannel.Publishes

/-! Delivery: what the publishers put into each channel, how often, and in which order. -/

namespace Psrt.DataChannel
open Wire

variable {capacity : Nat} {s s' : State} {l : Label} {t : History}

structure Entry where
  publisher : Option (Nat × Nat)
  message : MessageFrame

def Entry.isOf (e : Entry) (i n : Nat) : Bool := e.publisher == some (i, n)

def Label.publisher (l : Label) (t : History) : Option (Nat × Nat) :=
  match l.before with
  | some (.pushing _ _ _ _ _ _) => some (l.id, (publishes l.id t).length)
  | _ => none

/-- Everything ever put into the channel, the latest first. -/
def entered (ch : ChannelId) : History → List Entry
  | [] => []
  | (_, l) :: t =>
    match l.effect with
    | .enqueue ch' m => if ch' = ch then ⟨l.publisher t, m⟩ :: entered ch t else entered ch t
    | _ => entered ch t

def taken (ch : ChannelId) : History → List MessageFrame
  | [] => []
  | (_, l) :: t =>
    match l.effect, l.after with
    | .dequeue ch', .data _ _ (.writing m) => if ch' = ch then taken ch t ++ [m] else taken ch t
    | _, _ => taken ch t

theorem entered_enqueue {e : State × Label} {ch : ChannelId} {m : MessageFrame}
    (heff : e.2.effect = .enqueue ch m) :
    entered ch (e :: t) = ⟨e.2.publisher t, m⟩ :: entered ch t := by
  rw [entered, heff]
  exact if_pos rfl

theorem entered_other {e : State × Label} {ch : ChannelId}
    (hother : ∀ m, e.2.effect ≠ .enqueue ch m) : entered ch (e :: t) = entered ch t := by
  rw [entered]
  cases heff : e.2.effect with
  | enqueue ch' m =>
    apply if_neg
    rintro rfl
    exact hother m heff
  | _ => rfl

theorem Step.enqueue_cases (h : Step capacity s l s') {ch : ChannelId} {m : MessageFrame}
    (heff : l.effect = .enqueue ch m) : s.ReceiverHeld ch ∧ ((∃ c, l.before = some (.pinger c ch)) ∨
      ∃ src c rest, l.before = some (.pushing src m c ch rest .sending)) := by
  cases h with
  | start i eff p hfree hstart =>
    cases hstart with
    | _ => cases heff
  | move i p eff p' hp hmove =>
    cases hmove with
    | ping c ch' hopen =>
      obtain ⟨rfl, rfl⟩ := Effect.enqueue.inj heff
      exact ⟨hopen, .inl ⟨c, rfl⟩⟩
    | send src m' c ch' rest hopen =>
      obtain ⟨rfl, rfl⟩ := Effect.enqueue.inj heff
      exact ⟨hopen, .inr ⟨src, c, rest, rfl⟩⟩
    | _ => cases heff

theorem Step.dequeue_cases (h : Step capacity s l s') {ch : ChannelId}
    (heff : l.effect = .dequeue ch) : ∃ c m queue, s.queue ch = m :: queue ∧
      s.procs l.id = some (.data c ch .waiting) ∧ l.after = .data c ch (.writing m) := by
  cases h with
  | start i eff p hfree hstart =>
    cases hstart with
    | _ => cases heff
  | move i p eff p' hp hmove =>
    cases hmove with
    | recv c ch' m queue hqueue =>
      obtain rfl := Effect.dequeue.inj heff
      exact ⟨c, m, queue, hqueue, hp, rfl⟩
    | _ => cases heff

theorem taken_other {e : State × Label} {ch : ChannelId} (hother : e.2.effect ≠ .dequeue ch) :
    taken ch (e :: t) = taken ch t := by
  rw [taken]
  split
  next ch' c ch'' m heff hafter =>
    apply if_neg
    rintro rfl
    exact hother heff
  next => rfl

structure Fifo (t : History) (s : State) : Prop where
  unmade : ∀ ch, s.nextChannel ≤ ch → s.queue ch = []
  queued : ∀ ch, (entered ch t).reverse.map Entry.message = taken ch t ++ s.queue ch

theorem Fifo.queue_kept (hf : Fifo t s) (h : Step capacity s l s') {ch : ChannelId}
    (henqueue : ∀ m, l.effect ≠ .enqueue ch m) (hdequeue : l.effect ≠ .dequeue ch) :
    s'.queue ch = s.queue ch := by
  rw [h.queue_eq, apply_queue]
  cases heff : l.effect with
  | registerDataChannel token =>
    dsimp only
    by_cases hch : ch = s.nextChannel
    · rw [hch, Function.update_self, hf.unmade _ (Nat.le_refl _)]
    · rw [Function.update_of_ne hch]
  | enqueue ch' m =>
    have hch : ch ≠ ch' := by
      rintro rfl
      exact henqueue m heff
    dsimp only
    rw [Function.update_of_ne hch]
  | dequeue ch' =>
    have hch : ch ≠ ch' := by
      rintro rfl
      exact hdequeue heff
    dsimp only
    rw [Function.update_of_ne hch]
  | _ => rfl

theorem Fifo.step_queued (hf : Fifo t s) (h : Step capacity s l s') (ch : ChannelId) :
    (entered ch ((s, l) :: t)).reverse.map Entry.message = taken ch ((s, l) :: t) ++ s'.queue ch := by
  have hold := hf.queued ch
  by_cases henqueue : ∃ m, l.effect = .enqueue ch m
  · obtain ⟨m, heff⟩ := henqueue
    have hdequeue : l.effect ≠ .dequeue ch := by
      rw [heff]
      exact nofun
    rw [entered_enqueue (e := (s, l)) heff, taken_other (e := (s, l)) hdequeue, List.reverse_cons,
      List.map_append, hold, List.append_assoc, h.queue_eq, apply_queue, heff]
    dsimp only
    rw [Function.update_self]
    rfl
  · rw [entered_other (e := (s, l)) (not_exists.mp henqueue)]
    by_cases hdequeue : l.effect = .dequeue ch
    · obtain ⟨c, m, queue, hqueue, -, hafter⟩ := h.dequeue_cases hdequeue
      have htaken : taken ch ((s, l) :: t) = taken ch t ++ [m] := by
        rw [taken, hdequeue, hafter]
        exact if_pos rfl
      rw [htaken, hold, hqueue, h.queue_eq, apply_queue, hdequeue]
      dsimp only
      rw [Function.update_self, hqueue, List.append_assoc]
      rfl
    · rw [taken_other (e := (s, l)) hdequeue, hold,
        hf.queue_kept h (not_exists.mp henqueue) hdequeue]

theorem Fifo.step_unmade (hf : Fifo t s) (h : Step capacity s l s') (hch : Channels s)
    {ch : ChannelId} (hle : s'.nextChannel ≤ ch) : s'.queue ch = [] := by
  have hle' := h.nextChannel_le.trans hle
  have hempty := hf.unmade ch hle'
  have hheld : ∀ ch', s.ReceiverHeld ch' → ch ≠ ch' := by
    rintro ch' ⟨i, p, hi, hp⟩ rfl
    exact absurd (hch.receiver_lt i p ch hi hp) (Nat.not_lt.mpr hle')
  rw [h.queue_eq, apply_queue]
  cases heff : l.effect with
  | registerDataChannel token =>
    dsimp only
    by_cases hnew : ch = s.nextChannel
    · rw [hnew, Function.update_self]
    · rw [Function.update_of_ne hnew, hempty]
  | enqueue ch' m =>
    dsimp only
    rw [Function.update_of_ne (hheld ch' (h.enqueue_cases heff).1), hempty]
  | dequeue ch' =>
    obtain ⟨c, m, queue, hqueue, -, -⟩ := h.dequeue_cases heff
    have hne : ch ≠ ch' := by
      rintro rfl
      rw [hempty] at hqueue
      cases hqueue
    dsimp only
    rw [Function.update_of_ne hne, hempty]
  | _ => exact hempty

theorem fifo_of_run (h : Run capacity t s) : Fifo t s := by
  apply h.invariant
  · intro s hs
    rw [hs]
    exact ⟨fun _ _ => rfl, fun _ => rfl⟩
  · intro t s l s' hr hf hs
    exact ⟨fun _ hle => hf.step_unmade hs (channels_of_run hr) hle, hf.step_queued hs⟩

def MadeFor (t : History) (c : ServerClient) (ch : ChannelId) : Prop :=
  ∃ e ∈ t, (∃ token, e.2.effect = .registerDataChannel token) ∧
    e.2.after = .launching c ch .replying

structure Made (t : History) (s : State) : Prop where
  lt : ∀ c ch, MadeFor t c ch → ch < s.nextChannel
  unique : ∀ c c' ch, MadeFor t c ch → MadeFor t c' ch → c = c'
  cell : ∀ σ ∈ States t s, ∀ c ch, σ.dataChannel c = some ch → MadeFor t c ch

theorem MadeFor.mono {c : ServerClient} {ch : ChannelId} (h : MadeFor t c ch)
    (e : State × Label) : MadeFor (e :: t) c ch := by
  obtain ⟨e', hmem, hmade⟩ := h
  exact ⟨e', List.mem_cons_of_mem _ hmem, hmade⟩

theorem Step.madeFor_cases (h : Step capacity s l s') {c : ServerClient} {ch : ChannelId}
    (hmade : MadeFor ((s, l) :: t) c ch) : MadeFor t c ch ∨
      ch = s.nextChannel ∧ s.nextChannel < s'.nextChannel ∧ l.after = .launching c ch .replying := by
  obtain ⟨e, hmem, ⟨token, heff⟩, hafter⟩ := hmade
  rcases List.mem_cons.mp hmem with rfl | hmem
  · obtain ⟨c', -, -, hafter'⟩ := h.registerDataChannel_cases heff
    rw [hafter'] at hafter
    obtain ⟨rfl, rfl, -⟩ := Proc.launching.inj hafter
    exact .inr ⟨rfl, h.lt_of_registerDataChannel heff, hafter'⟩
  · exact .inl ⟨e, hmem, ⟨token, heff⟩, hafter⟩

theorem Made.step (hm : Made t s) (h : Step capacity s l s') (hwf : Wf s) :
    Made ((s, l) :: t) s' where
  lt c ch hmade := by
    rcases h.madeFor_cases hmade with hold | ⟨rfl, hlt, -⟩
    · exact (hm.lt c ch hold).trans_le h.nextChannel_le
    · exact hlt
  unique c c' ch hmade hmade' := by
    rcases h.madeFor_cases hmade with hold | ⟨hnew, -, hafter⟩ <;>
      rcases h.madeFor_cases hmade' with hold' | ⟨hnew', -, hafter'⟩
    · exact hm.unique c c' ch hold hold'
    · exact absurd hnew' (hm.lt c ch hold).ne
    · exact absurd hnew (hm.lt c' ch hold').ne
    · rw [hafter] at hafter'
      exact (Proc.launching.inj hafter').1
  cell σ hσ c ch hcell := by
    rcases List.mem_cons.mp hσ with rfl | hσ
    · rcases h.dataChannel_cases hwf hcell with hold | ⟨heff, -, -, -, hafter⟩
      · exact (hm.cell s List.mem_cons_self c ch hold).mono _
      · exact ⟨_, List.mem_cons_self, ⟨_, heff⟩, hafter⟩
    · exact (hm.cell σ hσ c ch hcell).mono _

theorem made_of_run (h : Run capacity t s) : Made t s := by
  apply h.invariant
  · intro s hs
    refine ⟨fun c ch hmade => ?_, fun c c' ch hmade => ?_, fun σ hσ c ch hcell => ?_⟩
    · obtain ⟨e, he, -⟩ := hmade
      cases he
    · obtain ⟨e, he, -⟩ := hmade
      cases he
    · rw [List.mem_singleton.mp hσ, hs] at hcell
      cases hcell
  · intro t s l s' hr hm hs
    exact hm.step hs (wf_of_run hr)

def Visit.enters (ch : ChannelId) (v : Visit) : Bool :=
  v.seen.dataChannel v.client == some ch && v.sent.any Prod.snd

theorem Visit.enters_of_sent_none {v : Visit} (h : v.sent = none) (ch : ChannelId) :
    v.enters ch = false := by
  unfold Visit.enters
  rw [h]
  exact Bool.and_false _

theorem countP_entered_of_ne {e : State × Label} {ch : ChannelId} {i n : Nat}
    (hne : e.2.publisher t ≠ some (i, n)) :
    (entered ch (e :: t)).countP (·.isOf i n) = (entered ch t).countP (·.isOf i n) := by
  by_cases heff : ∃ m, e.2.effect = .enqueue ch m
  · obtain ⟨m, heff⟩ := heff
    rw [entered_enqueue heff]
    apply List.countP_cons_of_neg
    unfold Entry.isOf
    intro heq
    exact hne (beq_iff_eq.mp heq)
  · rw [entered_other (not_exists.mp heff)]

theorem Label.Silent.countP_entered (h : l.Silent) (s : State) (ch : ChannelId) (i n : Nat) :
    (entered ch ((s, l) :: t)).countP (·.isOf i n) = (entered ch t).countP (·.isOf i n) := by
  by_cases heff : ∃ m, l.effect = .enqueue ch m
  · apply countP_entered_of_ne
    obtain ⟨m, heff⟩ := heff
    obtain ⟨c, hbefore⟩ := h ch m heff
    unfold Label.publisher
    dsimp only
    rw [hbefore]
    exact nofun
  · rw [entered_other (e := (s, l)) (not_exists.mp heff)]

theorem countP_modifyHead {α : Type} {g : α → Bool} {f : α → α} (hf : ∀ a, g (f a) = g a)
    (as : List α) : (as.modifyHead f).countP g = as.countP g := by
  cases as with
  | nil => rfl
  | cons a as => rw [List.modifyHead_cons, List.countP_cons, List.countP_cons, hf]

/-- What has entered the channels, against the record of the publishes: a publish has an entry for
each of its visits that entered the channel, and every entry of a push is one of a publish. -/
structure Counted (t : History) : Prop where
  counted : ∀ i p ch, p ∈ publishes i t →
    (entered ch t).countP (·.isOf i p.number) = p.visits.countP (·.enters ch)
  named : ∀ ch e i n, e ∈ entered ch t → e.publisher = some (i, n) →
    ∃ p ∈ publishes i t, p.number = n ∧ p.message = e.message

theorem Records.kept {ps qs : List Publish} (h : Records s l ps qs) {p : Publish} (hp : p ∈ ps) :
    ∃ q ∈ qs, q.number = p.number ∧ q.message = p.message := by
  have honVisits : ∀ f, ∃ q ∈ Publish.onVisits f ps, q.number = p.number ∧ q.message = p.message := by
    intro f
    cases ps with
    | nil => cases hp
    | cons p' ps =>
      rcases List.mem_cons.mp hp with rfl | hp
      · exact ⟨_, List.mem_cons_self, rfl, rfl⟩
      · exact ⟨p, List.mem_cons_of_mem _ hp, rfl, rfl⟩
  cases h with
  | nothing => exact ⟨p, hp, rfl, rfl⟩
  | publish => exact ⟨p, List.mem_cons_of_mem _ hp, rfl, rfl⟩
  | visit => exact honVisits _
  | test => exact honVisits _
  | failed => exact honVisits _
  | sent => exact honVisits _

structure SendingIn (t : History) (i : Nat) (m : MessageFrame) (c : ServerClient) (ch : ChannelId)
    (p : Publish) (qs : List Publish) (v : Visit) (vs : List Visit) : Prop where
  publishes_eq : publishes i t = p :: qs
  number_eq : p.number = (publishes i t).length
  before : ∀ q ∈ qs, q.number < p.number
  message_eq : p.message = m
  visits_eq : p.visits = v :: vs
  client_eq : v.client = c
  seen_eq : v.seen.dataChannel c = some ch
  sent_eq : v.sent = none
  prefix_eq : ∃ rest, p.visited ++ rest = p.subscribers

theorem SendingIn.mem {i : Nat} {m : MessageFrame} {c : ServerClient} {ch : ChannelId} {p : Publish}
    {qs : List Publish} {v : Visit} {vs : List Visit} (hin : SendingIn t i m c ch p qs v vs) :
    p ∈ publishes i t := by
  rw [hin.publishes_eq]
  exact List.mem_cons_self

theorem sendingIn_of_run (h : Run capacity t s) {i : Nat} {src : Source} {m : MessageFrame}
    {c : ServerClient} {ch : ChannelId} {rest : List ServerClient}
    (hi : s.procs i = some (.pushing src m c ch rest .sending)) :
    ∃ p qs v vs, SendingIn t i m c ch p qs v vs := by
  have hstanding := standing_of_run h i
  have hnumbered := numbered_of_run h i
  rw [hi] at hstanding
  obtain ⟨p, qs, v, vs, hps, hm, hvisits, hc, hseen, hat, hvisited, -, -⟩ := hstanding
  rw [hps] at hnumbered
  refine ⟨p, qs, v, vs, hps, ?_, fun q hq => ?_, hm, hvisits, hc, hseen, hat.1, rest, hvisited⟩
  · rw [hps]
    exact hnumbered.1
  · rw [hnumbered.1]
    exact Nat.lt_succ_of_le (hnumbered.2.le_length hq)

theorem Label.publisher_of_pushing {src : Source} {m : MessageFrame} {c : ServerClient}
    {ch : ChannelId} {rest : List ServerClient} {pc : PushPc}
    (hbefore : l.before = some (.pushing src m c ch rest pc)) (t : History) :
    l.publisher t = some (l.id, (publishes l.id t).length) := by
  unfold Label.publisher
  rw [hbefore]

theorem Counted.step_named (hc : Counted t) (hr : Run capacity t s) (h : Step capacity s l s')
    {ch : ChannelId} {e : Entry} {i n : Nat} (hmem : e ∈ entered ch ((s, l) :: t))
    (he : e.publisher = some (i, n)) :
    ∃ p ∈ publishes i ((s, l) :: t), p.number = n ∧ p.message = e.message := by
  have hkept : ∀ p ∈ publishes i t, ∃ q ∈ publishes i ((s, l) :: t),
      q.number = p.number ∧ q.message = p.message := by
    intro p hp
    by_cases hid : l.id = i
    · subst hid
      rw [publishes_self (s, l)]
      exact (h.records _).kept hp
    · rw [publishes_of_ne (e := (s, l)) hid]
      exact ⟨p, hp, rfl, rfl⟩
  have hold : e ∈ entered ch t →
      ∃ p ∈ publishes i ((s, l) :: t), p.number = n ∧ p.message = e.message := by
    intro hmem
    obtain ⟨p, hp, hn, hm⟩ := hc.named ch e i n hmem he
    obtain ⟨q, hq, hqn, hqm⟩ := hkept p hp
    exact ⟨q, hq, hqn.trans hn, hqm.trans hm⟩
  by_cases heff : ∃ m, l.effect = .enqueue ch m
  · obtain ⟨m, heff⟩ := heff
    rw [entered_enqueue (e := (s, l)) heff] at hmem
    rcases List.mem_cons.mp hmem with rfl | hmem
    · rcases (h.enqueue_cases heff).2 with ⟨c, hbefore⟩ | ⟨src, c, rest, hbefore⟩
      · unfold Label.publisher at he
        dsimp only at he
        rw [hbefore] at he
        cases he
      · dsimp only at he
        rw [l.publisher_of_pushing hbefore t] at he
        obtain ⟨rfl, rfl⟩ := Prod.mk.inj (Option.some.inj he)
        obtain ⟨p, qs, v, vs, hin⟩ := sendingIn_of_run hr (h.before_eq.trans hbefore)
        obtain ⟨q, hq, hqn, hqm⟩ := hkept p hin.mem
        exact ⟨q, hq, hqn.trans hin.number_eq, hqm.trans hin.message_eq⟩
    · exact hold hmem
  · rw [entered_other (e := (s, l)) (not_exists.mp heff)] at hmem
    exact hold hmem

theorem Counted.step_sent (hc : Counted t) {m : MessageFrame} {c : ServerClient}
    {ch ch' : ChannelId} {p : Publish} {qs : List Publish} {v : Visit} {vs : List Visit}
    (hin : SendingIn t l.id m c ch' p qs v vs) (heff : l.effect = .enqueue ch' m)
    (hpublisher : l.publisher t = some (l.id, p.number)) {q : Publish}
    (hq : q ∈ Publish.onVisits (List.modifyHead fun v => { v with sent := some (s, true) })
      (publishes l.id t)) :
    (entered ch ((s, l) :: t)).countP (·.isOf l.id q.number) = q.visits.countP (·.enters ch) := by
  have hcounted := hc.counted l.id
  rw [hin.publishes_eq] at hq hcounted
  rcases List.mem_cons.mp hq with rfl | hq
  · have hp := hcounted p ch List.mem_cons_self
    rw [hin.visits_eq, List.countP_cons_of_neg (by
      rw [Visit.enters_of_sent_none hin.sent_eq]; exact Bool.false_ne_true)] at hp
    dsimp only
    rw [hin.visits_eq, List.modifyHead_cons]
    by_cases hch : ch' = ch
    · -- one more entry, and the visit under way has become one that entered
      subst hch
      rw [entered_enqueue (e := (s, l)) heff, List.countP_cons_of_pos, List.countP_cons_of_pos, hp]
      · unfold Visit.enters
        dsimp only
        rw [hin.client_eq, hin.seen_eq]
        exact Bool.and_true _ ▸ beq_self_eq_true _
      · unfold Entry.isOf
        rw [hpublisher]
        exact beq_self_eq_true _
    · rw [entered_other (e := (s, l)), List.countP_cons_of_neg, hp]
      · unfold Visit.enters
        dsimp only
        rw [hin.client_eq, hin.seen_eq]
        intro hentered
        have heq := (Bool.and_eq_true_iff.mp hentered).1
        exact hch (Option.some.inj (beq_iff_eq.mp heq))
      · intro m' heff'
        rw [heff] at heff'
        exact hch (Effect.enqueue.inj heff').1
  · rw [countP_entered_of_ne]
    · exact hcounted q ch (List.mem_cons_of_mem _ hq)
    · rw [hpublisher]
      intro heq
      exact (hin.before q hq).ne (Prod.mk.inj (Option.some.inj heq)).2.symm

theorem Counted.step_failed (hc : Counted t) {m : MessageFrame} {c : ServerClient}
    {ch ch' : ChannelId} {p : Publish} {qs : List Publish} {v : Visit} {vs : List Visit}
    (hin : SendingIn t l.id m c ch' p qs v vs) (hquiet : ∀ m, l.effect ≠ .enqueue ch m)
    {q : Publish}
    (hq : q ∈ Publish.onVisits (List.modifyHead fun v => { v with sent := some (s, false) })
      (publishes l.id t)) :
    (entered ch ((s, l) :: t)).countP (·.isOf l.id q.number) = q.visits.countP (·.enters ch) := by
  have hcounted := hc.counted l.id
  rw [entered_other (e := (s, l)) hquiet]
  rw [hin.publishes_eq] at hq hcounted
  rcases List.mem_cons.mp hq with rfl | hq
  · have hp := hcounted p ch List.mem_cons_self
    dsimp only
    rw [hp, hin.visits_eq, List.modifyHead_cons, List.countP_cons, List.countP_cons,
      Visit.enters_of_sent_none hin.sent_eq]
    unfold Visit.enters
    dsimp only
    rw [Option.any_some, Bool.and_false]
  · exact hcounted q ch (List.mem_cons_of_mem _ hq)

theorem Label.id_of_publisher {i n : Nat} (h : l.publisher t = some (i, n)) : l.id = i := by
  unfold Label.publisher at h
  split at h
  · exact (Prod.mk.inj (Option.some.inj h)).1
  · cases h

theorem Counted.countP_new (hc : Counted t) (hr : Run capacity t s) (i : Nat) (ch : ChannelId) :
    (entered ch t).countP (·.isOf i ((publishes i t).length + 1)) = 0 := by
  apply List.countP_eq_zero.mpr
  intro e he hof
  obtain ⟨p, hp, hn, -⟩ := hc.named ch e i _ he (beq_iff_eq.mp hof)
  have hle := (numbered_of_run hr i).le_length hp
  rw [hn] at hle
  exact Nat.not_succ_le_self _ hle

theorem Counted.step_counted (hc : Counted t) (hr : Run capacity t s) (h : Step capacity s l s')
    {i : Nat} {p : Publish} {ch : ChannelId} (hp : p ∈ publishes i ((s, l) :: t)) :
    (entered ch ((s, l) :: t)).countP (·.isOf i p.number) = p.visits.countP (·.enters ch) := by
  have hcounted := fun q => hc.counted i q ch
  by_cases hid : l.id = i
  · subst hid
    rw [publishes_self (s, l)] at hp
    have hrecords := h.records (publishes l.id t)
    dsimp only at hp
    generalize l.record s (publishes l.id t) = qs at hp hrecords
    cases hrecords with
    | nothing hsilent =>
      rw [hsilent.countP_entered]
      exact hcounted p hp
    | publish m subscribers hsub hsilent =>
      rw [hsilent.countP_entered]
      rcases List.mem_cons.mp hp with rfl | hp
      · exact hc.countP_new hr l.id ch
      · exact hcounted p hp
    | visit c hsilent =>
      rw [hsilent.countP_entered]
      refine Publish.forall_onVisits hcounted (fun q _ hq => ?_) p hp
      rw [hq]
      exact (List.countP_cons_of_neg (by
        rw [Visit.enters_of_sent_none rfl]; exact Bool.false_ne_true)).symm
    | test hsilent =>
      rw [hsilent.countP_entered]
      refine Publish.forall_onVisits hcounted (fun q _ hq => ?_) p hp
      have hsame : (q.visits.modifyHead fun v => { v with tested := some s }).countP
          (·.enters ch) = q.visits.countP (·.enters ch) := by
        apply countP_modifyHead
        exact fun _ => rfl
      exact hq.trans hsame.symm
    | failed src m c ch' rest hbefore heff =>
      obtain ⟨q, qs, v, vs, hin⟩ := sendingIn_of_run hr (h.before_eq.trans hbefore)
      have hquiet : ∀ m, l.effect ≠ .enqueue ch m := by
        rw [heff]
        exact nofun
      exact hc.step_failed hin hquiet hp
    | sent src m c ch' rest hbefore heff =>
      obtain ⟨q, qs, v, vs, hin⟩ := sendingIn_of_run hr (h.before_eq.trans hbefore)
      have hpublisher := l.publisher_of_pushing hbefore t
      rw [← hin.number_eq] at hpublisher
      exact hc.step_sent hin heff hpublisher hp
  · rw [publishes_of_ne (e := (s, l)) hid] at hp
    rw [countP_entered_of_ne]
    · exact hcounted p hp
    · exact fun hpublisher => hid (Label.id_of_publisher hpublisher)

theorem counted_of_run (h : Run capacity t s) : Counted t := by
  apply h.invariant (I := fun t _ => Counted t)
  · exact fun _ _ => ⟨nofun, nofun⟩
  · intro t s l s' hr hc hs
    exact ⟨fun _ _ _ hp => hc.step_counted hr hs hp,
      fun _ _ _ _ hmem he => hc.step_named hr hs hmem he⟩

/-- Of two entries of one publisher the later one is of a later publish. -/
def Later (later earlier : Entry) : Prop :=
  ∀ i n n', later.publisher = some (i, n) → earlier.publisher = some (i, n') → n' < n

theorem SendingIn.countP_eq_zero {i : Nat} {m : MessageFrame} {c : ServerClient} {ch : ChannelId}
    {p : Publish} {qs : List Publish} {v : Visit} {vs : List Visit}
    (hin : SendingIn t i m c ch p qs v vs) (hr : Run capacity t s) :
    p.visits.countP (·.enters ch) = 0 := by
  have hrecorded := recorded_of_run hr i p hin.mem
  have hmade := made_of_run hr
  have hseen : ∀ w ∈ p.visits, w.seen ∈ States t s :=
    fun w hw => List.mem_cons_of_mem _ (hrecorded.seen w hw)
  obtain ⟨rest, hvisited⟩ := hin.prefix_eq
  have hdistinct := hrecorded.distinct
  rw [← hvisited] at hdistinct
  have hclients := (List.pairwise_append.mp hdistinct).1
  unfold Publish.visited at hclients
  rw [List.pairwise_reverse, hin.visits_eq, List.map_cons, List.pairwise_cons] at hclients
  rw [hin.visits_eq] at hseen ⊢
  obtain ⟨hv, hvs⟩ := List.forall_mem_cons.mp hseen
  apply List.countP_eq_zero.mpr
  refine List.forall_mem_cons.mpr ⟨?_, fun w hw henters => ?_⟩
  · rw [Visit.enters_of_sent_none hin.sent_eq]
    exact Bool.false_ne_true
  · have hcell := beq_iff_eq.mp (Bool.and_eq_true_iff.mp henters).1
    have hseen_v := hin.seen_eq
    rw [← hin.client_eq] at hseen_v
    have hsame := hmade.unique _ _ ch (hmade.cell _ (hvs w hw) _ ch hcell)
      (hmade.cell _ hv _ ch hseen_v)
    have hne := hclients.1 w.client (List.mem_map_of_mem hw)
    rw [hsame] at hne
    exact hne rfl

theorem ordered_of_run (h : Run capacity t s) (ch : ChannelId) :
    (entered ch t).Pairwise Later := by
  induction h with
  | init => exact .nil
  | @step t s l s' hr hs ih =>
    by_cases heff : ∃ m, l.effect = .enqueue ch m
    · obtain ⟨m, heff⟩ := heff
      rw [entered_enqueue (e := (s, l)) heff, List.pairwise_cons]
      refine ⟨fun e he i n n' hlater hearlier => ?_, ih⟩
      dsimp only at hlater
      rcases (hs.enqueue_cases heff).2 with ⟨c, hbefore⟩ | ⟨src, c, rest, hbefore⟩
      · unfold Label.publisher at hlater
        rw [hbefore] at hlater
        cases hlater
      · rw [l.publisher_of_pushing hbefore t] at hlater
        obtain ⟨rfl, rfl⟩ := Prod.mk.inj (Option.some.inj hlater)
        obtain ⟨p, qs, v, vs, hin⟩ := sendingIn_of_run hr (hs.before_eq.trans hbefore)
        have hc := counted_of_run hr
        obtain ⟨q, hq, rfl, -⟩ := hc.named ch e _ n' he hearlier
        apply lt_of_le_of_ne ((numbered_of_run hr _).le_length hq)
        intro heq
        -- an entry of the publish under way would be one of its visits
        have hp : p ∈ publishes l.id t := by
          rw [hin.publishes_eq]
          exact List.mem_cons_self
        have hzero := hc.counted l.id p ch hp
        rw [hin.countP_eq_zero hr, List.countP_eq_zero] at hzero
        apply hzero e he
        unfold Entry.isOf
        rw [hearlier, heq, hin.number_eq]
        exact beq_self_eq_true _
    · rw [entered_other (e := (s, l)) (not_exists.mp heff)]
      exact ih

def Proc.Publishing : Proc → Prop
  | visiting _ _ _ => True
  | pushing _ _ _ _ _ _ => True
  | _ => False

def Ended (t : History) (s : State) (i : Nat) (p : Publish) : Prop :=
  p.number < (publishes i t).length ∨ ∀ q, s.procs i = some q → ¬ q.Publishing

def times (t : History) (ch : ChannelId) (i n : Nat) : Nat := (entered ch t).countP (·.isOf i n)

/-- What a visit that found a channel did: it found it full and dropped it; or it put the message
in, once; or the channel was closed when it sent. -/
def Visit.Outcome (capacity : Nat) (v : Visit) (ch : ChannelId) (count : Nat) : Prop :=
  ∃ σ, v.tested = some σ ∧
    ((capacity ≤ (σ.queue ch).length ∧ count = 0) ∨
      ((σ.queue ch).length < capacity ∧
        (count = 1 ∨ count = 0 ∧ ∃ σ', v.sent = some (σ', false) ∧ ¬ σ'.ReceiverHeld ch)))

structure Delivery (capacity : Nat) (t : History) (s : State) : Prop where
  fifo : ∀ ch, (entered ch t).reverse.map Entry.message = taken ch t ++ s.queue ch
  ordered : ∀ ch, (entered ch t).Pairwise Later
  once : ∀ ch i n, times t ch i n ≤ 1
  addressed : ∀ ch e i n, e ∈ entered ch t → e.publisher = some (i, n) →
    ∃ p ∈ publishes i t, p.number = n ∧ p.message = e.message ∧
      ∃ v ∈ p.visits, v.client ∈ p.subscribers ∧ v.seen.dataChannel v.client = some ch
  visited : ∀ i p, p ∈ publishes i t → Ended t s i p → ∀ c ∈ p.subscribers,
    ∃ v ∈ p.visits, v.client = c ∧ (∀ w ∈ p.visits, w.client = c → w = v) ∧
      ∀ ch, v.seen.dataChannel c = some ch → v.Outcome capacity ch (times t ch i p.number)

theorem once_of_run (h : Run capacity t s) (ch : ChannelId) (i n : Nat) : times t ch i n ≤ 1 := by
  unfold times
  rw [List.countP_eq_length_filter]
  have hordered := (ordered_of_run h ch).filter (·.isOf i n)
  have hof : ∀ e ∈ (entered ch t).filter (·.isOf i n), e.publisher = some (i, n) :=
    fun e he => beq_iff_eq.mp (List.mem_filter.mp he).2
  generalize (entered ch t).filter (·.isOf i n) = entries at hordered hof ⊢
  match entries with
  | [] => exact Nat.zero_le _
  | [_] => exact Nat.le_refl _
  | e :: e' :: rest =>
    -- two entries of one publish would be before each other
    have hlater := List.rel_of_pairwise_cons hordered List.mem_cons_self
    have hlt := hlater i n n (hof e List.mem_cons_self)
      (hof e' (List.mem_cons_of_mem _ List.mem_cons_self))
    exact absurd hlt (Nat.lt_irrefl n)

theorem client_of_seen (h : Run capacity t s) {i : Nat} {p : Publish} (hp : p ∈ publishes i t)
    {v w : Visit} (hv : v ∈ p.visits) (hw : w ∈ p.visits) {ch : ChannelId}
    (hseen : v.seen.dataChannel v.client = some ch)
    (hseen' : w.seen.dataChannel w.client = some ch) : w.client = v.client := by
  have hrecorded := recorded_of_run h i p hp
  have hmade := made_of_run h
  exact hmade.unique _ _ ch
    (hmade.cell _ (List.mem_cons_of_mem _ (hrecorded.seen w hw)) _ ch hseen')
    (hmade.cell _ (List.mem_cons_of_mem _ (hrecorded.seen v hv)) _ ch hseen)

theorem Visit.seen_of_enters {v : Visit} {ch : ChannelId} (h : v.enters ch = true) :
    v.seen.dataChannel v.client = some ch := beq_iff_eq.mp (Bool.and_eq_true_iff.mp h).1

theorem addressed_of_run (h : Run capacity t s) {ch : ChannelId} {e : Entry} {i n : Nat}
    (he : e ∈ entered ch t) (hpublisher : e.publisher = some (i, n)) :
    ∃ p ∈ publishes i t, p.number = n ∧ p.message = e.message ∧
      ∃ v ∈ p.visits, v.client ∈ p.subscribers ∧ v.seen.dataChannel v.client = some ch := by
  have hc := counted_of_run h
  obtain ⟨p, hp, rfl, hm⟩ := hc.named ch e i n he hpublisher
  have hpos : 0 < (entered ch t).countP (·.isOf i p.number) :=
    List.countP_pos_iff.mpr ⟨e, he, beq_iff_eq.mpr hpublisher⟩
  rw [hc.counted i p ch hp, List.countP_pos_iff] at hpos
  obtain ⟨v, hv, henters⟩ := hpos
  refine ⟨p, hp, rfl, hm, v, hv, ?_, Visit.seen_of_enters henters⟩
  have hprefix : ∃ rest, p.visited ++ rest = p.subscribers := by
    have hstanding := standing_of_run h i
    generalize s.procs i = q at hstanding
    generalize publishes i t = ps at hp hstanding
    unfold Standing at hstanding
    split at hstanding
    · obtain ⟨p', qs, rfl, -, hvisited, -, hqs⟩ := hstanding
      rcases List.mem_cons.mp hp with rfl | hp
      · exact ⟨_, hvisited⟩
      · exact ⟨[], (List.append_nil _).trans (hqs p hp).visited⟩
    · obtain ⟨p', qs, v', vs, rfl, -, -, -, -, -, hvisited, -, hqs⟩ := hstanding
      rcases List.mem_cons.mp hp with rfl | hp
      · exact ⟨_, hvisited⟩
      · exact ⟨[], (List.append_nil _).trans (hqs p hp).visited⟩
    · exact ⟨[], (List.append_nil _).trans (hstanding p hp).visited⟩
  obtain ⟨rest, hvisited⟩ := hprefix
  rw [← hvisited]
  apply List.mem_append_left
  exact List.mem_reverse.mpr (List.mem_map_of_mem hv)

theorem delivered_of_run (h : Run capacity t s) {i : Nat} {p : Publish} (hp : p ∈ publishes i t)
    (hended : Ended t s i p) : p.Delivered capacity := by
  have hstanding := standing_of_run h i
  have hnumbered := numbered_of_run h i
  have hearlier : ∀ p' qs, publishes i t = p' :: qs → (∀ q ∈ qs, q.Delivered capacity) →
      p.number < (publishes i t).length → p.Delivered capacity := by
    intro p' qs hps hqs hlt
    rw [hps] at hp hlt hnumbered
    rcases List.mem_cons.mp hp with rfl | hp
    · rw [hnumbered.1] at hlt
      exact absurd hlt (Nat.lt_irrefl _)
    · exact hqs p hp
  cases hproc : s.procs i with
  | none =>
    rw [hproc] at hstanding
    exact hstanding p hp
  | some q =>
    rw [hproc] at hstanding
    have hpublishing : q.Publishing → p.number < (publishes i t).length := fun hq =>
      hended.resolve_right fun hidle => hidle q hproc hq
    cases q with
    | visiting =>
      obtain ⟨p', qs, hps, -, -, -, hqs⟩ := hstanding
      exact hearlier p' qs hps hqs (hpublishing trivial)
    | pushing =>
      obtain ⟨p', qs, v, vs, hps, -, -, -, -, -, -, -, hqs⟩ := hstanding
      exact hearlier p' qs hps hqs (hpublishing trivial)
    | _ => exact hstanding p hp

theorem outcome_of_run (h : Run capacity t s) {i : Nat} {p : Publish} (hp : p ∈ publishes i t)
    {v : Visit} (hv : v ∈ p.visits) (hunique : ∀ w ∈ p.visits, w.client = v.client → w = v)
    (hsettled : v.Settled capacity) {ch : ChannelId}
    (hseen : v.seen.dataChannel v.client = some ch) :
    v.Outcome capacity ch (times t ch i p.number) := by
  have hcounted : times t ch i p.number = p.visits.countP (·.enters ch) :=
    (counted_of_run h).counted i p ch hp
  have hzero : v.enters ch = false → times t ch i p.number = 0 := by
    intro hnot
    rw [hcounted, List.countP_eq_zero]
    intro w hw henters
    have hsame := client_of_seen h hp hv hw hseen (Visit.seen_of_enters henters)
    rw [hunique w hw hsame, hnot] at henters
    cases henters
  unfold Visit.Settled at hsettled
  rw [hseen] at hsettled
  obtain ⟨σ, htested, ⟨hfull, hsent⟩ | ⟨hroom, σ', hsent | ⟨hsent, hclosed⟩⟩⟩ := hsettled
  · exact ⟨σ, htested, .inl ⟨hfull, hzero (Visit.enters_of_sent_none hsent ch)⟩⟩
  · refine ⟨σ, htested, .inr ⟨hroom, .inl ?_⟩⟩
    have henters : v.enters ch = true := by
      unfold Visit.enters
      rw [hseen, hsent]
      exact Bool.and_true _ ▸ beq_self_eq_true _
    apply le_antisymm (once_of_run h ch i p.number)
    rw [hcounted]
    exact List.countP_pos_iff.mpr ⟨v, hv, henters⟩
  · refine ⟨σ, htested, .inr ⟨hroom, .inr ⟨hzero ?_, σ', hsent, hclosed⟩⟩⟩
    unfold Visit.enters
    rw [hsent]
    exact Bool.and_false _

/-- In every run, whatever is published is delivered once, to the channels the subscribers had, and
in the order of each publisher. -/
theorem delivery (h : Run capacity t s) : Delivery capacity t s where
  fifo := (fifo_of_run h).queued
  ordered := ordered_of_run h
  once := once_of_run h
  addressed _ _ _ _ he hpublisher := addressed_of_run h he hpublisher
  visited i p hp hended c hc := by
    have hdelivered := delivered_of_run h hp hended
    have hdistinct := (recorded_of_run h i p hp).distinct
    rw [← hdelivered.visited] at hdistinct hc
    have hnodup : (p.visits.map Visit.client).Nodup := by
      rw [← List.nodup_reverse]
      exact hdistinct.imp fun hne heq => hne (congrArg _ heq)
    obtain ⟨v, hv, rfl⟩ := List.mem_map.mp (List.mem_reverse.mp hc)
    have hunique : ∀ w ∈ p.visits, w.client = v.client → w = v :=
      fun w hw heq => List.inj_on_of_nodup_map hnodup hw hv heq
    exact ⟨v, hv, rfl, hunique, fun ch hseen =>
      outcome_of_run h hp hv hunique (hdelivered.settled v hv) hseen⟩

theorem delivery_sample : ∃ t s, Run 1 t s ∧
    (entered 0 t).map Entry.publisher = [some (1, 1)] ∧ Delivery 1 t s := by
  have h : Run 1 _ _ := .step (.init rfl) (.start 0 _ _ rfl (.login sampleClient rfl rfl))
  have h : Run 1 _ _ := .step h (.start 1 _ _ rfl .listener)
  have h : Run 1 _ _ := .step h (.start 2 _ _ rfl (.request sampleClient.token))
  have h : Run 1 _ _ := .step h (.move 2 _ _ _ rfl (.register _ sampleClient rfl))
  have h : Run 1 _ _ :=
    .step h (.move 1 _ _ _ rfl (.publishUdp emptyMessage _ (.singleton sampleClient rfl)))
  have h : Run 1 _ _ := .step h (.move 1 _ _ _ rfl (.find _ _ _ _ 0 rfl))
  have h : Run 1 _ _ := .step h (.move 1 _ _ _ rfl (.hasRoom _ _ _ _ _ Nat.one_pos))
  have h : Run 1 _ _ :=
    .step h (.move 1 _ _ _ rfl (.send _ _ _ _ _ ⟨2, _, rfl, rfl⟩ Nat.one_pos))
  have h : Run 1 _ _ := .step h (.move 1 _ _ _ rfl (.pushedUdp _))
  exact ⟨_, _, h, rfl, delivery h⟩

end Psrt.DataChannel

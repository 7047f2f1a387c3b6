import Psrt.DataChannel.Stall

/-! What a history says of each publisher: its publishes one after the other, and for each of them
the subscribers visited so far and how each visit went. -/

namespace Psrt.DataChannel
open Wire

variable {capacity : Nat} {s s' : State} {l : Label} {t : History}

/-- One turn of the loop of `push_to_subscribers`: the state in which the cell was read, the one in
which `is_full` was asked, and the one in which `send` ended, with a message sent or not. -/
structure Visit where
  client : ServerClient
  seen : State
  tested : Option State
  sent : Option (State × Bool)

structure Publish where
  number : Nat
  message : MessageFrame
  subscribers : List ServerClient
  visits : List Visit

namespace Publish

def visited (p : Publish) : List ServerClient := (p.visits.map Visit.client).reverse

def onVisits (f : List Visit → List Visit) : List Publish → List Publish
  | [] => []
  | p :: ps => { p with visits := f p.visits } :: ps

end Publish

def Label.record (l : Label) (s : State) (ps : List Publish) : List Publish :=
  match l.before, l.after with
  | some (.session _ _), .visiting _ message subscribers =>
    ⟨ps.length + 1, message, subscribers, []⟩ :: ps
  | some .listener, .visiting _ message subscribers =>
    ⟨ps.length + 1, message, subscribers, []⟩ :: ps
  | some (.visiting _ _ (c :: _)), _ => Publish.onVisits (⟨c, s, none, none⟩ :: ·) ps
  | some (.pushing _ _ _ _ _ .found), _ =>
    Publish.onVisits (List.modifyHead fun v => { v with tested := some s }) ps
  | some (.pushing _ _ _ _ _ .sending), _ =>
    Publish.onVisits
      (List.modifyHead fun v => { v with sent := some (s, decide (l.effect ≠ .quiet)) }) ps
  | _, _ => ps

def publishes (i : Nat) : History → List Publish
  | [] => []
  | (s, l) :: t => if l.id = i then l.record s (publishes i t) else publishes i t

theorem publishes_self (e : State × Label) (t : History) :
    publishes e.2.id (e :: t) = e.2.record e.1 (publishes e.2.id t) := if_pos rfl

theorem publishes_of_ne {i : Nat} {e : State × Label} (h : e.2.id ≠ i) :
    publishes i (e :: t) = publishes i t := if_neg h

/-- The visit is over: the client had no channel; or the channel was found full and nothing was
sent; or it had room and the message was sent, unless the channel was closed. -/
def Visit.Settled (capacity : Nat) (v : Visit) : Prop :=
  match v.seen.dataChannel v.client with
  | none => v.tested = none ∧ v.sent = none
  | some ch => ∃ σ, v.tested = some σ ∧
      ((capacity ≤ (σ.queue ch).length ∧ v.sent = none) ∨
        ((σ.queue ch).length < capacity ∧
          ∃ σ', v.sent = some (σ', true) ∨ (v.sent = some (σ', false) ∧ ¬ σ'.ReceiverHeld ch)))

structure Publish.Delivered (capacity : Nat) (p : Publish) : Prop where
  visited : p.visited = p.subscribers
  settled : ∀ v ∈ p.visits, v.Settled capacity

def Visit.At (capacity : Nat) (v : Visit) (ch : ChannelId) : PushPc → Prop
  | .found => v.tested = none ∧ v.sent = none
  | .sending => v.sent = none ∧ ∃ σ, v.tested = some σ ∧ (σ.queue ch).length < capacity
  | _ => v.sent = none ∧ ∃ σ, v.tested = some σ ∧ capacity ≤ (σ.queue ch).length

def Standing (capacity : Nat) (ps : List Publish) : Option Proc → Prop
  | some (.visiting _ message rest) => ∃ p qs, ps = p :: qs ∧ p.message = message ∧
      p.visited ++ rest = p.subscribers ∧ (∀ v ∈ p.visits, v.Settled capacity) ∧
      ∀ q ∈ qs, q.Delivered capacity
  | some (.pushing _ message c ch rest pc) => ∃ p qs v vs, ps = p :: qs ∧ p.message = message ∧
      p.visits = v :: vs ∧ v.client = c ∧ v.seen.dataChannel c = some ch ∧ v.At capacity ch pc ∧
      p.visited ++ rest = p.subscribers ∧ (∀ v ∈ vs, v.Settled capacity) ∧
      ∀ q ∈ qs, q.Delivered capacity
  | _ => ∀ q ∈ ps, q.Delivered capacity

theorem Publish.visited_cons (p : Publish) (v : Visit) :
    Publish.visited { p with visits := v :: p.visits } = p.visited ++ [v.client] := by
  unfold Publish.visited
  rw [List.map_cons, List.reverse_cons]

theorem Visit.settled_of_full {v : Visit} {ch : ChannelId}
    (hseen : v.seen.dataChannel v.client = some ch) (h : v.At capacity ch .dropped) :
    v.Settled capacity := by
  obtain ⟨hsent, σ, htested, hfull⟩ := h
  unfold Visit.Settled
  rw [hseen]
  exact ⟨σ, htested, .inl ⟨hfull, hsent⟩⟩

theorem Visit.settled_of_sent {v : Visit} {ch : ChannelId} {σ : State} {ok : Bool}
    (hseen : v.seen.dataChannel v.client = some ch) (h : v.At capacity ch .sending)
    (hok : ok = true ∨ ok = false ∧ ¬ σ.ReceiverHeld ch) :
    Visit.Settled capacity { v with sent := some (σ, ok) } := by
  obtain ⟨-, σ', htested, hroom⟩ := h
  unfold Visit.Settled
  dsimp only
  rw [hseen]
  refine ⟨σ', htested, .inr ⟨hroom, σ, ?_⟩⟩
  rcases hok with rfl | ⟨rfl, hclosed⟩
  · exact .inl rfl
  · exact .inr ⟨rfl, hclosed⟩

theorem standing_of_settled {p : Publish} {qs : List Publish} {v : Visit} {vs : List Visit}
    {src : Source} {m : MessageFrame} {rest : List ServerClient} (f : Visit → Visit)
    (hm : p.message = m) (hvisits : p.visits = v :: vs) (hclient : (f v).client = v.client)
    (hvisited : p.visited ++ rest = p.subscribers) (hv : (f v).Settled capacity)
    (hvs : ∀ v ∈ vs, v.Settled capacity) (hqs : ∀ q ∈ qs, q.Delivered capacity) :
    Standing capacity (Publish.onVisits (List.modifyHead f) (p :: qs))
      (some (.visiting src m rest)) := by
  refine ⟨_, qs, rfl, hm, ?_, ?_, hqs⟩
  · rw [← hvisited]
    unfold Publish.visited
    dsimp only
    rw [hvisits, List.modifyHead_cons, List.map_cons, List.map_cons, hclient]
  · dsimp only
    rw [hvisits, List.modifyHead_cons]
    exact List.forall_mem_cons.mpr ⟨hv, hvs⟩

theorem standing_of_at {p : Publish} {qs : List Publish} {v : Visit} {vs : List Visit}
    {src : Source} {m : MessageFrame} {c : ServerClient} {ch : ChannelId}
    {rest : List ServerClient} {pc : PushPc} (f : Visit → Visit)
    (hm : p.message = m) (hvisits : p.visits = v :: vs) (hclient : (f v).client = v.client)
    (hc : v.client = c) (hseen : (f v).seen.dataChannel c = some ch) (hat : (f v).At capacity ch pc)
    (hvisited : p.visited ++ rest = p.subscribers)
    (hvs : ∀ v ∈ vs, v.Settled capacity) (hqs : ∀ q ∈ qs, q.Delivered capacity) :
    Standing capacity (Publish.onVisits (List.modifyHead f) (p :: qs))
      (some (.pushing src m c ch rest pc)) := by
  refine ⟨_, qs, f v, vs, rfl, hm, ?_, hclient.trans hc, hseen, hat, ?_, hvs, hqs⟩
  · dsimp only
    rw [hvisits, List.modifyHead_cons]
  · rw [← hvisited]
    unfold Publish.visited
    dsimp only
    rw [hvisits, List.modifyHead_cons, List.map_cons, List.map_cons, hclient]

theorem Move.standing {i : Nat} {p p' : Proc} {eff : Effect} (h : Move capacity s i p eff p')
    {ps : List Publish} (hps : Standing capacity ps (some p)) :
    Standing capacity (Label.record ⟨i, some p, eff, p'⟩ s ps) (some p') := by
  cases h with
  | publishControl c m subscribers => exact ⟨_, ps, rfl, rfl, rfl, nofun, hps⟩
  | publishUdp m subscribers => exact ⟨_, ps, rfl, rfl, rfl, nofun, hps⟩
  | skip src m c rest hnone =>
    obtain ⟨p, qs, rfl, hm, hvisited, hsettled, hqs⟩ := hps
    refine ⟨_, qs, rfl, hm, ?_, ?_, hqs⟩
    · rw [Publish.visited_cons, List.append_assoc]
      exact hvisited
    · refine List.forall_mem_cons.mpr ⟨?_, hsettled⟩
      unfold Visit.Settled
      rw [hnone]
      exact ⟨rfl, rfl⟩
  | find src m c rest ch hsome =>
    obtain ⟨p, qs, rfl, hm, hvisited, hsettled, hqs⟩ := hps
    refine ⟨_, qs, _, p.visits, rfl, hm, rfl, rfl, hsome, ⟨rfl, rfl⟩, ?_, hsettled, hqs⟩
    rw [Publish.visited_cons, List.append_assoc]
    exact hvisited
  | isFull src m c ch rest hfull =>
    obtain ⟨p, qs, v, vs, rfl, hm, hvisits, hc, hseen, ⟨-, hsent⟩, hvisited, hvs, hqs⟩ := hps
    exact standing_of_at _ hm hvisits rfl hc hseen ⟨hsent, s, rfl, hfull⟩ hvisited hvs hqs
  | hasRoom src m c ch rest hroom =>
    obtain ⟨p, qs, v, vs, rfl, hm, hvisits, hc, hseen, ⟨-, hsent⟩, hvisited, hvs, hqs⟩ := hps
    exact standing_of_at _ hm hvisits rfl hc hseen ⟨hsent, s, rfl, hroom⟩ hvisited hvs hqs
  | unregisterFull => exact hps
  | abortFull src m c ch rest =>
    obtain ⟨p, qs, v, vs, rfl, hm, hvisits, rfl, hseen, hat, hvisited, hvs, hqs⟩ := hps
    refine ⟨p, qs, rfl, hm, hvisited, ?_, hqs⟩
    rw [hvisits]
    exact List.forall_mem_cons.mpr ⟨Visit.settled_of_full hseen hat, hvs⟩
  | send src m c ch rest hopen hroom =>
    obtain ⟨p, qs, v, vs, rfl, hm, hvisits, rfl, hseen, hat, hvisited, hvs, hqs⟩ := hps
    exact standing_of_settled _ hm hvisits rfl hvisited
      (Visit.settled_of_sent hseen hat (.inl rfl)) hvs hqs
  | sendFailed src m c ch rest hclosed =>
    obtain ⟨p, qs, v, vs, rfl, hm, hvisits, rfl, hseen, hat, hvisited, hvs, hqs⟩ := hps
    exact standing_of_settled _ hm hvisits rfl hvisited
      (Visit.settled_of_sent hseen hat (.inr ⟨rfl, hclosed⟩)) hvs hqs
  | pushedControl c m =>
    obtain ⟨p, qs, rfl, -, hvisited, hsettled, hqs⟩ := hps
    exact List.forall_mem_cons.mpr ⟨⟨(List.append_nil _).symm.trans hvisited, hsettled⟩, hqs⟩
  | pushedUdp m =>
    obtain ⟨p, qs, rfl, -, hvisited, hsettled, hqs⟩ := hps
    exact List.forall_mem_cons.mpr ⟨⟨(List.append_nil _).symm.trans hvisited, hsettled⟩, hqs⟩
  | _ => exact hps

theorem standing_of_run (h : Run capacity t s) (i : Nat) :
    Standing capacity (publishes i t) (s.procs i) := by
  induction h with
  | init h =>
    rw [h]
    exact nofun
  | @step t s l s' hr hs ih =>
    by_cases hid : l.id = i
    · subst hid
      rw [hs.procs_after, publishes_self (s, l)]
      cases hs with
      | start j eff p hfree hstart =>
        rw [hfree] at ih
        cases hstart with
        | _ => exact ih
      | move j p eff p' hp hmove =>
        rw [hp] at ih
        exact hmove.standing ih
    · rw [publishes_of_ne (e := (s, l)) hid]
      cases hold : s.procs i with
      | some p =>
        rw [hold] at ih
        rw [hs.procs_of_ne hold (Ne.symm hid)]
        exact ih
      | none =>
        rw [hold] at ih
        cases hnew : s'.procs i with
        | none => exact ih
        | some q =>
          rcases hs.procs_cases hnew with ⟨hil, -⟩ | ⟨-, hold'⟩ | heff
          · exact absurd hil.symm hid
          · rw [hold] at hold'
            cases hold'
          · obtain ⟨c, ch, -, ⟨-, rfl, -⟩ | ⟨-, rfl, -⟩⟩ := hs.spawn_cases heff
            · exact ih
            · exact ih

def Label.Silent (l : Label) : Prop :=
  ∀ ch m, l.effect = .enqueue ch m → ∃ c, l.before = some (.pinger c ch)

inductive Records (s : State) (l : Label) (ps : List Publish) : List Publish → Prop
  | nothing (hsilent : l.Silent) : Records s l ps ps
  | publish (m subscribers) (h : s.Subscribers subscribers) (hsilent : l.Silent) :
      Records s l ps (⟨ps.length + 1, m, subscribers, []⟩ :: ps)
  | visit (c) (hsilent : l.Silent) : Records s l ps (Publish.onVisits (⟨c, s, none, none⟩ :: ·) ps)
  | test (hsilent : l.Silent) : Records s l ps
      (Publish.onVisits (List.modifyHead fun v => { v with tested := some s }) ps)
  | failed (src m c ch rest) (hbefore : l.before = some (.pushing src m c ch rest .sending))
      (heff : l.effect = .quiet) : Records s l ps
      (Publish.onVisits (List.modifyHead fun v => { v with sent := some (s, false) }) ps)
  | sent (src m c ch rest) (hbefore : l.before = some (.pushing src m c ch rest .sending))
      (heff : l.effect = .enqueue ch m) : Records s l ps
      (Publish.onVisits (List.modifyHead fun v => { v with sent := some (s, true) }) ps)

theorem Step.records (h : Step capacity s l s') (ps : List Publish) :
    Records s l ps (l.record s ps) := by
  cases h with
  | start i eff p hfree hstart =>
    cases hstart with
    | _ => exact .nothing nofun
  | move i p eff p' hp hmove =>
    cases hmove with
    | ping c ch =>
      refine .nothing fun ch' m heff => ?_
      obtain ⟨rfl, -⟩ := Effect.enqueue.inj heff
      exact ⟨c, rfl⟩
    | publishControl c m subscribers hsub => exact .publish m subscribers hsub nofun
    | publishUdp m subscribers hsub => exact .publish m subscribers hsub nofun
    | skip src m c => exact .visit c nofun
    | find src m c => exact .visit c nofun
    | isFull => exact .test nofun
    | hasRoom => exact .test nofun
    | send src m c ch rest => exact .sent src m c ch rest rfl rfl
    | sendFailed src m c ch rest => exact .failed src m c ch rest rfl rfl
    | _ => exact .nothing nofun

def Numbered : List Publish → Prop
  | [] => True
  | p :: qs => p.number = qs.length + 1 ∧ Numbered qs

theorem Numbered.le_length {ps : List Publish} (h : Numbered ps) {p : Publish} (hp : p ∈ ps) :
    p.number ≤ ps.length := by
  induction ps with
  | nil => cases hp
  | cons q qs ih =>
    rcases List.mem_cons.mp hp with rfl | hp
    · exact h.1.le
    · exact (ih h.2 hp).trans (Nat.le_succ _)

theorem Publish.forall_onVisits {P : Publish → Prop} {f : List Visit → List Visit}
    {ps : List Publish} (h : ∀ p ∈ ps, P p)
    (hf : ∀ p ∈ ps, P p → P { p with visits := f p.visits }) :
    ∀ p ∈ Publish.onVisits f ps, P p := by
  cases ps with
  | nil => exact h
  | cons p qs =>
    obtain ⟨hp, hqs⟩ := List.forall_mem_cons.mp h
    exact List.forall_mem_cons.mpr ⟨hf p List.mem_cons_self hp, hqs⟩

theorem Numbered.onVisits {ps : List Publish} (h : Numbered ps) (f : List Visit → List Visit) :
    Numbered (Publish.onVisits f ps) := by
  cases ps with
  | nil => exact h
  | cons p qs => exact h

theorem Records.numbered {ps qs : List Publish} (h : Records s l ps qs) (hps : Numbered ps) :
    Numbered qs := by
  cases h with
  | nothing => exact hps
  | publish => exact ⟨rfl, hps⟩
  | visit => exact hps.onVisits _
  | test => exact hps.onVisits _
  | failed => exact hps.onVisits _
  | sent => exact hps.onVisits _

theorem numbered_of_run (h : Run capacity t s) (i : Nat) : Numbered (publishes i t) := by
  induction h with
  | init => trivial
  | @step t s l s' hr hs ih =>
    by_cases hid : l.id = i
    · subst hid
      rw [publishes_self (s, l)]
      exact (hs.records _).numbered ih
    · rw [publishes_of_ne (e := (s, l)) hid]
      exact ih

structure Publish.Recorded (t : History) (p : Publish) : Prop where
  distinct : p.subscribers.Pairwise fun c c' => c.digest ≠ c'.digest
  seen : ∀ v ∈ p.visits, v.seen ∈ t.map Prod.fst

theorem Publish.Recorded.mono {p : Publish} (h : p.Recorded t) (e : State × Label) :
    p.Recorded (e :: t) where
  distinct := h.distinct
  seen v hv := List.mem_cons_of_mem _ (h.seen v hv)

theorem Publish.Recorded.modifyHead {p : Publish} (h : p.Recorded t) {f : Visit → Visit}
    (hf : ∀ v, (f v).seen = v.seen) :
    Publish.Recorded t { p with visits := p.visits.modifyHead f } where
  distinct := h.distinct
  seen := by
    have hseen := h.seen
    dsimp only
    cases hvisits : p.visits with
    | nil => exact nofun
    | cons v vs =>
      rw [hvisits] at hseen
      obtain ⟨hv, hvs⟩ := List.forall_mem_cons.mp hseen
      rw [List.modifyHead_cons]
      exact List.forall_mem_cons.mpr ⟨(hf v).symm ▸ hv, hvs⟩

theorem Records.recorded {ps qs : List Publish} (h : Records s l ps qs)
    (hps : ∀ p ∈ ps, p.Recorded t) : ∀ p ∈ qs, p.Recorded ((s, l) :: t) := by
  have hmono : ∀ p ∈ ps, p.Recorded ((s, l) :: t) := fun p hp => (hps p hp).mono _
  cases h with
  | nothing => exact hmono
  | publish m subscribers hsub =>
    exact List.forall_mem_cons.mpr ⟨⟨hsub.distinct, nofun⟩, hmono⟩
  | visit c =>
    refine Publish.forall_onVisits hmono fun p _ hp => ⟨hp.distinct, ?_⟩
    exact List.forall_mem_cons.mpr ⟨List.mem_cons_self, hp.seen⟩
  | test => exact Publish.forall_onVisits hmono fun p _ hp => hp.modifyHead fun _ => rfl
  | failed => exact Publish.forall_onVisits hmono fun p _ hp => hp.modifyHead fun _ => rfl
  | sent => exact Publish.forall_onVisits hmono fun p _ hp => hp.modifyHead fun _ => rfl

theorem recorded_of_run (h : Run capacity t s) (i : Nat) :
    ∀ p ∈ publishes i t, p.Recorded t := by
  induction h with
  | init => exact nofun
  | @step t s l s' hr hs ih =>
    by_cases hid : l.id = i
    · subst hid
      rw [publishes_self (s, l)]
      exact (hs.records _).recorded ih
    · rw [publishes_of_ne (e := (s, l)) hid]
      exact fun p hp => (ih p hp).mono _

end Psrt.DataChannel

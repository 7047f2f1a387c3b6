import Psrt.DataChannel.Stall

/-! Channel ownership: who removes a client's data channel, or aborts its tasks. -/

namespace Psrt.DataChannel
open Wire

variable {capacity : Nat} {s s' : State} {l : Label} {t : History}

def Proc.StreamTask (client : ServerClient) (channel : ChannelId) : Proc → Prop
  | pinger c ch => c = client ∧ ch = channel
  | data c ch _ => c = client ∧ ch = channel
  | _ => False

def Removes (s : State) (l : Label) (c : ServerClient) (ch : ChannelId) : Prop :=
  s.dataChannel c = some ch ∧ (s.apply l.effect).dataChannel c ≠ some ch

def StopsTask (s : State) (l : Label) (c : ServerClient) (ch : ChannelId) : Prop :=
  ∃ j p, s.procs j = some p ∧ p.StreamTask c ch ∧ s.aborted j = false ∧
    (s.apply l.effect).aborted j = true

def FoundFull (capacity : Nat) (t : History) (i : Nat) (src : Source) (m : MessageFrame)
    (c : ServerClient) (ch : ChannelId) (rest : List ServerClient) : Prop :=
  ∃ σ, (σ, ⟨i, some (.pushing src m c ch rest .found), .quiet, .pushing src m c ch rest .full⟩) ∈ t ∧
    capacity ≤ (σ.queue ch).length

/-- What may remove a channel or abort its tasks: a push that found that channel full, the channel's
own data task after an error, or the client's disconnect. -/
inductive Cause (capacity : Nat) (t : History) (l : Label) (c : ServerClient) (ch : ChannelId) : Prop
  | push (src m rest pc) (hbefore : l.before = some (.pushing src m c ch rest pc))
      (hfull : FoundFull capacity t l.id src m c ch rest)
  | failed (hbefore : l.before = some (.data c ch .failing))
  | left (hbefore : l.before = some (.session c true))
  | dropped (heff : l.effect = .drop c)

/-- Every channel removed and every task aborted in the run so far had its cause. -/
def Accountable (capacity : Nat) : History → Prop
  | [] => True
  | (s, l) :: t => (∀ c ch, Removes s l c ch ∨ StopsTask s l c ch → Cause capacity t l c ch) ∧
      Accountable capacity t

/-- The step's unregister finds its own channel under the token, or none; its abort finds tasks of
its own channel, or such as have ended. -/
def HitsOwn (s : State) (l : Label) : Prop :=
  match l.before with
  | some (.pushing _ _ c ch _ .full) => ∀ c', s.clientsByToken c.token = some c' →
      (c' = c ∧ s.dataChannel c = some ch) ∨ s.dataChannel c' = none
  | some (.data c ch .failing) => ∀ c', s.clientsByToken c.token = some c' →
      (c' = c ∧ s.dataChannel c = some ch) ∨ s.dataChannel c' = none
  | some (.pushing _ _ c ch _ .dropped) => ∀ j ∈ s.tasks c, ∀ p, s.procs j = some p →
      p.StreamTask c ch ∨ p = .finished ∨ s.aborted j = true
  | _ => True

theorem Cause.eq_of_pushing {c c' : ServerClient} {ch ch' : ChannelId}
    (h : Cause capacity t l c ch) {src : Source} {m : MessageFrame} {rest : List ServerClient}
    {pc : PushPc} (hbefore : l.before = some (.pushing src m c' ch' rest pc))
    (hdrop : ∀ c, l.effect ≠ .drop c) : c = c' ∧ ch = ch' := by
  cases h with
  | push _ _ _ _ hbefore' =>
    rw [hbefore] at hbefore'
    obtain ⟨-, -, rfl, rfl, -⟩ := Proc.pushing.inj (Option.some.inj hbefore')
    exact ⟨rfl, rfl⟩
  | failed hbefore' =>
    rw [hbefore] at hbefore'
    cases hbefore'
  | left hbefore' =>
    rw [hbefore] at hbefore'
    cases hbefore'
  | dropped heff => exact absurd heff (hdrop c)

theorem Cause.eq_of_failing {c c' : ServerClient} {ch ch' : ChannelId}
    (h : Cause capacity t l c ch) (hbefore : l.before = some (.data c' ch' .failing))
    (hdrop : ∀ c, l.effect ≠ .drop c) : c = c' ∧ ch = ch' := by
  cases h with
  | push _ _ _ _ hbefore' =>
    rw [hbefore] at hbefore'
    cases hbefore'
  | failed hbefore' =>
    rw [hbefore] at hbefore'
    obtain ⟨rfl, rfl, -⟩ := Proc.data.inj (Option.some.inj hbefore')
    exact ⟨rfl, rfl⟩
  | left hbefore' =>
    rw [hbefore] at hbefore'
    cases hbefore'
  | dropped heff => exact absurd heff (hdrop c)

theorem FoundFull.cons {i : Nat} {src : Source} {m : MessageFrame} {c : ServerClient}
    {ch : ChannelId} {rest : List ServerClient} (h : FoundFull capacity t i src m c ch rest)
    (e : State × Label) : FoundFull capacity (e :: t) i src m c ch rest := by
  obtain ⟨σ, hmem, hfull⟩ := h
  exact ⟨σ, List.mem_cons_of_mem _ hmem, hfull⟩

theorem found_full_of_run (h : Run capacity t s) {i : Nat} {src : Source} {m : MessageFrame}
    {c : ServerClient} {ch : ChannelId} {rest : List ServerClient} {pc : PushPc}
    (hi : s.procs i = some (.pushing src m c ch rest pc)) (hpc : pc = .full ∨ pc = .dropped) :
    FoundFull capacity t i src m c ch rest := by
  induction h generalizing pc with
  | init h =>
    rw [h] at hi
    cases hi
  | step hr hs ih =>
    rcases hs.procs_cases hi with ⟨hid, hafter⟩ | ⟨-, hold⟩ | heff
    · cases hs with
      | start j eff p hfree hstart =>
        cases hstart with
        | _ => cases hafter
      | move j p eff p' hp hmove =>
        have hij : i = j := hid
        subst hij
        cases hmove with
        | isFull src' m' c' ch' rest' hfull =>
          obtain ⟨rfl, rfl, rfl, rfl, rfl, -⟩ := Proc.pushing.inj hafter
          exact ⟨_, List.mem_cons_self, hfull⟩
        | unregisterFull src' m' c' ch' rest' =>
          obtain ⟨rfl, rfl, rfl, rfl, rfl, -⟩ := Proc.pushing.inj hafter
          exact (ih hp (.inl rfl)).cons _
        | find =>
          obtain ⟨-, -, -, -, -, rfl⟩ := Proc.pushing.inj hafter
          rcases hpc with hpc | hpc <;> cases hpc
        | hasRoom =>
          obtain ⟨-, -, -, -, -, rfl⟩ := Proc.pushing.inj hafter
          rcases hpc with hpc | hpc <;> cases hpc
        | _ => cases hafter
    · exact (ih hold hpc).cons _
    · obtain ⟨c', ch', -, ⟨-, hq, -⟩ | ⟨-, hq, -⟩⟩ := hs.spawn_cases heff
      · cases hq
      · cases hq

theorem Proc.StreamTask.client_eq {p : Proc} {c c' : ServerClient} {ch : ChannelId}
    (h : p.StreamTask c ch) (hc : p.TaskOf c') : c' = c := by
  cases p with
  | pinger => exact hc.symm.trans h.1
  | data => exact hc.symm.trans h.1
  | _ => exact h.elim

theorem Proc.StreamTask.channel_eq {p : Proc} {c c' : ServerClient} {ch ch' : ChannelId}
    (h : p.StreamTask c ch) (h' : p.StreamTask c' ch') : ch = ch' := by
  cases p with
  | pinger => exact h.2.symm.trans h'.2
  | data => exact h.2.symm.trans h'.2
  | _ => exact h.elim

theorem Proc.TaskOf.streamTask {p : Proc} {c : ServerClient} (h : p.TaskOf c) :
    p = .finished ∨ ∃ ch, p.StreamTask c ch := by
  cases p with
  | pinger c' ch => exact .inr ⟨ch, h, rfl⟩
  | data c' ch pc => exact .inr ⟨ch, h, rfl⟩
  | finished => exact .inl rfl
  | _ => exact h.elim

theorem removes_of_unregister {token : Token} (heff : l.effect = .unregisterDataChannel token)
    {c : ServerClient} (hc : s.clientsByToken token = some c) :
    s.dataChannel c = none ∨ ∃ ch, s.dataChannel c = some ch ∧ Removes s l c ch := by
  cases hcell : s.dataChannel c with
  | none => exact .inl rfl
  | some ch =>
    refine .inr ⟨ch, rfl, hcell, ?_⟩
    rw [apply_dataChannel, heff]
    intro hkept
    exact (unregisterDataChannel_of_some hkept).2 hc

section
variable (hrun : Run capacity t s) (h : Step capacity s l s')
include hrun h

theorem cause_of_removes (hown : HitsOwn s l) {c : ServerClient} {ch : ChannelId}
    (hremoves : Removes s l c ch) : Cause capacity t l c ch := by
  obtain ⟨hcell, hgone⟩ := hremoves
  rw [← h.dataChannel_eq] at hgone
  rcases h.dataChannel_kept hcell with hkept | ⟨token, heff, htoken⟩ | heff | heff
  · exact absurd hkept hgone
  · -- the token's client is the one this push or this task speaks of, or it has no channel
    unfold HitsOwn at hown
    rcases h.unregister_cases heff with ⟨src, m, c', ch', rest, rfl, hbefore, -⟩ |
      ⟨c', ch', rfl, hbefore, -⟩
    · rw [hbefore] at hown
      rcases hown c htoken with ⟨rfl, hown⟩ | hnone
      · rw [hcell] at hown
        obtain rfl := Option.some.inj hown
        have hl := h.before_eq.trans hbefore
        exact .push src m rest _ hbefore (found_full_of_run hrun hl (.inl rfl))
      · rw [hcell] at hnone
        cases hnone
    · rw [hbefore] at hown
      rcases hown c htoken with ⟨rfl, hown⟩ | hnone
      · rw [hcell] at hown
        obtain rfl := Option.some.inj hown
        exact .failed hbefore
      · rw [hcell] at hnone
        cases hnone
  · have hlt := (channels_of_run hrun).cell_known c ch hcell
    rw [(h.new_of_registerClient heff).1] at hlt
    exact absurd hlt (Nat.lt_irrefl _)
  · exact .dropped heff

theorem cause_of_stopsTask (hown : HitsOwn s l) {c : ServerClient} {ch : ChannelId}
    (hstops : StopsTask s l c ch) : Cause capacity t l c ch := by
  obtain ⟨j, p, hp, htask, halive, hdead⟩ := hstops
  rw [← h.aborted_eq] at hdead
  rcases h.aborted_cases hdead with hdead | ⟨c', heff, hmem⟩
  · rw [halive] at hdead
    cases hdead
  · obtain ⟨q, hq, htaskOf⟩ := (wf_of_run hrun).tasks c' j hmem
    rw [hp] at hq
    obtain rfl := Option.some.inj hq
    obtain rfl := htask.client_eq htaskOf
    rcases heff with heff | heff
    · rcases h.abortTasks_cases heff with hbefore | ⟨src, m, ch', rest, hbefore⟩
      · exact .left hbefore
      · unfold HitsOwn at hown
        rw [hbefore] at hown
        rcases hown j hmem p hp with hstream | hfinished | hdead'
        · obtain rfl := htask.channel_eq hstream
          have hl := h.before_eq.trans hbefore
          exact .push src m rest _ hbefore (found_full_of_run hrun hl (.inr rfl))
        · rw [hfinished] at htask
          exact htask.elim
        · rw [halive] at hdead'
          cases hdead'
    · exact .dropped heff

theorem hitsOwn_of_causes
    (hcauses : ∀ c ch, Removes s l c ch ∨ StopsTask s l c ch → Cause capacity t l c ch) :
    HitsOwn s l := by
  have hwf := wf_of_run hrun
  cases h with
  | start => trivial
  | move i p eff p' hp hmove =>
    -- only these three moves remove a channel or abort a task other than with the client itself
    cases hmove with
    | unregisterFull src m c ch rest =>
      intro c' hc'
      let l : Label := ⟨i, some (.pushing src m c ch rest .full), .unregisterDataChannel c.token,
        .pushing src m c ch rest .dropped⟩
      rcases removes_of_unregister (l := l) rfl hc' with hnone | ⟨ch', hcell, hremoves⟩
      · exact .inr hnone
      · obtain ⟨rfl, rfl⟩ := (hcauses c' ch' (.inl hremoves)).eq_of_pushing rfl nofun
        exact .inl ⟨rfl, hcell⟩
    | unregisterFailed c ch =>
      intro c' hc'
      let l : Label := ⟨i, some (.data c ch .failing), .unregisterDataChannel c.token, .finished⟩
      rcases removes_of_unregister (l := l) rfl hc' with hnone | ⟨ch', hcell, hremoves⟩
      · exact .inr hnone
      · obtain ⟨rfl, rfl⟩ := (hcauses c' ch' (.inl hremoves)).eq_of_failing rfl nofun
        exact .inl ⟨rfl, hcell⟩
    | abortFull src m c ch rest =>
      intro j hmem q hq
      obtain ⟨r, hr, htaskOf⟩ := hwf.tasks c j hmem
      rw [hq] at hr
      obtain rfl := Option.some.inj hr
      rcases htaskOf.streamTask with hfinished | ⟨ch', htask⟩
      · exact .inr (.inl hfinished)
      · by_cases hdead : s.aborted j = true
        · exact .inr (.inr hdead)
        · have hstopped : (s.abortTasks c).aborted j = true :=
            Bool.or_eq_true_iff.mpr (.inr (List.contains_iff_mem.mpr hmem))
          have hcause := hcauses c ch' (.inr ⟨j, q, hq, htask, Bool.not_eq_true _ ▸ hdead, hstopped⟩)
          obtain ⟨-, rfl⟩ := hcause.eq_of_pushing rfl nofun
          exact .inl htask
    | dataStopped c ch pc hpc =>
      cases pc with
      | failing => exact absurd rfl hpc
      | _ => trivial
    | _ => trivial

end

/-- Whether everything removed or aborted in a run had its cause: it had if and only if every step
hit its own. -/
theorem channel_ownership_iff (h : Run capacity t s) :
    Accountable capacity t ↔ ∀ e ∈ t, HitsOwn e.1 e.2 := by
  induction h with
  | init => exact ⟨fun _ e he => absurd he List.not_mem_nil, fun _ => trivial⟩
  | step hr hs ih =>
    rw [List.forall_mem_cons, ← ih]
    constructor
    · rintro ⟨hcauses, hbefore⟩
      exact ⟨hitsOwn_of_causes hr hs hcauses, hbefore⟩
    · rintro ⟨hown, hbefore⟩
      refine ⟨fun c ch => ?_, hbefore⟩
      rintro (hremoves | hstops)
      · exact cause_of_removes hr hs hown hremoves
      · exact cause_of_stopsTask hr hs hown hstops

theorem channel_ownership_sample : ∃ t s, Run 1 t s ∧ (∃ e ∈ t, Removes e.1 e.2 sampleClient 0) ∧
    (∃ e ∈ t, StopsTask e.1 e.2 sampleClient 0) ∧ Accountable 1 t := by
  have h : Run 1 _ _ := .step (.init rfl) (.start 0 _ _ rfl (.login sampleClient rfl rfl))
  have h : Run 1 _ _ := .step h (.start 1 _ _ rfl .listener)
  have h : Run 1 _ _ := .step h (.start 2 _ _ rfl (.request sampleClient.token))
  have h : Run 1 _ _ := .step h (.move 2 _ _ _ rfl (.register _ sampleClient rfl))
  have h : Run 1 _ _ := .step h (.move 2 _ _ _ rfl (.reply _ _))
  have h : Run 1 _ _ := .step h (.move 2 _ _ _ rfl (.spawnPinger _ _ 3 rfl))
  have h : Run 1 _ _ := .step h (.move 2 _ _ _ rfl (.registerPinger _ _ _))
  have h : Run 1 _ _ := .step h (.move 3 _ _ _ rfl (.ping _ _ ⟨2, _, rfl, rfl⟩ Nat.one_pos))
  have h : Run 1 _ _ :=
    .step h (.move 1 _ _ _ rfl (.publishUdp emptyMessage _ (.singleton sampleClient rfl)))
  have h : Run 1 _ _ := .step h (.move 1 _ _ _ rfl (.find _ _ _ _ 0 rfl))
  have h : Run 1 _ _ := .step h (.move 1 _ _ _ rfl (.isFull _ _ _ _ _ (Nat.le_refl 1)))
  have h : Run 1 _ _ := .step h (.move 1 _ _ _ rfl (.unregisterFull _ _ _ _ _))
  have h : Run 1 _ _ := .step h (.move 1 _ _ _ rfl (.abortFull _ _ _ _ _))
  refine ⟨_, _, h, ⟨_, .tail _ (.head _), rfl, nofun⟩, ⟨_, .head _, 3, _, rfl, ⟨rfl, rfl⟩, rfl, rfl⟩,
    (channel_ownership_iff h).mpr ?_⟩
  intro e he
  simp only [List.mem_cons, List.not_mem_nil, or_false] at he
  rcases he with rfl | rfl | rfl | rfl | rfl | rfl | rfl | rfl | rfl | rfl | rfl | rfl | rfl
  · intro j hj p hp
    obtain rfl := List.mem_singleton.mp hj
    obtain rfl := Option.some.inj hp
    exact .inl ⟨rfl, rfl⟩
  · intro c' hc'
    exact .inl ⟨(Option.some.inj hc').symm, rfl⟩
  all_goals trivial

/-- Two pushes find the channel full; the client asks for a new one before the slower push goes on,
and loses it. -/
theorem newer_channel_removed : ∃ t s, Run 1 t s ∧ ¬ Accountable 1 t := by
  have h : Run 1 _ _ := .step (.init rfl) (.start 0 _ _ rfl (.login sampleClient rfl rfl))
  have h : Run 1 _ _ := .step h (.start 1 _ _ rfl .listener)
  have h : Run 1 _ _ := .step h (.start 2 _ _ rfl .listener)
  have h : Run 1 _ _ := .step h (.start 3 _ _ rfl (.request sampleClient.token))
  have h : Run 1 _ _ := .step h (.move 3 _ _ _ rfl (.register _ sampleClient rfl))
  have h : Run 1 _ _ :=
    .step h (.move 1 _ _ _ rfl (.publishUdp emptyMessage _ (.singleton sampleClient rfl)))
  have h : Run 1 _ _ := .step h (.move 1 _ _ _ rfl (.find _ _ _ _ 0 rfl))
  have h : Run 1 _ _ := .step h (.move 1 _ _ _ rfl (.hasRoom _ _ _ _ _ Nat.one_pos))
  have h : Run 1 _ _ :=
    .step h (.move 1 _ _ _ rfl (.send _ _ _ _ _ ⟨3, _, rfl, rfl⟩ Nat.one_pos))
  have h : Run 1 _ _ := .step h (.move 1 _ _ _ rfl (.pushedUdp _))
  have h : Run 1 _ _ :=
    .step h (.move 1 _ _ _ rfl (.publishUdp emptyMessage _ (.singleton sampleClient rfl)))
  have h : Run 1 _ _ := .step h (.move 1 _ _ _ rfl (.find _ _ _ _ 0 rfl))
  have h : Run 1 _ _ := .step h (.move 1 _ _ _ rfl (.isFull _ _ _ _ _ (Nat.le_refl 1)))
  have h : Run 1 _ _ :=
    .step h (.move 2 _ _ _ rfl (.publishUdp emptyMessage _ (.singleton sampleClient rfl)))
  have h : Run 1 _ _ := .step h (.move 2 _ _ _ rfl (.find _ _ _ _ 0 rfl))
  have h : Run 1 _ _ := .step h (.move 2 _ _ _ rfl (.isFull _ _ _ _ _ (Nat.le_refl 1)))
  have h : Run 1 _ _ := .step h (.move 2 _ _ _ rfl (.unregisterFull _ _ _ _ _))
  have h : Run 1 _ _ := .step h (.move 2 _ _ _ rfl (.abortFull _ _ _ _ _))
  have h : Run 1 _ _ := .step h (.start 4 _ _ rfl (.request sampleClient.token))
  have h : Run 1 _ _ := .step h (.move 4 _ _ _ rfl (.register _ sampleClient rfl))
  have h : Run 1 _ _ := .step h (.move 1 _ _ _ rfl (.unregisterFull _ _ _ _ _))
  refine ⟨_, _, h, fun hcauses => ?_⟩
  obtain ⟨-, hchannel⟩ := (hcauses.1 sampleClient 1 (.inl ⟨rfl, nofun⟩)).eq_of_pushing rfl nofun
  cases hchannel

end Psrt.DataChannel

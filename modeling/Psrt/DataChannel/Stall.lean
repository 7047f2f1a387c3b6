import Psrt.DataChannel.Channels

/-! No stalled publisher: whether a push ever sends on a queue that is full. -/

namespace Psrt.DataChannel
open Wire

variable {capacity : Nat} {s s' : State} {l : Label} {t : History}

def State.Sending (s : State) (i : Nat) (ch : ChannelId) : Prop :=
  ∃ src m c rest, s.procs i = some (.pushing src m c ch rest .sending)

/-- No send is made on a queue that is full. -/
def NoStall (capacity : Nat) (s : State) : Prop :=
  ∀ i ch, s.Sending i ch → (s.queue ch).length < capacity

/-- The step does not take the last place of a queue on which another publisher is about to send. -/
def KeepsRoom (capacity : Nat) (s : State) (l : Label) : Prop :=
  ∀ ch m, l.effect = .enqueue ch m → ∀ i, i ≠ l.id → s.Sending i ch →
    (s.queue ch).length + 1 < capacity

theorem NoStall.send_ends (h : NoStall capacity s) {i : Nat} {src : Source} {m : MessageFrame}
    {c : ServerClient} {ch : ChannelId} {rest : List ServerClient}
    (hi : s.procs i = some (.pushing src m c ch rest .sending)) :
    ∃ eff, Move capacity s i (.pushing src m c ch rest .sending) eff (.visiting src m rest) := by
  by_cases hopen : s.ReceiverHeld ch
  · exact ⟨_, .send src m c ch rest hopen (h i ch ⟨src, m, c, rest, hi⟩)⟩
  · exact ⟨_, .sendFailed src m c ch rest hopen⟩

theorem apply_queue (eff : Effect) : (s.apply eff).queue = match eff with
    | .registerDataChannel _ => Function.update s.queue s.nextChannel []
    | .enqueue ch m => Function.update s.queue ch (s.queue ch ++ [m])
    | .dequeue ch => Function.update s.queue ch (s.queue ch).tail
    | _ => s.queue := by
  cases eff with
  | _ => rfl

theorem Step.queue_eq (h : Step capacity s l s') : s'.queue = (s.apply l.effect).queue := by
  rw [h.eq]
  rfl

theorem Step.queue_length_le (h : Step capacity s l s') (ch : ChannelId)
    (hother : ∀ m, l.effect ≠ .enqueue ch m) :
    (s'.queue ch).length ≤ (s.queue ch).length := by
  rw [h.queue_eq, apply_queue]
  cases heff : l.effect with
  | registerDataChannel token =>
    dsimp only
    by_cases hch : ch = s.nextChannel
    · rw [hch, Function.update_self]
      exact Nat.zero_le _
    · rw [Function.update_of_ne hch]
  | enqueue ch' m =>
    have hch : ch ≠ ch' := by
      rintro rfl
      exact hother m heff
    dsimp only
    rw [Function.update_of_ne hch]
  | dequeue ch' =>
    dsimp only
    by_cases hch : ch = ch'
    · rw [hch, Function.update_self, List.length_tail]
      exact Nat.sub_le _ _
    · rw [Function.update_of_ne hch]
  | _ => exact Nat.le_refl _

theorem Step.queue_length_enqueue (h : Step capacity s l s') {ch : ChannelId} {m : MessageFrame}
    (heff : l.effect = .enqueue ch m) : (s'.queue ch).length = (s.queue ch).length + 1 := by
  rw [h.queue_eq, apply_queue, heff]
  dsimp only
  rw [Function.update_self, List.length_append]
  rfl

theorem Step.sending_cases (h : Step capacity s l s') {i : Nat} {ch : ChannelId}
    (hi : s'.Sending i ch) : (s.Sending i ch ∧ i ≠ l.id) ∨
      (i = l.id ∧ l.effect = .quiet ∧ (s.queue ch).length < capacity) := by
  obtain ⟨src, m, c, rest, hi⟩ := hi
  rcases h.procs_cases hi with ⟨hid, hafter⟩ | ⟨hne, hold⟩ | heff
  · right
    refine ⟨hid, ?_⟩
    cases h with
    | start i eff p hfree hstart =>
      cases hstart with
      | _ => cases hafter
    | move i p eff p' hp hmove =>
      cases hmove with
      | hasRoom src' m' c' ch' rest' hroom =>
        obtain ⟨-, -, -, rfl, -⟩ := Proc.pushing.inj hafter
        exact ⟨rfl, hroom⟩
      | _ => cases hafter
  · exact .inl ⟨⟨src, m, c, rest, hold⟩, hne⟩
  · obtain ⟨c', ch', -, ⟨-, hq, -⟩ | ⟨-, hq, -⟩⟩ := h.spawn_cases heff
    · cases hq
    · cases hq

/-- One step: room is kept for every publisher about to send, if and only if the step keeps it. -/
theorem Step.noStall_iff (h : Step capacity s l s') (hs : NoStall capacity s) :
    NoStall capacity s' ↔ KeepsRoom capacity s l := by
  constructor
  · intro hs' ch m heff i hne hi
    rw [← h.queue_length_enqueue heff]
    obtain ⟨src, m', c, rest, hi⟩ := hi
    exact hs' i ch ⟨src, m', c, rest, h.procs_of_ne hi hne⟩
  · intro hkeeps i ch hi'
    rcases h.sending_cases hi' with ⟨hi, hne⟩ | ⟨-, heff, hroom⟩
    · by_cases henqueue : ∃ m, l.effect = .enqueue ch m
      · obtain ⟨m, heff⟩ := henqueue
        rw [h.queue_length_enqueue heff]
        exact hkeeps ch m heff i hne hi
      · exact (h.queue_length_le ch (not_exists.mp henqueue)).trans_lt (hs i ch hi)
    · rw [h.queue_eq, heff]
      exact hroom

def States (t : History) (s : State) : List State := s :: t.map Prod.fst

/-- No publisher ever stalls in a run, if and only if no step of it takes the last place of a queue
between another publisher's test and its send. -/
theorem no_stall_iff (h : Run capacity t s) :
    (∀ σ ∈ States t s, NoStall capacity σ) ↔ ∀ e ∈ t, KeepsRoom capacity e.1 e.2 := by
  induction h with
  | init h =>
    refine ⟨fun _ e he => absurd he List.not_mem_nil, fun _ σ hσ => ?_⟩
    rw [List.mem_singleton.mp hσ, h]
    rintro i ch ⟨src, m, c, rest, hi⟩
    cases hi
  | step hr hs ih =>
    have hsplit : ∀ {t : History} {s s' : State} {l : Label},
        (∀ σ ∈ States ((s, l) :: t) s', NoStall capacity σ) ↔
          NoStall capacity s' ∧ ∀ σ ∈ States t s, NoStall capacity σ := List.forall_mem_cons
    rw [hsplit, List.forall_mem_cons, ← ih]
    constructor
    · rintro ⟨hs', hbefore⟩
      exact ⟨(hs.noStall_iff (hbefore _ List.mem_cons_self)).mp hs', hbefore⟩
    · rintro ⟨hkeeps, hbefore⟩
      exact ⟨(hs.noStall_iff (hbefore _ List.mem_cons_self)).mpr hkeeps, hbefore⟩

theorem no_stall_sample : ∃ t s, Run 1 t s ∧ s.Sending 1 0 ∧
    (∀ σ ∈ States t s, NoStall 1 σ) := by
  have h : Run 1 _ _ := .step (.init rfl) (.start 0 _ _ rfl (.login sampleClient rfl rfl))
  have h : Run 1 _ _ := .step h (.start 1 _ _ rfl .listener)
  have h : Run 1 _ _ := .step h (.start 2 _ _ rfl (.request sampleClient.token))
  have h : Run 1 _ _ := .step h (.move 2 _ _ _ rfl (.register _ sampleClient rfl))
  have h : Run 1 _ _ := .step h (.move 1 _ _ _ rfl
    (.publishUdp emptyMessage _ (.singleton sampleClient rfl)))
  have h : Run 1 _ _ := .step h (.move 1 _ _ _ rfl (.find _ _ _ _ 0 rfl))
  have h : Run 1 _ _ := .step h (.move 1 _ _ _ rfl (.hasRoom _ _ _ _ _ Nat.one_pos))
  refine ⟨_, _, h, ⟨_, _, _, _, rfl⟩, (no_stall_iff h).mpr ?_⟩
  intro e he ch m heff
  simp only [List.mem_cons, List.not_mem_nil, or_false] at he
  rcases he with rfl | rfl | rfl | rfl | rfl | rfl | rfl
  all_goals cases heff

/-- Two publishers find the last place free; the one that comes second waits. -/
theorem stall_on_last_place : ∃ s, Reachable 1 (fun _ _ => True) s ∧ ¬ NoStall 1 s := by
  have h : Run 1 _ _ := .step (.init rfl) (.start 0 _ _ rfl (.login sampleClient rfl rfl))
  have h : Run 1 _ _ := .step h (.start 1 _ _ rfl .listener)
  have h : Run 1 _ _ := .step h (.start 3 _ _ rfl .listener)
  have h : Run 1 _ _ := .step h (.start 2 _ _ rfl (.request sampleClient.token))
  have h : Run 1 _ _ := .step h (.move 2 _ _ _ rfl (.register _ sampleClient rfl))
  have h : Run 1 _ _ := .step h (.move 1 _ _ _ rfl
    (.publishUdp emptyMessage _ (.singleton sampleClient rfl)))
  have h : Run 1 _ _ := .step h (.move 1 _ _ _ rfl (.find _ _ _ _ 0 rfl))
  have h : Run 1 _ _ := .step h (.move 1 _ _ _ rfl (.hasRoom _ _ _ _ _ Nat.one_pos))
  have h : Run 1 _ _ := .step h (.move 3 _ _ _ rfl
    (.publishUdp emptyMessage _ (.singleton sampleClient rfl)))
  have h : Run 1 _ _ := .step h (.move 3 _ _ _ rfl (.find _ _ _ _ 0 rfl))
  have h : Run 1 _ _ := .step h (.move 3 _ _ _ rfl (.hasRoom _ _ _ _ _ Nat.one_pos))
  have h : Run 1 _ _ :=
    .step h (.move 1 _ _ _ rfl (.send _ _ _ _ _ ⟨2, _, rfl, rfl⟩ Nat.one_pos))
  refine ⟨_, h.reachable fun _ _ => trivial, fun hstall => ?_⟩
  have hlt := hstall 3 0 ⟨_, _, _, _, rfl⟩
  exact Nat.lt_irrefl 1 hlt

end Psrt.DataChannel

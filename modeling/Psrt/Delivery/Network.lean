import Psrt.DataChannel.Delivery
import Psrt.Delivery.Stream

/-! From publish to application: the data channels of the server, the tasks that write them to the
streams, and the clients that read these. -/

namespace Psrt.Delivery
open Wire Interaction DataChannel

structure World where
  state : State
  log : History

def World.Starts (w : World) : Prop := w.state = initial ∧ w.log = []

structure World.Next (capacity : Nat) (w : World) (l : Label) (w' : World) : Prop where
  step : Step capacity w.state l w'.state
  log : w'.log = (w.state, l) :: w.log

section
variable (capacity : Nat) (cfg : Config) (udpFrameSize : UInt16)

def Published (message : MessageFrame) : Prop :=
  ∃ priority topic data timestamp, Admitted cfg udpFrameSize priority topic data timestamp ∧
    message = messageFrame priority topic data timestamp

def PushesAdmitted (l : Label) : Prop :=
  ∀ src message rest, l.after = .visiting src message rest → Published cfg udpFrameSize message

/-- The steps of all but the queues' readers; what becomes of a write is such a step too. -/
def World.Env (w w' : World) : Prop :=
  ∃ l, w.Next capacity l w' ∧ (∀ ch, l.effect ≠ .dequeue ch) ∧ PushesAdmitted cfg udpFrameSize l

def World.Exec (ch : ChannelId) (w : World) : (o : DataOp) → o.Resp → World → Prop
  | .recv, some message, w' => ∃ i c, w.Next capacity
      ⟨i, some (.data c ch .waiting), .dequeue ch, .data c ch (.writing message)⟩ w'
  | .recv, none, w' => ∃ i c, w.Next capacity
      ⟨i, some (.data c ch .waiting), .quiet, .finished⟩ w'
  | _, _, w' => w' = w

inductive Id where
  | task (ch : ChannelId)
  | reader (ch : ChannelId)
  deriving DecidableEq

abbrev node (latencyWarn : UInt32) (turns : Nat) : Id → Node UInt8 ChannelId World
  | .task ch =>
    { Op := DataOp
      Resp := DataOp.Resp
      Err := DataStop
      Val := Unit
      body := handleDataStream latencyWarn turns
      port := fun _ => dataPort
      Exec := World.Exec capacity ch }
  | .reader _ =>
    { Op := ClientDataOp
      Resp := ClientDataOp.Resp
      Err := Error
      Val := Unit
      body := runDataStream turns
      port := fun _ => readerPort
      Exec := fun w o r w' => w' = w ∧ o.Exact r }

def wiring : Wiring ChannelId Id where
  src := .task
  dst := .reader
  ne _ := nofun

abbrev Network (latencyWarn : UInt32) (turns : Nat) := Net (node capacity latencyWarn turns)

abbrev Reachable {latencyWarn : UInt32} {turns : Nat} : Network capacity latencyWarn turns → Prop :=
  Net.Reachable wiring (World.Env capacity cfg udpFrameSize) World.Starts

end

variable {capacity : Nat} {cfg : Config} {udpFrameSize : UInt16} {latencyWarn : UInt32} {turns : Nat}
  {s : Network capacity latencyWarn turns}

def messages (s : Network capacity latencyWarn turns) (ch : ChannelId) : List Message :=
  (s.history (.reader ch)).filterMap deliveredOf

def received (s : Network capacity latencyWarn turns) (ch : ChannelId) : List MessageFrame :=
  (s.history (.task ch)).filterMap receivedOf

theorem failStop : Net.FailStop (node capacity latencyWarn turns) wiring where
  src _ := careful_handleDataStream latencyWarn turns
  dst _ := careful_runDataStream turns
  nothing _ o r h := by
    cases o with
    | read n =>
      cases r with
      | ok b => exact h.elim
      | error e => rfl
    | _ => rfl

structure Sound (capacity : Nat) (cfg : Config) (udpFrameSize : UInt16) (w : World) : Prop where
  run : Run capacity w.log w.state
  admitted : ∀ e ∈ w.log, PushesAdmitted cfg udpFrameSize e.2

theorem Sound.next {w w' : World} {l : Label} (h : Sound capacity cfg udpFrameSize w)
    (hn : w.Next capacity l w') (hl : PushesAdmitted cfg udpFrameSize l) :
    Sound capacity cfg udpFrameSize w' where
  run := hn.log.symm ▸ h.run.step hn.step
  admitted := by
    rw [hn.log]
    exact List.forall_mem_cons.mpr ⟨hl, h.admitted⟩

theorem exec_cases {ch : ChannelId} {w w' : World} {o : DataOp} {r : o.Resp}
    (h : World.Exec capacity ch w o r w') :
    (w' = w ∧ receivedOf ⟨o, r⟩ = none) ∨
      ∃ i c, (∃ m, w.Next capacity
          ⟨i, some (.data c ch .waiting), .dequeue ch, .data c ch (.writing m)⟩ w' ∧
          receivedOf ⟨o, r⟩ = some m) ∨
        (w.Next capacity ⟨i, some (.data c ch .waiting), .quiet, .finished⟩ w' ∧
          receivedOf ⟨o, r⟩ = none) := by
  cases o with
  | recv =>
    cases r with
    | none =>
      obtain ⟨i, c, hn⟩ := h
      exact .inr ⟨i, c, .inr ⟨hn, rfl⟩⟩
    | some m =>
      obtain ⟨i, c, hn⟩ := h
      exact .inr ⟨i, c, .inl ⟨m, hn, rfl⟩⟩
  | _ => exact .inl ⟨h, rfl⟩

theorem sound_of_reachable (hr : Reachable capacity cfg udpFrameSize s) :
    Sound capacity cfg udpFrameSize s.world := by
  refine hr.invariant (I := fun s => Sound capacity cfg udpFrameSize s.world) ?_ ?_
  · rintro ⟨state, log⟩ ⟨hstate, hlog⟩
    dsimp only at hstate hlog ⊢
    subst hlog
    exact ⟨.init hstate, fun e he => absurd he List.not_mem_nil⟩
  · intro s s' _ hsound hs
    cases hs with
    | env world henv =>
      obtain ⟨l, hn, _, hl⟩ := henv
      exact hsound.next hn hl
    | act i e q world streams hs hw hc =>
      cases i with
      | reader ch => exact hw.1 ▸ hsound
      | task ch =>
        rcases exec_cases hw with ⟨rfl, _⟩ | ⟨i, c, ⟨m, hn, _⟩ | ⟨hn, _⟩⟩
        · exact hsound
        · exact hsound.next hn fun _ _ _ h => nomatch h
        · exact hsound.next hn fun _ _ _ h => nomatch h

theorem taken_of_next {ch : ChannelId} {w w' : World} {l : Label} (hn : w.Next capacity l w')
    (hl : l.effect ≠ .dequeue ch) : taken ch w'.log = taken ch w.log := by
  rw [hn.log]
  exact taken_other (e := (w.state, l)) hl

theorem taken_of_closed {ch : ChannelId} {w w' : World} {i : Nat} {b : Option Proc} {p : Proc}
    (hn : w.Next capacity ⟨i, b, .quiet, p⟩ w') : taken ch w'.log = taken ch w.log := by
  apply taken_of_next hn
  intro h
  cases h

theorem received_eq_taken (hr : Reachable capacity cfg udpFrameSize s) (ch : ChannelId) :
    received s ch = taken ch s.world.log := by
  refine hr.invariant (I := fun s => received s ch = taken ch s.world.log) ?_ ?_
  · rintro ⟨state, log⟩ ⟨_, hlog⟩
    dsimp only at hlog
    subst hlog
    rfl
  · intro s s' _ hsame hs
    cases hs with
    | env world henv =>
      obtain ⟨l, hn, hl, _⟩ := henv
      exact hsame.trans (taken_of_next hn (hl ch)).symm
    | act i e q world streams hs hw hc =>
      unfold received at hsame ⊢
      by_cases hi : i = .task ch
      · subst hi
        simp only [Function.update_self, List.filterMap_append, hsame]
        rcases exec_cases hw with ⟨rfl, hnone⟩ | ⟨i, c, ⟨m, hn, hsome⟩ | ⟨hn, hnone⟩⟩
        · simp [hnone]
        · simp [hsome, hn.log, taken]
        · rw [taken_of_closed hn]
          simp [hnone]
      · have hne : Id.task ch ≠ i := fun h => hi h.symm
        simp only [Function.update_of_ne hne, hsame]
        cases i with
        | reader ch' => rw [hw.1]
        | task ch' =>
          have hch : ch' ≠ ch := fun h => hi (congrArg Id.task h)
          rcases exec_cases hw with ⟨rfl, _⟩ | ⟨i, c, ⟨m, hn, _⟩ | ⟨hn, _⟩⟩
          · rfl
          · exact (taken_of_next hn fun h => hch (Effect.dequeue.inj h)).symm
          · exact (taken_of_closed hn).symm

def Carries (m : MessageFrame) : Proc → Prop
  | .visiting _ m' _ => m' = m
  | .pushing _ m' _ _ _ _ => m' = m
  | _ => False

theorem carries_before {σ σ' : State} {l : Label} {m : MessageFrame} (h : Step capacity σ l σ')
    (hm : Carries m l.after) : (∃ src rest, l.after = .visiting src m rest) ∨
      ∃ p, σ.procs l.id = some p ∧ Carries m p := by
  cases h with
  | start i eff p hfree hstart =>
    cases hstart with
    | _ => exact hm.elim
  | move i p eff p' hp hmove =>
    cases hmove with
    | publishControl c m' subscribers =>
      obtain rfl : m' = m := hm
      exact .inl ⟨_, _, rfl⟩
    | publishUdp m' subscribers =>
      obtain rfl : m' = m := hm
      exact .inl ⟨_, _, rfl⟩
    | skip | find | isFull | hasRoom | unregisterFull | abortFull | send | sendFailed =>
      exact .inr ⟨_, hp, hm⟩
    | _ => exact hm.elim

theorem enqueue_message {σ σ' : State} {l : Label} {ch : ChannelId} {m : MessageFrame}
    (h : Step capacity σ l σ') (heff : l.effect = .enqueue ch m) :
    ((∃ c, l.before = some (.pinger c ch)) ∧ m = emptyMessage) ∨
      ∃ src c rest, l.before = some (.pushing src m c ch rest .sending) := by
  cases h with
  | start i eff p hfree hstart =>
    cases hstart with
    | _ => cases heff
  | move i p eff p' hp hmove =>
    cases hmove with
    | ping c ch' hopen hroom =>
      obtain ⟨rfl, rfl⟩ := Effect.enqueue.inj heff
      exact .inl ⟨⟨c, rfl⟩, rfl⟩
    | send src m' c ch' rest hopen hroom =>
      obtain ⟨rfl, rfl⟩ := Effect.enqueue.inj heff
      exact .inr ⟨src, c, rest, rfl⟩
    | _ => cases heff

structure Carried (cfg : Config) (udpFrameSize : UInt16) (t : History) (σ : State) : Prop where
  procs : ∀ i p m, σ.procs i = some p → Carries m p → Published cfg udpFrameSize m
  entered : ∀ ch, ∀ e ∈ entered ch t, (e.publisher = none ∧ e.message = emptyMessage) ∨
    ((∃ i n, e.publisher = some (i, n)) ∧ Published cfg udpFrameSize e.message)

theorem Carried.step {t : History} {σ σ' : State} {l : Label} (hc : Carried cfg udpFrameSize t σ)
    (h : Step capacity σ l σ') (hl : PushesAdmitted cfg udpFrameSize l) :
    Carried cfg udpFrameSize ((σ, l) :: t) σ' where
  procs i p m hp hm := by
    rcases h.procs_cases hp with ⟨rfl, rfl⟩ | ⟨_, hold⟩ | hspawn
    · rcases carries_before h hm with ⟨src, rest, hafter⟩ | ⟨p, hbefore, hm'⟩
      · exact hl src m rest hafter
      · exact hc.procs _ p m hbefore hm'
    · exact hc.procs i p m hold hm
    · obtain ⟨c, ch, _, ⟨_, rfl, _⟩ | ⟨_, rfl, _⟩⟩ := h.spawn_cases hspawn
      · exact hm.elim
      · exact hm.elim
  entered ch e he := by
    by_cases heff : ∃ m, l.effect = .enqueue ch m
    · obtain ⟨m, heff⟩ := heff
      rw [entered_enqueue (e := (σ, l)) heff] at he
      rcases List.mem_cons.mp he with rfl | hold
      · rcases enqueue_message h heff with ⟨⟨c, hpinger⟩, rfl⟩ | ⟨src, c, rest, hpushing⟩
        · refine .inl ⟨?_, rfl⟩
          unfold Label.publisher
          simp only [hpinger]
        · refine .inr ⟨⟨l.id, (publishes l.id t).length, ?_⟩, ?_⟩
          · unfold Label.publisher
            simp only [hpushing]
          · exact hc.procs l.id _ m (h.before_eq.trans hpushing) rfl
      · exact hc.entered ch e hold
    · rw [entered_other (e := (σ, l)) (not_exists.mp heff)] at he
      exact hc.entered ch e he

theorem carried_of_run {t : History} {σ : State} (h : Run capacity t σ)
    (hl : ∀ e ∈ t, PushesAdmitted cfg udpFrameSize e.2) : Carried cfg udpFrameSize t σ := by
  induction h with
  | init h =>
    rw [h]
    exact ⟨fun i p m hp => (nomatch hp), fun ch e he => absurd he List.not_mem_nil⟩
  | step _ hs ih =>
    obtain ⟨hfirst, hrest⟩ := List.forall_mem_cons.mp hl
    exact (ih hrest).step hs hfirst

theorem items_of_carried {t : History} {σ : State} (hc : Carried cfg udpFrameSize t σ)
    {entries : List Entry} (ch : ChannelId) (hentries : ∀ e ∈ entries, e ∈ entered ch t) :
    ∃ items : List Queued, (∀ item ∈ items, item.Valid) ∧
      items.map Queued.frame = entries.map Entry.message := by
  induction entries with
  | nil => exact ⟨[], fun item h => absurd h List.not_mem_nil, rfl⟩
  | cons e entries ih =>
    obtain ⟨hfirst, hrest⟩ := List.forall_mem_cons.mp hentries
    obtain ⟨items, hvalid, hframes⟩ := ih hrest
    have hitem : ∃ item : Queued, item.Valid ∧ item.frame = e.message := by
      rcases hc.entered ch e hfirst with ⟨_, hbeacon⟩ | ⟨_, priority, topic, data, timestamp, hadmitted, hm⟩
      · exact ⟨.nop, trivial, hbeacon.symm⟩
      · exact ⟨.message priority topic data timestamp, hadmitted.sendable, hm.symm⟩
    obtain ⟨item, hitem, hframe⟩ := hitem
    refine ⟨item :: items, List.forall_mem_cons.mpr ⟨hitem, hvalid⟩, ?_⟩
    rw [List.map_cons, List.map_cons, hframe, hframes]

theorem items_of_script {items : List Queued} {sent : List (MessageFrame × Bool)}
    (h : sent.map Prod.fst = items.map Queued.frame) :
    ∃ sent' : List (Queued × Bool), sent'.map Prod.fst = items ∧ Items.octets sent' = script sent := by
  induction items generalizing sent with
  | nil =>
    obtain rfl := List.map_eq_nil_iff.mp h
    exact ⟨[], rfl, rfl⟩
  | cons item items ih =>
    obtain ⟨⟨f, due⟩, sent, rfl, hf, hrest⟩ := List.map_eq_cons_iff.mp h
    obtain ⟨sent', hitems, hoctets⟩ := ih hrest
    refine ⟨(item, due) :: sent', congrArg (item :: ·) hitems, ?_⟩
    obtain rfl : f = item.frame := hf
    show item.bytes due ++ Items.octets sent' = item.frame.octets due ++ script sent
    rw [item.octets_frame due, hoctets]

theorem read_of_items {items : List Queued} {entries : List Entry}
    (hvalid : ∀ item ∈ items, item.Valid)
    (h : items.map Queued.frame = entries.map Entry.message) :
    entries.filterMap (fun e => e.message.read) = items.filterMap Queued.read := by
  calc entries.filterMap (fun e => e.message.read)
      = (entries.map Entry.message).filterMap MessageFrame.read := by
        rw [List.filterMap_map]
        rfl
    _ = (items.map Queued.frame).filterMap MessageFrame.read := by rw [h]
    _ = items.filterMap fun item => item.frame.read := by
        rw [List.filterMap_map]
        rfl
    _ = items.filterMap Queued.read :=
      List.filterMap_congr fun item hitem => Queued.read_frame (hvalid item hitem)

theorem messages_eq (sent : List (Queued × Bool)) :
    Items.messages sent = (sent.map Prod.fst).filterMap Queued.read := by
  rw [List.filterMap_map]
  rfl

theorem sent_of_reachable (hr : Reachable capacity cfg udpFrameSize s) (ch : ChannelId)
    {sent : List (MessageFrame × Bool)} (hsent : sent.map Prod.fst = received s ch) :
    ∃ (entries : List Entry) (sent' : List (Queued × Bool)),
      entries <+: (entered ch s.world.log).reverse ∧
      (∀ item ∈ sent', item.1.Valid) ∧
      (sent'.map Prod.fst).map Queued.frame = entries.map Entry.message ∧
      entries.map Entry.message = taken ch s.world.log ∧
      Items.octets sent' = script sent := by
  have hsound := sound_of_reachable hr
  have hcarried := carried_of_run hsound.run hsound.admitted
  have hfifo := (delivery hsound.run).fifo ch
  let entries := ((entered ch s.world.log).reverse).take (taken ch s.world.log).length
  have hstart : entries <+: (entered ch s.world.log).reverse := List.take_prefix ..
  have hentries : entries.map Entry.message = taken ch s.world.log := by
    show (List.take _ _).map _ = _
    rw [List.map_take, hfifo, List.take_left]
  have hentered : ∀ e ∈ entries, e ∈ entered ch s.world.log :=
    fun e he => List.mem_reverse.mp (hstart.subset he)
  obtain ⟨items, hvalid, hframes⟩ := items_of_carried hcarried ch hentered
  have hmap : sent.map Prod.fst = items.map Queued.frame := by
    rw [hsent, received_eq_taken hr, hframes, hentries]
  obtain ⟨sent', hitems, hoctets⟩ := items_of_script hmap
  refine ⟨entries, sent', hstart, fun item hitem => ?_, ?_, hentries, hoctets⟩
  · exact hvalid _ (hitems ▸ List.mem_map_of_mem hitem)
  · rw [hitems, hframes]

/-- The data task of channel `ch` waits for the next frame and the client for the next octet, no write
has failed, and the stream is empty. -/
structure Drained (s : Network capacity latencyWarn turns) (ch : ChannelId) : Prop where
  recv : ∃ k, s.rest (.task ch) = .call .recv k
  sound : ¬ dataPort.Broken (s.history (.task ch))
  read : ∃ n k, s.rest (.reader ch) = .call (.read n) k
  empty : (s.streams ch).unread = []

theorem exact_reader (hr : Reachable capacity cfg udpFrameSize s) (ch : ChannelId) :
    ∀ e ∈ s.history (.reader ch), e.op.Exact e.resp := by
  intro e he
  obtain ⟨w, w', hexec⟩ := hr.exec (.reader ch) e he
  exact hexec.2

/-- The application has the messages of the first entries of the channel. -/
theorem messages_of_reachable (hr : Reachable capacity cfg udpFrameSize s) (ch : ChannelId) :
    ∃ entries, entries <+: (entered ch s.world.log).reverse ∧
      messages s ch = entries.filterMap fun e => e.message.read := by
  obtain ⟨sent, hsent, hoffered⟩ := torn_of_run (hr.run (.task ch))
  obtain ⟨entries, sent', hstart, hvalid, hframes, _, hoctets⟩ := sent_of_reachable hr ch hsent
  have htaken : readerPort.taken (s.history (.reader ch)) <+: Items.octets sent' := by
    rw [hoctets]
    exact (hr.taken_prefix failStop ch).trans hoffered
  obtain ⟨read, hread, hmessages⟩ :=
    inOrder_of_run hvalid (hr.run (.reader ch)) (exact_reader hr ch) htaken
  refine ⟨entries.take read.length, (List.take_prefix ..).trans hstart, ?_⟩
  have hfirst : (read.map Prod.fst).map Queued.frame =
      (entries.take read.length).map Entry.message := by
    have hpart : read = sent'.take read.length := List.prefix_iff_eq_take.mp hread
    rw [List.map_take, ← hframes, ← List.map_take, ← List.map_take, ← hpart]
  have hreadValid : ∀ item ∈ read.map Prod.fst, item.Valid := by
    intro item hitem
    obtain ⟨pair, hpair, rfl⟩ := List.mem_map.mp hitem
    exact hvalid pair (hread.subset hpair)
  rw [read_of_items hreadValid hfirst, ← messages_eq]
  exact hmessages

theorem messages_of_drained (hr : Reachable capacity cfg udpFrameSize s) {ch : ChannelId}
    (hd : Drained s ch) : messages s ch = (taken ch s.world.log).filterMap MessageFrame.read := by
  obtain ⟨k, hrecv⟩ := hd.recv
  obtain ⟨n, k', hread⟩ := hd.read
  have htask := hr.run (.task ch)
  rw [hrecv] at htask
  obtain ⟨sent, hsent, hoffered⟩ := whole_of_recv htask
  obtain ⟨entries, sent', _, hvalid, hframes, hentries, hoctets⟩ := sent_of_reachable hr ch hsent
  have hreader := hr.run (.reader ch)
  rw [hread] at hreader
  have hunbroken : ¬ readerPort.Broken (s.history (.reader ch)) := by
    intro hbroken
    have hidle := careful_runDataStream turns _ _ _ hreader hbroken
    exact absurd (hidle.take (.ok [0])) (List.cons_ne_nil _ _)
  have hall := hr.unread failStop hd.sound hunbroken
  rw [hd.empty, List.append_nil] at hall
  have htaken : readerPort.taken (s.history (.reader ch)) = Items.octets sent' :=
    (hall.trans hoffered).trans hoctets.symm
  have hmessages := all_of_read hvalid hreader (exact_reader hr ch) htaken
  have hvalid' : ∀ item ∈ sent'.map Prod.fst, item.Valid := by
    intro item hitem
    obtain ⟨pair, hpair, rfl⟩ := List.mem_map.mp hitem
    exact hvalid pair hpair
  rw [← hentries, List.filterMap_map]
  exact hmessages.trans ((messages_eq sent').trans (read_of_items hvalid' hframes).symm)

/-- In every state of the network: what an application has been given is the messages of the first entries
of its channel, each of a publish that found the client among its subscribers, those of one publisher in
the order of its publishes and none twice; and nothing is missing once the stream is drained. -/
theorem application_delivery (hr : Reachable capacity cfg udpFrameSize s) (ch : ChannelId) :
    (∃ entries, entries <+: (entered ch s.world.log).reverse ∧
      messages s ch = (entries.filterMap fun e => e.message.read) ∧
      (entries.Pairwise fun earlier later => Later later earlier) ∧
      ∀ e ∈ entries, e.message.read ≠ none → Published cfg udpFrameSize e.message ∧
        ∃ i, ∃ p ∈ publishes i s.world.log, e.publisher = some (i, p.number) ∧
          p.message = e.message ∧
          ∃ v ∈ p.visits, v.client ∈ p.subscribers ∧ v.seen.dataChannel v.client = some ch) ∧
    (Drained s ch → messages s ch = (taken ch s.world.log).filterMap MessageFrame.read) := by
  refine ⟨?_, messages_of_drained hr⟩
  have hsound := sound_of_reachable hr
  have hdelivery := delivery hsound.run
  obtain ⟨entries, hstart, hmessages⟩ := messages_of_reachable hr ch
  refine ⟨entries, hstart, hmessages, ?_, fun e he hread => ?_⟩
  · exact (List.pairwise_reverse.mpr (hdelivery.ordered ch)).sublist hstart.sublist
  · have hentered := List.mem_reverse.mp (hstart.subset he)
    rcases (carried_of_run hsound.run hsound.admitted).entered ch e hentered with
      ⟨_, hbeacon⟩ | ⟨⟨i, n, hpublisher⟩, hpublished⟩
    · rw [hbeacon] at hread
      exact absurd rfl hread
    · obtain ⟨p, hp, rfl, hm, v, hv⟩ := hdelivery.addressed ch e i n hentered hpublisher
      exact ⟨hpublished, i, p, hp, hpublisher, hm, v, hv⟩

section
variable (priority : UInt8) (topic : Str) (data : Bytes) (timestamp : UInt64)

def writing : List DataEvent :=
  [⟨.recv, some (messageFrame priority topic data timestamp)⟩,
    ⟨.write (messageFrame priority topic data timestamp).frame, .ok ()⟩, ⟨.write data, .ok ()⟩,
    ⟨.nowNs, timestamp⟩,
    ⟨.countSentBytes ((messageFrame priority topic data timestamp).frame.length + data.length)
      ((timestamp - timestamp) / 1000).toUInt32, ()⟩]

def reading : List ClientDataEvent :=
  [⟨.read 1, .ok [responseOk]⟩, ⟨.read 1, .ok [priority]⟩,
    ⟨.read 4, .ok (leBytes 4 (frameLength topic data).toNat)⟩,
    ⟨.read (frameLength topic data).toNat, .ok (utf8 topic ++ 0 :: data)⟩,
    ⟨.deliver ⟨priority, topic, data⟩, .ok ()⟩]

theorem run_writing (latencyWarn : UInt32) : Prog.Run (handleDataStreamTurn latencyWarn)
    (writing priority topic data timestamp) (.ret none) := by
  have hquick : ¬ ((timestamp - timestamp) / 1000).toUInt32 > latencyWarn := by
    rw [UInt64.sub_self, UInt64.zero_div]
    exact UInt32.not_lt_zero
  unfold writing handleDataStreamTurn
  refine .call _ (.call _ (.call _ (.call _ (.call _ ?_))))
  show Prog.Run (if ((timestamp - timestamp) / 1000).toUInt32 > latencyWarn then _ else _) [] _
  rw [if_neg hquick]
  exact .nil _

theorem run_readData {α : Type} {n : Nat} {b : Bytes} {k : Bytes → ClientDataProg α}
    {h : List ClientDataEvent} {q : ClientDataProg α} (hr : Prog.Run (k b) h q) :
    Prog.Run ((readData n).bind k) (⟨.read n, .ok b⟩ :: h) q := .call _ hr

theorem run_reading {topic : Str} {data : Bytes} (hs : Sendable topic data) :
    Prog.Run runDataStreamTurn (reading priority topic data) (.ret none) := by
  have hlt : (frameLength topic data).toNat < 256 ^ 4 := (frameLength topic data).toNat_lt
  refine run_readData ?_
  rw [show List.headD [responseOk] 0 = responseOk from rfl, handleDataOp_responseOk]
  refine run_readData ?_
  unfold readFrameWith
  simp only [Prog.bind_eq, Prog.bind_assoc]
  refine run_readData ?_
  simp only [leNat_leBytes_of_lt hlt, Option.any_none, Bool.false_eq_true, if_false]
  refine run_readData ?_
  simp only [Message.fromBuf_append hs.1]
  exact .call _ (.nil _)

theorem sound_writing : ∀ e ∈ writing priority topic data timestamp, ¬ dataPort.Broke e.op e.resp := by
  intro e he
  simp only [writing, List.mem_cons, List.not_mem_nil, or_false] at he
  rcases he with rfl | rfl | rfl | rfl | rfl
  all_goals exact id

theorem sound_reading : ∀ e ∈ reading priority topic data, ¬ readerPort.Broke e.op e.resp := by
  intro e he
  simp only [reading, List.mem_cons, List.not_mem_nil, or_false] at he
  rcases he with rfl | rfl | rfl | rfl | rfl
  all_goals exact id

theorem taken_reading (priority : UInt8) (topic : Str) (data : Bytes) (timestamp : UInt64) :
    readerPort.taken (reading priority topic data) =
      dataPort.offered (writing priority topic data timestamp) := by
  simp [Port.taken, Port.offered, reading, writing, readerPort, dataPort, messageFrame]

variable {priority topic data timestamp} {ch : ChannelId} {n : Nat}

theorem task_writes (hr : Reachable capacity cfg udpFrameSize s)
    (hrest : s.rest (.task ch) = handleDataStream latencyWarn (n + 1)) {i : Nat}
    {c : ServerClient} {σ : State}
    (hs : Step capacity s.world.state ⟨i, some (.data c ch .waiting), .dequeue ch,
      .data c ch (.writing (messageFrame priority topic data timestamp))⟩ σ) :
    ∃ s', Reachable capacity cfg udpFrameSize s' ∧ s'.world.state = σ ∧
      s'.rest (.task ch) = handleDataStream latencyWarn n ∧
      Net.Solo wiring (.task ch) (writing priority topic data timestamp) s s' := by
  have hrun : Prog.Run (handleDataStream latencyWarn (n + 1))
      (writing priority topic data timestamp ++ []) (handleDataStream latencyWarn n) :=
    (run_writing priority topic data timestamp latencyWarn).bind (.nil _)
  rw [List.append_nil] at hrun
  have hexec : System.Execs (World.Exec capacity ch) s.world
      (writing priority topic data timestamp) ⟨σ, (s.world.state, _) :: s.world.log⟩ :=
    .cons ⟨i, c, hs, rfl⟩ (.cons rfl (.cons rfl (.cons rfl (.cons rfl (.nil _)))))
  obtain ⟨s', hlater, hworld, hrest', hsolo⟩ := Net.later_solo wiring
    (World.Env capacity cfg udpFrameSize) (.task ch) hrun hexec hrest
    (fun _ => sound_writing priority topic data timestamp) nofun
  exact ⟨s', hr.later hlater, congrArg World.state hworld, hrest', hsolo⟩

theorem reader_reads (hr : Reachable capacity cfg udpFrameSize s) (hs : Sendable topic data)
    (hrest : s.rest (.reader ch) = runDataStream (n + 1))
    (hunread : dataPort.offered (writing priority topic data timestamp) <+: (s.streams ch).unread) :
    ∃ s', Reachable capacity cfg udpFrameSize s' ∧ s'.rest (.reader ch) = runDataStream n ∧
      Net.Solo wiring (.reader ch) (reading priority topic data) s s' := by
  have hrun : Prog.Run (runDataStream (n + 1)) (reading priority topic data ++ [])
      (runDataStream n) := (run_reading priority hs).bind (.nil _)
  rw [List.append_nil] at hrun
  have hlength : (utf8 topic ++ 0 :: data).length = (frameLength topic data).toNat := by
    rw [frameLength_toNat hs, List.length_append, List.length_cons, Nat.add_assoc]
  have hexec : System.Execs (fun w (o : ClientDataOp) r w' => w' = w ∧ o.Exact r) s.world
      (reading priority topic data) s.world :=
    .cons ⟨rfl, rfl⟩ (.cons ⟨rfl, rfl⟩ (.cons ⟨rfl, length_leBytes 4 _⟩ (.cons ⟨rfl, hlength⟩
      (.cons ⟨rfl, trivial⟩ (.nil _)))))
  obtain ⟨s', hlater, _, hrest', hsolo⟩ := Net.later_solo wiring
    (World.Env capacity cfg udpFrameSize) (.reader ch) hrun hexec hrest
    (fun _ => sound_reading priority topic data) (by
      intro d hd
      obtain rfl : d = ch := Id.reader.inj hd
      rw [taken_reading priority topic data timestamp]
      exact hunread)
  exact ⟨s', hr.later hlater, hrest', hsolo⟩

end

def idle (w : World) : Network capacity latencyWarn turns where
  world := w
  rest i := (node capacity latencyWarn turns i).body
  history _ := []
  streams _ := ⟨[], []⟩

theorem reachable_env (hr : Reachable capacity cfg udpFrameSize s) {l : Label} {σ : State}
    (hs : Step capacity s.world.state l σ) (hdequeue : ∀ ch, l.effect ≠ .dequeue ch)
    (hl : PushesAdmitted cfg udpFrameSize l) :
    Reachable capacity cfg udpFrameSize
      { s with world := ⟨σ, (s.world.state, l) :: s.world.log⟩ } :=
  .step hr (.env _ ⟨l, ⟨hs, rfl⟩, hdequeue, hl⟩)

theorem application_delivery_sample : ∃ s : Network 2 0 2, Reachable 2 sampleConfig 4096 s ∧
    messages s 0 = [⟨5, ['a'], [1, 2]⟩, ⟨5, ['a'], [3]⟩] ∧
      ∃ entries, entries <+: (entered 0 s.world.log).reverse ∧
        messages s 0 = (entries.filterMap fun e => e.message.read) ∧
        (entries.Pairwise fun earlier later => Later later earlier) ∧
        ∀ e ∈ entries, e.message.read ≠ none → Published sampleConfig 4096 e.message := by
  have hsecond : ⟨[Psrt.sampleClient], 5, ['a'], [3]⟩ ∈ pushes (events sampleCrypto sampleState 0
      (publishArm sampleConfig Psrt.sampleClient Acl.newFull)
      (5 :: (leBytes 4 3 ++ [97, 0, 3]))) := by
    decide +kernel
  obtain ⟨timestamp, hadmitted⟩ := sample_admitted
  obtain ⟨timestamp', hadmitted'⟩ := admitted_of_pushes hsecond
  let f := messageFrame 5 ['a'] [1, 2] timestamp
  let g := messageFrame 5 ['a'] [3] timestamp'
  have hpush : ∀ l : Label, (∃ src rest, l.after = .visiting src f rest) →
      PushesAdmitted sampleConfig 4096 l := by
    rintro l ⟨src, rest, hafter⟩ src' m rest' hafter'
    obtain ⟨_, rfl, _⟩ := Proc.visiting.inj (hafter.symm.trans hafter')
    exact ⟨5, ['a'], [1, 2], timestamp, hadmitted, rfl⟩
  have hpush' : ∀ l : Label, (∃ src rest, l.after = .visiting src g rest) →
      PushesAdmitted sampleConfig 4096 l := by
    rintro l ⟨src, rest, hafter⟩ src' m rest' hafter'
    obtain ⟨_, rfl, _⟩ := Proc.visiting.inj (hafter.symm.trans hafter')
    exact ⟨5, ['a'], [3], timestamp', hadmitted', rfl⟩
  have h : Reachable 2 sampleConfig 4096 (idle ⟨initial, []⟩ : Network 2 0 2) := .init ⟨rfl, rfl⟩
  have h := reachable_env h (.start 0 _ _ rfl (.login DataChannel.sampleClient rfl rfl)) nofun nofun
  have h := reachable_env h (.start 1 _ _ rfl .listener) nofun nofun
  have h := reachable_env h (.start 2 _ _ rfl (.request DataChannel.sampleClient.token)) nofun nofun
  have h := reachable_env h (.move 2 _ _ _ rfl (.register _ DataChannel.sampleClient rfl)) nofun nofun
  have h := reachable_env h (.move 2 _ _ _ rfl (.reply _ _)) nofun nofun
  have h := reachable_env h (.move 2 _ _ _ rfl (.spawnPinger _ _ 3 rfl)) nofun nofun
  have h := reachable_env h (.move 2 _ _ _ rfl (.registerPinger _ _ _)) nofun nofun
  have h := reachable_env h (.move 2 _ _ _ rfl (.spawnData _ _ 4 rfl)) nofun nofun
  have h := reachable_env h (.move 1 _ _ _ rfl
    (.publishUdp f _ (.singleton DataChannel.sampleClient rfl))) nofun (hpush _ ⟨_, _, rfl⟩)
  have h := reachable_env h (.move 1 _ _ _ rfl (.find _ _ _ _ 0 rfl)) nofun nofun
  have h := reachable_env h (.move 1 _ _ _ rfl (.hasRoom _ _ _ _ _ Nat.two_pos)) nofun nofun
  have h := reachable_env h (.move 1 _ _ _ rfl (.send _ _ _ _ _ ⟨4, _, rfl, rfl⟩ Nat.two_pos)) nofun
    (hpush _ ⟨_, _, rfl⟩)
  have h := reachable_env h (.move 1 _ _ _ rfl (.pushedUdp _)) nofun nofun
  have h := reachable_env h (.move 1 _ _ _ rfl
    (.publishUdp g _ (.singleton DataChannel.sampleClient rfl))) nofun (hpush' _ ⟨_, _, rfl⟩)
  have h := reachable_env h (.move 1 _ _ _ rfl (.find _ _ _ _ 0 rfl)) nofun nofun
  have h := reachable_env h (.move 1 _ _ _ rfl (.hasRoom _ _ _ _ _ Nat.one_lt_two)) nofun nofun
  have h := reachable_env h (.move 1 _ _ _ rfl (.send _ _ _ _ _ ⟨4, _, rfl, rfl⟩ Nat.one_lt_two))
    nofun (hpush' _ ⟨_, _, rfl⟩)
  obtain ⟨s₁, h₁, hstate, htask, hsolo₁⟩ := task_writes h rfl (.move 4 _ _ _ rfl (.recv _ 0 f [g] rfl))
  obtain ⟨σ, hwritten, hqueue, hproc⟩ : ∃ σ, Step 2 s₁.world.state
      ⟨4, some (.data DataChannel.sampleClient 0 (.writing f)), .quiet,
        .data DataChannel.sampleClient 0 .waiting⟩ σ ∧ σ.queue 0 = [g] ∧
      σ.procs 4 = some (.data DataChannel.sampleClient 0 .waiting) := by
    rw [hstate]
    exact ⟨_, .move 4 _ _ _ rfl (.written _ 0 f), rfl, rfl⟩
  obtain ⟨s₂, h₂, _, _, hsolo₂⟩ := task_writes (reachable_env h₁ hwritten nofun nofun) htask
    (.move 4 _ _ _ hproc (.recv _ 0 g [] hqueue))
  have hunread : (s₂.streams 0).unread = dataPort.offered (writing 5 ['a'] [1, 2] timestamp) ++
      dataPort.offered (writing 5 ['a'] [3] timestamp') :=
    (hsolo₂.written 0 rfl).trans (congrArg (· ++ _) (hsolo₁.written 0 rfl))
  obtain ⟨hrest₁, hhistory₁⟩ := hsolo₁.others (.reader 0) nofun
  obtain ⟨hrest₂, hhistory₂⟩ := hsolo₂.others (.reader 0) nofun
  obtain ⟨s₃, h₃, hrest₃, hsolo₃⟩ := reader_reads h₂ hadmitted.sendable (hrest₂.trans hrest₁)
    (hunread ▸ List.prefix_append ..)
  have hread : (s₂.streams 0).unread =
      readerPort.taken (reading 5 ['a'] [1, 2]) ++ (s₃.streams 0).unread := hsolo₃.read 0 rfl
  rw [hunread, taken_reading 5 ['a'] [1, 2] timestamp, List.append_right_inj] at hread
  have hnext : dataPort.offered (writing 5 ['a'] [3] timestamp') <+: (s₃.streams 0).unread := by
    rw [hread]
  obtain ⟨s₄, h₄, _, hsolo₄⟩ := reader_reads h₃ hadmitted'.sendable hrest₃ hnext
  have hgiven : messages s₄ 0 = [⟨5, ['a'], [1, 2]⟩, ⟨5, ['a'], [3]⟩] := by
    unfold messages
    rw [hsolo₄.history, hsolo₃.history, hhistory₂]
    exact congrArg (fun h => List.filterMap deliveredOf (h ++ _ ++ _)) hhistory₁
  obtain ⟨⟨entries, hstart, hmessages, hlater, hall⟩, _⟩ := application_delivery h₄ 0
  exact ⟨s₄, h₄, hgiven, entries, hstart, hmessages, hlater, fun e he hread => (hall e he hread).1⟩

end Psrt.Delivery

import Psrt.Lib.Network
import Psrt.Publish.Codec

/-! The two ends of a data stream that may break: what the data task has put on it of the frames it took
from its queue, and what the client behind it has made of that. -/

namespace Psrt
open Wire Interaction

def dataPort : Port DataOp DataOp.Resp UInt8 where
  offer
    | .write buf => buf
    | _ => []
  take _ _ := []
  Broke
    | .write _, .error _ => True
    | _, _ => False

def readerPort : Port ClientDataOp ClientDataOp.Resp UInt8 where
  offer _ := []
  take
    | .read _, .ok b => b
    | _, _ => []
  Broke
    | .read _, .error _ => True
    | _, _ => False

def receivedOf (e : DataEvent) : Option MessageFrame :=
  match e with
  | ⟨.recv, some message⟩ => some message
  | _ => none

/-- The octets a frame is written as; a beacon is written when it is due. -/
def MessageFrame.octets (f : MessageFrame) (due : Bool) : Bytes :=
  if f.frame.head? = some opNop then if due then [opNop] else []
  else f.frame ++ f.data.getD []

theorem MessageFrame.octets_nop {f : MessageFrame} (h : f.frame.head? = some opNop) (due : Bool) :
    f.octets due = if due then [opNop] else [] := if_pos h

theorem MessageFrame.octets_of_ne {f : MessageFrame} (h : f.frame.head? ≠ some opNop) (due : Bool) :
    f.octets due = f.frame ++ f.data.getD [] := if_neg h

def script (frames : List (MessageFrame × Bool)) : Bytes := frames.flatMap fun f => f.1.octets f.2

theorem script_append (frames frames' : List (MessageFrame × Bool)) :
    script (frames ++ frames') = script frames ++ script frames' := List.flatMap_append

theorem script_singleton (f : MessageFrame) (due : Bool) : script [(f, due)] = f.octets due :=
  List.flatMap_singleton ..

structure Written where
  frames : List MessageFrame
  octets : Bytes

namespace Written

def start : Written := ⟨[], []⟩

def next (s : Written) (o : DataOp) (r : o.Resp) : Written where
  frames := s.frames ++ (receivedOf ⟨o, r⟩).toList
  octets := s.octets ++ dataPort.offer o

def Whole (s : Written) : Prop :=
  ∃ sent, sent.map Prod.fst = s.frames ∧ s.octets = script sent

def Torn (s : Written) : Prop :=
  ∃ sent, sent.map Prod.fst = s.frames ∧ s.octets <+: script sent

theorem Whole.torn {s : Written} (h : s.Whole) : s.Torn := by
  obtain ⟨sent, hframes, hoctets⟩ := h
  exact ⟨sent, hframes, hoctets ▸ List.prefix_rfl⟩

theorem torn_last (sent : List (MessageFrame × Bool)) {f : MessageFrame} {due : Bool} {b : Bytes}
    (h : b <+: f.octets due) : Torn ⟨sent.map Prod.fst ++ [f], script sent ++ b⟩ := by
  refine ⟨sent ++ [(f, due)], List.map_append, ?_⟩
  rw [script_append, script_singleton]
  exact (List.prefix_append_right_inj _).mpr h

theorem whole_last (sent : List (MessageFrame × Bool)) (f : MessageFrame) (due : Bool) :
    Whole ⟨sent.map Prod.fst ++ [f], script sent ++ f.octets due⟩ := by
  refine ⟨sent ++ [(f, due)], List.map_append, ?_⟩
  rw [script_append, script_singleton]

end Written

/-- Watches a data task: what it writes is its frames one after the other, and it asks for the next when
all of them are written. -/
def writer : Monitor DataOp DataOp.Resp Written where
  allowed s o := (o = .recv → s.Whole) ∧ ∀ r, (s.next o r).Torn
  possible _ _ _ := True
  next := Written.next

theorem wp_writer_call {α : Type} {Q : α → Written → Prop} {E : DataStop → Written → Prop}
    {s : Written} {o : DataOp} {k : o.Resp → DataProg α} (ho : o ≠ .recv)
    (h : ∀ r, (s.next o r).Torn ∧ writer.wp (k r) Q E (s.next o r)) :
    writer.wp (.call o k) Q E s :=
  ⟨⟨fun heq => absurd heq ho, fun r => (h r).1⟩, fun r _ => (h r).2⟩

theorem next_quiet (s : Written) {o : DataOp} (r : o.Resp) (hrecv : o ≠ .recv)
    (hwrite : dataPort.offer o = []) : s.next o r = s := by
  have hframes : receivedOf ⟨o, r⟩ = none := by
    cases o with
    | recv => exact absurd rfl hrecv
    | _ => rfl
  unfold Written.next
  rw [hframes, hwrite, Option.toList_none, List.append_nil, List.append_nil]

theorem wp_writeEofIsOk_torn {Q : Option Unit → Written → Prop} {s : Written} {b : Bytes}
    {k : DataProg (Option Unit)} (htorn : Written.Torn ⟨s.frames, s.octets ++ b⟩)
    (hq : ∀ s', Q (some ()) s')
    (hk : writer.wp k Q (fun _ _ => True) ⟨s.frames, s.octets ++ b⟩) :
    writer.wp (writeEofIsOk b k) Q (fun _ _ => True) s := by
  have hnext : ∀ r : Except Error Unit, s.next (.write b) r = ⟨s.frames, s.octets ++ b⟩ := by
    intro r
    unfold Written.next
    rw [show receivedOf ⟨.write b, r⟩ = none from rfl, Option.toList_none, List.append_nil]
    rfl
  refine wp_writer_call (by simp) fun r => ?_
  rw [hnext r]
  refine ⟨htorn, ?_⟩
  cases r with
  | ok u => exact hk
  | error e =>
    show writer.wp (if e.kind = .eof then .ret (some ()) else .throw (DataStop.error e)) _ _ _
    split_ifs
    · exact hq _
    · trivial

theorem wp_accountSent_whole (latencyWarn : UInt32) (message : MessageFrame) {s : Written}
    (hs : s.Whole) : writer.wp (accountSent latencyWarn message)
      (fun r s' => r = none → s'.Whole) (fun _ _ => True) s := by
  have hquiet : ∀ {o : DataOp} {k : o.Resp → DataProg (Option Unit)}, o ≠ .recv →
      dataPort.offer o = [] →
      (∀ r, writer.wp (k r) (fun r s' => r = none → s'.Whole) (fun _ _ => True) s) →
      writer.wp (.call o k) (fun r s' => r = none → s'.Whole) (fun _ _ => True) s := by
    intro o k hrecv hwrite hk
    refine wp_writer_call hrecv fun r => ?_
    rw [next_quiet s r hrecv hwrite]
    exact ⟨hs.torn, hk r⟩
  unfold accountSent
  cases message.timestamp with
  | none => exact fun _ => hs
  | some timestamp =>
    refine hquiet (by simp) rfl fun now => hquiet (by simp) rfl fun _ => ?_
    split_ifs
    · unfold warnHighLatency
      split_ifs
      · trivial
      · cases fromUtf8 (splitFirst 0 (message.frame.drop 6)).1 with
        | none => trivial
        | some topic => exact hquiet (by simp) rfl fun _ _ => hs
    · exact fun _ => hs

theorem wp_writeMessage_whole (latencyWarn : UInt32) (sent : List (MessageFrame × Bool))
    (message : MessageFrame) : writer.wp (writeMessage latencyWarn message)
      (fun r s' => r = none → s'.Whole) (fun _ _ => True)
      ⟨sent.map Prod.fst ++ [message], script sent⟩ := by
  have hskipped := Written.whole_last sent message false
  have hwhole := Written.whole_last sent message true
  obtain ⟨timestamp, frame, data⟩ := message
  unfold writeMessage
  cases frame with
  | nil => trivial
  | cons first rest =>
    dsimp only
    by_cases hnop : first = opNop
    · have hbeacon : ∀ due, MessageFrame.octets ⟨timestamp, first :: rest, data⟩ due =
          if due then [opNop] else [] := MessageFrame.octets_nop (congrArg some hnop)
      rw [hbeacon, if_neg Bool.false_ne_true, List.append_nil] at hskipped
      rw [hbeacon, if_pos rfl] at hwhole
      rw [if_pos hnop]
      refine wp_writer_call (by simp) fun due => ?_
      rw [next_quiet _ due (by simp) rfl]
      refine ⟨hskipped.torn, ?_⟩
      cases due with
      | false => exact fun _ => hskipped
      | true => exact wp_writeEofIsOk_torn hwhole.torn (fun _ h => nomatch h) fun _ => hwhole
    · have hhead : (first :: rest).head? ≠ some opNop := fun h => hnop (Option.some.inj h)
      have hoctets : MessageFrame.octets ⟨timestamp, first :: rest, data⟩ true =
          first :: rest ++ data.getD [] := MessageFrame.octets_of_ne hhead true
      have hpart : first :: rest <+: MessageFrame.octets ⟨timestamp, first :: rest, data⟩ true := by
        rw [hoctets]
        exact List.prefix_append ..
      rw [if_neg hnop]
      refine wp_writeEofIsOk_torn (Written.torn_last sent hpart) (fun _ h => nomatch h) ?_
      cases data with
      | none =>
        rw [hoctets, Option.getD_none, List.append_nil] at hwhole
        exact wp_accountSent_whole latencyWarn _ hwhole
      | some data =>
        rw [hoctets, Option.getD_some, ← List.append_assoc] at hwhole
        exact wp_writeEofIsOk_torn hwhole.torn (fun _ h => nomatch h)
          (wp_accountSent_whole latencyWarn _ hwhole)

theorem wp_handleDataStreamTurn_whole (latencyWarn : UInt32) {s : Written} (hs : s.Whole) :
    writer.wp (handleDataStreamTurn latencyWarn) (fun r s' => r = none → s'.Whole)
      (fun _ _ => True) s := by
  have hclosed : s.next .recv none = s := by
    unfold Written.next
    exact congrArg₂ _ (List.append_nil _) (List.append_nil _)
  obtain ⟨sent, hframes, hoctets⟩ := id hs
  have htaken : ∀ message : MessageFrame, s.next .recv (some message) =
      ⟨sent.map Prod.fst ++ [message], script sent⟩ := by
    intro message
    unfold Written.next
    rw [hframes, ← hoctets]
    exact congrArg _ (List.append_nil _)
  refine ⟨⟨fun _ => hs, fun r => ?_⟩, fun r _ => ?_⟩
  · cases r with
    | none => exact hclosed.symm ▸ hs.torn
    | some message =>
      have htorn := Written.torn_last sent (List.nil_prefix (l := message.octets true))
      rw [List.append_nil, ← htaken] at htorn
      exact htorn
  · cases r with
    | none => exact fun h => nomatch h
    | some message =>
      show writer.wp (writeMessage latencyWarn message) _ _ (s.next .recv (some message))
      rw [htaken message]
      exact wp_writeMessage_whole latencyWarn sent message

theorem wp_handleDataStream_torn (latencyWarn : UInt32) (turns : Nat) :
    writer.wp (handleDataStream latencyWarn turns) (fun _ _ => True) (fun _ _ => True) .start := by
  refine Monitor.wp_loop (I := Written.Whole) (fun s hs => ?_) turns ⟨[], rfl, rfl⟩
  refine Monitor.wp_mono (fun r s' hr => ?_) (fun _ _ => id)
    (wp_handleDataStreamTurn_whole latencyWarn hs)
  cases r with
  | some u => trivial
  | none => exact hr rfl

theorem after_writer (h : List DataEvent) :
    writer.after .start h = ⟨h.filterMap receivedOf, dataPort.offered h⟩ := by
  have hframes : (writer.after .start h).frames = h.filterMap receivedOf := by
    rw [List.filterMap_eq_flatMap_toList]
    exact Monitor.after_flatMap (M := writer) (f := Written.frames) (fun _ _ => rfl) .start h
  have hoctets : (writer.after .start h).octets = dataPort.offered h :=
    Monitor.after_flatMap (M := writer) (f := Written.octets)
      (g := fun e => dataPort.offer e.op) (fun _ _ => rfl) .start h
  rw [← hframes, ← hoctets]

section
variable {latencyWarn : UInt32} {turns : Nat} {h : List DataEvent} {q : DataProg Unit}

theorem keeps_writer (hr : Prog.Run (handleDataStream latencyWarn turns) h q) :
    writer.Accepts .start h ∧ writer.wp q (fun _ _ => True) (fun _ _ => True)
      ⟨h.filterMap receivedOf, dataPort.offered h⟩ := by
  rw [← after_writer]
  exact Monitor.wp_run (wp_handleDataStream_torn latencyWarn turns) hr
    (Monitor.admits_of_forall (fun _ _ _ => trivial) _)

theorem torn_of_run (hr : Prog.Run (handleDataStream latencyWarn turns) h q) :
    Written.Torn ⟨h.filterMap receivedOf, dataPort.offered h⟩ := by
  rw [← after_writer]
  exact Monitor.invariant_after writer (I := Written.Torn) (fun _ _ r ho => ho.2 r)
    ⟨[], rfl, List.prefix_rfl⟩ (keeps_writer hr).1

theorem whole_of_recv {k : Option MessageFrame → DataProg Unit}
    (hr : Prog.Run (handleDataStream latencyWarn turns) h (.call .recv k)) :
    Written.Whole ⟨h.filterMap receivedOf, dataPort.offered h⟩ :=
  (keeps_writer hr).2.1.1 rfl

end

def GoesOnSound (p : DataProg (Option Unit)) : Prop :=
  ∀ b : Prop, ¬ b → dataPort.watch.wp p (fun r b => r = none → ¬ b) (fun _ _ => True) b

theorem goesOnSound_call {o : DataOp} {k : o.Resp → DataProg (Option Unit)}
    (ho : ∀ r, ¬ dataPort.Broke o r) (hk : ∀ r, GoesOnSound (k r)) : GoesOnSound (.call o k) :=
  fun _ hb => ⟨fun h => absurd h hb, fun r _ => hk r _ (not_or.mpr ⟨hb, ho r⟩)⟩

theorem goesOnSound_writeEofIsOk {buf : Bytes} {k : DataProg (Option Unit)} (hk : GoesOnSound k) :
    GoesOnSound (writeEofIsOk buf k) := by
  refine fun b hb => ⟨fun h => absurd h hb, fun r _ => ?_⟩
  cases r with
  | ok u => exact hk _ (not_or.mpr ⟨hb, id⟩)
  | error e =>
    show dataPort.watch.wp (if e.kind = .eof then .ret (some ()) else .throw (DataStop.error e)) _ _ _
    split_ifs
    · exact fun h => nomatch h
    · trivial

theorem goesOnSound_accountSent (latencyWarn : UInt32) (message : MessageFrame) :
    GoesOnSound (accountSent latencyWarn message) := by
  unfold accountSent
  cases message.timestamp with
  | none => exact fun _ hb _ => hb
  | some timestamp =>
    refine goesOnSound_call (fun _ => id) fun now => goesOnSound_call (fun _ => id) fun _ => ?_
    split_ifs
    · unfold warnHighLatency
      split_ifs
      · exact fun _ _ => trivial
      · cases fromUtf8 (splitFirst 0 (message.frame.drop 6)).1 with
        | none => exact fun _ _ => trivial
        | some topic => exact goesOnSound_call (fun _ => id) fun _ _ hb _ => hb
    · exact fun _ hb _ => hb

theorem goesOnSound_writeMessage (latencyWarn : UInt32) (message : MessageFrame) :
    GoesOnSound (writeMessage latencyWarn message) := by
  have haccount := goesOnSound_accountSent latencyWarn message
  obtain ⟨timestamp, frame, data⟩ := message
  unfold writeMessage
  cases frame with
  | nil => exact fun _ _ => trivial
  | cons first rest =>
    dsimp only
    split_ifs
    · refine goesOnSound_call (fun _ => id) fun due => ?_
      cases due with
      | false => exact fun _ hb _ => hb
      | true => exact goesOnSound_writeEofIsOk fun _ hb _ => hb
    · refine goesOnSound_writeEofIsOk ?_
      cases data with
      | none => exact haccount
      | some data => exact goesOnSound_writeEofIsOk haccount

theorem careful_handleDataStream (latencyWarn : UInt32) (turns : Nat) :
    dataPort.Careful (handleDataStream latencyWarn turns) := by
  have hturn : GoesOnSound (handleDataStreamTurn latencyWarn) := by
    refine goesOnSound_call (fun _ => id) fun message => ?_
    cases message with
    | none => exact fun _ _ h => nomatch h
    | some message => exact goesOnSound_writeMessage latencyWarn message
  exact Port.careful_loop (hturn False id) turns

def MessageFrame.read (f : MessageFrame) : Option Message :=
  match f.frame, f.data with
  | _ :: priority :: rest, some data =>
    (fromUtf8 (splitFirst 0 (rest.drop 4)).1).map fun topic => ⟨priority, topic, data⟩
  | _, _ => none

namespace Queued

theorem octets_frame (item : Queued) (due : Bool) : item.frame.octets due = item.bytes due := by
  cases item with
  | nop => exact MessageFrame.octets_nop rfl due
  | message priority topic data timestamp =>
    have hhead : (Queued.message priority topic data timestamp).frame.frame.head? ≠ some opNop := by
      show some responseOk ≠ some opNop
      decide
    rw [MessageFrame.octets_of_ne hhead]
    simp [frame, messageFrame, bytes]

theorem read_frame {item : Queued} (h : item.Valid) : item.frame.read = item.read := by
  cases item with
  | nop => rfl
  | message priority topic data timestamp =>
    have hrest : (leBytes 4 (frameLength topic data).toNat ++ (utf8 topic ++ [0])).drop 4 =
        utf8 topic ++ 0 :: [] := List.drop_left' (length_leBytes 4 _)
    simp only [frame, messageFrame, MessageFrame.read]
    rw [hrest, splitFirst_append h.1, fromUtf8_utf8]
    rfl

theorem read_of_bytes_nil {item : Queued} {due : Bool} (h : item.bytes due = []) :
    item.read = none := by
  cases item with
  | nop => rfl
  | message priority topic data timestamp => cases h

end Queued

/-! What a data channel queues, each with whether a beacon was due. -/

namespace Items

def octets (items : List (Queued × Bool)) : Bytes := items.flatMap fun item => item.1.bytes item.2

def messages (items : List (Queued × Bool)) : List Message := items.filterMap fun item => item.1.read

theorem octets_cons (item : Queued × Bool) (items : List (Queued × Bool)) :
    octets (item :: items) = item.1.bytes item.2 ++ octets items := List.flatMap_cons

theorem octets_append (items items' : List (Queued × Bool)) :
    octets (items ++ items') = octets items ++ octets items' := List.flatMap_append

theorem messages_append (items items' : List (Queued × Bool)) :
    messages (items ++ items') = messages items ++ messages items' := List.filterMap_append

theorem messages_singleton (item : Queued × Bool) : messages [item] = item.1.read.toList := by
  obtain ⟨item, due⟩ := item
  cases item with
  | nop => rfl
  | message priority topic data timestamp => rfl

theorem messages_of_octets_nil {items : List (Queued × Bool)} (h : octets items = []) :
    messages items = [] := by
  induction items with
  | nil => rfl
  | cons item items ih =>
    rw [octets_cons, List.append_eq_nil_iff] at h
    have hnothing := Queued.read_of_bytes_nil h.1
    simp only [messages, List.filterMap_cons, hnothing]
    exact ih h.2

theorem next_item {items : List (Queued × Bool)} {b : UInt8} {more : Bytes} (h : octets items = b :: more) :
    ∃ skipped item rest, items = skipped ++ item :: rest ∧ octets skipped = [] ∧
      item.1.bytes item.2 ≠ [] := by
  induction items with
  | nil => cases h
  | cons item items ih =>
    by_cases hitem : item.1.bytes item.2 = []
    · rw [octets_cons, hitem, List.nil_append] at h
      obtain ⟨skipped, found, rest, rfl, hskipped, hfound⟩ := ih h
      refine ⟨item :: skipped, found, rest, rfl, ?_, hfound⟩
      rw [octets_cons, hitem, hskipped]
      rfl
    · exact ⟨[], item, items, rfl, rfl, hitem⟩

end Items

structure Heard where
  rest : Bytes
  messages : List Message

namespace Heard

def next (s : Heard) (o : ClientDataOp) (r : o.Resp) : Heard where
  rest := s.rest.drop (readerPort.take o r).length
  messages := s.messages ++ (deliveredOf ⟨o, r⟩).toList

def InOrder (sent : List (Queued × Bool)) (s : Heard) : Prop :=
  ∃ items, items <+: sent ∧ s.messages = Items.messages items

structure Between (sent : List (Queued × Bool)) (s : Heard) (rest : List (Queued × Bool)) : Prop where
  split : ∃ items, sent = items ++ rest ∧ s.messages = Items.messages items
  octets : s.rest = Items.octets rest

theorem Between.skip {sent skipped rest : List (Queued × Bool)} {s : Heard}
    (h : s.Between sent (skipped ++ rest)) (hskipped : Items.octets skipped = []) :
    s.Between sent rest := by
  obtain ⟨items, rfl, hmessages⟩ := h.split
  refine ⟨⟨items ++ skipped, (List.append_assoc ..).symm, ?_⟩, ?_⟩
  · rw [Items.messages_append, Items.messages_of_octets_nil hskipped, List.append_nil, hmessages]
  · rw [h.octets, Items.octets_append, hskipped, List.nil_append]

theorem Between.done {sent rest : List (Queued × Bool)} {s : Heard} {item : Queued × Bool}
    (h : s.Between sent (item :: rest)) :
    Between sent ⟨Items.octets rest, s.messages ++ item.1.read.toList⟩ rest := by
  obtain ⟨items, rfl, hmessages⟩ := h.split
  refine ⟨⟨items ++ [item], (List.append_assoc items [item] rest).symm, ?_⟩, rfl⟩
  rw [Items.messages_append, Items.messages_singleton, hmessages]

theorem Between.inOrder {sent rest : List (Queued × Bool)} {s : Heard} (h : s.Between sent rest) :
    s.InOrder sent := by
  obtain ⟨items, rfl, hmessages⟩ := h.split
  exact ⟨items, List.prefix_append .., hmessages⟩

end Heard

def Heard.Possible (s : Heard) : (o : ClientDataOp) → o.Resp → Prop
  | .read n, .ok b => b.length = n ∧ b <+: s.rest
  | _, _ => True

/-- Watches the reader of `sent`: what it hands over is the messages of the first items, and it asks for
more when nothing is left only if it has handed over all of them. -/
def reader (sent : List (Queued × Bool)) : Monitor ClientDataOp ClientDataOp.Resp Heard where
  allowed s o := ((∃ n, o = .read n) → s.rest = [] → s.messages = Items.messages sent) ∧
    ∀ r, (s.next o r).InOrder sent
  possible := Heard.Possible
  next := Heard.next

section
variable {sent : List (Queued × Bool)} {s : Heard} {α : Type} {Q : α → Heard → Prop}

theorem wp_readData_field {field more : Bytes} {n : Nat} {k : Bytes → ClientDataProg α}
    (hs : s.rest = field ++ more) (hlength : field.length = n) (hn : 0 < n)
    (hsent : s.InOrder sent)
    (hk : (reader sent).wp (k field) Q (fun _ _ => True) ⟨more, s.messages⟩) :
    (reader sent).wp ((readData n).bind k) Q (fun _ _ => True) s := by
  have hmessages : ∀ r : Except Error Bytes, (s.next (.read n) r).messages = s.messages :=
    fun r => List.append_nil _
  refine ⟨⟨fun _ hrest => ?_, fun r => ?_⟩, fun r hr => ?_⟩
  · rw [hs, List.append_eq_nil_iff] at hrest
    rw [hrest.1] at hlength
    exact absurd hlength hn.ne
  · obtain ⟨items, hitems, heq⟩ := hsent
    exact ⟨items, hitems, (hmessages r).trans heq⟩
  · cases r with
    | error e => trivial
    | ok b =>
      obtain ⟨hb, hstart⟩ := hr
      have hfield : b = field := by
        rw [hs] at hstart
        have hpart := List.prefix_of_prefix_length_le hstart (List.prefix_append field more)
          (hb.trans hlength.symm).le
        exact hpart.eq_of_length (hb.trans hlength.symm)
      have hnext : s.next (.read n) (.ok b) = ⟨more, s.messages⟩ := by
        have hrest : s.rest.drop b.length = more := by
          rw [hs, hfield, List.drop_left]
        exact congrArg₂ Heard.mk hrest (hmessages _)
      show (reader sent).wp (k b) _ _ (s.next (.read n) (.ok b))
      rw [hnext, hfield]
      exact hk

theorem wp_runDataStreamTurn_nop {rest : List (Queued × Bool)}
    (hs : s.Between sent ((.nop, true) :: rest)) :
    (reader sent).wp runDataStreamTurn (fun r s' => r = none → ∃ rest', s'.Between sent rest')
      (fun _ _ => True) s := by
  have hrest : s.rest = [opNop] ++ Items.octets rest := hs.octets.trans (Items.octets_cons ..)
  refine wp_readData_field hrest rfl Nat.one_pos hs.inOrder fun _ => ⟨rest, ?_⟩
  have hdone := hs.done
  rwa [show (Queued.nop, true).1.read = none from rfl, Option.toList_none, List.append_nil] at hdone

theorem wp_runDataStreamTurn_message {rest : List (Queued × Bool)} {priority : UInt8} {topic : Str}
    {data : Bytes} {timestamp : UInt64} {due : Bool} (hvalid : Sendable topic data)
    (hs : s.Between sent ((.message priority topic data timestamp, due) :: rest)) :
    (reader sent).wp runDataStreamTurn (fun r s' => r = none → ∃ rest', s'.Between sent rest')
      (fun _ _ => True) s := by
  have hrest : s.rest = [responseOk] ++ ([priority] ++ (leBytes 4 (frameLength topic data).toNat ++
      ((utf8 topic ++ 0 :: data) ++ Items.octets rest))) := by
    rw [hs.octets, Items.octets_cons]
    simp only [Queued.bytes, List.cons_append, List.nil_append, List.append_assoc]
  have hlength : (utf8 topic ++ 0 :: data).length = (frameLength topic data).toNat := by
    rw [frameLength_toNat hvalid, List.length_append, List.length_cons, Nat.add_assoc]
  have hpositive : 0 < (frameLength topic data).toNat := by
    rw [frameLength_toNat hvalid]
    exact Nat.succ_pos _
  have hlt : (frameLength topic data).toNat < 256 ^ 4 := (frameLength topic data).toNat_lt
  have hdone := hs.done
  refine wp_readData_field hrest rfl Nat.one_pos hs.inOrder ?_
  rw [show List.headD [responseOk] 0 = responseOk from rfl, handleDataOp_responseOk]
  refine wp_readData_field rfl rfl Nat.one_pos hs.inOrder ?_
  unfold readFrameWith
  simp only [Prog.bind_eq, Prog.bind_assoc]
  refine wp_readData_field rfl (length_leBytes 4 _) (by decide) hs.inOrder ?_
  simp only [leNat_leBytes_of_lt hlt, Option.any_none, Bool.false_eq_true, if_false]
  refine wp_readData_field rfl hlength hpositive hs.inOrder ?_
  simp only [Message.fromBuf_append hvalid.1]
  refine ⟨⟨fun hread => ?_, fun r => hdone.inOrder⟩, fun r _ => ?_⟩
  · obtain ⟨n, hn⟩ := hread
    cases hn
  cases r with
  | error e => trivial
  | ok u => exact fun _ => ⟨rest, hdone⟩

theorem wp_runDataStreamTurn {rest : List (Queued × Bool)} (hvalid : ∀ item ∈ sent, item.1.Valid)
    (hs : s.Between sent rest) : (reader sent).wp runDataStreamTurn
      (fun r s' => r = none → ∃ rest', s'.Between sent rest') (fun _ _ => True) s := by
  cases hoctets : Items.octets rest with
  | nil =>
    obtain ⟨items, hsent, hmessages⟩ := hs.split
    refine ⟨⟨fun _ _ => ?_, fun r => ?_⟩, fun r hr => ?_⟩
    · rw [hmessages, hsent, Items.messages_append, Items.messages_of_octets_nil hoctets,
        List.append_nil]
    · obtain ⟨items', hstart, heq⟩ := hs.inOrder
      exact ⟨items', hstart, (List.append_nil _).trans heq⟩
    · cases r with
      | error e => trivial
      | ok b =>
        obtain ⟨hb, hstart⟩ := hr
        rw [hs.octets, hoctets, List.prefix_nil] at hstart
        rw [hstart] at hb
        exact absurd hb (Nat.zero_ne_one)
  | cons b more =>
    obtain ⟨skipped, ⟨item, due⟩, after, rfl, hskipped, hitem⟩ := Items.next_item hoctets
    have hnext := hs.skip hskipped
    have hmem : (item, due) ∈ sent := by
      obtain ⟨items, rfl, _⟩ := hnext.split
      exact List.mem_append_right _ List.mem_cons_self
    have hitemValid := hvalid _ hmem
    cases item with
    | nop =>
      cases due with
      | false => exact absurd rfl hitem
      | true => exact wp_runDataStreamTurn_nop hnext
    | message priority topic data timestamp => exact wp_runDataStreamTurn_message hitemValid hnext

theorem wp_runDataStream (hvalid : ∀ item ∈ sent, item.1.Valid) (turns : Nat) :
    (reader sent).wp (runDataStream turns) (fun _ _ => True) (fun _ _ => True) ⟨Items.octets sent, []⟩ := by
  refine Monitor.wp_loop (I := fun s => ∃ rest, s.Between sent rest) (fun s ⟨rest, hs⟩ => ?_) turns
    ⟨sent, ⟨[], rfl, rfl⟩, rfl⟩
  refine Monitor.wp_mono (fun r s' hr => ?_) (fun _ _ => id) (wp_runDataStreamTurn hvalid hs)
  cases r with
  | some u => trivial
  | none => exact hr rfl

theorem after_reader (h : List ClientDataEvent) (s : Heard) :
    (reader sent).after s h =
      ⟨s.rest.drop (readerPort.taken h).length, s.messages ++ h.filterMap deliveredOf⟩ := by
  induction h generalizing s with
  | nil => exact congrArg₂ Heard.mk rfl (List.append_nil _).symm
  | cons e h ih =>
    show (reader sent).after (s.next e.op e.resp) h = _
    rw [ih]
    refine congrArg₂ Heard.mk ?_ ?_
    · show (s.rest.drop _).drop _ = s.rest.drop (readerPort.taken ([e] ++ h)).length
      rw [Port.taken_append, List.length_append, List.drop_drop, Port.taken_singleton]
    · show s.messages ++ (deliveredOf e).toList ++ _ = _
      rw [List.filterMap_eq_flatMap_toList, List.filterMap_eq_flatMap_toList, List.flatMap_cons,
        List.append_assoc]

def ClientDataOp.Exact : (o : ClientDataOp) → o.Resp → Prop
  | .read n, .ok b => b.length = n
  | _, _ => True

theorem admits_reader {h : List ClientDataEvent} (hexact : ∀ e ∈ h, e.op.Exact e.resp)
    (htaken : readerPort.taken h <+: s.rest) : (reader sent).Admits s h := by
  induction h generalizing s with
  | nil => trivial
  | cons e h ih =>
    obtain ⟨hfirst, hrest⟩ := List.forall_mem_cons.mp hexact
    obtain ⟨o, r⟩ := e
    have hsplit : readerPort.taken (⟨o, r⟩ :: h) = readerPort.take o r ++ readerPort.taken h := rfl
    rw [hsplit] at htaken
    refine ⟨?_, ih hrest ?_⟩
    · cases o with
      | read n =>
        cases r with
        | ok b => exact ⟨hfirst, (List.prefix_append ..).trans htaken⟩
        | error e => trivial
      | _ => trivial
    · obtain ⟨more, hmore⟩ := htaken
      refine ⟨more, ?_⟩
      show _ = s.rest.drop (readerPort.take o r).length
      rw [← hmore, List.append_assoc, List.drop_left]

variable {turns : Nat} {h : List ClientDataEvent} {q : ClientDataProg Unit}

theorem keeps_reader (hvalid : ∀ item ∈ sent, item.1.Valid)
    (hr : Prog.Run (runDataStream turns) h q) (hexact : ∀ e ∈ h, e.op.Exact e.resp)
    (htaken : readerPort.taken h <+: Items.octets sent) :
    (reader sent).Accepts ⟨Items.octets sent, []⟩ h ∧
      (reader sent).wp q (fun _ _ => True) (fun _ _ => True)
        ⟨(Items.octets sent).drop (readerPort.taken h).length, h.filterMap deliveredOf⟩ := by
  have hrun := Monitor.wp_run (wp_runDataStream hvalid turns) hr (admits_reader hexact htaken)
  rwa [after_reader] at hrun

theorem inOrder_of_run (hvalid : ∀ item ∈ sent, item.1.Valid)
    (hr : Prog.Run (runDataStream turns) h q) (hexact : ∀ e ∈ h, e.op.Exact e.resp)
    (htaken : readerPort.taken h <+: Items.octets sent) :
    ∃ items, items <+: sent ∧ h.filterMap deliveredOf = Items.messages items := by
  have hend := Monitor.invariant_after (reader sent) (I := Heard.InOrder sent) (fun _ _ r ho => ho.2 r)
    ⟨[], List.nil_prefix, rfl⟩ (keeps_reader hvalid hr hexact htaken).1
  rwa [after_reader] at hend

/-- When it waits for more and everything has been read, it has handed over everything. -/
theorem all_of_read {n : Nat} {k : Except Error Bytes → ClientDataProg Unit}
    (hvalid : ∀ item ∈ sent, item.1.Valid)
    (hr : Prog.Run (runDataStream turns) h (.call (.read n) k))
    (hexact : ∀ e ∈ h, e.op.Exact e.resp) (htaken : readerPort.taken h = Items.octets sent) :
    h.filterMap deliveredOf = Items.messages sent := by
  have hwait := (keeps_reader hvalid hr hexact (htaken ▸ List.prefix_rfl)).2.1.1 ⟨n, rfl⟩
  rw [htaken, List.drop_length] at hwait
  exact hwait rfl

end

theorem stopsOn_readData (n : Nat) : (readData n).StopsOn readerPort.Broke := by
  intro r
  cases r with
  | ok b => exact ⟨fun h => h.elim, trivial⟩
  | error e => exact ⟨fun _ => ⟨e, rfl⟩, trivial⟩

theorem stopsOn_runDataStreamTurn : runDataStreamTurn.StopsOn readerPort.Broke := by
  refine Prog.StopsOn.bind (stopsOn_readData 1) fun buf => ?_
  unfold handleDataOp
  split_ifs
  · trivial
  · refine Prog.StopsOn.bind (stopsOn_readData 1) fun prio => ?_
    refine Prog.StopsOn.bind (Prog.StopsOn.bind (stopsOn_readData 4) fun lenBuf => ?_) fun frame => ?_
    · exact stopsOn_readData _
    · cases Message.fromBuf frame (prio.headD defaultPriority) with
      | error e => trivial
      | ok v =>
        intro r
        refine ⟨fun h => h.elim, Prog.StopsOn.bind (Prog.stopsOn_ofExcept r) fun _ => trivial⟩
  · exact fun _ => ⟨fun h => h.elim, trivial⟩

theorem careful_runDataStream (turns : Nat) : readerPort.Careful (runDataStream turns) := by
  refine Port.careful_loop (Monitor.wp_mono (fun r b hb _ => hb) (fun _ _ => id) ?_) turns
  exact Port.wp_watch_of_stopsOn stopsOn_runDataStreamTurn id

end Psrt

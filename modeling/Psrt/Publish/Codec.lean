import Psrt.Client.DataStream
import Psrt.Publish.Admission
import Psrt.Publish.Agreement
import Psrt.Server.DataStream

/-! The data stream from end to end: what the server's data task writes of its queue, the client's
data task reads back. -/

namespace Psrt
open Wire Interaction

/-- What a data channel queues: a message, or a beacon of the pinger. -/
inductive Queued where
  | message (priority : UInt8) (topic : Str) (data : Bytes) (timestamp : UInt64)
  | nop

namespace Queued

def frame : Queued → MessageFrame
  | .message priority topic data timestamp => messageFrame priority topic data timestamp
  | .nop => emptyMessage

def read : Queued → Option Message
  | .message priority topic data _ => some ⟨priority, topic, data⟩
  | .nop => none

def Valid : Queued → Prop
  | .message _ topic data _ => Sendable topic data
  | .nop => True

def bytes (due : Bool) : Queued → Bytes
  | .message priority topic data _ => responseOk :: priority ::
      (leBytes 4 (frameLength topic data).toNat ++ (utf8 topic ++ 0 :: data))
  | .nop => if due then [opNop] else []

end Queued

def writtenOf (e : DataEvent) : Bytes :=
  match e.op with
  | .write buf => buf
  | _ => []

/-- Surroundings of a data task whose channel is closed behind `queue` and whose peer takes
everything. Whether a beacon is due and what the clock reads may differ at every turn. -/
def dataAnswer (due : Nat → Bool) (clock : Nat → UInt64) (queue : List MessageFrame) :
    (o : DataOp) → o.Resp × List MessageFrame
  | .recv => (queue.head?, queue.tail)
  | .beaconDue => (due queue.length, queue)
  | .write _ => (.ok (), queue)
  | .nowNs => (clock queue.length, queue)
  | .countSentBytes _ _ => ((), queue)
  | .warnLatency _ _ => ((), queue)

theorem frameLength_toNat {topic : Str} {message : Bytes} (h : Sendable topic message) :
    (frameLength topic message).toNat = (utf8 topic).length + message.length + 1 := by
  have hlt := h.2
  unfold frameLength
  rw [UInt32.toNat_add, UInt32.toNat_add, UInt32.toNat_ofNat', UInt32.toNat_ofNat']
  have hone : (1 : UInt32).toNat = 1 := rfl
  rw [hone]
  omega

section
variable (latencyWarn : UInt32) (due : Nat → Bool) (clock : Nat → UInt64)

theorem drop_messageFrame (priority : UInt8) (topic : Str) (data : Bytes) (timestamp : UInt64) :
    (messageFrame priority topic data timestamp).frame.drop 6 = utf8 topic ++ [0] := by
  unfold messageFrame
  rw [List.drop_succ_cons, List.drop_succ_cons]
  exact List.drop_left' (length_leBytes 4 _)

theorem warnHighLatency_messageFrame {topic : Str} {data : Bytes} (hs : Sendable topic data)
    (priority : UInt8) (timestamp : UInt64) (latencyMks : UInt32) :
    warnHighLatency (messageFrame priority topic data timestamp) latencyMks =
      .call (.warnLatency latencyMks topic) fun _ => .ret none := by
  have hlen : ¬ (messageFrame priority topic data timestamp).frame.length < 6 := by
    simp only [messageFrame, List.length_cons, List.length_append, length_leBytes]
    omega
  unfold warnHighLatency
  rw [if_neg hlen, drop_messageFrame, splitFirst_append hs.1, fromUtf8_utf8]

theorem eval_accountSent {topic : Str} {data : Bytes} (hs : Sendable topic data)
    (priority : UInt8) (timestamp : UInt64) (queue : List MessageFrame) :
    ∃ h, Prog.eval (dataAnswer due clock)
        (accountSent latencyWarn (messageFrame priority topic data timestamp)) queue =
        (h, queue, some (.ok none)) ∧
      h.flatMap writtenOf = [] := by
  have hstamp : (messageFrame priority topic data timestamp).timestamp = some timestamp := rfl
  unfold accountSent
  rw [hstamp]
  simp only [Prog.eval_call, warnHighLatency_messageFrame hs]
  split_ifs
  · exact ⟨_, rfl, rfl⟩
  · exact ⟨_, rfl, rfl⟩

theorem eval_handleDataStreamTurn {item : Queued} (hitem : item.Valid)
    (queue : List MessageFrame) :
    ∃ h, Prog.eval (dataAnswer due clock) (handleDataStreamTurn latencyWarn)
        (item.frame :: queue) = (h, queue, some (.ok none)) ∧
      h.flatMap writtenOf = item.bytes (due queue.length) := by
  cases item with
  | nop =>
    have hwrite : Prog.eval (dataAnswer due clock) (writeMessage latencyWarn emptyMessage) queue =
        Prog.eval (dataAnswer due clock) (.call .beaconDue fun due =>
          if due then writeEofIsOk [opNop] (.ret none) else .ret none) queue := rfl
    unfold handleDataStreamTurn
    simp only [Queued.frame, Prog.eval_call, dataAnswer, List.head?_cons, List.tail_cons]
    rw [hwrite]
    cases hdue : due queue.length with
    | false =>
      simp only [Prog.eval_call, dataAnswer, hdue, Bool.false_eq_true, if_false, Queued.bytes]
      exact ⟨_, rfl, rfl⟩
    | true =>
      simp only [Prog.eval_call, dataAnswer, hdue, if_true, Queued.bytes]
      exact ⟨_, rfl, rfl⟩
  | message priority topic data timestamp =>
    obtain ⟨h, hacc, hnothing⟩ :=
      eval_accountSent latencyWarn due clock hitem priority timestamp queue
    have hwrite : writeMessage latencyWarn (messageFrame priority topic data timestamp) =
        writeEofIsOk (messageFrame priority topic data timestamp).frame
          (writeEofIsOk data
            (accountSent latencyWarn (messageFrame priority topic data timestamp))) := rfl
    unfold handleDataStreamTurn
    simp only [Queued.frame, Prog.eval_call, dataAnswer, List.head?_cons, List.tail_cons, hwrite,
      writeEofIsOk, hacc]
    refine ⟨_, rfl, ?_⟩
    simp only [List.flatMap_cons, hnothing, writtenOf, Queued.bytes, messageFrame, List.nil_append,
      List.append_nil, List.cons_append, List.append_assoc]

def streamBytes : List Queued → Bytes
  | [] => []
  | item :: items => item.bytes (due items.length) ++ streamBytes items

theorem eval_handleDataStream {items : List Queued} (hitems : ∀ item ∈ items, item.Valid)
    {turns : Nat} (hturns : items.length < turns) :
    ∃ h, Prog.eval (dataAnswer due clock) (handleDataStream latencyWarn turns)
        (items.map Queued.frame) = (h, [], some (.ok ())) ∧
      h.flatMap writtenOf = streamBytes due items := by
  induction items generalizing turns with
  | nil =>
    obtain ⟨n, rfl⟩ : ∃ n, turns = n + 1 := ⟨turns - 1, by omega⟩
    exact ⟨[⟨.recv, none⟩], rfl, rfl⟩
  | cons item items ih =>
    rw [List.length_cons] at hturns
    obtain ⟨n, rfl⟩ : ∃ n, turns = n + 1 := ⟨turns - 1, by omega⟩
    obtain ⟨h₁, hturn, hbytes⟩ := eval_handleDataStreamTurn latencyWarn due clock
      (hitems item (List.mem_cons_self ..)) (items.map Queued.frame)
    obtain ⟨h₂, hrest, hrestBytes⟩ :=
      ih (fun i hi => hitems i (List.mem_cons_of_mem _ hi)) (show items.length < n by omega)
    refine ⟨h₁ ++ h₂, ?_, ?_⟩
    · unfold handleDataStream at hrest ⊢
      rw [List.map_cons, Prog.loop, Prog.eval_bind, hturn]
      dsimp only
      rw [hrest]
    · rw [List.flatMap_append, hbytes, hrestBytes, List.length_map]
      rfl

theorem eval_runDataStreamTurn_nop (rest : Bytes) :
    ∃ h, Prog.eval clientDataAnswer runDataStreamTurn (opNop :: rest) =
        (h, rest, some (.ok none)) ∧ h.filterMap deliveredOf = [] := by
  have hbytes : opNop :: rest = [opNop] ++ rest := rfl
  unfold runDataStreamTurn
  rw [Prog.bind_eq, hbytes, eval_readData (n := 1) rfl]
  exact ⟨_, rfl, rfl⟩

theorem eval_runDataStreamTurn_message (priority : UInt8) {topic : Str} {data : Bytes}
    (hs : Sendable topic data) (rest : Bytes) :
    ∃ h, Prog.eval clientDataAnswer runDataStreamTurn (responseOk :: priority ::
          (leBytes 4 (frameLength topic data).toNat ++ (utf8 topic ++ 0 :: data)) ++ rest) =
        (h, rest, some (.ok none)) ∧
      h.filterMap deliveredOf = [⟨priority, topic, data⟩] := by
  have hlength : (utf8 topic ++ 0 :: data).length = (frameLength topic data).toNat := by
    rw [frameLength_toNat hs, List.length_append, List.length_cons, Nat.add_assoc]
  have hbytes : responseOk :: priority ::
      (leBytes 4 (frameLength topic data).toNat ++ (utf8 topic ++ 0 :: data)) ++ rest =
      [responseOk] ++ ([priority] ++ (leBytes 4 (frameLength topic data).toNat ++
        ((utf8 topic ++ 0 :: data) ++ rest))) := by
    simp only [List.cons_append, List.nil_append, List.append_assoc]
  have hlt : (frameLength topic data).toNat < 256 ^ 4 := (frameLength topic data).toNat_lt
  unfold runDataStreamTurn
  rw [Prog.bind_eq, hbytes, eval_readData (n := 1) rfl]
  have hok : List.headD [responseOk] 0 = responseOk := rfl
  rw [hok, handleDataOp_responseOk, eval_readData (n := 1) rfl]
  unfold readFrameWith
  simp only [Prog.bind_eq, Prog.bind_assoc]
  rw [eval_readData (length_leBytes 4 _)]
  simp only [leNat_leBytes_of_lt hlt, Option.any_none, Bool.false_eq_true, if_false]
  rw [eval_readData hlength, Message.fromBuf_append hs.1]
  exact ⟨_, rfl, rfl⟩

theorem eval_runDataStream {items : List Queued} (hitems : ∀ item ∈ items, item.Valid)
    {turns : Nat} (hturns : items.length < turns) :
    ∃ h, Prog.eval clientDataAnswer (runDataStream turns) (streamBytes due items) =
        (h, [], some (.error (.eof "early eof"))) ∧
      h.filterMap deliveredOf = items.filterMap Queued.read := by
  induction items generalizing turns with
  | nil =>
    obtain ⟨n, rfl⟩ : ∃ n, turns = n + 1 := ⟨turns - 1, by omega⟩
    exact ⟨[⟨.read 1, .error (.eof "early eof")⟩], rfl, rfl⟩
  | cons item items ih =>
    rw [List.length_cons] at hturns
    have hvalid := hitems item (List.mem_cons_self ..)
    have htail : ∀ i ∈ items, i.Valid := fun i hi => hitems i (List.mem_cons_of_mem _ hi)
    obtain ⟨n, rfl⟩ : ∃ n, turns = n + 1 := ⟨turns - 1, by omega⟩
    -- a turn that reads one item's octets, followed by the turns for the rest
    have hturn : ∀ {h₁ : List ClientDataEvent} {b : Bytes},
        Prog.eval clientDataAnswer runDataStreamTurn (b ++ streamBytes due items) =
          (h₁, streamBytes due items, some (.ok none)) →
        ∃ h, Prog.eval clientDataAnswer (runDataStream (n + 1)) (b ++ streamBytes due items) =
            (h, [], some (.error (.eof "early eof"))) ∧
          h.filterMap deliveredOf =
            h₁.filterMap deliveredOf ++ items.filterMap Queued.read := by
      intro h₁ b heval
      obtain ⟨h₂, hrest, hdelivered⟩ := ih htail (show items.length < n by omega)
      refine ⟨h₁ ++ h₂, ?_, ?_⟩
      · unfold runDataStream at hrest ⊢
        rw [Prog.loop, Prog.eval_bind, heval]
        dsimp only
        rw [hrest]
      · rw [List.filterMap_append, hdelivered]
    cases item with
    | message priority topic data timestamp =>
      obtain ⟨h₁, heval, hone⟩ :=
        eval_runDataStreamTurn_message priority hvalid (streamBytes due items)
      obtain ⟨h, hall, hdelivered⟩ := hturn heval
      refine ⟨h, hall, ?_⟩
      rw [hdelivered, hone]
      rfl
    | nop =>
      unfold streamBytes Queued.bytes
      cases due items.length with
      -- a nop that falls within the interval writes nothing
      | false => exact ih htail (show items.length < n + 1 by omega)
      | true =>
        obtain ⟨h₁, heval, hnone⟩ := eval_runDataStreamTurn_nop (streamBytes due items)
        obtain ⟨h, hall, hdelivered⟩ := hturn (b := [opNop]) heval
        refine ⟨h, hall, ?_⟩
        rw [hdelivered, hnone]
        rfl

/-- The client reads exactly the queued messages back from what the server wrote of them and of the
beacons between, and no length field wraps. -/
theorem data_stream_codec {cfg : Config} {udpFrameSize : UInt16} {items : List Queued}
    (hitems : ∀ priority topic data timestamp,
      .message priority topic data timestamp ∈ items →
        Admitted cfg udpFrameSize priority topic data timestamp)
    {turns : Nat} (hturns : items.length < turns) :
    let server := Prog.eval (dataAnswer due clock) (handleDataStream latencyWarn turns)
      (items.map Queued.frame)
    let client := Prog.eval clientDataAnswer (runDataStream turns) (server.1.flatMap writtenOf)
    server.2 = ([], some (.ok ())) ∧
      client.1.filterMap deliveredOf = items.filterMap Queued.read ∧
      client.2 = ([], some (.error (.eof "early eof"))) ∧
      ∀ priority topic data timestamp, .message priority topic data timestamp ∈ items →
        (frameLength topic data).toNat = (utf8 topic).length + data.length + 1 := by
  have hvalid : ∀ item ∈ items, item.Valid := by
    intro item hmem
    cases item with
    | message priority topic data timestamp =>
      exact (hitems priority topic data timestamp hmem).sendable
    | nop => trivial
  obtain ⟨h, hserver, hbytes⟩ := eval_handleDataStream latencyWarn due clock hvalid hturns
  obtain ⟨h', hclient, hdelivered⟩ := eval_runDataStream due hvalid hturns
  dsimp only
  rw [hserver]
  dsimp only
  rw [hbytes, hclient]
  refine ⟨rfl, hdelivered, rfl, ?_⟩
  intro priority topic data timestamp hmem
  exact frameLength_toNat (hitems priority topic data timestamp hmem).sendable

end

theorem admitted_of_pushes {frame : Bytes} {p : Push}
    (hpush : p ∈ pushes (events sampleCrypto sampleState 0
      (publishArm sampleConfig sampleClient Acl.newFull) frame)) :
    ∃ timestamp, Admitted sampleConfig 4096 p.priority p.topic p.message timestamp := by
  have hanswers : ∀ s t o,
      sendableMonitor.possible t o (sampleState.answer sampleCrypto 0 s o).1 := by
    intro s t o
    cases o with
    | read n =>
      intro b hb
      simp only [ServerState.answer, takeBytes] at hb
      split_ifs at hb with hn
      rw [← Except.ok.inj hb, List.length_take_of_le hn]
    | authAndDecr block keyId tp =>
      intro b hb
      cases hb
    | _ => trivial
  obtain ⟨e, he, hpush⟩ := List.mem_filterMap.mp hpush
  obtain ⟨timestamp, rfl⟩ := eq_of_pushOf hpush
  obtain ⟨q, hrun⟩ := Prog.run_eval (sampleState.answer sampleCrypto 0)
    (publishArm sampleConfig sampleClient Acl.newFull) frame
  exact ⟨timestamp, .control hrun (Prog.admits_eval hanswers _ _ _) he⟩

theorem sample_admitted : ∃ timestamp, Admitted sampleConfig 4096 5 ['a'] [1, 2] timestamp := by
  have hpush : ⟨[sampleClient], 5, ['a'], [1, 2]⟩ ∈ pushes (events sampleCrypto sampleState 0
      (publishArm sampleConfig sampleClient Acl.newFull)
      (5 :: (leBytes 4 4 ++ [97, 0, 1, 2]))) := by
    decide +kernel
  exact admitted_of_pushes hpush

theorem data_stream_codec_sample : ∃ timestamp,
    let items : List Queued := [.nop, .message 5 ['a'] [1, 2] timestamp, .nop]
    let server := Prog.eval (dataAnswer (fun _ => true) fun _ => 0) (handleDataStream 0 4)
      (items.map Queued.frame)
    let client := Prog.eval clientDataAnswer (runDataStream 4) (server.1.flatMap writtenOf)
    client.1.filterMap deliveredOf = [⟨5, ['a'], [1, 2]⟩] ∧
      client.2 = ([], some (.error (.eof "early eof"))) := by
  obtain ⟨timestamp, hadmitted⟩ := sample_admitted
  have hitems : ∀ priority topic data stamp,
      Queued.message priority topic data stamp ∈
        [Queued.nop, .message 5 ['a'] [1, 2] timestamp, .nop] →
      Admitted sampleConfig 4096 priority topic data stamp := by
    intro priority topic data stamp hmem
    simp only [List.mem_cons, reduceCtorEq, false_or, List.not_mem_nil, or_false,
      Queued.message.injEq] at hmem
    obtain ⟨rfl, rfl, rfl, rfl⟩ := hmem
    exact hadmitted
  have hturns : ([.nop, .message 5 ['a'] [1, 2] timestamp, .nop] : List Queued).length < 4 :=
    Nat.lt_succ_self 3
  have hcodec := data_stream_codec 0 (fun _ => true) (fun _ => 0) hitems hturns
  exact ⟨timestamp, hcodec.2.1, hcodec.2.2.1⟩

end Psrt

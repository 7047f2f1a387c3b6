import Psrt.Server.Calls
import Psrt.Server.Datagram
import Psrt.Server.State
import Psrt.Subscribe.Filter

/-! The form of the topics that are pushed, on the control stream and from datagrams. -/

namespace Psrt
open Wire Interaction

structure WellFormedTopic (maxTopicDepth : Nat) (t : Str) : Prop where
  text : fromUtf8 (utf8 t) = some t
  nonempty : t ≠ []
  nul : 0 ∉ utf8 t
  hash : '#' ∉ t
  plus : '+' ∉ t
  start : ¬ ['/'] <+: t
  double : ¬ ['/', '/'] <:+: t
  depth : t.count '/' ≤ maxTopicDepth

theorem containsDoubleSlash_iff (s : Str) :
    containsDoubleSlash s = true ↔ ['/', '/'] <:+: s := by
  fun_induction containsDoubleSlash s with
  | case1 s => exact iff_of_true rfl (List.prefix_append ['/', '/'] s).isInfix
  | case2 c s hc ih =>
    rw [ih, List.infix_cons_iff]
    refine (or_iff_right fun hprefix => ?_).symm
    obtain ⟨t, ht⟩ := hprefix
    obtain ⟨rfl, rfl⟩ := List.cons.inj ht
    exact hc t rfl rfl
  | case3 => decide

section
variable {c : Char} (hc : c ≠ '/')
include hc

theorem mem_replaceDoubleSlash (s : Str) : c ∈ replaceDoubleSlash s ↔ c ∈ s := by
  fun_induction replaceDoubleSlash s with
  | case1 s ih => simp only [List.mem_cons, hc, ih, false_or]
  | case2 a s _ ih => simp only [List.mem_cons, ih]
  | case3 => rfl

theorem mem_collapseSlashes (s : Str) : c ∈ collapseSlashes s ↔ c ∈ s := by
  fun_induction collapseSlashes s with
  | case1 s _ ih => rw [ih, mem_replaceDoubleSlash hc]
  | case2 s _ => rfl

theorem mem_stripLeadingSlash (s : Str) : c ∈ stripLeadingSlash s ↔ c ∈ s := by
  unfold stripLeadingSlash
  split
  · simp only [List.mem_cons, hc, false_or]
  · rfl

theorem mem_of_prepareTopic {d : Nat} {raw t : Str} (h : prepareTopic d raw = .ok t) :
    c ∈ t ↔ c ∈ raw := by
  rw [(prepareTopic_eq_ok.mp h).1, mem_stripLeadingSlash hc, mem_collapseSlashes hc]

end

theorem prepareTopic_ne_nil_iff {d : Nat} {raw t : Str} (h : prepareTopic d raw = .ok t) :
    t ≠ [] ↔ ∃ c ∈ raw, c ≠ '/' := by
  constructor
  · intro hne
    obtain ⟨a, s, rfl⟩ := List.exists_cons_of_ne_nil hne
    have ha : a ≠ '/' := fun heq => (normal_of_prepareTopic h).2 (congrArg some heq)
    exact ⟨a, (mem_of_prepareTopic ha h).mp (List.mem_cons_self ..), ha⟩
  · rintro ⟨c, hmem, hc⟩ rfl
    exact absurd ((mem_of_prepareTopic hc h).mpr hmem) List.not_mem_nil

def MadeOf (maxTopicDepth : Nat) (name : Bytes) (topic : Str) : Prop :=
  ∃ raw, strFromUtf8 name = .ok raw ∧ prepareTopic maxTopicDepth raw = .ok topic ∧
    containsInvalidSymbols topic = false

def Names (name : Bytes) : Prop := ∃ raw, strFromUtf8 name = .ok raw ∧ ∃ c ∈ raw, c ≠ '/'

theorem wellFormedTopic_iff {d : Nat} {name : Bytes} {topic : Str} (hname : 0 ∉ name)
    (h : MadeOf d name topic) : WellFormedTopic d topic ↔ Names name := by
  obtain ⟨raw, hraw, hprepared, hvalid⟩ := h
  have hnames : Names name ↔ ∃ c ∈ raw, c ≠ '/' := by
    constructor
    · rintro ⟨raw', hraw', hc⟩
      obtain rfl := Except.ok.inj (hraw'.symm.trans hraw)
      exact hc
    · intro hc
      exact ⟨raw, hraw, hc⟩
  rw [hnames, ← prepareTopic_ne_nil_iff hprepared]
  refine ⟨fun hwell => hwell.nonempty, fun hne => ?_⟩
  obtain ⟨hdouble, hstart⟩ := normal_of_prepareTopic hprepared
  obtain ⟨hhash, hplus⟩ := containsInvalidSymbols_eq_false.mp hvalid
  have hnul : 0 ∉ utf8 topic := by
    rw [← utf8_of_strFromUtf8 hraw, zero_mem_utf8] at hname
    rw [zero_mem_utf8]
    exact fun hmem => hname ((sublist_of_prepareTopic hprepared).subset hmem)
  exact {
    text := fromUtf8_utf8 topic
    nonempty := hne
    nul := hnul
    hash := hhash
    plus := hplus
    start := fun ⟨s, hs⟩ => hstart (hs ▸ rfl)
    double := fun hinfix => by
      rw [(containsDoubleSlash_iff topic).mpr hinfix] at hdouble
      cases hdouble
    depth := (prepareTopic_eq_ok.mp hprepared).2 }

def PushesMadeOf (maxTopicDepth : Nat) (name : Bytes) : ServerOp → Prop
  | .pushToSubscribers _ _ topic _ _ => MadeOf maxTopicDepth name topic
  | _ => True

section
variable (cfg : Config)

theorem calls_publishNamed_madeOf (acl : Acl) (timestamp : UInt64) (priority : UInt8)
    (name data : Bytes) : (publishNamed cfg acl timestamp priority name data).Calls
      (PushesMadeOf cfg.maxTopicDepth name) := by
  unfold publishNamed
  cases hraw : strFromUtf8 name with
  | error e => trivial
  | ok raw =>
    simp only [Prog.bind_eq, Prog.ofExcept_ok, Prog.ret_bind]
    cases hprepared : prepareTopic cfg.maxTopicDepth raw with
    | error e => exact calls_writeAll (fun _ => trivial) _
    | ok topic =>
      dsimp only
      split_ifs with hinvalid
      · trivial
      · have hmade : MadeOf cfg.maxTopicDepth name topic :=
          ⟨raw, hraw, hprepared, Bool.eq_false_of_not_eq_true hinvalid⟩
        exact calls_deliver cfg trivial (fun _ => hmade) (fun _ => trivial)
          (calls_writeAll (fun _ => trivial) _)
      · exact calls_writeAll (fun _ => trivial) _

theorem calls_handlePublish_madeOf (acl : Acl) (timestamp : UInt64) (priority : UInt8)
    (buf : Bytes) : (handlePublish cfg acl timestamp priority buf).Calls
      (PushesMadeOf cfg.maxTopicDepth (splitFirst 0 buf).1) := by
  by_cases h0 : 0 ∈ buf
  · obtain ⟨name, data, rfl, hname⟩ := List.eq_append_cons_of_mem h0
    rw [handlePublish_append cfg acl timestamp priority hname, splitFirst_append hname]
    split_ifs
    · trivial
    · exact calls_publishNamed_madeOf cfg acl timestamp priority name data
  · rw [handlePublish_of_not_mem cfg acl timestamp priority h0]
    trivial

def blockName (block : Bytes) : Bytes := (splitFirst 0 block).1.drop 2

/-- Watches the handler of a datagram: pushes are of topics made of the name in its block. -/
def nameMonitor (frame : Bytes) : Monitor ServerOp ServerOp.Resp (List ServerEvent) :=
  Monitor.history fun
    | h, .pushToSubscribers _ _ topic _ _ =>
      ∃ block, blockOf frame h = some block ∧ MadeOf cfg.maxTopicDepth (blockName block) topic
    | _, _ => True

theorem calls_processUdpBlock_madeOf (login : Str) (password : Option Str) (block : Bytes)
    (timestamp : UInt64) : (processUdpBlock cfg login password block timestamp).Calls
      (PushesMadeOf cfg.maxTopicDepth (blockName block)) := by
  rw [processUdpBlock_eq]
  rcases parseBlock_cases block with ⟨b, hparse, hraw, _⟩ | ⟨e, needAck, hparse, _, _⟩
  · rw [hparse]
    refine calls_publishUdp cfg (fun _ _ => trivial) (fun _ => trivial) ?_ login password b.needAck
    intro acl topic hprepared hvalid _
    exact ⟨trivial, fun _ => ⟨b.raw, hraw, hprepared, hvalid⟩, fun _ => trivial⟩
  · rw [hparse]
    trivial

theorem wp_processUdpBlock_name (login : Str) (password : Option Str) {frame block : Bytes}
    (timestamp : UInt64) {h : List ServerEvent} (hb : blockOf frame h = some block) :
    (nameMonitor cfg frame).wp (processUdpBlock cfg login password block timestamp)
      (fun _ _ => True) (fun _ _ => True) h := by
  refine Monitor.wp_mono (fun _ _ _ => trivial) (fun _ _ _ => trivial)
    (Monitor.wp_of_calls (I := fun h' => blockOf frame h' = some block) ?_ ?_
      (calls_processUdpBlock_madeOf cfg login password block timestamp) hb)
  · intro h' o r hb' _ _
    exact blockOf_append hb' _
  · intro h' o hb' ho
    cases o with
    | pushToSubscribers subscribers priority topic message timestamp => exact ⟨block, hb', ho⟩
    | _ => trivial

theorem wp_processUdpPacket_name (frame : Bytes) :
    (nameMonitor cfg frame).wp (processUdpPacket cfg frame)
      (fun _ _ => True) (fun _ _ => True) [] := by
  rw [processUdpPacket_eq]
  refine ⟨trivial, fun timestamp _ => ?_⟩
  cases hopen : openDatagram frame with
  | error e => trivial
  | ok envelope =>
    cases envelope with
    | plain login password block =>
      exact wp_processUdpBlock_name cfg login (some password) timestamp (blockOf_plain hopen _)
    | sealed login etp encrypted =>
      refine ⟨trivial, fun r _ => ?_⟩
      cases r with
      | error e => trivial
      | ok block =>
        refine wp_processUdpBlock_name cfg login none timestamp ?_
        rw [blockOf_sealed hopen]
        rfl

theorem wp_handleUdpDatagram_name (frame : Bytes) :
    (nameMonitor cfg frame).wp (handleUdpDatagram cfg frame)
      (fun _ _ => True) (fun _ _ => True) [] := by
  refine (wp_handleUdpDatagram cfg frame).mpr (Monitor.wp_mono (fun ack h _ => ?_)
    (fun e h _ => ?_) (wp_processUdpPacket_name cfg frame))
  · cases udpAckCode (.ok ack) with
    | none => trivial
    | some code => exact ⟨trivial, fun _ _ => trivial⟩
  · cases udpAckCode (.error e) with
    | none => trivial
    | some code => exact ⟨trivial, fun _ _ => trivial⟩

end

theorem wellFormedTopic_iff_of_control {cfg : Config} {client : ServerClient} {acl : Acl}
    {timestamp : UInt64} {priority : UInt8} {buf : Bytes} {h : List ServerEvent}
    {q : ServerProg Error (Option Unit)}
    (hr : Prog.Run (handleRequest cfg client acl (.publish timestamp priority buf)) h q)
    {p : Push} (hp : p ∈ pushes h) :
    WellFormedTopic cfg.maxTopicDepth p.topic ↔ Names (splitFirst 0 buf).1 := by
  obtain ⟨e, he, hpush⟩ := List.mem_filterMap.mp hp
  obtain ⟨_, rfl⟩ := eq_of_pushOf hpush
  have hcalls : (handleRequest cfg client acl (.publish timestamp priority buf)).Calls
      (PushesMadeOf cfg.maxTopicDepth (splitFirst 0 buf).1) :=
    Prog.Calls.bind (calls_handlePublish_madeOf cfg acl timestamp priority buf) fun _ => trivial
  have hmade : MadeOf cfg.maxTopicDepth (splitFirst 0 buf).1 p.topic := hcalls.of_run hr _ he
  exact wellFormedTopic_iff (not_mem_splitFirst 0 buf) hmade

theorem wellFormedTopic_iff_of_datagram {cfg : Config} {frame : Bytes} {h : List ServerEvent}
    {q : ServerProg Error Unit} (hr : Prog.Run (handleUdpDatagram cfg frame) h q) {p : Push}
    (hp : p ∈ pushes h) : ∃ block, blockOf frame h = some block ∧
      (WellFormedTopic cfg.maxTopicDepth p.topic ↔ Names (blockName block)) := by
  obtain ⟨e, he, hpush⟩ := List.mem_filterMap.mp hp
  obtain ⟨_, rfl⟩ := eq_of_pushOf hpush
  have haccepts := (Monitor.wp_run (wp_handleUdpDatagram_name cfg frame) hr
    (Monitor.history_admits [] h)).1
  obtain ⟨before, after, rfl, block, hblock, hmade⟩ := Monitor.history_allowed haccepts he
  have hname : 0 ∉ blockName block := fun hmem =>
    not_mem_splitFirst 0 block (List.mem_of_mem_drop hmem)
  exact ⟨block, blockOf_append hblock _, wellFormedTopic_iff hname hmade⟩

/-- Whatever is pushed is well formed, except that a name of slashes only leaves no topic. -/
theorem pushed_topic_well_formed_iff (cfg : Config) :
    (∀ (client : ServerClient) (acl : Acl) (timestamp : UInt64) (priority : UInt8) (buf : Bytes)
      (h : List ServerEvent) (q : ServerProg Error (Option Unit)),
      Prog.Run (handleRequest cfg client acl (.publish timestamp priority buf)) h q →
      ∀ p ∈ pushes h,
        (WellFormedTopic cfg.maxTopicDepth p.topic ↔ Names (splitFirst 0 buf).1)) ∧
    ∀ (frame : Bytes) (h : List ServerEvent) (q : ServerProg Error Unit),
      Prog.Run (handleUdpDatagram cfg frame) h q →
      ∀ p ∈ pushes h, ∃ block, blockOf frame h = some block ∧
        (WellFormedTopic cfg.maxTopicDepth p.topic ↔ Names (blockName block)) :=
  ⟨fun _ _ _ _ _ _ _ hr _ hp => wellFormedTopic_iff_of_control hr hp,
    fun _ _ _ hr _ hp => wellFormedTopic_iff_of_datagram hr hp⟩

/-- The topic `/a`, which a frame and a datagram push to the sample client as `a`. -/
theorem pushed_topic_well_formed_sample :
    (WellFormedTopic 10 ['a'] ∧ Names [47, 97]) ∧ ∃ (h : List ServerEvent) (block : Bytes),
      ⟨[sampleClient], 127, ['a'], [1]⟩ ∈ pushes h ∧
      blockOf [0xEE, 0xAA, 1, 0, 0, 0, 0, 1, 127, 47, 97, 0, 1] h = some block ∧
      Names (blockName block) := by
  obtain ⟨hcontrol, hdatagram⟩ := pushed_topic_well_formed_iff sampleConfig
  have hpushes : ⟨[sampleClient], 127, ['a'], [1]⟩ ∈ pushes (Prog.eval
      (sampleState.answer sampleCrypto 0) (handleRequest sampleConfig sampleClient Acl.newFull
        (.publish 0 127 [47, 97, 0, 1])) []).1 := by
    decide +kernel
  obtain ⟨q, hq⟩ := Prog.run_eval (sampleState.answer sampleCrypto 0) (handleRequest sampleConfig
    sampleClient Acl.newFull (.publish 0 127 [47, 97, 0, 1])) []
  have hnames : Names [47, 97] := ⟨['/', 'a'], by decide +kernel, 'a', by decide, by decide⟩
  have hwell := (hcontrol _ _ _ _ _ _ q hq _ hpushes).mpr hnames
  have hpushes' : ⟨[sampleClient], 127, ['a'], [1]⟩ ∈ pushes (Prog.eval
      (sampleState.answer sampleCrypto 0) (handleUdpDatagram sampleConfig
        [0xEE, 0xAA, 1, 0, 0, 0, 0, 1, 127, 47, 97, 0, 1]) []).1 := by
    decide +kernel
  obtain ⟨q', hq'⟩ := Prog.run_eval (sampleState.answer sampleCrypto 0) (handleUdpDatagram
    sampleConfig [0xEE, 0xAA, 1, 0, 0, 0, 0, 1, 127, 47, 97, 0, 1]) []
  obtain ⟨block, hblock, hiff⟩ := hdatagram _ _ q' hq' _ hpushes'
  exact ⟨⟨hwell, hnames⟩, _, block, hpushes', hblock, hiff.mp hwell⟩

def hashState : ServerState listMap :=
  { sampleState with
    db :=
      { sampleState.db with
        submap := listMap.subscribe sampleState.db.submap ['#'] sampleClient } }

/-- The topic `/` passes the checks of the octets and is pushed as the empty topic, by a frame as
by a datagram. -/
theorem empty_topic_pushed :
    (∃ q : ServerProg Error (Option Unit), ∃ h, Prog.Run (handleRequest sampleConfig sampleClient
        Acl.newFull (.publish 0 127 [47, 0, 1])) h q ∧
      ∃ p ∈ pushes h, ¬ WellFormedTopic sampleConfig.maxTopicDepth p.topic) ∧
    ∃ q : ServerProg Error Unit, ∃ h, Prog.Run (handleUdpDatagram sampleConfig
        [0xEE, 0xAA, 1, 0, 0, 0, 0, 1, 127, 47, 0, 1]) h q ∧
      ∃ p ∈ pushes h, ¬ WellFormedTopic sampleConfig.maxTopicDepth p.topic := by
  have hempty : ¬ WellFormedTopic sampleConfig.maxTopicDepth [] := fun h => h.nonempty rfl
  constructor
  · obtain ⟨q, hq⟩ := Prog.run_eval (hashState.answer sampleCrypto 0) (handleRequest sampleConfig
      sampleClient Acl.newFull (.publish 0 127 [47, 0, 1])) []
    have hpushes : ⟨[sampleClient], 127, [], [1]⟩ ∈ pushes (Prog.eval
        (hashState.answer sampleCrypto 0) (handleRequest sampleConfig sampleClient Acl.newFull
          (.publish 0 127 [47, 0, 1])) []).1 := by
      decide +kernel
    exact ⟨q, _, hq, _, hpushes, hempty⟩
  · obtain ⟨q, hq⟩ := Prog.run_eval (hashState.answer sampleCrypto 0) (handleUdpDatagram
      sampleConfig [0xEE, 0xAA, 1, 0, 0, 0, 0, 1, 127, 47, 0, 1]) []
    have hpushes : ⟨[sampleClient], 127, [], [1]⟩ ∈ pushes (Prog.eval
        (hashState.answer sampleCrypto 0) (handleUdpDatagram sampleConfig
          [0xEE, 0xAA, 1, 0, 0, 0, 0, 1, 127, 47, 0, 1]) []).1 := by
      decide +kernel
    exact ⟨q, _, hq, _, hpushes, hempty⟩

end Psrt

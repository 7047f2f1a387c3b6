import Psrt.Server.State

/-! The two publish paths: what `OP_PUBLISH` on a control stream and a block of a datagram push. -/

namespace Psrt
open Wire Interaction

variable {m : SubMap}

def publishable (cfg : Config) (acl : Acl) (name data : Bytes) : Option (Str × Bytes) :=
  match strFromUtf8 name with
  | .error _ => none
  | .ok raw =>
    match prepareTopic cfg.maxTopicDepth raw with
    | .error _ => none
    | .ok topic =>
      if containsInvalidSymbols topic then none
      else if acl.allowWrite topic then some (topic, data) else none

def takenPushes (db : ServerClientDB m) (priority : UInt8) : Option (Str × Bytes) → List Push
  | none => []
  | some (topic, data) =>
    if (db.getSubscribers topic).isEmpty then []
    else [⟨db.getSubscribers topic, priority, topic, data⟩]

section
variable (cfg : Config) (crypto : Crypto) (st : ServerState m) (now : UInt64)

def events {ε α : Type} (p : ServerProg ε α) (input : Bytes) : List ServerEvent :=
  (p.eval (st.answer crypto now) input).1

theorem pushes_pushIfAny {ε α : Type} (priority : UInt8) (topic : Str) (data : Bytes)
    (timestamp : UInt64) (k : Unit → ServerProg ε α) (input : Bytes) :
    pushes (events crypto st now
      ((pushIfAny (st.db.getSubscribers topic) priority topic data timestamp).bind k) input) =
      takenPushes st.db priority (some (topic, data)) ++
        pushes (events crypto st now (k ()) input) := by
  simp only [pushIfAny, takenPushes]
  split_ifs <;> rfl

theorem pushes_replicate {ε α : Type} (priority : UInt8) (topic : Str) (data : Bytes)
    (timestamp : UInt64) (k : Unit → ServerProg ε α) (input : Bytes) :
    pushes (events crypto st now ((replicate cfg priority topic data timestamp).bind k) input) =
      pushes (events crypto st now (k ()) input) := by
  simp only [replicate]
  split_ifs <;> rfl

theorem pushes_deliver {ε α : Type} (priority : UInt8) (topic : Str) (data : Bytes)
    (timestamp : UInt64) {last : ServerProg ε α} {input : Bytes}
    (hlast : pushes (events crypto st now last input) = []) :
    pushes (events crypto st now
      ((perform (.getSubscribers topic)).bind fun subscribers =>
        (pushIfAny subscribers priority topic data timestamp).bind fun _ =>
          (replicate cfg priority topic data timestamp).bind fun _ => last) input) =
      takenPushes st.db priority (some (topic, data)) := by
  have hp := pushes_pushIfAny crypto st now priority topic data timestamp
    (fun _ => (replicate cfg priority topic data timestamp).bind fun _ => last) input
  rw [pushes_replicate, hlast, List.append_nil] at hp
  exact hp

theorem pushes_publishNamed (acl : Acl) (timestamp : UInt64) (priority : UInt8)
    (name data input : Bytes) :
    pushes (events crypto st now (publishNamed cfg acl timestamp priority name data) input) =
      takenPushes st.db priority (publishable cfg acl name data) := by
  unfold publishNamed publishable
  cases strFromUtf8 name with
  | error e => rfl
  | ok raw =>
    simp only [Prog.bind_eq, Prog.ofExcept_ok, Prog.ret_bind]
    cases prepareTopic cfg.maxTopicDepth raw with
    | error e => rfl
    | ok topic =>
      dsimp only
      split_ifs
      · rfl
      · exact pushes_deliver cfg crypto st now priority topic data timestamp rfl
      · rfl

/-- A login the datagram path accepts: decrypted, anonymous where that is allowed, or verified. -/
def Authentic (login : Str) : Option Str → Prop
  | none => True
  | some password =>
    if login.isEmpty && password.isEmpty then cfg.allowAnonymous = true
    else st.passwords.verify crypto login password = true

theorem pushes_authenticateUdp {login : Str} {password : Option Str}
    (h : Authentic cfg crypto st login password) (needAck : Bool)
    (k : Unit → ServerProg UdpError Bool) (input : Bytes) :
    pushes (events crypto st now ((authenticateUdp cfg login password needAck).bind k) input) =
      pushes (events crypto st now (k ()) input) := by
  cases password with
  | none => rfl
  | some password =>
    simp only [Authentic] at h
    simp only [authenticateUdp]
    split_ifs at h ⊢
    · rfl
    · simp only [perform, Prog.op, Prog.bind_eq, Prog.call_bind, Prog.ret_bind, events,
        Prog.eval_call, ServerState.answer, h, if_true]
      rfl

theorem pushes_getAcl {login : Str} {acl : Acl} (hacl : st.acls.getAcl login = some acl)
    (k : Option Acl → ServerProg UdpError Bool) (input : Bytes) :
    pushes (events crypto st now ((perform (.getAcl login)).bind k) input) =
      pushes (events crypto st now (k (some acl)) input) := by
  simp only [perform, Prog.op_bind, events, Prog.eval_call, ServerState.answer, hacl]
  rfl

theorem pushes_publishUdp {login : Str} {password : Option Str} {acl : Acl}
    (hauth : Authentic cfg crypto st login password) (hacl : st.acls.getAcl login = some acl)
    (needAck : Bool) (priority : UInt8) {name : Bytes} {raw : Str}
    (hraw : strFromUtf8 name = .ok raw) (data : Bytes) (timestamp : UInt64) (input : Bytes) :
    pushes (events crypto st now
      (publishUdp cfg login password needAck priority raw data timestamp) input) =
      takenPushes st.db priority (publishable cfg acl name data) := by
  unfold publishUdp publishable
  rw [Prog.bind_eq, pushes_authenticateUdp cfg crypto st now hauth, Prog.bind_eq,
    pushes_getAcl crypto st now hacl, hraw]
  dsimp only
  cases prepareTopic cfg.maxTopicDepth raw with
  | error e => rfl
  | ok topic =>
    simp only [Prog.bind_eq, Prog.ofExcept_ok, Prog.ret_mapError, Prog.ret_bind]
    by_cases hi : containsInvalidSymbols topic = true
    · simp only [if_pos hi]
      rfl
    · by_cases hw : acl.allowWrite topic = true
      · simp only [if_neg hi, hw, if_true, Bool.not_true, Bool.false_eq_true, if_false]
        exact pushes_deliver cfg crypto st now priority topic data timestamp rfl
      · rw [Bool.not_eq_true] at hw
        simp only [if_neg hi, hw, Bool.not_false, if_true, Bool.false_eq_true, if_false]
        rfl

theorem pushes_nowNs {ε α : Type} (k : UInt64 → ServerProg ε α) (input : Bytes) :
    pushes (events crypto st now (.call .nowNs k) input) =
      pushes (events crypto st now (k now) input) := rfl

theorem pushes_readExact {α : Type} {n : Nat} {b : Bytes} (h : b.length = n)
    (k : Bytes → ServerProg Error α) (rest : Bytes) :
    pushes (events crypto st now ((readExact n).bind k) (b ++ rest)) =
      pushes (events crypto st now (k b) rest) := by
  simp only [readExact, Prog.call_bind, events, Prog.eval_call, ServerState.answer,
    takeBytes_append h]
  rfl

theorem pushes_readFrame {α : Type} {limit : Nat} {b : Bytes} (hlimit : b.length ≤ limit)
    (hlt : b.length < 256 ^ 4) (k : Bytes → ServerProg Error α) (rest : Bytes) :
    pushes (events crypto st now ((readFrame (some limit)).bind k)
      (leBytes 4 b.length ++ (b ++ rest))) = pushes (events crypto st now (k b) rest) := by
  simp only [readFrame, readFrameWith, Prog.bind_eq, Prog.bind_assoc]
  rw [pushes_readExact crypto st now (length_leBytes 4 _)]
  simp only [leNat_leBytes_of_lt hlt, Option.any_some, gt_iff_lt, Nat.not_lt.mpr hlimit,
    decide_false, Bool.false_eq_true, if_false]
  exact pushes_readExact crypto st now rfl k rest

def publishBody (topic data : Bytes) : Bytes := topic ++ 0 :: data

def publishFrame (priority : UInt8) (topic data : Bytes) : Bytes :=
  opPublish :: priority :: (leBytes 4 (publishBody topic data).length ++ publishBody topic data)

def publishBlock (op priority : UInt8) (topic data : Bytes) : Bytes :=
  op :: priority :: publishBody topic data

theorem exists_publishBody (topic data : Bytes) :
    ∃ name rest, 0 ∉ name ∧ publishBody topic data = name ++ 0 :: rest := by
  have h0 : (0 : UInt8) ∈ publishBody topic data :=
    List.mem_append_right _ (List.mem_cons_self ..)
  have hn := not_mem_splitFirst 0 (publishBody topic data)
  cases hs : splitFirst 0 (publishBody topic data) with
  | mk name tail =>
    rw [hs] at hn
    cases tail with
    | none => exact absurd (eq_of_splitFirst_none hs ▸ h0) hn
    | some rest => exact ⟨name, rest, hn, eq_of_splitFirst_some hs⟩

def namedPushes (db : ServerClientDB m) (acl : Acl) (priority : UInt8) (name data : Bytes) :
    List Push :=
  if name.isEmpty then [] else takenPushes db priority (publishable cfg acl name data)

theorem pushes_processCommand (client : ServerClient) (acl : Acl) (priority : UInt8)
    {topic data name rest : Bytes} (hname : 0 ∉ name)
    (hbody : publishBody topic data = name ++ 0 :: rest)
    (hlimit : (publishBody topic data).length ≤ cfg.maxPubSize)
    (hlt : (publishBody topic data).length < 256 ^ 4) :
    pushes (events crypto st now (processCommand cfg client acl)
      (publishFrame priority topic data)) = namedPushes cfg st.db acl priority name rest := by
  have hop : publishFrame priority topic data = [opPublish] ++ ([priority] ++
      (leBytes 4 (publishBody topic data).length ++ (publishBody topic data ++ []))) := by
    rw [List.append_nil]
    rfl
  simp only [processCommand, readRequest, Prog.bind_eq, Prog.bind_assoc]
  rw [hop, pushes_readExact crypto st now (n := 1) (b := [opPublish]) rfl, List.headD_cons,
    readArm_opPublish]
  simp only [Prog.call_bind, Prog.bind_assoc, Prog.ret_bind, handleRequest, Prog.bind_eq]
  rw [pushes_nowNs, pushes_readExact crypto st now (n := 1) (b := [priority]) rfl,
    pushes_readFrame crypto st now hlimit hlt, List.headD_cons, events, Prog.eval_bind_ret, hbody,
    handlePublish_append cfg acl _ priority hname]
  unfold namedPushes
  split_ifs with hempty
  · rfl
  · exact pushes_publishNamed cfg crypto st now acl _ priority name rest []

theorem pushes_processUdpBlock {login : Str} {password : Option Str} {acl : Acl}
    (hauth : Authentic cfg crypto st login password) (hacl : st.acls.getAcl login = some acl)
    {op priority : UInt8} (hop : op = opPublish ∨ op = opPublishNoAck) (hprio : priority ≠ 0)
    {topic data name rest : Bytes} (hname : 0 ∉ name)
    (hbody : publishBody topic data = name ++ 0 :: rest) (timestamp : UInt64) :
    pushes (events crypto st now (processUdpBlock cfg login password
      (publishBlock op priority topic data) timestamp) []) =
      namedPushes cfg st.db acl priority name rest := by
  obtain ⟨needAck, hneed⟩ : ∃ needAck, udpNeedAck op = some needAck := by
    rcases hop with rfl | rfl
    · exact ⟨true, rfl⟩
    · exact ⟨false, rfl⟩
  have hop0 : op ≠ 0 := by
    rcases hop with rfl | rfl
    · decide
    · decide
  -- neither the operation nor the priority is the zero octet that ends the name
  have hblock : splitFirst 0 (publishBlock op priority topic data) =
      (op :: priority :: name, some rest) := by
    have hnot : (0 : UInt8) ∉ op :: priority :: name := by
      simp only [List.mem_cons, not_or]
      exact ⟨hop0.symm, hprio.symm, hname⟩
    rw [publishBlock, hbody]
    exact splitFirst_append hnot rest
  unfold processUdpBlock namedPushes
  simp only [hblock, List.length_cons, List.getD_cons_zero, List.getD_cons_succ, List.drop_succ_cons,
    List.drop_zero, hneed]
  cases name with
  | nil => rfl
  | cons b name =>
    simp only [List.length_cons, List.isEmpty_cons, Bool.false_eq_true, if_false,
      show ¬ name.length + 1 + 1 + 1 < 3 by omega]
    cases hraw : strFromUtf8 (b :: name) with
    | error e =>
      simp only [publishable, hraw]
      rfl
    | ok raw =>
      exact pushes_publishUdp cfg crypto st now hauth hacl needAck priority hraw rest timestamp []

theorem pushes_processUdpBlock_zero {login : Str} {password : Option Str} {op : UInt8}
    (hop : op = opPublish ∨ op = opPublishNoAck) (topic data : Bytes) (timestamp : UInt64) :
    pushes (events crypto st now (processUdpBlock cfg login password
      (publishBlock op 0 topic data) timestamp) []) = [] := by
  rcases hop with rfl | rfl
  · rfl
  · rfl

/-- Somebody receives a publish of `body` by a principal with the access list `acl`. -/
def Reaches (db : ServerClientDB m) (acl : Acl) (body : Bytes) : Prop :=
  (splitFirst 0 body).1 ≠ [] ∧ ∃ raw topic, strFromUtf8 (splitFirst 0 body).1 = .ok raw ∧
    prepareTopic cfg.maxTopicDepth raw = .ok topic ∧ containsInvalidSymbols topic = false ∧
      acl.allowWrite topic = true ∧ db.getSubscribers topic ≠ []

theorem publishable_eq_some {acl : Acl} {name data : Bytes} {p : Str × Bytes} :
    publishable cfg acl name data = some p ↔
      ∃ raw topic, strFromUtf8 name = .ok raw ∧ prepareTopic cfg.maxTopicDepth raw = .ok topic ∧
        containsInvalidSymbols topic = false ∧ acl.allowWrite topic = true ∧ p = (topic, data) := by
  unfold publishable
  cases strFromUtf8 name with
  | error e => simp only [reduceCtorEq, false_and, exists_false]
  | ok raw =>
    simp only [Except.ok.injEq, exists_and_left, exists_eq_left']
    cases prepareTopic cfg.maxTopicDepth raw with
    | error e => simp only [reduceCtorEq, false_and, exists_false]
    | ok topic =>
      simp only [Except.ok.injEq, exists_eq_left']
      split_ifs with hi hw
      · simp only [hi, Bool.true_eq_false, false_and]
      · simp only [Bool.eq_false_of_not_eq_true hi, hw, true_and, Option.some.injEq, eq_comm]
      · simp only [hw, reduceCtorEq, false_and, and_false]

theorem takenPushes_ne_nil {db : ServerClientDB m} {priority : UInt8} {o : Option (Str × Bytes)} :
    takenPushes db priority o ≠ [] ↔ ∃ p, o = some p ∧ db.getSubscribers p.1 ≠ [] := by
  rcases o with _ | ⟨topic, data⟩
  · simp only [takenPushes, ne_eq, not_true_eq_false, reduceCtorEq, false_and, exists_false]
  · simp only [takenPushes, Option.some.injEq, exists_eq_left', List.isEmpty_iff]
    split_ifs with hs
    · simp only [hs, ne_eq, not_true_eq_false]
    · simp only [hs, ne_eq, reduceCtorEq, not_false_eq_true]

theorem namedPushes_ne_nil {db : ServerClientDB m} {acl : Acl} (priority : UInt8)
    {topic data name rest : Bytes} (hname : 0 ∉ name)
    (hbody : publishBody topic data = name ++ 0 :: rest) :
    namedPushes cfg db acl priority name rest ≠ [] ↔
      Reaches cfg db acl (publishBody topic data) := by
  have hsplit : (splitFirst 0 (publishBody topic data)).1 = name := by
    rw [hbody, splitFirst_append hname]
  simp only [Reaches, namedPushes, hsplit, List.isEmpty_iff]
  split_ifs with hempty
  · simp only [hempty, ne_eq, not_true_eq_false, false_and]
  · simp only [takenPushes_ne_nil, publishable_eq_some, ne_eq, hempty, not_false_eq_true, true_and]
    constructor
    · rintro ⟨_, ⟨raw, t, hraw, ht, hi, hw, rfl⟩, hs⟩
      exact ⟨raw, t, hraw, ht, hi, hw, hs⟩
    · rintro ⟨raw, t, hraw, ht, hi, hw, hs⟩
      exact ⟨_, ⟨raw, t, hraw, ht, hi, hw, rfl⟩, hs⟩

/-- The same publish sent both ways within the size limits: the same pushes follow, unless its
priority is zero and somebody would receive it. -/
theorem tcp_udp_publish_agree_iff {login : Str} {password : Option Str} {acl : Acl}
    (hauth : Authentic cfg crypto st login password) (hacl : st.acls.getAcl login = some acl)
    (client : ServerClient) {op : UInt8} (hop : op = opPublish ∨ op = opPublishNoAck)
    (priority : UInt8) (topic data : Bytes)
    (hlimit : (publishBody topic data).length ≤ cfg.maxPubSize)
    (hlt : (publishBody topic data).length < 256 ^ 4) (timestamp : UInt64) :
    pushes (events crypto st now (processCommand cfg client acl)
        (publishFrame priority topic data)) =
      pushes (events crypto st now (processUdpBlock cfg login password
        (publishBlock op priority topic data) timestamp) []) ↔
    priority ≠ 0 ∨ ¬ Reaches cfg st.db acl (publishBody topic data) := by
  obtain ⟨name, rest, hname, hbody⟩ := exists_publishBody topic data
  rw [pushes_processCommand cfg crypto st now client acl priority hname hbody hlimit hlt,
    ← namedPushes_ne_nil cfg priority hname hbody]
  by_cases hprio : priority = 0
  · subst hprio
    rw [pushes_processUdpBlock_zero cfg crypto st now hop]
    simp only [ne_eq, not_true_eq_false, false_or, not_not]
  · rw [pushes_processUdpBlock cfg crypto st now hauth hacl hop hprio hname hbody]
    simp only [ne_eq, hprio, not_false_eq_true, true_or]

end

theorem tcp_udp_publish_agree_sample :
    pushes (events sampleCrypto sampleState 0 (processCommand sampleConfig sampleClient Acl.newFull)
        (publishFrame 5 [97] [1, 2])) =
      pushes (events sampleCrypto sampleState 0 (processUdpBlock sampleConfig [] (some [])
        (publishBlock opPublish 5 [97] [1, 2]) 0) []) ↔
    (5 : UInt8) ≠ 0 ∨ ¬ Reaches sampleConfig sampleState.db Acl.newFull (publishBody [97] [1, 2]) := by
  have hauth : Authentic sampleConfig sampleCrypto sampleState [] (some []) := rfl
  exact tcp_udp_publish_agree_iff sampleConfig sampleCrypto sampleState 0 hauth rfl sampleClient
    (.inl rfl) 5 [97] [1, 2] (by decide) (by decide) 0

/-- With priority zero the control stream publishes what the datagram does not. -/
theorem tcp_udp_publish_disagree :
    pushes (events sampleCrypto sampleState 0 (processCommand sampleConfig sampleClient Acl.newFull)
        (publishFrame 0 [97] [1, 2])) = [⟨[sampleClient], 0, ['a'], [1, 2]⟩] ∧
      pushes (events sampleCrypto sampleState 0 (processUdpBlock sampleConfig [] (some [])
        (publishBlock opPublish 0 [97] [1, 2]) 0) []) = [] := by
  constructor
  · decide +kernel
  · decide +kernel

end Psrt

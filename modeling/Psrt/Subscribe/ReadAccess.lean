import Psrt.Subscribe.Deliveries
import Psrt.Subscribe.Subscriptions

/-! Read access over whole runs: when what a client is sent is what its access list lets it read. -/

namespace Psrt
open Wire Interaction

/-- The access list a handler holds: all access on a Unix socket, else what the first lookup that
found one gave. -/
def aclMonitor : Monitor ServerOp ServerOp.Resp (Option Acl) where
  allowed held
    | .registerClient _ _ => held.isSome
    | .subscribe acl _ _ => held = some acl
    | _ => True
  possible _ _ _ := True
  next held
    | .getAcl _, acl => held <|> acl
    | _, _ => held

def Peer.startAcl : Peer → Option Acl
  | .unix _ _ => some Acl.newFull
  | _ => none

def heldAcl (peer : Peer) (h : List ServerEvent) : Option Acl := aclMonitor.after peer.startAcl h

theorem aclMonitor_next_some (acl : Acl) (o : ServerOp) (r : o.Resp) :
    aclMonitor.next (some acl) o r = some acl := by
  cases o with
  | getAcl => rfl
  | _ => rfl

theorem aclMonitor_after_some (acl : Acl) (h : List ServerEvent) :
    aclMonitor.after (some acl) h = some acl := by
  induction h with
  | nil => rfl
  | cons e h ih =>
    rw [Monitor.after, aclMonitor_next_some]
    exact ih

def SubscribesUnder (acl : Acl) : ServerOp → Prop
  | .subscribe acl' _ _ => acl' = acl
  | _ => True

def NoAcl : ServerOp → Prop
  | .getAcl _ => False
  | .registerClient _ _ => False
  | .subscribe _ _ _ => False
  | _ => True

section
variable {cfg : Config} {ε α : Type}

theorem wp_subscribesUnder {acl : Acl} {p : ServerProg ε α} (hp : p.Calls (SubscribesUnder acl)) :
    aclMonitor.wp p (fun _ _ => True) (fun _ _ => True) (some acl) := by
  refine Monitor.wp_mono (fun _ _ _ => trivial) (fun _ _ _ => trivial)
    (Monitor.wp_of_calls (I := fun held => held = some acl) ?_ ?_ hp rfl)
  · rintro held o r rfl _ _
    exact aclMonitor_next_some acl o r
  · rintro held o rfl ho
    cases o with
    | subscribe acl' topics client => exact congrArg some ho.symm
    | registerClient login addr => rfl
    | _ => trivial

theorem wp_noAcl {p : ServerProg ε α} (hp : p.Calls NoAcl) :
    aclMonitor.wp p (fun _ held => held = none) (fun _ _ => True) none := by
  refine Monitor.wp_mono (fun _ _ h => h) (fun _ _ _ => trivial)
    (Monitor.wp_of_calls (I := fun held => held = none) ?_ ?_ hp rfl)
  · rintro held o r rfl ho _
    cases o with
    | getAcl => exact ho.elim
    | _ => rfl
  · rintro held o rfl ho
    cases o with
    | subscribe => exact ho.elim
    | registerClient => exact ho.elim
    | _ => trivial

theorem wp_noAcl_bind {β : Type} {p : ServerProg ε α} {f : α → ServerProg ε β}
    (hp : p.Calls NoAcl)
    (hf : ∀ a, aclMonitor.wp (f a) (fun _ _ => True) (fun _ _ => True) none) :
    aclMonitor.wp (p.bind f) (fun _ _ => True) (fun _ _ => True) none := by
  rw [Monitor.wp_bind]
  refine Monitor.wp_mono ?_ (fun _ _ h => h) (wp_noAcl hp)
  rintro a held rfl
  exact hf a

theorem serveClient_subscribesUnder (acl : Acl) (login addr : Str) (turns : Nat) :
    (serveClient cfg acl login addr turns).Calls (SubscribesUnder acl) := by
  refine calls_serveClient cfg acl (fun _ => trivial) (fun client o ho => ?_) trivial
    (fun _ => trivial) (fun _ => trivial) turns
  cases o with
  | subscribe acl' topics client' => exact ho.1
  | _ => trivial

theorem wp_acl_handler (peer : Peer) :
    aclMonitor.wp (peer.handler cfg) (fun _ _ => True) (fun _ _ => True) peer.startAcl := by
  cases peer with
  | tcp addr tlsConfigured allowNoTls turns =>
    have hinit := calls_initTcpStream (P := NoAcl) (fun _ => trivial) (fun _ => trivial) trivial
      tlsConfigured allowNoTls
    refine wp_noAcl_bind hinit fun st => ?_
    split_ifs
    · exact wp_noAcl_bind (Prog.calls_op trivial) fun r =>
        wp_noAcl_bind (Prog.calls_ofExcept r) fun _ => trivial
    · refine wp_noAcl_bind (calls_readFrame (fun _ => trivial) _) fun frame => ?_
      refine wp_noAcl_bind (Prog.calls_ofExcept _) fun login => ?_
      cases (splitFirst 0 frame).2 with
      | none => trivial
      | some rest =>
        refine wp_noAcl_bind (Prog.calls_ofExcept _) fun password => ?_
        refine wp_noAcl_bind (calls_authenticateTcp cfg (fun _ _ => trivial) login password addr)
          fun _ => ?_
        refine ⟨trivial, fun acl _ => ?_⟩
        cases acl with
        | none => trivial
        | some acl => exact wp_subscribesUnder (serveClient_subscribesUnder acl login addr turns)
  | unix path turns =>
    have hlogin : ∀ o, LoginOp o → SubscribesUnder Acl.newFull o := by
      intro o ho
      cases o with
      | subscribe => exact ho.elim
      | _ => trivial
    refine wp_subscribesUnder (?_ : Prog.Calls (SubscribesUnder Acl.newFull) _)
    exact handleUnixStream_rule cfg (fun hp hf => (hp.mono hlogin).bind hf) trivial fun login =>
      serveClient_subscribesUnder Acl.newFull login path turns
  | udp frame =>
    refine Monitor.safe_of_calls (P := DatagramOp) (fun held o ho => ?_) ?_ none
    · cases o with
      | subscribe => exact ho.elim
      | registerClient => exact ho.elim
      | _ => trivial
    · exact Prog.Calls.bind (calls_handleUdpDatagram cfg frame) fun _ => trivial

end

section
variable {m : SubMap} {v : m.View} {cfg : Config} {crypto : Crypto} {sha256 : Token → Digest}

def Visited (s : Server m) (w : ServerState m) : Prop :=
  w = s.world ∨ ∃ e ∈ s.trace, e.world = w

/-- Nothing that can be published now reaches the client without being readable for it. -/
def ReadSound (cfg : Config) (acl : Acl) (c : ServerClient) (w : ServerState m) : Prop :=
  ∀ t, Publishable cfg.maxTopicDepth t → c ∈ w.db.getSubscribers t → acl.allowRead t = true

theorem allowed_held {s : Server m} (hr : ServerReachable cfg crypto sha256 s) {i : Nat}
    {peer : Peer} {rest : ServerProg Error Bool} (hp : s.processes i = some ⟨peer, rest⟩)
    {e : ServerEvent} (hmem : e ∈ System.history s.trace i) :
    ∃ held, aclMonitor.allowed held e.op ∧
      ∀ acl, held = some acl → heldAcl peer (System.history s.trace i) = some acl := by
  have hadmits : ∀ held h, aclMonitor.Admits held h := by
    intro held h
    induction h generalizing held with
    | nil => trivial
    | cons e h ih => exact ⟨trivial, ih _⟩
  have haccepts := (System.accepts_history (wp_acl_handler peer) hr hp (hadmits _ _)).1
  obtain ⟨before, after, hsplit⟩ := List.append_of_mem hmem
  rw [hsplit, Monitor.accepts_append] at haccepts
  refine ⟨aclMonitor.after peer.startAcl before, haccepts.2.1, fun acl hheld => ?_⟩
  unfold heldAcl
  rw [hsplit, Monitor.after_append, hheld]
  exact aclMonitor_after_some acl _

theorem nextId_le {db db' : ServerClientDB m} {p p' : Phase}
    (h : RegistryStep v sha256 db db' p p') : db.nextId ≤ db'.nextId := by
  cases h with
  | quiet _ hid _ _ => exact hid
  | register h => exact Nat.le_of_lt (Nat.lt_of_le_of_lt h.id_ge h.id_lt)
  | subscribed h => exact Nat.le_of_eq h.nextId.symm
  | unregister c => exact Nat.le_refl _

variable (hl : m.Laws v)
include hl

theorem id_lt_of_visited {s : Server m} (hr : ServerReachable cfg crypto sha256 s)
    {w : ServerState m} (hw : Visited s w) {c : ServerClient} (hmem : c ∈ w.db.clients v) :
    c.id < s.world.db.nextId := by
  induction hr with
  | init h =>
    rcases hw with rfl | ⟨e, he, _⟩
    · have hdb : _ = ServerClientDB.new m := h
      rw [hdb] at hmem
      have hnone : c ∈ v.clients m.new := hmem
      rw [hl.clients_new] at hnone
      exact hnone.elim
    · cases he
  | step hr hs ih =>
    rcases hw with rfl | ⟨e, he, rfl⟩
    · exact (registryInv_of_reachable hl.toRegistryLaws (.step hr hs)).client_id_lt c hmem
    · cases hs with
      | spawn j peer hnone => exact ih (.inr ⟨e, he, rfl⟩)
      | env w' h =>
        rw [h]
        exact ih (.inr ⟨e, he, rfl⟩)
      | act j peer o f r w' hp hexec =>
        refine Nat.lt_of_lt_of_le ?_ (nextId_le (registryStep_of_act hl.toRegistryLaws hr hp hexec))
        rcases List.mem_append.mp he with hold | hnew
        · exact ih (.inr ⟨e, hold, rfl⟩)
        · exact ih (.inl (congrArg Entry.world (List.mem_singleton.mp hnew)))

/-- In one state: the filters active for the client decide. -/
theorem readSound_iff {s : Server m} (hr : ServerReachable cfg crypto sha256 s) {i : Nat}
    {c : ServerClient} (hc : (phases s.trace i).client = some c) (acl : Acl) :
    ReadSound cfg acl c s.world ↔ (c ∈ s.world.db.clients v →
      ∀ f ∈ activeFilters cfg.maxTopicDepth (System.history s.trace i),
        FilterAllowed cfg.maxTopicDepth acl f) := by
  have hsubscribed : ∀ t, c ∈ s.world.db.getSubscribers t ↔ c ∈ s.world.db.clients v ∧
      ∃ f ∈ s.world.db.filters v c, matchesFilter (f.splitOn '/') (t.splitOn '/') = true :=
    fun t => hl.mem_getSubscribers_iff _ t c
  have hnormal : ∀ f ∈ activeFilters cfg.maxTopicDepth (System.history s.trace i), Normal f := by
    intro f hf
    obtain ⟨raw, hraw⟩ := prepared_of_mem_acceptedFilters (activeFilters_subset _ _ hf)
    exact normal_of_prepareTopic hraw
  constructor
  · intro h hmem f hf
    rw [filterAllowed_iff (hnormal f hf)]
    intro t ht hmatch
    rw [← filters_of_reachable hl hr hc hmem] at hf
    exact h t ht ((hsubscribed t).mpr ⟨hmem, f, hf, hmatch⟩)
  · intro h t ht hin
    obtain ⟨hmem, f, hf, hmatch⟩ := (hsubscribed t).mp hin
    rw [filters_of_reachable hl hr hc hmem] at hf
    exact (filterAllowed_iff (hnormal f hf)).mp (h hmem f hf) t ht hmatch

theorem readSound_of_unregistered {s : Server m} (hr : ServerReachable cfg crypto sha256 s)
    {c : ServerClient} (hid : s.world.db.nextId ≤ c.id) (acl : Acl) {w : ServerState m}
    (hw : Visited s w) : ReadSound cfg acl c w := by
  intro t ht hin
  have hmem : c ∈ w.db.clients v := hl.mem_clients_of_getSubscribers _ t c hin
  exact absurd (id_lt_of_visited hl hr hw hmem) (Nat.not_lt_of_le hid)

omit hl in
theorem visited_act {s : Server m} {j : Nat} {e : ServerEvent} {w : ServerState m}
    {processes : Nat → Option (Process Peer ServerOp ServerOp.Resp Error Bool)}
    {P : ServerState m → Prop} :
    (∀ w', Visited ⟨w, processes, s.trace ++ [⟨j, s.world, e⟩]⟩ w' → P w') ↔
      P w ∧ ∀ w', Visited s w' → P w' := by
  unfold Visited
  simp only [List.mem_append, List.mem_singleton]
  constructor
  · intro h
    refine ⟨h w (.inl rfl), ?_⟩
    rintro w' (rfl | ⟨e', he', rfl⟩)
    · exact h s.world (.inr ⟨_, .inr rfl, rfl⟩)
    · exact h _ (.inr ⟨e', .inl he', rfl⟩)
  · rintro ⟨hw, hold⟩ w' (rfl | ⟨e', he' | rfl, rfl⟩)
    · exact hw
    · exact hold _ (.inr ⟨e', he', rfl⟩)
    · exact hold _ (.inl rfl)

omit hl in
theorem readSound_env {s : Server m} {w : ServerState m} (hdb : Reloads s.world w) {acl : Acl}
    {c : ServerClient} :
    (∀ w', Visited { s with world := w } w' → ReadSound cfg acl c w') ↔
      ∀ w', Visited s w' → ReadSound cfg acl c w' := by
  have hsame : ReadSound cfg acl c w ↔ ReadSound cfg acl c s.world := by
    have hw : w.db = s.world.db := hdb
    unfold ReadSound
    rw [hw]
  constructor
  · rintro hall w' (rfl | hmem)
    · exact hsame.mp (hall w (.inl rfl))
    · exact hall w' (.inr hmem)
  · rintro hall w' (rfl | hmem)
    · exact hsame.mpr (hall s.world (.inl rfl))
    · exact hall w' (.inr hmem)

theorem readSound_before {s : Server m} (hr : ServerReachable cfg crypto sha256 s) {i : Nat}
    {peer : Peer} {o : ServerOp} {k : o.Resp → ServerProg Error Bool}
    (hp : s.processes i = some ⟨peer, .call o k⟩) {r : o.Resp} {w : ServerState m}
    (he : ServerState.Exec cfg crypto sha256 s.world o r w) {c : ServerClient}
    (hbefore : (phases s.trace i).client = none)
    (hc : ((phases s.trace i).next o r).client = some c) (acl : Acl) :
    (∀ w', Visited s w' → ReadSound cfg acl c w') ↔
      ∀ f ∈ acceptedFilters cfg.maxTopicDepth (System.history s.trace i),
        FilterAllowed cfg.maxTopicDepth acl f := by
  have hfresh := fresh_of_client_eq_none hbefore
  have hstep := registryStep_of_act hl.toRegistryLaws hr hp he
  have hid : s.world.db.nextId ≤ c.id := by
    rw [hfresh] at hc hstep
    have hnext : Phase.next .fresh o r = .registered c := (next_fresh (e := ⟨o, r⟩) hc).1
    rw [hnext] at hstep
    generalize w.db = db' at hstep
    cases hstep with
    | quiet _ _ hclient _ => cases hclient
    | register h => exact h.id_ge
  rw [acceptedFilters_fresh (accepts_phases hr hp).1 hfresh]
  apply iff_of_true
  · intro w' hw'
    exact readSound_of_unregistered hl hr hid acl hw'
  · intro f hf
    exact hf.elim

omit hl in
theorem forall_filters_step {active active' accepted new : Set Str} {P : Str → Prop} {kept : Prop}
    (hactive : active ⊆ accepted) (hnew : new ⊆ active') (hbound : active' ⊆ active ∪ new)
    (hkept : ∀ f ∈ new, kept) :
    ((kept → ∀ f ∈ active', P f) ∧ ∀ f ∈ accepted, P f) ↔ ∀ f ∈ accepted ∪ new, P f := by
  constructor
  · rintro ⟨hnow, hpast⟩ f (hf | hf)
    · exact hpast f hf
    · exact hnow (hkept f hf) f (hnew hf)
  · intro h
    refine ⟨fun _ f hf => h f ?_, fun f hf => h f (.inl hf)⟩
    exact (hbound hf).imp_left fun hold => hactive hold

theorem readSound_run_iff {s : Server m} (hr : ServerReachable cfg crypto sha256 s) {i : Nat}
    {c : ServerClient} (hc : (phases s.trace i).client = some c) (acl : Acl) :
    (∀ w, Visited s w → ReadSound cfg acl c w) ↔
      ∀ f ∈ acceptedFilters cfg.maxTopicDepth (System.history s.trace i),
        FilterAllowed cfg.maxTopicDepth acl f := by
  induction hr with
  | init h => cases hc
  | step hr hs ih =>
    rename_i s s'
    have hstate := readSound_iff hl (.step hr hs) hc acl
    cases hs with
    | spawn j peer hnone => exact ih hc
    | env w h => exact (readSound_env h).trans (ih hc)
    | act j peer o k r w hp he =>
      have hafter := registryInv_of_reachable hl.toRegistryLaws (.step hr (.act j peer o k r w hp he))
      have hplace := hafter.place i c hc
      rw [visited_act, hstate]
      clear hstate
      rw [phases_append] at hc hplace
      have hactive := activeFilters_subset cfg.maxTopicDepth (System.history s.trace i)
      by_cases hj : i = j
      · subst hj
        rw [Function.update_self] at hc hplace
        have hpast : (∀ w', Visited s w' → ReadSound cfg acl c w') ↔
            ∀ f ∈ acceptedFilters cfg.maxTopicDepth (System.history s.trace i),
              FilterAllowed cfg.maxTopicDepth acl f := by
          cases hbefore : (phases s.trace i).client with
          | none => exact readSound_before hl hr hp he hbefore hc acl
          | some c' =>
            rw [client_next hbefore] at hc
            exact ih (hbefore.trans hc)
        obtain ⟨hnew, hbound⟩ := filtersNext_bounds cfg.maxTopicDepth
          (activeFilters cfg.maxTopicDepth (System.history s.trace i)) ⟨o, r⟩
        rw [hpast, System.history_append_self, activeFilters_snoc, acceptedFilters_snoc]
        apply forall_filters_step hactive hnew hbound
        -- a filter is accepted only of a client that is served, and that one stays registered
        intro f hf
        have hallowed : (phases s.trace i).Allowed o := (accepts_phases hr hp).2.1
        obtain ⟨c', _, hnext⟩ := serving_of_accepted (e := ⟨o, r⟩) hallowed hf
        dsimp only at hnext
        rw [hplace, hnext]
        rw [hnext] at hc
        exact Option.some.inj hc
      · rw [Function.update_of_ne hj] at hc
        rw [System.history_append_of_ne _ (Ne.symm hj), ih hc]
        refine ⟨fun h => h.2, fun h => ⟨fun _ f hf => h f ?_, h⟩⟩
        exact hactive hf

/-- Read access over runs. What the client can be sent in the states of a run is readable for it
exactly when the access list allows every filter it ever subscribed; and whatever it was sent is
among that. -/
theorem read_acl_sound_iff {s : Server m} (hr : ServerReachable cfg crypto sha256 s) {i : Nat}
    {peer : Peer} {rest : ServerProg Error Bool} (hp : s.processes i = some ⟨peer, rest⟩)
    {login addr : Str} {c : ServerClient}
    (hc : ⟨.registerClient login addr, .ok c⟩ ∈ System.history s.trace i) :
    ∃ acl, heldAcl peer (System.history s.trace i) = some acl ∧
    (∀ acl' topics c' r, ⟨.subscribe acl' topics c', r⟩ ∈ System.history s.trace i →
      acl' = acl) ∧
    ((∀ w, Visited s w → ReadSound cfg acl c w) ↔
      ∀ f ∈ acceptedFilters cfg.maxTopicDepth (System.history s.trace i),
        FilterAllowed cfg.maxTopicDepth acl f) ∧
    (∀ j st subscribers priority topic message timestamp,
      ⟨j, st, ⟨.pushToSubscribers subscribers priority topic message timestamp, ()⟩⟩ ∈ s.trace →
      c ∈ subscribers →
        (Publishable cfg.maxTopicDepth topic ∨ cfg.cluster = true) ∧
          ∃ w, Visited s w ∧ c ∈ w.db.getSubscribers topic) := by
  have hclient := client_phaseOf_of_mem (accepts_phases hr hp).1 hc
  obtain ⟨held, hsome, hheld⟩ := allowed_held hr hp hc
  obtain ⟨acl, rfl⟩ := Option.isSome_iff_exists.mp hsome
  have hacl := hheld acl rfl
  refine ⟨acl, hacl, ?_, readSound_run_iff hl hr hclient acl, ?_⟩
  · intro acl' topics c' r hmem
    obtain ⟨held, hallowed, hheld⟩ := allowed_held hr hp hmem
    have hsame := hheld acl' hallowed
    rw [hacl] at hsame
    exact (Option.some.inj hsame).symm
  · intro j st subscribers priority topic message timestamp hmem hin
    obtain ⟨htopic, e, he, rfl⟩ := push_of_query hr hmem
    exact ⟨htopic, e.world, .inr ⟨e, he, rfl⟩, hin⟩

end

def oneBelowAcl : Acl where
  admin := false
  replicator := false
  read := some ⟨{⟨some [['a'], ['+']]⟩}⟩
  write := some ⟨{PathMask.newAny}⟩

def oneBelowState : ServerState listMap where
  db := ServerClientDB.new listMap
  acls := fun name => if name = ['_'] then some oneBelowAcl else none
  passwords := none
  keys := none

def oneBelowClient : ServerClient where
  id := 0
  login := []
  addr := []
  token := Token.replicate 7
  digest := List.replicate 32 7

def registeredState : ServerState listMap :=
  { oneBelowState with
    db :=
      { submap := (listMap.registerClient listMap.new oneBelowClient).1
        clientsByToken := Function.update (fun _ => none) oneBelowClient.token (some oneBelowClient)
        nextId := 1 } }

def subscribedState : ServerState listMap :=
  { registeredState with
    db :=
      { registeredState.db with
        submap := listMap.subscribe registeredState.db.submap ['a', '/', '#'] oneBelowClient } }

def subscribeHistory : List ServerEvent :=
  [⟨.read 3, .ok [0xEE, 0xAA, 0]⟩, ⟨.write [0xEE, 0xAA, 1, 0], .ok ()⟩] ++
    ([⟨.read 4, .ok [1, 0, 0, 0]⟩, ⟨.read 1, .ok [0]⟩] ++
      (⟨.getAcl [], some oneBelowAcl⟩ :: ⟨.registerClient [] [], .ok oneBelowClient⟩ ::
        ⟨.write oneBelowClient.token.bytes, .ok ()⟩ ::
        ([⟨.read 1, .ok [2]⟩, ⟨.read 4, .ok [3, 0, 0, 0]⟩, ⟨.read 3, .ok [97, 47, 35]⟩,
          ⟨.subscribe oneBelowAcl [['a', '/', '#']] oneBelowClient, responseOk⟩,
          ⟨.write [responseOk], .ok ()⟩] ++ [])))

def loginHistory : List ServerEvent :=
  [⟨.read 3, .ok [0xEE, 0xAA, 0]⟩, ⟨.write [0xEE, 0xAA, 1, 0], .ok ()⟩] ++
    ([⟨.read 4, .ok [1, 0, 0, 0]⟩, ⟨.read 1, .ok [0]⟩] ++
      [⟨.getAcl [], some oneBelowAcl⟩, ⟨.registerClient [] [], .ok oneBelowClient⟩,
        ⟨.write oneBelowClient.token.bytes, .ok ()⟩])

def endSession (result : Except Error Unit) : ServerProg Error Bool := do
  perform (.unregisterClient oneBelowClient)
  perform (.abortTasks oneBelowClient)
  Prog.ofExcept (result.map fun _ => true)

theorem run_login {turns : Nat} {h : List ServerEvent} {q : ServerProg Error Unit}
    (hsession : Prog.Run (processControl sampleConfig oneBelowClient oneBelowAcl turns) h q) :
    Prog.Run (handleTcpStream sampleConfig [] false true turns) (loginHistory ++ h)
      (q.attempt.bind endSession) := by
  have hinit : Prog.Run (initTcpStream false true)
      [⟨.read 3, .ok [0xEE, 0xAA, 0]⟩, ⟨.write [0xEE, 0xAA, 1, 0], .ok ()⟩] (.ret .control) := by
    unfold initTcpStream
    exact Prog.Run.call _ (Prog.Run.call _ (.nil _))
  have hframe : Prog.Run (readFrame (some maxAuthFrameSize))
      [⟨.read 4, .ok [1, 0, 0, 0]⟩, ⟨.read 1, .ok [0]⟩] (.ret [0]) := by
    unfold readFrame readFrameWith
    exact Prog.Run.call _ (Prog.Run.call _ (.nil _))
  have hlogin : strFromUtf8 (splitFirst 0 [0]).1 = .ok [] := strFromUtf8_utf8 []
  have hpassword : strFromUtf8 [] = .ok [] := strFromUtf8_utf8 []
  unfold handleTcpStream loginHistory
  rw [List.append_assoc, List.append_assoc]
  refine hinit.bind (hframe.bind ?_)
  rw [hlogin]
  change Prog.Run ((Prog.ofExcept (strFromUtf8 [])).bind _) _ _
  rw [hpassword]
  refine Prog.Run.call _ (Prog.Run.call _ (Prog.Run.call _ ?_))
  exact hsession.attempt.bind_left endSession

theorem exec_read (st : ServerState listMap) {n : Nat} {buf : Bytes} (hlen : buf.length = n) :
    ServerState.Exec sampleConfig sampleCrypto Token.bytes st (.read n) (.ok buf) st := by
  refine ⟨rfl, fun b hb => ?_⟩
  rw [← Except.ok.inj hb, hlen]

theorem execs_login : System.Execs (ServerState.Exec sampleConfig sampleCrypto Token.bytes)
    oneBelowState loginHistory registeredState := by
  have hregister : ServerState.Exec sampleConfig sampleCrypto Token.bytes oneBelowState
      (.registerClient [] []) (.ok oneBelowClient) registeredState :=
    ⟨[.ok oneBelowClient.token], _, rfl, rfl⟩
  refine .cons (exec_read _ rfl) (.cons rfl (.cons (exec_read _ rfl) (.cons (exec_read _ rfl) ?_)))
  exact .cons ⟨rfl, rfl⟩ (.cons hregister (.cons rfl (.nil _)))

theorem run_subscribeHistory :
    Prog.Run (handleTcpStream sampleConfig [] false true 1) subscribeHistory .hang := by
  have hparse : parseTopics [97, 47, 35] = .ok [['a', '/', '#']] :=
    parseTopics_utf8 (List.cons_ne_nil 'a' ['/', '#']) (by decide)
  have hcommand : Prog.Run (processCommand sampleConfig oneBelowClient oneBelowAcl)
      [⟨.read 1, .ok [2]⟩, ⟨.read 4, .ok [3, 0, 0, 0]⟩, ⟨.read 3, .ok [97, 47, 35]⟩,
        ⟨.subscribe oneBelowAcl [['a', '/', '#']] oneBelowClient, responseOk⟩,
        ⟨.write [responseOk], .ok ()⟩] (.ret none) := by
    unfold processCommand
    refine Prog.Run.call _ (Prog.Run.call _ (Prog.Run.call _ ?_))
    change Prog.Run ((Prog.ofExcept (parseTopics [97, 47, 35])).bind fun topics =>
      (perform (.subscribe oneBelowAcl topics oneBelowClient)).bind fun res =>
        (writeAll [res]).bind fun _ => .ret none) _ _
    rw [hparse]
    exact Prog.Run.call _ (Prog.Run.call _ (.nil _))
  have hsession : Prog.Run (processControl sampleConfig oneBelowClient oneBelowAcl 1) _ .hang :=
    hcommand.bind (.nil _)
  exact run_login hsession

theorem execs_subscribeHistory :
    System.Execs (ServerState.Exec sampleConfig sampleCrypto Token.bytes) oneBelowState
      subscribeHistory subscribedState := by
  have hfilter : prepareTopic 10 ['a', '/', '#'] = .ok ['a', '/', '#'] :=
    prepareTopic_of_simple (by decide) (by decide) (by decide)
  have hallowed : oneBelowAcl.allowRead ['a', '/', '#'] = true := by decide
  have htopics : subscribeTopics 10 oneBelowAcl oneBelowClient [['a', '/', '#']]
      registeredState.db = (responseOk, subscribedState.db) := by
    rw [subscribeTopics, hallowed, ServerClientDB.subscribe, hfilter]
    rfl
  have hsubscribe : ServerState.Exec sampleConfig sampleCrypto Token.bytes registeredState
      (.subscribe oneBelowAcl [['a', '/', '#']] oneBelowClient) responseOk subscribedState := by
    refine ⟨(congrArg Prod.fst htopics).symm, ?_⟩
    change subscribedState = { registeredState with
      db := (subscribeTopics 10 oneBelowAcl oneBelowClient [['a', '/', '#']] registeredState.db).2 }
    rw [htopics]
    rfl
  refine execs_login.append ?_
  refine .cons (exec_read _ rfl) (.cons (exec_read _ rfl) (.cons (exec_read _ rfl) ?_))
  exact .cons hsubscribe (.cons rfl (.nil _))

def deepDatagram : Bytes :=
  controlHeader ++ leBytes 2 protocolVersion ++ [authLoginPass, 0, 0, 1, 127, 97, 47, 98, 47, 99, 0, 1]

theorem reachable_deep :
    ∃ s : Server listMap, ServerReachable sampleConfig sampleCrypto Token.bytes s ∧
      s.processes 0 = some ⟨.tcp [] false true 1, .hang⟩ ∧
      System.history s.trace 0 = subscribeHistory ∧
      ∃ timestamp, ⟨1, subscribedState, ⟨.pushToSubscribers [oneBelowClient] 127
        ['a', '/', 'b', '/', 'c'] [1] timestamp, ()⟩⟩ ∈ s.trace := by
  have hinit : ServerReachable sampleConfig sampleCrypto Token.bytes
      ⟨oneBelowState, fun _ => none, []⟩ := .init rfl
  have hspawn := System.Reachable.step hinit (.spawn 0 (.tcp [] false true 1) rfl)
  obtain ⟨s, hr, hp, hw, hh, hothers⟩ := System.reachable_run run_subscribeHistory
    execs_subscribeHistory hspawn (Function.update_self ..)
  have hnone : s.processes 1 = none := hothers 1 (by decide)
  have hpublisher := System.Reachable.step hr (.spawn 1 (.udp deepDatagram) hnone)
  have hcalls : (Peer.handler sampleConfig (.udp deepDatagram)).Calls DatagramOp :=
    Prog.Calls.bind (calls_handleUdpDatagram sampleConfig _) fun _ => trivial
  obtain ⟨s', hr', htrace, hothers'⟩ := System.reachable_eval (exec_answer rfl 0) hcalls hpublisher
    hw (Function.update_self ..) []
  have hpushes : ⟨[oneBelowClient], 127, ['a', '/', 'b', '/', 'c'], [1]⟩ ∈ pushes (Prog.eval
      (subscribedState.answer sampleCrypto 0) (Peer.handler sampleConfig (.udp deepDatagram))
        []).1 := by
    decide +kernel
  obtain ⟨e, he, hpush⟩ := List.mem_filterMap.mp hpushes
  obtain ⟨timestamp, rfl⟩ := eq_of_pushOf hpush
  refine ⟨s', hr', ?_, ?_, timestamp, ?_⟩
  · rw [hothers' 0 (by decide)]
    exact hp
  · rw [htrace, System.history_append_others, hh]
    · rfl
    · intro e' he'
      obtain ⟨_, _, rfl⟩ := List.mem_map.mp he'
      exact Nat.one_ne_zero
  · rw [htrace]
    exact List.mem_append_right _ (List.mem_map_of_mem he)

theorem read_acl_sound_sample :
    ∃ s : Server listMap, ServerReachable sampleConfig sampleCrypto Token.bytes s ∧
      ¬ ∀ w, Visited s w → ReadSound sampleConfig oneBelowAcl oneBelowClient w := by
  obtain ⟨s, hr, hp, hh, _⟩ := reachable_deep
  have hregistered : ⟨.registerClient [] [], .ok oneBelowClient⟩ ∈ System.history s.trace 0 := by
    rw [hh]
    exact List.mem_of_getElem? (i := 5) rfl
  obtain ⟨acl, hacl, _, hiff, _⟩ := read_acl_sound_iff listMap_laws hr hp hregistered
  rw [hh] at hacl hiff
  obtain rfl : oneBelowAcl = acl := Option.some.inj hacl
  have haccepted : ['a', '/', '#'] ∈ acceptedFilters sampleConfig.maxTopicDepth
      subscribeHistory := by
    refine ⟨⟨.subscribe oneBelowAcl [['a', '/', '#']] oneBelowClient, responseOk⟩,
      List.mem_of_getElem? (i := 10) rfl, _, _, _, rfl, ?_⟩
    decide +kernel
  have hrefused : ¬ FilterAllowed sampleConfig.maxTopicDepth oneBelowAcl ['a', '/', '#'] := by
    decide +kernel
  exact ⟨s, hr, fun hall => hrefused (hiff.mp hall _ haccepted)⟩

/-- The client whose access list stops at one chunk below `a` is sent `a/b/c`. -/
theorem read_acl_leak :
    ∃ s : Server listMap, ServerReachable sampleConfig sampleCrypto Token.bytes s ∧
      heldAcl (.tcp [] false true 1) (System.history s.trace 0) = some oneBelowAcl ∧
      ⟨.registerClient [] [], .ok oneBelowClient⟩ ∈ System.history s.trace 0 ∧
      (∃ timestamp, ⟨1, subscribedState, ⟨.pushToSubscribers [oneBelowClient] 127
        ['a', '/', 'b', '/', 'c'] [1] timestamp, ()⟩⟩ ∈ s.trace) ∧
      prepareTopic sampleConfig.maxTopicDepth ['a', '/', 'b', '/', 'c'] =
        .ok ['a', '/', 'b', '/', 'c'] ∧
      oneBelowAcl.allowRead ['a', '/', 'b', '/', 'c'] = false := by
  obtain ⟨s, hr, _, hh, hpush⟩ := reachable_deep
  refine ⟨s, hr, ?_, ?_, hpush, ?_, by decide⟩
  · rw [hh]
    rfl
  · rw [hh]
    exact List.mem_of_getElem? (i := 5) rfl
  · exact prepareTopic_of_simple (by decide) (by decide) (by decide)

end Psrt

import Psrt.Server.Calls
import Psrt.Server.Peers
import Psrt.Server.RegistryView

/-! The registration of a client over the life of its handler: what is left of it in the registry
once the handler has returned. -/

namespace Psrt
open Wire Interaction

/-- How far a handler has come with a client it registered. `registered` is the moment between the
registration and the end of the write of the token. -/
inductive Phase where
  | fresh
  | registered (client : ServerClient)
  | serving (client : ServerClient)
  | released (client : ServerClient)
  | tokenLost (client : ServerClient)

namespace Phase

def client : Phase → Option ServerClient
  | fresh => none
  | registered c => some c
  | serving c => some c
  | released c => some c
  | tokenLost c => some c

def Holds (client : ServerClient) : Phase → Prop
  | registered c => c = client
  | serving c => c = client
  | tokenLost c => c = client
  | _ => False

theorem client_of_holds {p : Phase} {c : ServerClient} (h : p.Holds c) : p.client = some c := by
  cases p with
  | fresh => exact h.elim
  | released => exact h.elim
  | registered c' => exact congrArg some h
  | serving c' => exact congrArg some h
  | tokenLost c' => exact congrArg some h

def Allowed : Phase → ServerOp → Prop
  | fresh, .unregisterClient _ => False
  | fresh, .subscribe _ _ _ => False
  | fresh, .unsubscribe _ _ => False
  | fresh, _ => True
  | registered c, o => o = .write c.token.bytes
  | serving _, .registerClient _ _ => False
  | serving c, .unregisterClient c' => c' = c
  | serving c, .subscribe _ _ c' => c' = c
  | serving c, .unsubscribe _ c' => c' = c
  | serving _, _ => True
  | released c, o => o = .abortTasks c
  | tokenLost _, _ => False

def next : Phase → (o : ServerOp) → o.Resp → Phase
  | fresh, .registerClient _ _, .ok c => registered c
  | registered c, .write _, .ok _ => serving c
  | registered c, .write _, .error _ => tokenLost c
  | serving c, .unregisterClient _, _ => released c
  | p, _, _ => p

def Left : Phase → Prop
  | registered _ => False
  | serving _ => False
  | _ => True

end Phase

def phaseMonitor : Monitor ServerOp ServerOp.Resp Phase where
  allowed := Phase.Allowed
  possible _ _ _ := True
  next := Phase.next

def phaseOf (h : List ServerEvent) : Phase := phaseMonitor.after .fresh h

theorem phaseOf_snoc (h : List ServerEvent) (e : ServerEvent) :
    phaseOf (h ++ [e]) = (phaseOf h).next e.op e.resp := phaseMonitor.after_snoc .fresh h e

theorem phaseMonitor_admits (p : Phase) (h : List ServerEvent) : phaseMonitor.Admits p h :=
  Monitor.admits_of_forall (fun _ _ _ => trivial) p

def KeepsPhases {ε α : Type} (p : ServerProg ε α) (phase : Phase) : Prop :=
  phaseMonitor.wp p (fun _ p' => p'.Left) (fun _ p' => p'.Left) phase

section
variable {cfg : Config} {ε α β : Type}

theorem fresh_next {o : ServerOp} (h : LoginOp o ∨ DatagramOp o) (r : o.Resp) :
    Phase.next .fresh o r = .fresh := by
  cases o with
  | registerClient login addr =>
    rcases h with h | h
    · exact h.elim
    · exact h.elim
  | _ => rfl

theorem fresh_allowed {o : ServerOp} (h : LoginOp o ∨ DatagramOp o) : Phase.Allowed .fresh o := by
  cases o with
  | unregisterClient => exact h.elim id id
  | subscribe => exact h.elim id id
  | unsubscribe => exact h.elim id id
  | _ => trivial

theorem wp_fresh {p : ServerProg ε α} (hp : p.Calls fun o => LoginOp o ∨ DatagramOp o) :
    phaseMonitor.wp p (fun _ p' => p' = .fresh) (fun _ p' => p' = .fresh) .fresh := by
  refine Monitor.wp_of_calls (I := fun p' => p' = Phase.fresh) ?_ ?_ hp rfl
  · rintro p' o r rfl ho _
    exact fresh_next ho r
  · rintro p' o rfl ho
    exact fresh_allowed ho

theorem keepsPhases_bind {p : ServerProg ε α} {f : α → ServerProg ε β}
    (hp : p.Calls fun o => LoginOp o ∨ DatagramOp o) (hf : ∀ a, KeepsPhases (f a) .fresh) :
    KeepsPhases (p.bind f) .fresh := by
  unfold KeepsPhases
  rw [Monitor.wp_bind]
  refine Monitor.wp_mono ?_ ?_ (wp_fresh hp)
  · rintro a p' rfl
    exact hf a
  · rintro e p' rfl
    trivial

theorem wp_processControl (client : ServerClient) (acl : Acl) (turns : Nat) :
    phaseMonitor.wp (processControl cfg client acl turns) (fun _ p' => p' = .serving client)
      (fun _ p' => p' = .serving client) (.serving client) := by
  refine Monitor.wp_of_calls (I := fun p' => p' = Phase.serving client) ?_ ?_
    (calls_processControl cfg client acl turns) rfl
  · rintro p' o r rfl ho _
    cases o with
    | unregisterClient => exact ho.elim
    | _ => rfl
  · rintro p' o rfl ho
    cases o with
    | registerClient => exact ho.elim
    | unregisterClient => exact ho.elim
    | subscribe acl' topics client' => exact ho.2
    | unsubscribe topics client' => exact ho
    | _ => trivial

theorem keepsPhases_serveClient (acl : Acl) (login addr : Str) (turns : Nat) :
    KeepsPhases (serveClient cfg acl login addr turns) .fresh := by
  unfold serveClient
  refine ⟨trivial, fun r _ => ?_⟩
  cases r with
  | error e => trivial
  | ok client =>
    -- the token: an error here ends the handler at once
    refine ⟨rfl, fun r _ => ?_⟩
    cases r with
    | error e => trivial
    | ok _ =>
      change phaseMonitor.wp ((processControl cfg client acl turns).attempt.bind fun result =>
        (perform (.unregisterClient client)).bind fun _ =>
          (perform (.abortTasks client)).bind fun _ =>
            (Prog.ofExcept (result.map fun _ => true) : ServerProg Error Bool)) _ _
        (.serving client)
      rw [Monitor.wp_bind, Monitor.wp_attempt]
      have hleave : ∀ result : Except Error Unit, phaseMonitor.wp
          ((perform (.unregisterClient client)).bind fun _ =>
            (perform (.abortTasks client)).bind fun _ =>
              Prog.ofExcept (result.map fun _ => true))
          (fun _ p' => p'.Left) (fun _ p' => p'.Left) (.serving client) := by
        intro result
        refine ⟨rfl, fun _ _ => ⟨rfl, fun _ _ => ?_⟩⟩
        cases result with
        | error e => trivial
        | ok _ => trivial
      refine Monitor.wp_mono ?_ ?_ (wp_processControl client acl turns)
      · rintro a p' rfl
        exact hleave (.ok a)
      · rintro e p' rfl
        exact hleave (.error e)

theorem keepsPhases_handler (peer : Peer) : KeepsPhases (peer.handler cfg) .fresh := by
  have hbind : ∀ {β : Type} {p : ServerProg Error β} {f : β → ServerProg Error Bool},
      p.Calls LoginOp → (∀ b, KeepsPhases (f b) .fresh) → KeepsPhases (p.bind f) .fresh :=
    fun hp => keepsPhases_bind (hp.mono fun o ho => .inl ho)
  have hret : KeepsPhases (.ret false : ServerProg Error Bool) .fresh := trivial
  cases peer with
  | tcp addr tlsConfigured allowNoTls turns =>
    exact handleTcpStream_rule (T := fun p => KeepsPhases p .fresh) cfg hbind hret
      (fun _ => trivial) (fun acl login => keepsPhases_serveClient acl login addr turns)
      tlsConfigured allowNoTls
  | unix path turns =>
    exact handleUnixStream_rule (T := fun p => KeepsPhases p .fresh) cfg hbind hret fun login =>
      keepsPhases_serveClient Acl.newFull login path turns
  | udp frame =>
    exact keepsPhases_bind ((calls_handleUdpDatagram cfg frame).mono fun o ho => .inr ho)
      fun _ => trivial

end

theorem client_next {p : Phase} {c : ServerClient} (h : p.client = some c) (o : ServerOp)
    (r : o.Resp) : (p.next o r).client = some c := by
  cases p with
  | fresh => cases h
  | registered c' =>
    cases o with
    | write buf =>
      cases r with
      | ok _ => exact h
      | error e => exact h
    | _ => exact h
  | serving c' =>
    cases o with
    | unregisterClient => exact h
    | _ => exact h
  | released c' => exact h
  | tokenLost c' => exact h

theorem fresh_of_client_eq_none {p : Phase} (h : p.client = none) : p = .fresh := by
  cases p with
  | fresh => rfl
  | _ => cases h

theorem fresh_of_register_allowed {p : Phase} {login addr : Str}
    (h : p.Allowed (.registerClient login addr)) : p = .fresh := by
  cases p with
  | fresh => rfl
  | registered c => cases h
  | serving c => exact h.elim
  | released c => cases h
  | tokenLost c => exact h.elim

def clientOf : ServerOp → Option ServerClient
  | .unregisterClient c => some c
  | .subscribe _ _ c => some c
  | .unsubscribe _ c => some c
  | _ => none

theorem serving_of_allowed {p : Phase} {o : ServerOp} {c : ServerClient} (ha : p.Allowed o)
    (hc : clientOf o = some c) : p = .serving c := by
  cases p with
  | serving c' =>
    have heq : c = c' := by
      cases o with
      | unregisterClient client => exact (Option.some.inj hc).symm.trans ha
      | subscribe acl topics client => exact (Option.some.inj hc).symm.trans ha
      | unsubscribe topics client => exact (Option.some.inj hc).symm.trans ha
      | _ => cases hc
    rw [heq]
  | fresh =>
    cases o with
    | unregisterClient client => exact ha.elim
    | subscribe acl topics client => exact ha.elim
    | unsubscribe topics client => exact ha.elim
    | _ => cases hc
  | registered c' =>
    obtain rfl : o = .write c'.token.bytes := ha
    cases hc
  | released c' =>
    obtain rfl : o = .abortTasks c' := ha
    cases hc
  | tokenLost c' => exact ha.elim

theorem next_fresh {e : ServerEvent} {c : ServerClient}
    (h : (Phase.next .fresh e.op e.resp).client = some c) :
    Phase.next .fresh e.op e.resp = .registered c ∧
      ∃ login addr, e = ⟨.registerClient login addr, .ok c⟩ := by
  obtain ⟨o, r⟩ := e
  cases o with
  | registerClient login addr =>
    cases r with
    | error e => cases h
    | ok c' =>
      obtain rfl := Option.some.inj h
      exact ⟨rfl, login, addr, rfl⟩
  | _ => cases h

theorem next_eq_registered {p : Phase} {e : ServerEvent} {c : ServerClient}
    (ha : p.Allowed e.op) (h : p.next e.op e.resp = .registered c) :
    p = .fresh ∧ ∃ login addr, e = ⟨.registerClient login addr, .ok c⟩ := by
  cases p with
  | fresh => exact ⟨rfl, (next_fresh (congrArg Phase.client h)).2⟩
  | registered c' =>
    obtain ⟨o, r⟩ := e
    obtain rfl : o = .write c'.token.bytes := ha
    cases r with
    | ok _ => cases h
    | error e => cases h
  | serving c' =>
    obtain ⟨o, r⟩ := e
    cases o with
    | _ => cases h
  | released c' => cases h
  | tokenLost c' => cases h

theorem next_eq_tokenLost {p : Phase} {e : ServerEvent} {c : ServerClient}
    (ha : p.Allowed e.op) (h : p.next e.op e.resp = .tokenLost c) :
    p = .registered c ∧ ∃ error, e = ⟨.write c.token.bytes, .error error⟩ := by
  cases p with
  | fresh =>
    have hregistered := (next_fresh (congrArg Phase.client h)).1
    rw [h] at hregistered
    cases hregistered
  | registered c' =>
    obtain ⟨o, r⟩ := e
    obtain rfl : o = .write c'.token.bytes := ha
    cases r with
    | ok _ => cases h
    | error e =>
      obtain rfl := Phase.tokenLost.inj h
      exact ⟨rfl, e, rfl⟩
  | serving c' =>
    obtain ⟨o, r⟩ := e
    cases o with
    | _ => cases h
  | released c' => cases h
  | tokenLost c' => exact ha.elim

theorem client_phaseOf_of_mem {h : List ServerEvent} (ha : phaseMonitor.Accepts .fresh h)
    {login addr : Str} {c : ServerClient} (hmem : ⟨.registerClient login addr, .ok c⟩ ∈ h) :
    (phaseOf h).client = some c := by
  induction h using List.reverseRecOn with
  | nil => cases hmem
  | append_singleton h e ih =>
    rw [Monitor.accepts_snoc] at ha
    rw [phaseOf_snoc]
    rcases List.mem_append.mp hmem with hold | hnew
    · exact client_next (ih ha.1 hold) e.op e.resp
    · obtain rfl := List.mem_singleton.mp hnew
      have hfresh : phaseOf h = .fresh := fresh_of_register_allowed ha.2
      rw [hfresh]
      rfl

theorem mem_of_client_phaseOf {h : List ServerEvent} {c : ServerClient}
    (hc : (phaseOf h).client = some c) :
    ∃ login addr, ⟨.registerClient login addr, .ok c⟩ ∈ h := by
  induction h using List.reverseRecOn with
  | nil => cases hc
  | append_singleton h e ih =>
    rw [phaseOf_snoc] at hc
    cases hp : (phaseOf h).client with
    | some c' =>
      rw [client_next hp] at hc
      obtain rfl := Option.some.inj hc
      obtain ⟨login, addr, hmem⟩ := ih hp
      exact ⟨login, addr, List.mem_append_left _ hmem⟩
    | none =>
      have hfresh : phaseOf h = .fresh := fresh_of_client_eq_none hp
      rw [hfresh] at hc
      obtain ⟨_, login, addr, rfl⟩ := next_fresh hc
      exact ⟨login, addr, List.mem_append_right _ (List.mem_singleton_self _)⟩

/-- The token of the registered client could not be written, and nothing happened since. -/
def TokenLost (h : List ServerEvent) (c : ServerClient) : Prop :=
  ∃ h₁ login addr e, h = h₁ ++ [⟨.registerClient login addr, .ok c⟩] ++
    [⟨.write c.token.bytes, .error e⟩]

theorem registered_iff {h : List ServerEvent} (ha : phaseMonitor.Accepts .fresh h)
    {c : ServerClient} :
    phaseOf h = .registered c ↔
      ∃ h₁ login addr, h = h₁ ++ [⟨.registerClient login addr, .ok c⟩] := by
  constructor
  · intro hp
    cases h using List.reverseRecOn with
    | nil => cases hp
    | append_singleton h e =>
      rw [Monitor.accepts_snoc] at ha
      rw [phaseOf_snoc] at hp
      obtain ⟨_, login, addr, rfl⟩ := next_eq_registered ha.2 hp
      exact ⟨h, login, addr, rfl⟩
  · rintro ⟨h₁, login, addr, rfl⟩
    rw [Monitor.accepts_snoc] at ha
    have hfresh : phaseOf h₁ = .fresh := fresh_of_register_allowed ha.2
    rw [phaseOf_snoc, hfresh]
    rfl

theorem tokenLost_iff {h : List ServerEvent} (ha : phaseMonitor.Accepts .fresh h)
    {c : ServerClient} : phaseOf h = .tokenLost c ↔ TokenLost h c := by
  constructor
  · intro hp
    cases h using List.reverseRecOn with
    | nil => cases hp
    | append_singleton h e =>
      rw [Monitor.accepts_snoc] at ha
      rw [phaseOf_snoc] at hp
      obtain ⟨hregistered, error, rfl⟩ := next_eq_tokenLost ha.2 hp
      obtain ⟨h₁, login, addr, rfl⟩ := (registered_iff ha.1).mp hregistered
      exact ⟨h₁, login, addr, error, rfl⟩
  · rintro ⟨h₁, login, addr, e, rfl⟩
    rw [Monitor.accepts_snoc] at ha
    rw [phaseOf_snoc, (registered_iff ha.1).mpr ⟨h₁, login, addr, rfl⟩]
    rfl

section
variable {m : SubMap} {v : m.View} {sha256 : Token → Digest} (hl : m.RegistryLaws v)

inductive RegistryStep (v : m.View) (sha256 : Token → Digest) :
    ServerClientDB m → ServerClientDB m → Phase → Phase → Prop
  | quiet {db db' p p'} (hentry : ∀ c, ServerClientDB.SameEntry v db db' c)
      (hid : db.nextId ≤ db'.nextId) (hclient : p'.client = p.client)
      (hholds : ∀ c, p'.Holds c ↔ p.Holds c) : RegistryStep v sha256 db db' p p'
  | register {db db' c} (h : ServerClientDB.Registered v sha256 db db' c) :
      RegistryStep v sha256 db db' .fresh (.registered c)
  | subscribed {db db' c} (h : ServerClientDB.SubscribedOnly v db db' c) :
      RegistryStep v sha256 db db' (.serving c) (.serving c)
  | unregister (db c) :
      RegistryStep v sha256 db (db.unregisterClient c) (.serving c) (.released c)

theorem registryStep_of_same {db db' : ServerClientDB m} (h : db' = db) {p p' : Phase}
    (hclient : p'.client = p.client) (hholds : ∀ c, p'.Holds c ↔ p.Holds c) :
    RegistryStep v sha256 db db' p p' := by
  subst h
  exact .quiet (ServerClientDB.SameEntry.refl db') (Nat.le_refl _) hclient hholds

include hl in
theorem registryStep_of_exec {cfg : Config} {crypto : Crypto} {st st' : ServerState m} {p : Phase}
    {o : ServerOp} {r : o.Resp} (ha : p.Allowed o)
    (he : ServerState.Exec cfg crypto sha256 st o r st') :
    RegistryStep v sha256 st.db st'.db p (p.next o r) := by
  have hkeep : ∀ {p' : Phase}, st'.db = st.db → p' = p → RegistryStep v sha256 st.db st'.db p p' := by
    rintro p' hdb rfl
    exact registryStep_of_same hdb rfl fun _ => Iff.rfl
  cases o with
  | registerClient login addr =>
    obtain rfl := fresh_of_register_allowed ha
    obtain ⟨draws, db', hdraws, rfl⟩ := he
    cases r with
    | ok c => exact .register (ServerClientDB.registerClient_ok hl hdraws)
    | error e =>
      obtain ⟨hentry, hid⟩ := ServerClientDB.registerClient_error hl hdraws
      exact .quiet hentry hid rfl fun _ => Iff.rfl
  | unregisterClient c =>
    obtain rfl : st' = { st with db := st.db.unregisterClient c } := he
    rw [serving_of_allowed ha rfl]
    exact .unregister st.db c
  | subscribe acl topics c =>
    obtain ⟨_, rfl⟩ := he
    rw [serving_of_allowed ha rfl]
    exact .subscribed (ServerClientDB.subscribeTopics_only hl _ acl c topics st.db)
  | unsubscribe topics c =>
    obtain ⟨_, rfl⟩ := he
    rw [serving_of_allowed ha rfl]
    exact .subscribed (ServerClientDB.unsubscribeTopics_only hl _ c topics st.db)
  | write buf =>
    obtain rfl : st' = st := he
    cases p with
    | registered c =>
      cases r with
      | ok _ => exact registryStep_of_same rfl rfl fun _ => Iff.rfl
      | error e => exact registryStep_of_same rfl rfl fun _ => Iff.rfl
    | _ => exact hkeep rfl rfl
  | _ =>
    have hst : st' = st := by first | exact he | exact he.1
    cases p with
    | registered c => cases ha
    | _ => exact hkeep (congrArg ServerState.db hst) rfl

/-- A client's place in the registry is settled by the phase of the one handler that has it. -/
structure RegistryInv (v : m.View) (sha256 : Token → Digest) (db : ServerClientDB m)
    (phase : Nat → Phase) : Prop where
  consistent : db.Consistent v sha256
  place : ∀ i c, (phase i).client = some c → (c ∈ db.clients v ↔ (phase i).Holds c)
  client_id_lt : ∀ c ∈ db.clients v, c.id < db.nextId
  id_lt : ∀ i c, (phase i).client = some c → c.id < db.nextId
  distinct : ∀ i j c, (phase i).client = some c → (phase j).client = some c → i = j

include hl in
theorem sameEntry_of_registryStep {db db' : ServerClientDB m} {phase : Nat → Phase} {i : Nat}
    {p' : Phase} (hi : RegistryInv v sha256 db phase)
    (hs : RegistryStep v sha256 db db' (phase i) p') {c : ServerClient} (hmem : c ∈ db.clients v)
    (hnot : ¬ (phase i).Holds c) : ServerClientDB.SameEntry v db db' c := by
  -- the client a step is about is the one its own handler holds
  generalize hp : phase i = p at hs
  cases hs with
  | quiet hentry _ _ _ => exact hentry c
  | register h => exact h.sameEntry hi.consistent hmem
  | subscribed h =>
    rename_i c₀
    rw [hp] at hnot
    have hc₀ : c₀ ∈ db.clients v := (hi.place i c₀ (hp ▸ rfl)).mpr (hp ▸ rfl)
    exact h.sameEntry hl hc₀ hmem fun heq => hnot heq.symm
  | unregister c₀ =>
    rw [hp] at hnot
    have hc₀ : c₀ ∈ db.clients v := (hi.place i c₀ (hp ▸ rfl)).mpr (hp ▸ rfl)
    exact ServerClientDB.unregister_sameEntry hl hi.consistent hc₀ hmem fun heq => hnot heq.symm

theorem RegistryInv.update {db db' : ServerClientDB m} {phase : Nat → Phase} {i : Nat} {p' : Phase}
    (hi : RegistryInv v sha256 db phase) (hc : db'.Consistent v sha256)
    (hid : db.nextId ≤ db'.nextId) (hlt : ∀ c ∈ db'.clients v, c.id < db'.nextId)
    (hothers : ∀ j c, j ≠ i → (phase j).client = some c →
      (c ∈ db'.clients v ↔ c ∈ db.clients v))
    (hown : ∀ c, p'.client = some c → (c ∈ db'.clients v ↔ p'.Holds c) ∧ c.id < db'.nextId ∧
      ∀ j, j ≠ i → (phase j).client ≠ some c) :
    RegistryInv v sha256 db' (Function.update phase i p') := by
  have hself : Function.update phase i p' i = p' := Function.update_self ..
  have hother : ∀ {j}, j ≠ i → Function.update phase i p' j = phase j := fun hj =>
    Function.update_of_ne hj ..
  refine ⟨hc, ?_, hlt, ?_, ?_⟩
  · intro j c hclient
    by_cases hj : j = i
    · subst hj
      rw [hself] at hclient ⊢
      exact (hown c hclient).1
    · rw [hother hj] at hclient ⊢
      rw [hothers j c hj hclient]
      exact hi.place j c hclient
  · intro j c hclient
    by_cases hj : j = i
    · subst hj
      rw [hself] at hclient
      exact (hown c hclient).2.1
    · rw [hother hj] at hclient
      exact Nat.lt_of_lt_of_le (hi.id_lt j c hclient) hid
  · intro j k c hj hk
    by_cases hji : j = i
    · by_cases hki : k = i
      · rw [hji, hki]
      · rw [hji, hself] at hj
        rw [hother hki] at hk
        exact absurd hk ((hown c hj).2.2 k hki)
    · rw [hother hji] at hj
      by_cases hki : k = i
      · rw [hki, hself] at hk
        exact absurd hj ((hown c hk).2.2 j hji)
      · rw [hother hki] at hk
        exact hi.distinct j k c hj hk

theorem RegistryInv.client_ne {db : ServerClientDB m} {phase : Nat → Phase} {i : Nat}
    (hi : RegistryInv v sha256 db phase) {c : ServerClient} (hc : (phase i).client = some c) :
    ∀ j, j ≠ i → (phase j).client ≠ some c :=
  fun j hj hjc => hj (hi.distinct j i c hjc hc)

theorem RegistryInv.quiet {db db' : ServerClientDB m} {phase : Nat → Phase} {i : Nat} {p' : Phase}
    (hi : RegistryInv v sha256 db phase) (hentry : ∀ c, ServerClientDB.SameEntry v db db' c)
    (hid : db.nextId ≤ db'.nextId) (hclient : p'.client = (phase i).client)
    (hholds : ∀ c, p'.Holds c ↔ (phase i).Holds c) :
    RegistryInv v sha256 db' (Function.update phase i p') := by
  refine hi.update (ServerClientDB.SameEntry.consistent hi.consistent hentry) hid ?_
    (fun j c _ _ => (hentry c).mem) ?_
  · intro c hmem
    exact Nat.lt_of_lt_of_le (hi.client_id_lt c ((hentry c).mem.mp hmem)) hid
  · intro c hc
    rw [hclient] at hc
    refine ⟨?_, Nat.lt_of_lt_of_le (hi.id_lt i c hc) hid, hi.client_ne hc⟩
    rw [(hentry c).mem, hholds]
    exact hi.place i c hc

theorem RegistryInv.register {db db' : ServerClientDB m} {phase : Nat → Phase} {c₀ : ServerClient}
    (hi : RegistryInv v sha256 db phase) (h : ServerClientDB.Registered v sha256 db db' c₀) (i : Nat) :
    RegistryInv v sha256 db' (Function.update phase i (.registered c₀)) := by
  have hnew : ∀ c, c.id < db.nextId → c ≠ c₀ := by
    rintro c hlt rfl
    exact absurd h.id_ge (Nat.not_le_of_lt hlt)
  have hid : db.nextId ≤ db'.nextId := Nat.le_of_lt (Nat.lt_of_le_of_lt h.id_ge h.id_lt)
  refine hi.update (h.consistent hi.consistent) hid ?_ ?_ ?_
  · intro c hmem
    rw [h.clients] at hmem
    rcases hmem with rfl | hmem
    · exact h.id_lt
    · exact Nat.lt_of_lt_of_le (hi.client_id_lt c hmem) hid
  · intro j c _ hclient
    rw [h.clients, Set.mem_insert_iff]
    exact or_iff_right (hnew c (hi.id_lt j c hclient))
  · intro c hc
    obtain rfl : c₀ = c := Option.some.inj hc
    refine ⟨?_, h.id_lt, ?_⟩
    · rw [h.clients]
      exact iff_of_true (Set.mem_insert ..) rfl
    · intro j _ hclient
      exact hnew c₀ (hi.id_lt j c₀ hclient) rfl

theorem RegistryInv.subscribed {db db' : ServerClientDB m} {phase : Nat → Phase} {i : Nat}
    {c₀ : ServerClient} (hi : RegistryInv v sha256 db phase)
    (h : ServerClientDB.SubscribedOnly v db db' c₀) (hp : phase i = .serving c₀) :
    RegistryInv v sha256 db' (Function.update phase i (.serving c₀)) := by
  refine hi.update (h.consistent hi.consistent) (Nat.le_of_eq h.nextId.symm) ?_ ?_ ?_
  · intro c hmem
    rw [h.nextId]
    exact hi.client_id_lt c (h.clients ▸ hmem)
  · intro j c _ _
    rw [h.clients]
  · intro c hc
    rw [← hp] at hc ⊢
    rw [h.clients, h.nextId]
    exact ⟨hi.place i c hc, hi.id_lt i c hc, hi.client_ne hc⟩

include hl in
theorem RegistryInv.unregister {db : ServerClientDB m} {phase : Nat → Phase} {i : Nat}
    {c₀ : ServerClient} (hi : RegistryInv v sha256 db phase) (hp : phase i = .serving c₀) :
    RegistryInv v sha256 (db.unregisterClient c₀) (Function.update phase i (.released c₀)) := by
  have hclient₀ : (phase i).client = some c₀ := hp ▸ rfl
  have hc₀ : c₀ ∈ db.clients v := (hi.place i c₀ hclient₀).mpr (hp ▸ rfl)
  refine hi.update (ServerClientDB.unregister_consistent hl hi.consistent hc₀) (Nat.le_refl _)
    ?_ ?_ ?_
  · intro c hmem
    exact hi.client_id_lt c ((ServerClientDB.mem_clients_unregister hl).mp hmem).1
  · intro j c hj hclient
    rw [ServerClientDB.mem_clients_unregister hl, and_iff_left_iff_imp]
    intro hmem
    refine ServerClientDB.digest_ne_of_mem hl hc₀ hmem ?_
    rintro rfl
    exact hi.client_ne hclient₀ j hj hclient
  · intro c hc
    obtain rfl : c₀ = c := Option.some.inj hc
    refine ⟨?_, hi.id_lt i c₀ hclient₀, hi.client_ne hclient₀⟩
    rw [ServerClientDB.mem_clients_unregister hl]
    exact iff_of_false (fun hmem => hmem.2 rfl) id

include hl in
theorem RegistryInv.step {db db' : ServerClientDB m} {phase : Nat → Phase} {i : Nat} {p' : Phase}
    (hi : RegistryInv v sha256 db phase) (hs : RegistryStep v sha256 db db' (phase i) p') :
    RegistryInv v sha256 db' (Function.update phase i p') := by
  generalize hp : phase i = p at hs
  cases hs with
  | quiet hentry hid hclient hholds =>
    rw [← hp] at hclient hholds
    exact hi.quiet hentry hid hclient hholds
  | register h => exact hi.register h i
  | subscribed h => exact hi.subscribed h hp
  | unregister c => exact hi.unregister hl hp

def phases (trace : List (ServerEntry m)) (i : Nat) : Phase := phaseOf (System.history trace i)

theorem phases_append (trace : List (ServerEntry m)) (i : Nat) (st : ServerState m)
    (e : ServerEvent) :
    phases (trace ++ [⟨i, st, e⟩]) =
      Function.update (phases trace) i ((phases trace i).next e.op e.resp) := by
  funext j
  unfold phases
  by_cases hj : j = i
  · subst hj
    rw [System.history_append_self, phaseOf_snoc, Function.update_self]
  · rw [System.history_append_of_ne _ (Ne.symm hj), Function.update_of_ne hj]

theorem accepts_phases {cfg : Config} {crypto : Crypto} {s : Server m}
    (hr : ServerReachable cfg crypto sha256 s) {i : Nat} {peer : Peer}
    {p : ServerProg Error Bool} (hp : s.processes i = some ⟨peer, p⟩) :
    phaseMonitor.Accepts .fresh (System.history s.trace i) ∧ KeepsPhases p (phases s.trace i) :=
  System.accepts_history (keepsPhases_handler peer) hr hp (phaseMonitor_admits _ _)

include hl in
theorem registryStep_of_act {cfg : Config} {crypto : Crypto} {s : Server m}
    (hr : ServerReachable cfg crypto sha256 s) {i : Nat} {peer : Peer} {o : ServerOp}
    {f : o.Resp → ServerProg Error Bool} (hp : s.processes i = some ⟨peer, .call o f⟩)
    {r : o.Resp} {st : ServerState m}
    (he : ServerState.Exec cfg crypto sha256 s.world o r st) :
    RegistryStep v sha256 s.world.db st.db (phases s.trace i) ((phases s.trace i).next o r) := by
  have hkeeps := (accepts_phases hr hp).2
  exact registryStep_of_exec hl hkeeps.1 he

include hl in
theorem registryInv_of_reachable {cfg : Config} {crypto : Crypto} {s : Server m}
    (hr : ServerReachable cfg crypto sha256 s) :
    RegistryInv v sha256 s.world.db (phases s.trace) := by
  induction hr with
  | init h =>
    rw [h]
    refine ⟨ServerClientDB.consistent_new hl, ?_, ?_, ?_, ?_⟩
    · intro i c hc
      cases hc
    · intro c hmem
      have hnew : c ∈ v.clients m.new := hmem
      rw [hl.clients_new] at hnew
      exact hnew.elim
    · intro i c hc
      cases hc
    · intro i j c hc
      cases hc
  | step hr hs ih =>
    cases hs with
    | spawn i peer hnone => exact ih
    | env w h =>
      rw [h]
      exact ih
    | act i peer o f r w hp he =>
      rw [phases_append]
      exact ih.step hl (registryStep_of_act hl hr hp he)

include hl in
theorem mem_clients_of_serving {cfg : Config} {crypto : Crypto} {s : Server m}
    (hr : ServerReachable cfg crypto sha256 s) {i : Nat} {peer : Peer} {o : ServerOp}
    {f : o.Resp → ServerProg Error Bool} (hp : s.processes i = some ⟨peer, .call o f⟩)
    {client : ServerClient} (ho : clientOf o = some client) : client ∈ s.world.db.clients v := by
  have hphase : phases s.trace i = .serving client :=
    serving_of_allowed (accepts_phases hr hp).2.1 ho
  apply ((registryInv_of_reachable hl hr).place i client ?_).mpr
  · rw [hphase]
    exact rfl
  · rw [hphase]
    rfl

def Returned (p : ServerProg Error Bool) : Prop := (∃ a, p = .ret a) ∨ ∃ e, p = .throw e

def Gone (v : m.View) (db : ServerClientDB m) (c : ServerClient) : Prop :=
  c ∉ v.clients db.submap ∧ ∀ token, db.clientsByToken token ≠ some c

include hl in
theorem gone_iff {cfg : Config} {crypto : Crypto} {s : Server m}
    (hr : ServerReachable cfg crypto sha256 s) {i : Nat} {c : ServerClient}
    (hc : (phases s.trace i).client = some c) :
    Gone v s.world.db c ↔ ¬ (phases s.trace i).Holds c := by
  have hinv := registryInv_of_reachable hl hr
  rw [← hinv.place i c hc]
  constructor
  · intro h
    exact h.1
  · intro hnot
    exact ⟨hnot, fun token hstored => hnot (hinv.consistent.known token c hstored).1⟩

include hl in
/-- In every run: a returned handler has left its client in the registry exactly when the write of
the token failed, and a step of another handler never touches the entries of a client. -/
theorem no_client_leaks_iff {cfg : Config} {crypto : Crypto} {s : Server m}
    (hr : ServerReachable cfg crypto sha256 s) :
    (∀ i peer rest login addr c, s.processes i = some ⟨peer, rest⟩ → Returned rest →
      ⟨.registerClient login addr, .ok c⟩ ∈ System.history s.trace i →
      (Gone v s.world.db c ↔ ¬ TokenLost (System.history s.trace i) c)) ∧
    (∀ s', ServerStep cfg crypto sha256 s s' → ∀ c ∈ v.clients s.world.db.submap,
      (∀ i st e, s'.trace = s.trace ++ [⟨i, st, e⟩] → ∀ login addr,
        ⟨.registerClient login addr, .ok c⟩ ∉ System.history s.trace i) →
      ServerClientDB.SameEntry v s.world.db s'.world.db c) := by
  constructor
  · intro i peer rest login addr c hp hreturned hmem
    obtain ⟨haccepts, hkeeps⟩ := accepts_phases hr hp
    have hclient := client_phaseOf_of_mem haccepts hmem
    have hleft : (phases s.trace i).Left := by
      rcases hreturned with ⟨a, rfl⟩ | ⟨e, rfl⟩
      · exact hkeeps
      · exact hkeeps
    rw [gone_iff hl hr hclient, ← tokenLost_iff haccepts]
    unfold phases at hleft ⊢
    cases hphase : phaseOf (System.history s.trace i) with
    | fresh =>
      rw [hphase] at hclient
      cases hclient
    | registered c' =>
      rw [hphase] at hleft
      exact hleft.elim
    | serving c' =>
      rw [hphase] at hleft
      exact hleft.elim
    | released c' => exact iff_of_true id Phase.noConfusion
    | tokenLost c' =>
      rw [hphase] at hclient
      obtain rfl := Option.some.inj hclient
      exact iff_of_false (fun h => h rfl) (fun h => h rfl)
  · intro s' hs c hmem hother
    cases hs with
    | spawn i peer hnone => exact ServerClientDB.SameEntry.refl _ c
    | env w h =>
      rw [h]
      exact ServerClientDB.SameEntry.refl _ c
    | act i peer o f r w hp he =>
      refine sameEntry_of_registryStep hl (registryInv_of_reachable hl hr)
        (registryStep_of_act hl hr hp he) hmem ?_
      -- the handler that holds the client is the one that registered it
      intro hholds
      obtain ⟨login, addr, hreg⟩ := mem_of_client_phaseOf (Phase.client_of_holds hholds)
      exact hother i _ _ rfl login addr hreg

end

def lostClient : ServerClient where
  id := 0
  login := []
  addr := []
  token := Token.replicate 7
  digest := List.replicate 32 7

def lostHistory (e : Error) : List ServerEvent :=
  [⟨.read 3, .ok [0xEE, 0xAA, 0]⟩, ⟨.write [0xEE, 0xAA, 1, 0], .ok ()⟩] ++
    ([⟨.read 4, .ok [0, 0, 0, 0]⟩, ⟨.read 0, .ok []⟩] ++
      [⟨.registerClient [] [], .ok lostClient⟩, ⟨.write lostClient.token.bytes, .error e⟩])

theorem run_lostHistory (e : Error) :
    Prog.Run (handleUnixStream sampleConfig [] 0) (lostHistory e) (.throw e) := by
  have hinit : Prog.Run initUnixStream
      [⟨.read 3, .ok [0xEE, 0xAA, 0]⟩, ⟨.write [0xEE, 0xAA, 1, 0], .ok ()⟩] (.ret .control) := by
    unfold initUnixStream
    exact Prog.Run.call _ (Prog.Run.call _ (.nil _))
  have hframe : Prog.Run (readFrame (some maxAuthFrameSize))
      [⟨.read 4, .ok [0, 0, 0, 0]⟩, ⟨.read 0, .ok []⟩] (.ret []) := by
    unfold readFrame readFrameWith
    exact Prog.Run.call _ (Prog.Run.call _ (.nil _))
  have hserve : Prog.Run (serveClient sampleConfig Acl.newFull [] [] 0)
      [⟨.registerClient [] [], .ok lostClient⟩, ⟨.write lostClient.token.bytes, .error e⟩]
      (.throw e) := by
    unfold serveClient
    exact Prog.Run.call _ (Prog.Run.call _ (.nil _))
  have hlogin : strFromUtf8 (splitFirst 0 []).1 = .ok [] := strFromUtf8_utf8 []
  unfold handleUnixStream lostHistory
  refine hinit.bind (hframe.bind ?_)
  rw [hlogin]
  exact hserve

def emptyServer : ServerState listMap where
  db := ServerClientDB.new listMap
  acls := fun _ => none
  passwords := none
  keys := none

def lostServer : ServerState listMap :=
  { emptyServer with
    db :=
      { submap := (listMap.registerClient listMap.new lostClient).1
        clientsByToken := Function.update (fun _ => none) lostClient.token (some lostClient)
        nextId := 1 } }

theorem execs_lostHistory (e : Error) :
    System.Execs (ServerState.Exec sampleConfig sampleCrypto Token.bytes) emptyServer
      (lostHistory e) lostServer := by
  have hread : ∀ (n : Nat) (buf : Bytes), buf.length = n →
      ServerState.Exec sampleConfig sampleCrypto Token.bytes emptyServer (.read n) (.ok buf)
        emptyServer := by
    rintro n buf hlen
    refine ⟨rfl, fun b hb => ?_⟩
    rw [← Except.ok.inj hb, hlen]
  have hregister : ServerState.Exec sampleConfig sampleCrypto Token.bytes emptyServer
      (.registerClient [] []) (.ok lostClient) lostServer := ⟨[.ok lostClient.token], _, rfl, rfl⟩
  refine .cons (hread 3 _ rfl) (.cons rfl (.cons (hread 4 _ rfl) (.cons (hread 0 _ rfl) ?_)))
  exact .cons hregister (.cons rfl (.nil _))

theorem reachable_lostHistory (e : Error) :
    ∃ s : Server listMap, ServerReachable sampleConfig sampleCrypto Token.bytes s ∧
      s.processes 0 = some ⟨.unix [] 0, .throw e⟩ ∧ s.world = lostServer ∧
      System.history s.trace 0 = lostHistory e := by
  have hinit : ServerReachable sampleConfig sampleCrypto Token.bytes
      ⟨emptyServer, fun _ => none, []⟩ := .init rfl
  have hspawn := System.Reachable.step hinit (.spawn 0 (.unix [] 0) rfl)
  obtain ⟨s, hr, hp, hw, hh, _⟩ := System.reachable_run (run_lostHistory e) (execs_lostHistory e)
    hspawn (Function.update_self ..)
  exact ⟨s, hr, hp, hw, hh⟩

theorem no_client_leaks_sample :
    ∃ s : Server listMap, ServerReachable sampleConfig sampleCrypto Token.bytes s ∧
      (Gone listMapView s.world.db lostClient ↔
        ¬ TokenLost (System.history s.trace 0) lostClient) ∧
      ServerClientDB.SameEntry listMapView s.world.db s.world.db lostClient := by
  obtain ⟨s, hr, hp, hw, hh⟩ := reachable_lostHistory (.io "broken pipe")
  obtain ⟨hgone, hframe⟩ := no_client_leaks_iff listMap_laws.toRegistryLaws hr
  have hmem : lostClient ∈ listMapView.clients s.world.db.submap := by
    rw [hw]
    exact ⟨[], List.mem_singleton_self _⟩
  have hregistered : ⟨.registerClient [] [], .ok lostClient⟩ ∈ System.history s.trace 0 := by
    rw [hh]
    exact List.mem_of_getElem? (i := 4) rfl
  refine ⟨s, hr, hgone 0 _ _ [] [] lostClient hp (.inr ⟨_, rfl⟩) hregistered, ?_⟩
  refine hframe { s with world := s.world } (.env s.world rfl) lostClient hmem ?_
  intro i st e htrace
  have hlength := congrArg List.length htrace
  simp at hlength

/-- The write of the token fails: the handler returns its error, and the client stays. -/
theorem client_leaks_token_lost :
    ∃ s : Server listMap, ServerReachable sampleConfig sampleCrypto Token.bytes s ∧
      s.processes 0 = some ⟨.unix [] 0, .throw (.io "broken pipe")⟩ ∧
      ⟨.registerClient [] [], .ok lostClient⟩ ∈ System.history s.trace 0 ∧
      ¬ Gone listMapView s.world.db lostClient := by
  obtain ⟨s, hr, hp, hw, hh⟩ := reachable_lostHistory (.io "broken pipe")
  refine ⟨s, hr, hp, ?_, ?_⟩
  · rw [hh]
    exact List.mem_of_getElem? (i := 4) rfl
  · intro hgone
    rw [hw] at hgone
    have hstored : lostServer.db.clientsByToken lostClient.token = some lostClient := rfl
    exact hgone.2 lostClient.token hstored

end Psrt

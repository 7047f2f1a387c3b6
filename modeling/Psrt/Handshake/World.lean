import Psrt.Handshake.Exchange

/-! What the handlers of all connections share, and who holds the clients of the registry. -/

namespace Psrt
open Wire Interaction

/-- The shared state of the server, with the data-channel cell of every client. -/
structure World (m : SubMap) where
  server : ServerState m
  dataChannel : ServerClient → Option ChannelId
  nextChannel : ChannelId

namespace World

variable {m : SubMap}

def Cells (dataChannel dataChannel' : ServerClient → Option ChannelId) :
    (o : ServerOp) → o.Resp → Prop
  | .registerClient _ _, .ok client => dataChannel' = Function.update dataChannel client none
  | .pushToSubscribers .., _ => ∀ c, dataChannel' c = dataChannel c ∨ dataChannel' c = none
  | _, _ => dataChannel' = dataChannel

def Exec (cfg : Config) (crypto : Crypto) (sha256 : Token → Digest) (w : World m) :
    (o : HandlerOp) → o.Resp → World m → Prop
  | .server o, r, w' => ServerState.Exec cfg crypto sha256 w.server o r w'.server ∧
      Cells w.dataChannel w'.dataChannel o r ∧ w'.nextChannel = w.nextChannel
  | .newChannel, r, w' => r = w.nextChannel ∧ w' = { w with nextChannel := w.nextChannel + 1 }
  | .registerDataChannel token channel, r, w' =>
      r = (registerDataChannel w.server.db.clientsByToken w.dataChannel token channel).1 ∧
        w' = { w with
          dataChannel :=
            (registerDataChannel w.server.db.clientsByToken w.dataChannel token channel).2 }
  | .spawnPinger _ _, _, w' => w' = w
  | .spawnDataStream _ _ _, _, w' => w' = w
  | .registerTask _ _, _, w' => w' = w

/-- What happens besides the handlers: a database is reloaded, or the task of a data stream ends. -/
inductive Env : World m → World m → Prop
  | reload {w : World m} (server : ServerState m) (h : Reloads w.server server) :
      Env w { w with server }
  | taskEnds {w : World m} (token : Token) :
      Env w { w with
        dataChannel := unregisterDataChannel w.server.db.clientsByToken w.dataChannel token }

def Starts (w : World m) : Prop := w.server.Starts ∧ w.dataChannel = fun _ => none

theorem Env.db_eq {w w' : World m} (h : Env w w') : w'.server.db = w.server.db := by
  cases h with
  | reload server h => exact h
  | taskEnds token => rfl

end World

theorem handlerExact_of_exec {m : SubMap} {cfg : Config} {crypto : Crypto} {sha256 : Token → Digest}
    {w w' : World m} {o : HandlerOp} {r : o.Resp} (h : World.Exec cfg crypto sha256 w o r w') :
    HandlerExact o r := by
  cases o with
  | server o =>
    cases o with
    | read n => exact h.1.2
    | _ => trivial
  | _ => trivial

theorem ServerClientDB.login_of_registerClient {m : SubMap} {sha256 : Token → Digest}
    {login addr : Str} {draws : List (Except Error Token)} {db db' : ServerClientDB m}
    {client : ServerClient}
    (h : db.registerClient sha256 login addr draws = some (.ok client, db')) :
    client.login = login ∧ client.addr = addr := by
  induction draws generalizing db with
  | nil => cases h
  | cons draw draws ih =>
    cases draw with
    | error e => cases h
    | ok token =>
      unfold registerClient at h
      dsimp only at h
      split_ifs at h
      · have hclient := congrArg Prod.fst (Option.some.inj h)
        rw [← Except.ok.inj hclient]
        exact ⟨rfl, rfl⟩
      · exact ih h

theorem stored_of_channelsOf {m : SubMap} {cfg : Config} {crypto : Crypto} {sha256 : Token → Digest}
    {w w' : World m} {e : HandlerEvent} {token : Token} {client : ServerClient}
    (hmem : (token, client) ∈ [e].flatMap channelsOf)
    (h : World.Exec cfg crypto sha256 w e.op e.resp w') :
    w.server.db.clientsByToken token = some client := by
  obtain ⟨o, r⟩ := e
  rw [List.flatMap_singleton] at hmem
  cases o with
  | registerDataChannel token' channel =>
    cases r with
    | error e => cases hmem
    | ok c =>
      cases List.mem_singleton.mp hmem
      exact (registerDataChannel_ok h.1.symm).1
  | _ => cases hmem

def connectionPhases : Monitor HandlerOp HandlerOp.Resp Phase where
  allowed
    | p, .server o => p.Allowed o
    | _, _ => True
  possible _ _ _ := True
  next
    | p, .server o, r => p.next o r
    | p, _, _ => p

def connectionPhase (h : List HandlerEvent) : Phase := connectionPhases.after .fresh h

def LaunchOp : HandlerOp → Prop
  | .server (.read _) => True
  | .server (.write _) => True
  | .server _ => False
  | _ => True

theorem calls_launchDataStream : launchDataStream.Calls LaunchOp := by
  have hread : ∀ n, ((readExact n).rename asHandler).Calls LaunchOp := by
    intro n
    refine ⟨trivial, fun r => ?_⟩
    cases r with
    | ok b => trivial
    | error e => trivial
  have hwrite : ∀ buf, ((writeAll buf).rename asHandler).Calls LaunchOp := by
    intro buf
    refine ⟨trivial, fun r => ?_⟩
    cases r with
    | ok b => trivial
    | error e => trivial
  refine (hread 32).bind fun buf => (hread 1).bind fun timeout => ⟨trivial, fun channel =>
    ⟨trivial, fun r => ?_⟩⟩
  cases r with
  | error e => exact (hwrite _).bind fun _ => trivial
  | ok client =>
    exact (hwrite _).bind fun _ => ⟨trivial, fun _ => ⟨trivial, fun _ => ⟨trivial, fun _ =>
      ⟨trivial, fun _ => trivial⟩⟩⟩⟩

theorem wp_carryOut {p : Phase} {o : ServerOp} (h : p.Allowed o) {E : Error → Phase → Prop} :
    connectionPhases.wp (carryOut o) (fun r p' => True ∧ p' = p.next o r) E p := by
  cases o with
  | launchDataStream =>
    have hphase : (∃ c, p = .serving c) ∨ p = .fresh := by
      cases p with
      | fresh => exact .inr rfl
      | serving c => exact .inl ⟨c, rfl⟩
      | registered c => cases h
      | released c => cases h
      | tokenLost c => exact h.elim
    have hsame : ∀ {o : HandlerOp} (r : o.Resp), LaunchOp o → connectionPhases.next p o r = p := by
      intro o r ho
      cases o with
      | server o =>
        rcases hphase with ⟨c, rfl⟩ | rfl
        · cases o with
          | read n => rfl
          | write buf => rfl
          | _ => exact ho.elim
        · cases o with
          | read n => rfl
          | write buf => rfl
          | _ => exact ho.elim
      | _ => rfl
    have hallowed : ∀ o, LaunchOp o → connectionPhases.allowed p o := by
      intro o ho
      cases o with
      | server o =>
        rcases hphase with ⟨c, rfl⟩ | rfl
        · cases o with
          | read n => trivial
          | write buf => trivial
          | _ => exact ho.elim
        · cases o with
          | read n => trivial
          | write buf => trivial
          | _ => exact ho.elim
      | _ => trivial
    have hnext : ∀ r, p.next .launchDataStream r = p := by
      intro r
      rcases hphase with ⟨c, rfl⟩ | rfl
      · rfl
      · rfl
    rw [carryOut, Monitor.wp_attempt]
    refine Monitor.wp_mono (fun _ p' hp' => ⟨trivial, hp'.trans (hnext _).symm⟩)
      (fun _ p' hp' => ⟨trivial, hp'.trans (hnext _).symm⟩)
      (Monitor.wp_of_calls (I := fun p' => p' = p) ?_ ?_ calls_launchDataStream rfl)
    · rintro p' o r rfl ho _
      exact hsame r ho
    · rintro p' o rfl ho
      exact hallowed o ho
  | _ => exact ⟨h, fun _ _ => ⟨trivial, rfl⟩⟩

theorem wp_connectionPhases (cfg : Config) (peer : Peer) : connectionPhases.wp (peer.connection cfg)
    (fun _ p => p.Left) (fun _ p => p.Left) .fresh :=
  Monitor.wp_interpret (fun _ _ h => wp_carryOut h) (keepsPhases_handler peer)

theorem connectionPhase_eq (h : List HandlerEvent) :
    connectionPhase h = phaseOf (h.flatMap serverEventsOf) := by
  unfold connectionPhase phaseOf
  generalize Phase.fresh = p
  induction h generalizing p with
  | nil => rfl
  | cons e h ih =>
    obtain ⟨o, r⟩ := e
    rw [List.flatMap_cons, Monitor.after_append, Monitor.after, ih]
    cases o with
    | server o => rfl
    | _ => rfl

theorem accepts_serverEvents {h : List HandlerEvent} {p : Phase}
    (ha : connectionPhases.Accepts p h) : phaseMonitor.Accepts p (h.flatMap serverEventsOf) := by
  induction h generalizing p with
  | nil => trivial
  | cons e h ih =>
    obtain ⟨o, r⟩ := e
    rw [List.flatMap_cons, Monitor.accepts_append]
    cases o with
    | server o => exact ⟨⟨ha.1, trivial⟩, ih ha.2⟩
    | _ => exact ⟨trivial, ih ha.2⟩

theorem mem_serverEvents {h : List HandlerEvent} {login : Str} {client : ServerClient}
    (hmem : (login, client) ∈ h.flatMap clientsOf) :
    ∃ addr, ⟨.registerClient login addr, .ok client⟩ ∈ h.flatMap serverEventsOf := by
  obtain ⟨⟨o, r⟩, he, hclient⟩ := List.mem_flatMap.mp hmem
  cases o with
  | server o =>
    cases o with
    | registerClient login' addr =>
      cases r with
      | error e => cases hclient
      | ok c =>
        cases List.mem_singleton.mp hclient
        exact ⟨addr, List.mem_flatMap.mpr ⟨_, he, List.mem_singleton_self _⟩⟩
    | _ => cases hclient
  | _ => cases hclient

theorem holds_of_next {p : Phase} {o : HandlerOp} {r : o.Resp} {c : ServerClient}
    (h : (connectionPhases.next p o r).Holds c) : p.Holds c ∨ p = .fresh := by
  cases o with
  | server o =>
    cases p with
    | fresh => exact .inr rfl
    | registered c' =>
      have hclient := Phase.client_of_holds h
      rw [show connectionPhases.next (.registered c') (.server o) r =
        Phase.next (.registered c') o r from rfl, client_next rfl] at hclient
      exact .inl (Option.some.inj hclient)
    | serving c' =>
      have hclient := Phase.client_of_holds h
      rw [show connectionPhases.next (.serving c') (.server o) r =
        Phase.next (.serving c') o r from rfl, client_next rfl] at hclient
      exact .inl (Option.some.inj hclient)
    | released c' => exact h.elim
    | tokenLost c' => exact .inl h
  | _ => exact .inl h

section
variable {m : SubMap} {v : m.View} {sha256 : Token → Digest} (hl : m.RegistryLaws v)
include hl

theorem registryStep_of_connection {cfg : Config} {crypto : Crypto} {w w' : World m} {p : Phase}
    {o : HandlerOp} {r : o.Resp} (ha : connectionPhases.allowed p o)
    (he : World.Exec cfg crypto sha256 w o r w') :
    RegistryStep v sha256 w.server.db w'.server.db p (connectionPhases.next p o r) := by
  have hsame : w'.server = w.server →
      RegistryStep v sha256 w.server.db w'.server.db p p := fun h =>
    registryStep_of_same (congrArg ServerState.db h) rfl fun _ => Iff.rfl
  cases o with
  | server o => exact registryStep_of_exec hl ha he.1
  | newChannel =>
    refine hsame ?_
    rw [he.2]
  | registerDataChannel token channel =>
    refine hsame ?_
    rw [he.2]
  | spawnPinger channel beaconFreq => exact hsame (congrArg World.server he)
  | spawnDataStream token channel beaconFreq => exact hsame (congrArg World.server he)
  | registerTask client task => exact hsame (congrArg World.server he)

theorem registryInv_new : RegistryInv v sha256 (ServerClientDB.new m) fun _ => .fresh := by
  refine ⟨ServerClientDB.consistent_new hl, nofun, ?_, nofun, nofun⟩
  intro c hmem
  have hnew : c ∈ v.clients m.new := hmem
  rw [hl.clients_new] at hnew
  exact hnew.elim

end

end Psrt

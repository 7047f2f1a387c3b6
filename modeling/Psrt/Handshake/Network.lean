import Psrt.Handshake.Client
import Psrt.Handshake.World

/-! The clients that connect to a server and the handlers of their connections, joined by the streams of
each connection. Handlers whose peer is none of these clients read what they will. -/

namespace Psrt.Handshake
open Wire Interaction

/-- A client: its configuration, and what it does once it is connected. The tasks of a client leave a
stream alone that broke, and write nothing to the data stream. -/
structure Party where
  config : Client.Config
  turns : Nat
  session : Client.Connected → Client.ConnectProg Unit
  careful : ∀ c link, (Client.port link).Careful (session c)
  reads : ∀ c, (session c).Calls fun o => (Client.port .data).offer o = []

def Party.body (p : Party) : Client.ConnectProg Unit :=
  (Client.connect p.config p.turns).bind p.session

def IsStream : Peer → Prop
  | .udp _ => False
  | _ => True

/-- The clients, the peer of each handler, and the handler that accepted each connection. -/
structure Site where
  parties : Nat → Party
  peers : Nat → Peer
  accept : Nat → Client.Link → Nat
  accept_inj : ∀ n l n' l', accept n l = accept n' l' → n = n' ∧ l = l'
  stream : ∀ n l, IsStream (peers (accept n l))

inductive Id where
  | client (n : Nat)
  | handler (k : Nat)
  deriving DecidableEq

inductive Dir where
  | request | answer
  deriving DecidableEq

structure Line where
  client : Nat
  link : Client.Link
  dir : Dir
  deriving DecidableEq

variable {m : SubMap}

abbrev node (cfg : Config) (crypto : Crypto) (sha256 : Token → Digest) (site : Site) :
    Id → Node UInt8 Line (World m)
  | .client n =>
    { Op := Client.ConnectOp
      Resp := Client.ConnectOp.Resp
      Err := Error
      Val := Unit
      body := (site.parties n).body
      port := fun d => Client.port d.link
      Exec := fun w o r w' => w' = w ∧ Client.Exact o r }
  | .handler k =>
    { Op := HandlerOp
      Resp := HandlerOp.Resp
      Err := Error
      Val := Bool
      body := (site.peers k).connection cfg
      port := fun _ => handlerPort
      Exec := World.Exec cfg crypto sha256 }

def Site.handler (site : Site) (n : Nat) (l : Client.Link) : Id := .handler (site.accept n l)

def wiring (site : Site) : Wiring Line Id where
  src
    | ⟨n, _, .request⟩ => .client n
    | ⟨n, l, .answer⟩ => .handler (site.accept n l)
  dst
    | ⟨n, l, .request⟩ => .handler (site.accept n l)
    | ⟨n, _, .answer⟩ => .client n
  ne
    | ⟨_, _, .request⟩ => nofun
    | ⟨_, _, .answer⟩ => nofun

abbrev Network (m : SubMap) (cfg : Config) (crypto : Crypto) (sha256 : Token → Digest)
    (site : Site) := Net (node (m := m) cfg crypto sha256 site)

abbrev Reachable {cfg : Config} {crypto : Crypto} {sha256 : Token → Digest} {site : Site} :
    Network m cfg crypto sha256 site → Prop :=
  Net.Reachable (wiring site) World.Env World.Starts

section
variable {cfg : Config} {crypto : Crypto} {sha256 : Token → Digest} {site : Site}

theorem Site.streams (site : Site) (cfg : Config) (n : Nat) (l : Client.Link) :
    ∃ init control, Streams cfg (site.peers (site.accept n l)) init control := by
  have hstream := site.stream n l
  cases hpeer : site.peers (site.accept n l) with
  | tcp addr tlsConfigured allowNoTls turns => exact ⟨_, _, .tcp ..⟩
  | unix path turns => exact ⟨_, _, .unix ..⟩
  | udp frame =>
    rw [hpeer] at hstream
    exact hstream.elim

theorem Party.careful_body (p : Party) (link : Client.Link) : (Client.port link).Careful p.body :=
  Port.Careful.bind (Client.stopsOn_connect link p.config p.turns) fun c => p.careful c link

theorem failStop : Net.FailStop (node (m := m) cfg crypto sha256 site) (wiring site) where
  src
    | ⟨n, l, .request⟩ => (site.parties n).careful_body l
    | ⟨n, l, .answer⟩ => by
      obtain ⟨_, _, hs⟩ := site.streams cfg n l
      exact hs.careful
  dst
    | ⟨n, l, .request⟩ => by
      obtain ⟨_, _, hs⟩ := site.streams cfg n l
      exact hs.careful
    | ⟨n, l, .answer⟩ => (site.parties n).careful_body l
  nothing
    | ⟨n, l, .request⟩, o, r, h => by
      cases o with
      | server o => exact ProcessControl.take_of_broke o r h
      | _ => exact h.elim
    | ⟨n, l, .answer⟩, o, r, h => by
      cases o with
      | read link n =>
        cases r with
        | ok b => exact h.elim
        | error e => rfl
      | _ => rfl

end

namespace Party

def Given (p : Party) (h : List Client.ConnectEvent) (token : Bytes) : Prop :=
  ∃ h₁ q, h₁ <+: h ∧ Prog.Run (Client.connect p.config p.turns) h₁ q ∧
    token ∈ (Client.trail h₁).tokens

def Connected (p : Party) (h : List Client.ConnectEvent) (c : Client.Connected) : Prop :=
  ∃ h₁, h₁ <+: h ∧ Prog.Run (Client.connect p.config p.turns) h₁ (.ret c)

end Party

section
variable {cfg : Config} {crypto : Crypto} {sha256 : Token → Digest} {site : Site}

def exchanged (s : Network m cfg crypto sha256 site) (k : Nat) : Exchange :=
  exchange (s.history (.handler k))

def Given (s : Network m cfg crypto sha256 site) (n : Nat) (token : Bytes) : Prop :=
  (site.parties n).Given (s.history (.client n)) token

def Connected (s : Network m cfg crypto sha256 site) (n : Nat) (c : Client.Connected) : Prop :=
  (site.parties n).Connected (s.history (.client n)) c

def Registered (s : Network m cfg crypto sha256 site) (k : Nat) (login : Str)
    (client : ServerClient) : Prop := (login, client) ∈ (exchanged s k).clients

def Opened (s : Network m cfg crypto sha256 site) (k : Nat) (token : Token)
    (client : ServerClient) : Prop := (token, client) ∈ (exchanged s k).channels

end

end Psrt.Handshake

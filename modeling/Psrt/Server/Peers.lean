import Psrt.Lib.Concurrent
import Psrt.Server.Calls
import Psrt.Server.State

/-! The server as a whole: its handlers, one for every connection and every datagram, interleaved
over the shared state while the access databases are reloaded. -/

namespace Psrt
open Wire Interaction

inductive Peer where
  | tcp (addr : Str) (tlsConfigured allowNoTls : Bool) (turns : Nat)
  | unix (path : Str) (turns : Nat)
  | udp (frame : Bytes)

def Peer.handler (cfg : Config) : Peer → ServerProg Error Bool
  | .tcp addr tlsConfigured allowNoTls turns =>
    handleTcpStream cfg addr tlsConfigured allowNoTls turns
  | .unix path turns => handleUnixStream cfg path turns
  | .udp frame => (handleUdpDatagram cfg frame).bind fun _ => .ret false

variable {m : SubMap}

/-- `reload` of the access lists, the passwords or the keys. -/
def Reloads (st st' : ServerState m) : Prop := st'.db = st.db

abbrev Server (m : SubMap) :=
  System Nat Peer (ServerState m) ServerOp ServerOp.Resp Error Bool

abbrev ServerEntry (m : SubMap) := Entry Nat (ServerState m) ServerOp ServerOp.Resp

def ServerState.Starts (st : ServerState m) : Prop := st.db = ServerClientDB.new m

abbrev ServerStep (cfg : Config) (crypto : Crypto) (sha256 : Token → Digest) :
    Server m → Server m → Prop :=
  System.Step (Peer.handler cfg) (ServerState.Exec cfg crypto sha256) Reloads

abbrev ServerReachable (cfg : Config) (crypto : Crypto) (sha256 : Token → Digest) :
    Server m → Prop :=
  System.Reachable (Peer.handler cfg) (ServerState.Exec cfg crypto sha256) Reloads
    ServerState.Starts

theorem exec_answer {cfg : Config} {crypto : Crypto} {sha256 : Token → Digest}
    {st : ServerState m} (hkeys : st.keys = none) (now : UInt64) (input : Bytes) (o : ServerOp)
    (ho : DatagramOp o) :
    ServerState.Exec cfg crypto sha256 st o (st.answer crypto now input o).1 st := by
  cases o with
  | authenticate login password => exact ⟨rfl, rfl⟩
  | getAcl login => exact ⟨rfl, rfl⟩
  | authAndDecr block keyId tp =>
    refine ⟨rfl, ?_⟩
    simp only [ServerState.answer, hkeys]
    rfl
  | getSubscribers topic => exact ⟨rfl, rfl⟩
  | nowNs => rfl
  | pushToSubscribers => rfl
  | replicationPush => rfl
  | sendTo buf => rfl
  | _ => exact ho.elim

end Psrt

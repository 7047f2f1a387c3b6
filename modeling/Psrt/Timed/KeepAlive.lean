import Psrt.Client.Connect
import Psrt.Timed.ClientTasks
import Psrt.Timed.DataStream

/-! The streams of a connected client stay alive: neither side keeps silent for longer than the timeout the
client was configured with, up to the delays of its surroundings. -/

namespace Psrt.Timed
open Wire Interaction ClockProg Client

def ofMillis (ms : Nat) : Nat := ms * 1000000

/-- The octet a client reports as its timeout, in seconds. -/
def reportedTimeout (config : Client.Config) : UInt8 := UInt8.ofNat (timeoutSecs config)

def dataBeacon (config : Client.Config) : Nat :=
  ofMillis ((reportedTimeout config).toNat * 1000 / 2)

def controlBeacon (config : Client.Config) : Nat := ofMillis (timeoutSecs config * 1000 / 2)

theorem timeoutSecs_le (config : Client.Config) :
    timeoutSecs config ≤ 255 ∧ timeoutSecs config * 1000000000 ≤ config.timeout := by
  have hdiv := Nat.div_mul_le_self config.timeout 1000000000
  unfold timeoutSecs
  dsimp only
  split_ifs <;> omega

theorem beacon_le (config : Client.Config) :
    dataBeacon config = controlBeacon config ∧ 2 * controlBeacon config ≤ config.timeout := by
  obtain ⟨hoctet, htimeout⟩ := timeoutSecs_le config
  have hreported : (reportedTimeout config).toNat = timeoutSecs config := by
    unfold reportedTimeout
    rw [UInt8.toNat_ofNat', Nat.mod_eq_of_lt (by omega)]
  constructor
  · rw [dataBeacon, hreported, controlBeacon]
  · unfold controlBeacon ofMillis
    omega

def sampleClientConfig : Client.Config where
  path := ['h', ':', '1']
  user := []
  password := []
  timeout := 1000000000
  socketWaitTimeout := 0
  tls := false
  tlsCa := none
  needDataStream := true

def sampleDataHistory : List TimedDataEvent :=
  [⟨.now, (0 : Nat)⟩,
   ⟨.within none .recv, (1, some (messageFrame 5 ['a'] [1, 2] 7))⟩,
   ⟨.now, (1 : Nat)⟩,
   ⟨.within (some 5000000000) (.write (messageFrame 5 ['a'] [1, 2] 7).frame), (0, .ok ())⟩,
   ⟨.now, (1 : Nat)⟩,
   ⟨.within (some 5000000000) (.write [1, 2]), (0, .ok ())⟩,
   ⟨.within none .nowNs, (0, 7)⟩,
   ⟨.within none (.countSentBytes 10 0), (0, ())⟩,
   ⟨.now, (1 : Nat)⟩,
   ⟨.within none .recv, (499999999, some emptyMessage)⟩,
   ⟨.now, (500000000 : Nat)⟩,
   ⟨.within none .recv, (500000000, some emptyMessage)⟩]

def sampleControlHistory : List TimedClientEvent :=
  [⟨.now, (0 : Nat)⟩,
   ⟨.within none .recv, (5, some ⟨.subscribe ['a'], none⟩)⟩,
   ⟨.now, (5 : Nat)⟩,
   ⟨.within (some 1000000000) (.write (ControlCommand.subscribe ['a']).asBytes), (0, .ok ())⟩,
   ⟨.now, (5 : Nat)⟩,
   ⟨.within (some 1000000000) (.read 1), (70, .ok [responseOk])⟩,
   ⟨.within none .recv, (499999925, some ⟨.nop, none⟩)⟩,
   ⟨.now, (500000000 : Nat)⟩,
   ⟨.within none .recv, (500000000, some ⟨.nop, none⟩)⟩]

theorem run_sampleDataHistory : ∃ q, Prog.Run (handleDataStream 50000 5000000000
    (dataBeacon sampleClientConfig) 3) sampleDataHistory q :=
  ⟨_, .call _ (.call _ (.call _ (.call _ (.call _ (.call _ (.call _ (.call _ (.call _ (.call _
    (.call _ (.call _ (.nil _))))))))))))⟩

theorem run_sampleControlHistory : ∃ q, Prog.Run (ControlStream.runControlStream 1000000000
    (controlBeacon sampleClientConfig) 3) sampleControlHistory q :=
  ⟨_, .call _ (.call _ (.call _ (.call _ (.call _ (.call _ (.call _ (.call _ (.call _
    (.nil _)))))))))⟩

end Psrt.Timed

import Psrt.Protocol.Basic

/-! The control commands of the client library: `ControlCommand` of `client.rs` and its octets. -/

namespace Psrt
open Wire

inductive ControlCommand where
  | nop
  | subscribe (topic : Str)
  | subscribeBulk (topics : List Str)
  | unsubscribe (topic : Str)
  | unsubscribeBulk (topics : List Str)
  | publish (priority : UInt8) (topic : Str) (message : Bytes)
  | publishRepl (priority : UInt8) (topic : Str) (message : Bytes) (timestamp : UInt64)
  | bye
  deriving DecidableEq, Repr

def lenU32 (b : Bytes) : UInt32 := UInt32.ofNat b.length

/-- The loop over the topics of a bulk command; the sum wraps around. -/
def topicsLen (topics : List Str) : UInt32 :=
  topics.foldl (fun len t => len + (lenU32 (utf8 t) + 1)) 0

def topicsBody (topics : List Str) : Bytes := topics.flatMap fun t => utf8 t ++ [0]

namespace ControlCommand

def asBytes : ControlCommand → Bytes
  | nop => [opNop]
  | subscribe topic => opSubscribe :: (leBytes 4 (lenU32 (utf8 topic)).toNat ++ utf8 topic)
  | subscribeBulk topics => opSubscribe :: (leBytes 4 (topicsLen topics).toNat ++ topicsBody topics)
  | unsubscribe topic => opUnsubscribe :: (leBytes 4 (lenU32 (utf8 topic)).toNat ++ utf8 topic)
  | unsubscribeBulk topics =>
    opUnsubscribe :: (leBytes 4 (topicsLen topics).toNat ++ topicsBody topics)
  | publish priority topic message =>
    opPublish :: priority ::
      (leBytes 4 (lenU32 (utf8 topic) + 1 + lenU32 message).toNat ++ utf8 topic ++ [0])
  | publishRepl _ topic _ _ =>
    opPublishRepl :: (leBytes 4 (lenU32 (utf8 topic)).toNat ++ utf8 topic)
  | bye => [opBye]

/-- What `run_control_stream` writes next, before it reads a reply: the message of a publish. -/
def trailer : ControlCommand → Bytes
  | publish _ _ message => message
  | _ => []

def stream (cmd : ControlCommand) : Bytes := cmd.asBytes ++ cmd.trailer

end ControlCommand

theorem lenU32_toNat (b : Bytes) : (lenU32 b).toNat = b.length % 2 ^ 32 := UInt32.toNat_ofNat'

theorem topicsLen_toNat (topics : List Str) :
    (topicsLen topics).toNat = (topicsBody topics).length % 2 ^ 32 := by
  have hsum : ∀ len : UInt32, (topics.foldl (fun len t => len + (lenU32 (utf8 t) + 1)) len).toNat =
      (len.toNat + (topicsBody topics).length) % 2 ^ 32 := by
    induction topics with
    | nil =>
      intro len
      exact (Nat.mod_eq_of_lt len.toNat_lt).symm
    | cons t topics ih =>
      intro len
      rw [List.foldl_cons, ih, UInt32.toNat_add, UInt32.toNat_add, lenU32_toNat]
      simp only [topicsBody, List.flatMap_cons, List.length_append, List.length_singleton,
        UInt32.toNat_one]
      omega
  have hzero := hsum 0
  rwa [UInt32.toNat_zero, Nat.zero_add] at hzero

end Psrt

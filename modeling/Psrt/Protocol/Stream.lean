import Psrt.Lib.Interaction
import Psrt.Protocol.Basic

/-! Frames on a stream: `read_frame_with_timeout` of `comm.rs`, over whatever reads the stream. -/

namespace Psrt
open Wire Interaction

variable {Op : Type} {Resp : Op → Type} {α σ : Type}

def readFrameWith (readExact : Nat → Prog Op Resp Error Bytes) (maxLength : Option Nat) :
    Prog Op Resp Error Bytes := do
  let lenBuf ← readExact 4
  let len := leNat lenBuf
  if maxLength.any (len > ·) then .throw (.invalidData s!"Frame too long ({len})")
  else readExact len

def takeBytes (n : Nat) (input : Bytes) : Except Error Bytes × Bytes :=
  if n ≤ input.length then (.ok (input.take n), input.drop n)
  else (.error (.eof "early eof"), input)

theorem takeBytes_append {n : Nat} {b : Bytes} (h : b.length = n) (rest : Bytes) :
    takeBytes n (b ++ rest) = (.ok b, rest) := by
  subst h
  have hle : b.length ≤ (b ++ rest).length := by
    rw [List.length_append]
    exact Nat.le_add_right ..
  unfold takeBytes
  rw [if_pos hle, List.take_left, List.drop_left]

end Psrt

import Psrt.Lib.Wire

/-! The protocol constants, the error type and the message of the client library. -/

namespace Psrt
open Wire

def defaultPriority : UInt8 := 0x7F

def controlHeader : Bytes := [0xEE, 0xAA]
def dataHeader : Bytes := [0xEE, 0xAB]

def protocolVersion : Nat := 1

def opNop : UInt8 := 0x00
def responseOk : UInt8 := 0x01
def responseOkWaiting : UInt8 := 0x02
def responseNotRequired : UInt8 := 0xE0
def responseErr : UInt8 := 0xFF
def responseErrAccess : UInt8 := 0xFE

def opPublish : UInt8 := 0x01
def opPublishRepl : UInt8 := 0x11
def opPublishNoAck : UInt8 := 0x21
def opSubscribe : UInt8 := 0x02
def opUnsubscribe : UInt8 := 0x03
def opBye : UInt8 := 0xFF

def commInsecure : UInt8 := 0x00
def commTls : UInt8 := 0x01

def authLoginPass : UInt8 := 0x00
def authKeyAes128Gcm : UInt8 := 0x02
def authKeyAes256Gcm : UInt8 := 0x03

inductive ErrorKind where
  | accessDenied | invalidData | io | eof | timeout | internal | tryLater
  deriving DecidableEq, Repr

def ErrorKind.display : ErrorKind → String
  | accessDenied => "Access denied"
  | invalidData => "Invalid data"
  | io => "I/O error"
  | eof => "EOF"
  | internal => "Internal error"
  | timeout => "Timeout"
  | tryLater => "Will try later"

structure Error where
  kind : ErrorKind
  message : Option String
  deriving DecidableEq, Repr

def lowerHex (n : Nat) : String := String.ofList (Nat.toDigits 16 n)

namespace Error

def display (e : Error) : String :=
  match e.message with
  | some message => s!"{e.kind.display}: {message}"
  | none => e.kind.display

def access (message : String) : Error := ⟨.accessDenied, some message⟩
def io (message : String) : Error := ⟨.io, some message⟩
def eof (message : String) : Error := ⟨.eof, some message⟩
def invalidData (message : String) : Error := ⟨.invalidData, some message⟩
def internal (message : String) : Error := ⟨.internal, some message⟩
def timedOut (message : String) : Error := ⟨.timeout, some message⟩

/-- What a client makes of a reply code other than `RESPONSE_OK`. -/
def serverResponse (code : UInt8) : Error := io ("Server response error " ++ lowerHex code.toNat)

end Error

def errInvalidDataBlock : String := "Invalid data block"

/-- `str::from_utf8` with the conversion of its error that the `?` operator makes. -/
def strFromUtf8 (b : Bytes) : Except Error Str :=
  match fromUtf8 b with
  | some s => .ok s
  | none => .error (.invalidData "invalid utf-8 sequence")

@[simp] theorem strFromUtf8_utf8 (s : Str) : strFromUtf8 (utf8 s) = .ok s := by
  rw [strFromUtf8, fromUtf8_utf8]

theorem utf8_of_strFromUtf8 {b : Bytes} {s : Str} (h : strFromUtf8 b = .ok s) : utf8 s = b := by
  unfold strFromUtf8 at h
  split at h
  · next t ht =>
    obtain rfl := Except.ok.inj h
    exact utf8_of_fromUtf8 ht
  · cases h

structure Message where
  priority : UInt8
  topic : Str
  data : Bytes
  deriving DecidableEq, Repr

def Message.fromBuf (buf : Bytes) (priority : UInt8) : Except Error Message :=
  match buf.idxOf? 0 with
  | none => .error (.invalidData "Invalid msg frame")
  | some npos =>
    let data := buf.drop (npos + 1)
    let buf := buf.take (npos + 1)
    match strFromUtf8 (buf.take (buf.length - 1)) with
    | .error e => .error e
    | .ok topic => .ok { priority, topic, data }

theorem idxOf?_zero_append {as : Bytes} (h : 0 ∉ as) (bs : Bytes) :
    (as ++ 0 :: bs).idxOf? 0 = some as.length := by
  induction as with
  | nil => rfl
  | cons a as ih =>
    simp only [List.mem_cons, not_or] at h
    rw [List.cons_append, List.idxOf?_cons, ih h.2]
    simp only [beq_iff_eq, Ne.symm h.1, if_false, Option.map_some, List.length_cons]

theorem idxOf?_zero_eq_some {buf : Bytes} {n : Nat} (h : buf.idxOf? 0 = some n) :
    ∃ as bs, 0 ∉ as ∧ buf = as ++ 0 :: bs ∧ n = as.length := by
  induction buf generalizing n with
  | nil => simp only [List.idxOf?_nil, reduceCtorEq] at h
  | cons b buf ih =>
    rw [List.idxOf?_cons] at h
    by_cases hb : b = 0
    · subst hb
      simp only [beq_self_eq_true, if_true, Option.some.injEq] at h
      exact ⟨[], buf, List.not_mem_nil, rfl, h.symm⟩
    · simp only [beq_iff_eq, hb, if_false] at h
      obtain ⟨m, hm, rfl⟩ := Option.map_eq_some_iff.mp h
      obtain ⟨as, bs, h0, rfl, rfl⟩ := ih hm
      exact ⟨b :: as, bs, List.not_mem_cons_of_ne_of_not_mem (Ne.symm hb) h0, rfl, rfl⟩

theorem idxOf?_zero_eq_none {buf : Bytes} (h : 0 ∉ buf) : buf.idxOf? 0 = none :=
  List.idxOf?_eq_none_iff.mpr h

theorem drop_separator (as bs : Bytes) : (as ++ 0 :: bs).drop (as.length + 1) = bs := by
  rw [List.drop_length_add_append]
  rfl

theorem take_separator (as bs : Bytes) :
    ((as ++ 0 :: bs).take (as.length + 1)).take
      (((as ++ 0 :: bs).take (as.length + 1)).length - 1) = as := by
  have htake : (as ++ 0 :: bs).take (as.length + 1) = as ++ [0] := by
    rw [List.take_length_add_append]
    rfl
  rw [htake, List.length_append, List.length_singleton, Nat.add_sub_cancel, List.take_left]

theorem Message.fromBuf_append {topic : Str} (h : 0 ∉ utf8 topic) (data : Bytes)
    (priority : UInt8) :
    Message.fromBuf (utf8 topic ++ 0 :: data) priority = .ok ⟨priority, topic, data⟩ := by
  simp only [Message.fromBuf, idxOf?_zero_append h, drop_separator, take_separator,
    strFromUtf8_utf8]

end Psrt

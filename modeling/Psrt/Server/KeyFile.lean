import Psrt.Server.Registry
import Psrt.Server.Auth

/-! The key file: how `reload` of `keys.rs` fills the key database, and the keys it puts there. -/

namespace Psrt
open Wire

def Token.fromStr (hexDecode : Str → Except Error Bytes) (s : Str) : Except Error Token := do
  let bytes ← hexDecode s
  if h : bytes.length = 32 then .ok ⟨bytes, h⟩
  else .error (.invalidData "could not convert slice to array")

def Key.ofToken (token : Token) : Key where
  cipherAes128 := token.bytes.take 16
  cipherAes256 := token.bytes

structure Key.WellFormed (key : Key) : Prop where
  aes128 : key.cipherAes128.length = 16
  aes256 : key.cipherAes256.length = 32

theorem Key.wellFormed_ofToken (token : Token) : (Key.ofToken token).WellFormed where
  aes128 := by
    rw [ofToken, List.length_take, token.length_eq]
    rfl
  aes256 := token.length_eq

namespace Keys

section
variable (hexDecode : Str → Except Error Bytes) (aclDb : AclDb)

/-- One turn of the loop over the entries: a key that cannot be parsed or has no access list is left
out. -/
def loadEntry (keyMap : Str → Option Key) (entry : Str × Str) : Str → Option Key :=
  match Token.fromStr hexDecode entry.2 with
  | .ok token =>
    if (aclDb entry.1).isSome then
      Function.update keyMap entry.1 (some (Key.ofToken token))
    else keyMap
  | .error _ => keyMap

/-- `reload`: `file` is none when no key file is set, else what reading and parsing it gives. -/
def reload (file : Option (Except Error (List (Str × Str)))) (db : Keys) : Except Error Unit × Keys :=
  match file with
  | none => (.ok (), db)
  | some (.error e) => (.error e, db)
  | some (.ok entries) => (.ok (), some (entries.foldl (loadEntry hexDecode aclDb) fun _ => none))

end

inductive Loaded (hexDecode : Str → Except Error Bytes) : Keys → Prop
  | default : Loaded hexDecode none
  | reload {db : Keys} (aclDb : AclDb) (file : Option (Except Error (List (Str × Str)))) :
    Loaded hexDecode db → Loaded hexDecode (db.reload hexDecode aclDb file).2

def WellFormed (db : Keys) : Prop := ∀ keyId key, db.bind (· keyId) = some key → key.WellFormed

section
variable {hexDecode : Str → Except Error Bytes} {aclDb : AclDb}

theorem wellFormed_loadEntry {keyMap : Str → Option Key} (h : WellFormed (some keyMap))
    (entry : Str × Str) : WellFormed (some (loadEntry hexDecode aclDb keyMap entry)) := by
  unfold loadEntry
  cases Token.fromStr hexDecode entry.2 with
  | error e => exact h
  | ok token =>
    dsimp only
    split_ifs
    · intro keyId key hkey
      by_cases hid : keyId = entry.1
      · rw [Option.bind_some, hid, Function.update_self] at hkey
        rw [← Option.some.inj hkey]
        exact Key.wellFormed_ofToken token
      · rw [Option.bind_some, Function.update_of_ne hid] at hkey
        exact h keyId key hkey
    · exact h

theorem wellFormed_reload {db : Keys} (h : db.WellFormed)
    (file : Option (Except Error (List (Str × Str)))) :
    (db.reload hexDecode aclDb file).2.WellFormed := by
  rcases file with _ | e | entries
  · exact h
  · exact h
  · have hload : ∀ keyMap : Str → Option Key, WellFormed (some keyMap) →
        WellFormed (some (entries.foldl (loadEntry hexDecode aclDb) keyMap)) := by
      induction entries with
      | nil => exact fun _ hmap => hmap
      | cons entry entries ih => exact fun _ hmap => ih _ (wellFormed_loadEntry hmap entry)
    exact hload _ fun keyId key hkey => absurd hkey (Option.some_ne_none key).symm

theorem Loaded.wellFormed {db : Keys} (h : Loaded hexDecode db) : db.WellFormed := by
  induction h with
  | default => exact fun keyId key hkey => absurd hkey (Option.some_ne_none key).symm
  | reload aclDb file _ ih => exact wellFormed_reload ih file

end

end Keys

end Psrt

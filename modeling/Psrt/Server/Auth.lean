import Psrt.Server.Acl

/-! The access databases: `acl.rs`, `passwords.rs` and `keys.rs`. -/

namespace Psrt
open Wire

abbrev AclDb := Str → Option Acl

def aclName (login : Str) : Str := if login.isEmpty then ['_'] else login

def AclDb.getAcl (db : AclDb) (login : Str) : Option Acl := db (aclName login)

inductive EncryptionType where
  | no | aes128Gcm | aes256Gcm
  deriving DecidableEq, Repr

namespace EncryptionType

def fromByte (b : UInt8) : Except Error EncryptionType :=
  if b = authLoginPass then .ok .no
  else if b = authKeyAes128Gcm then .ok .aes128Gcm
  else if b = authKeyAes256Gcm then .ok .aes256Gcm
  else .error (.invalidData "unsupported encryption type")

def needDecrypt (etp : EncryptionType) : Bool := etp != .no

end EncryptionType

inductive Cipher where
  | aes128Gcm | aes256Gcm
  deriving DecidableEq, Repr

/-- The functions server and client call in `bcrypt` and `openssl`. -/
structure Crypto where
  bcryptVerify : Str → Str → Bool
  /-- cipher, key, nonce, data; the encrypted data and its tag -/
  encryptAead : Cipher → Bytes → Bytes → Bytes → Option (Bytes × Bytes)
  /-- cipher, key, nonce, encrypted data, tag -/
  decryptAead : Cipher → Bytes → Bytes → Bytes → Bytes → Option Bytes

/-- `Passwords`: the hash of each login, once a file was loaded. -/
abbrev Passwords := Option (Str → Option Str)

def Passwords.verify (crypto : Crypto) (db : Passwords) (login password : Str) : Bool :=
  match db with
  | some map =>
    match map login with
    | some hash => crypto.bcryptVerify password hash
    | none => false
  | none => false

structure Key where
  cipherAes128 : Bytes
  cipherAes256 : Bytes
  deriving DecidableEq, Repr

abbrev Keys := Option (Str → Option Key)

def decrypt (crypto : Crypto) (cipher : Cipher) (key iv data : Bytes) : Except Error Bytes :=
  let digestPos := data.length - 16
  match crypto.decryptAead cipher key iv (data.take digestPos) (data.drop digestPos) with
  | some plain => .ok plain
  | none => .error (.io "decryption failed")

/-- `auth_and_decr`; none is the panic on an unencrypted packet. -/
def Keys.authAndDecr (crypto : Crypto) (db : Keys) (block : Bytes) (keyId : Str)
    (tp : EncryptionType) : Option (Except Error Bytes) :=
  match db.bind (· keyId) with
  | some key =>
    if block.length < 29 then some (.error (.invalidData "Invalid encrypted data"))
    else match tp with
      | .aes128Gcm =>
        some (decrypt crypto .aes128Gcm key.cipherAes128 (block.take 12) (block.drop 12))
      | .aes256Gcm =>
        some (decrypt crypto .aes256Gcm key.cipherAes256 (block.take 12) (block.drop 12))
      | .no => none
  | none => some (.error (.access s!"no such key id: {String.ofList keyId}"))

end Psrt

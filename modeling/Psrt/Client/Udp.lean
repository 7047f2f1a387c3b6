import Psrt.Server.Auth

/-! The datagram client: the packet `UdpClient::publish_impl` sends, and the reply it waits for. -/

namespace Psrt
open Wire

structure UdpClient where
  login : Bytes
  password : Bytes
  encrypt : Bool

namespace UdpClient

def connect : UdpClient := ⟨[], [], false⟩

def withAuth (login password : Str) : UdpClient := ⟨utf8 login, utf8 password, false⟩

def withEncryptionAuth (login : Str) (key : Bytes) : UdpClient := ⟨utf8 login, key, true⟩

def publishOp (ack : Bool) : UInt8 := if ack then opPublish else opPublishNoAck

def msgBuf (topic : Str) (message : Bytes) (ack : Bool) : Bytes :=
  publishOp ack :: defaultPriority :: (utf8 topic ++ 0 :: message)

def packetHeader (auth : UInt8) : Bytes := controlHeader ++ leBytes 2 protocolVersion ++ [auth]

/-- The packet of a call of `publish_impl`; `nonce` is what the random generator gave. -/
def packet (crypto : Crypto) (nonce : Except Error Bytes) (u : UdpClient) (topic : Str)
    (message : Bytes) (ack : Bool) : Except Error Bytes :=
  if u.encrypt then
    match nonce with
    | .error e => .error e
    | .ok nonce =>
      match crypto.encryptAead .aes256Gcm u.password nonce (msgBuf topic message ack) with
      | none => .error (.io "encryption failed")
      | some (encrypted, digest) =>
        .ok (packetHeader authKeyAes256Gcm ++ (u.login ++ 0 :: (nonce ++ encrypted ++ digest)))
  else .ok (packetHeader authLoginPass ++
    (u.login ++ 0 :: (u.password ++ 0 :: msgBuf topic message ack)))

/-- The end of the wait: the datagram of a reply, cut to the five octets of `ack_buf`. -/
def readAck (datagram : Bytes) : Except Error Unit :=
  let ackBuf := datagram.take 5
  if ackBuf.length ≠ 5 then .error (.invalidData "Invalid ack size")
  else if ackBuf.take 2 ≠ controlHeader then .error (.invalidData "Invalid ack header")
  else if (ackBuf.drop 2).take 2 ≠ leBytes 2 protocolVersion then
    .error (.invalidData "Invalid ack protocol version")
  else if ackBuf.getD 4 0 = responseOk then .ok ()
  else .error (.serverResponse (ackBuf.getD 4 0))

end UdpClient

/-- What is relied on of the cipher for one block sealed with `key`: it opens intact under this key,
and nothing else cut from its bytes opens under the key `stored` at the server. -/
structure Sealed (crypto : Crypto) (stored key nonce plain encrypted digest : Bytes) : Prop where
  opens : crypto.decryptAead .aes256Gcm key nonce encrypted digest = some plain
  rejects : ∀ iv data tag, iv ++ data ++ tag <+: nonce ++ encrypted ++ digest →
    (stored, iv, data, tag) ≠ (key, nonce, encrypted, digest) →
      crypto.decryptAead .aes256Gcm stored iv data tag = none

end Psrt

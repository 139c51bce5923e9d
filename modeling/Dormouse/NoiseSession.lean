import Dormouse.NoiseStream
import Mathlib.Data.List.DropRight
/-!
# A Noise transport session

The `CipherState` of `remote-lib-common/src/security/noise.ts` and, of `noise-transport.ts`, the transport plaintexts and
`NoiseTransportSession`.  A call that throws is an `Except` beside the state it leaves.

ChaCha20-Poly1305 is `@noble/ciphers`, a parameter (`Aead`); `JSON.stringify` and `JSON.parse` with the UTF-8 coding
around them are another (`JsonText`).  What is relied on of them is `Aead.Ideal` and `JsonText.Lawful`.  The associated
data is empty in every transport call, and the handshake hash is read by no call here; neither is modelled.
-/
namespace Dormouse
namespace Noise

variable {Key V : Type}

/-! ## `CipherState` -/

/-- `chacha20poly1305(key, nonce, ad)`, under the empty associated data; a failed authentication is `none`. -/
structure Aead (Key : Type) where
  encrypt : Key → Bytes → Bytes → Bytes
  decrypt : Key → Bytes → Bytes → Option Bytes

/-- A ciphertext is a tag longer than its plaintext, opens under the key and nonce it was sealed with, and under no
other. -/
structure Aead.Ideal (A : Aead Key) : Prop where
  length : ∀ k nonce p, nonce.length = 12 → (A.encrypt k nonce p).length = p.length + noiseTagLength
  opens  : ∀ k nonce p, nonce.length = 12 → A.decrypt k nonce (A.encrypt k nonce p) = some p
  only   : ∀ k nonce k' nonce' p q, nonce.length = 12 → nonce'.length = 12 →
    A.decrypt k nonce (A.encrypt k' nonce' p) = some q → k = k' ∧ nonce = nonce' ∧ q = p

structure CipherState (Key : Type) where
  key : Option Key
  n   : Nat

def reservedNonce : Nat := 18446744073709551615

def littleEndian : Nat → Nat → Bytes
  | 0,     _ => []
  | k + 1, n => (n % 256).toUInt8 :: littleEndian k (n / 256)

def noiseNonceBytes (n : Nat) : Except NoiseFault Bytes :=
  if reservedNonce ≤ n then .error .nonceExhausted else .ok ([0, 0, 0, 0] ++ littleEndian 8 n)

namespace CipherState

def encryptWithAd (A : Aead Key) (c : CipherState Key) (plaintext : Bytes) : CipherState Key × Except NoiseFault Bytes :=
  if noiseMaxMessageLength < plaintext.length + (if c.key.isNone then 0 else noiseTagLength) then
    (c, .error .overLength)
  else
    match c.key with
    | none     => (c, .ok plaintext)
    | some key =>
      match noiseNonceBytes c.n with
      | .error e  => (c, .error e)
      | .ok nonce => ({ c with n := c.n + 1 }, .ok (A.encrypt key nonce plaintext))

def decryptWithAd (A : Aead Key) (c : CipherState Key) (ciphertext : Bytes) : CipherState Key × Except NoiseFault Bytes :=
  if noiseMaxMessageLength < ciphertext.length then (c, .error .overLength)
  else
    match c.key with
    | none     => (c, .ok ciphertext)
    | some key =>
      match noiseNonceBytes c.n with
      | .error e  => (c, .error e)
      | .ok nonce =>
        match A.decrypt key nonce ciphertext with
        -- the counter does not advance
        | none           => (c, .error .authentication)
        | some plaintext => ({ c with n := c.n + 1 }, .ok plaintext)

end CipherState

/-! ## Transport plaintexts -/

/-- `utf8Encode(JSON.stringify(value))` and `JSON.parse(utf8Decode(bytes))`: `none` where it throws, `some none` where it
is no object. -/
structure JsonText (V : Type) where
  stringify : V → Bytes
  parse     : Bytes → Option (Option V)

/-- The text of an object ends in its brace, and parses to the object. -/
structure JsonText.Lawful (J : JsonText V) : Prop where
  parse_stringify : ∀ v, J.parse (J.stringify v) = some (some v)
  ends            : ∀ v, (J.stringify v).getLast? = some 0x7d

def keepaliveBodySize : Nat := 32
def controlPayloadSize : Nat := 4096

inductive TransportPlaintext (V : Type) where
  | keepalive
  | control (value : V)
  | stream (body : Bytes)

def encodeControlBody (J : JsonText V) (value : V) : Except NoiseFault Bytes :=
  let json := J.stringify value
  if json.length > controlPayloadSize then .error .controlTooLong
  else .ok (json ++ List.replicate (controlPayloadSize - json.length) 0)

def encodeTransportPlaintext (J : JsonText V) : TransportPlaintext V → Except NoiseFault Bytes
  | .keepalive     => .ok (0x00 :: List.replicate keepaliveBodySize 0)
  | .control value => (encodeControlBody J value).map (0x02 :: ·)
  | .stream body   => if body.length > maxStreamBodyLength then .error .bodyTooLong else .ok (0x01 :: body)

def decodeControlBody (J : JsonText V) (body : Bytes) : Except NoiseFault V :=
  if body.length ≠ controlPayloadSize then .error .controlLength
  else
    match J.parse (body.rdropWhile (· = 0)) with
    | none              => .error .controlJson
    | some none         => .error .controlObject
    | some (some value) => .ok value

def decodeTransportPlaintext (J : JsonText V) : Bytes → Except NoiseFault (TransportPlaintext V)
  | []           => .error .emptyPlaintext
  | kind :: body =>
    if kind = 0x00 then
      if body.length ≠ keepaliveBodySize then .error .keepaliveLength
      else if body.any (· ≠ 0) then .error .keepaliveZero
      else .ok .keepalive
    else if kind = 0x01 then
      if body.length > maxStreamBodyLength then .error .bodyTooLong else .ok (.stream body)
    else if kind = 0x02 then (decodeControlBody J body).map .control
    else .error .unknownKind

/-! ## `NoiseTransportSession` -/

inductive TransportReceipt (V : Type) where
  | keepalive
  | control (value : V)
  | app (messages : List Bytes)

structure Session (Key : Type) where
  send        : CipherState Key
  receive     : CipherState Key
  reassembler : StreamReassembler
  poison      : Option NoiseFault

namespace Session

/-- A session of the two cipher states `Split` makes. -/
def ofSplit (send receive : Key) : Session Key := ⟨⟨some send, 0⟩, ⟨some receive, 0⟩, .fresh, none⟩

def thrown : NoiseFault → NoiseFault
  | .range => .transport
  | e      => e

def guarded {α : Type} (s : Session Key) : Except NoiseFault α → Session Key × Except NoiseFault α
  | .ok a    => (s, .ok a)
  | .error e => ({ s with poison := some e }, .error (thrown e))

def sealed (A : Aead Key) (s : Session Key) (plaintext : Bytes) : Session Key × Except NoiseFault Bytes :=
  let r := s.send.encryptWithAd A plaintext
  guarded { s with send := r.1 } r.2

def sendKeepalive (A : Aead Key) (s : Session Key) : Session Key × Except NoiseFault Bytes :=
  match s.poison with
  | some why => (s, .error (.destroyed why))
  | none     => s.sealed A (0x00 :: List.replicate keepaliveBodySize 0)

def sendControl (A : Aead Key) (J : JsonText V) (s : Session Key) (value : V) : Session Key × Except NoiseFault Bytes :=
  match s.poison with
  | some why => (s, .error (.destroyed why))
  | none     =>
    -- encoded outside the guard: an over-size value must not destroy the session
    match encodeTransportPlaintext J (.control value) with
    | .error e      => (s, .error e)
    | .ok plaintext => s.sealed A plaintext

/-- `bodies.map` inside the guard: the first that throws loses what was sealed before it. -/
def encryptBodies (A : Aead Key) (c : CipherState Key) : List Bytes → CipherState Key × Except NoiseFault (List Bytes)
  | []             => (c, .ok [])
  | body :: bodies =>
    if body.length > maxStreamBodyLength then (c, .error .bodyTooLong)
    else
      match c.encryptWithAd A (0x01 :: body) with
      | (c', .error e) => (c', .error e)
      | (c', .ok x)    =>
        match encryptBodies A c' bodies with
        | (c'', .error e) => (c'', .error e)
        | (c'', .ok xs)   => (c'', .ok (x :: xs))

def sendApp (A : Aead Key) (s : Session Key) (message : Bytes) : Session Key × Except NoiseFault (List Bytes) :=
  match s.poison with
  | some why => (s, .error (.destroyed why))
  | none     =>
    match chunkAppMessage message with
    | .error e   => (s, .error e)
    | .ok bodies =>
      let r := encryptBodies A s.send bodies
      guarded { s with send := r.1 } r.2

/-- The body of `receive` inside its guard, past the decryption. -/
def accept (J : JsonText V) (s : Session Key) (plaintext : Bytes) : Session Key × Except NoiseFault (TransportReceipt V) :=
  match decodeTransportPlaintext J plaintext with
  | .error e          => guarded s (.error e)
  | .ok .keepalive    => (s, .ok .keepalive)
  | .ok (.control v)  => (s, .ok (.control v))
  | .ok (.stream body) =>
    let r := s.reassembler.push body
    guarded { s with reassembler := r.1 } (r.2.map .app)

def receiveFrame (A : Aead Key) (J : JsonText V) (s : Session Key) (ciphertext : Bytes) :
    Session Key × Except NoiseFault (TransportReceipt V) :=
  match s.poison with
  | some why => (s, .error (.destroyed why))
  | none     =>
    match s.receive.decryptWithAd A ciphertext with
    | (c, .error e)      => guarded { s with receive := c } (.error e)
    | (c, .ok plaintext) => accept J { s with receive := c } plaintext

end Session

end Noise
end Dormouse

import Dormouse.NoiseSession
import Dormouse.Resumption
/-!
# NoiseHandshake — one IK handshake

The `SymmetricState` and `NoiseHandshake` of `remote-lib-common/src/security/noise.ts`.  A message is a call of awaited
steps over the handshake's state: a `Resumption`, which waits where the source awaits (once for a whole hash or key
derivation, whose inner waits touch no state) and, as the source does not, at each field it reads or writes in between:
that only adds places where another call can come in.

WebCrypto and `@noble/ciphers` are a parameter (`Suite`).
-/
namespace Dormouse
namespace Noise

/-! ## The suite -/

/-- `chacha20poly1305(key, nonce, ad)`; a failed authentication is `none`. -/
structure AeadAd where
  encrypt : Bytes → Bytes → Bytes → Bytes → Bytes
  decrypt : Bytes → Bytes → Bytes → Bytes → Option Bytes

def AeadAd.under (A : AeadAd) (ad : Bytes) : Aead Bytes where
  encrypt key nonce := A.encrypt key nonce ad
  decrypt key nonce := A.decrypt key nonce ad

/-- What the handshake computes with: SHA-256, the two outputs of Noise's HKDF, the bits X25519 derives (`none` where
WebCrypto rejects the key or the agreement), the public half of a private key, and the cipher. -/
structure Suite (Priv : Type) where
  sha256       : Bytes → Bytes
  noiseHkdf    : Bytes → Bytes → Bytes × Bytes
  deriveBits   : Priv → Bytes → Option Bytes
  publicHalf   : Priv → Bytes
  aead         : AeadAd

variable {Priv : Type}

def noiseKeyLength : Nat := 32
def message1Overhead : Nat := noiseKeyLength * 2 + noiseTagLength * 2
def message2Overhead : Nat := noiseKeyLength + noiseTagLength

/-- The bytes of `Noise_IK_25519_ChaChaPoly_SHA256`, which are as many as a digest has. -/
def noiseProtocolName : Bytes := "Noise_IK_25519_ChaChaPoly_SHA256".toList.map (fun c => c.toNat.toUInt8)

inductive Role where
  | initiator
  | responder
  deriving DecidableEq

inductive HandshakeFault where
  /-- `handshake already failed` -/
  | alreadyFailed
  /-- `handshake already complete` -/
  | alreadyComplete
  /-- `handshake step is already in flight` -/
  | inFlight
  /-- `the initiator writes only message 1` and its like -/
  | turn (role : Role) (writes : Bool)
  /-- `handshake message 1 is too short`, or `2` -/
  | tooShort (message : Nat)
  /-- `X25519 agreement failed` -/
  | agreement
  /-- `… must be 32 bytes` -/
  | keyLength
  /-- what the cipher state throws -/
  | cipher (fault : NoiseFault)
  /-- `handshake failed`: an awaited operation rejected, or a key was missing -/
  | rejected
  deriving DecidableEq

/-! ## `SymmetricState` -/

structure SymmetricState where
  chainingKey : Bytes
  hash        : Bytes
  cipher      : CipherState Bytes

namespace SymmetricState

def initializeSymmetric : SymmetricState := ⟨noiseProtocolName, noiseProtocolName, ⟨none, 0⟩⟩

def mixHash (S : Suite Priv) (s : SymmetricState) (data : Bytes) : SymmetricState :=
  { s with hash := S.sha256 (s.hash ++ data) }

/-- `new NoiseCipherState(key)`. -/
def keyed (key : Bytes) : Except HandshakeFault (CipherState Bytes) :=
  if key.length ≠ noiseKeyLength then .error .keyLength else .ok ⟨some key, 0⟩

def mixKey (S : Suite Priv) (s : SymmetricState) (inputKeyMaterial : Bytes) : Except HandshakeFault SymmetricState :=
  let out := S.noiseHkdf s.chainingKey inputKeyMaterial
  (keyed out.2).map (fun cipher => { s with chainingKey := out.1, cipher := cipher })

def encryptAndHash (S : Suite Priv) (s : SymmetricState) (plaintext : Bytes) :
    Except HandshakeFault (SymmetricState × Bytes) :=
  match s.cipher.encryptWithAd (S.aead.under s.hash) plaintext with
  | (_, .error fault)        => .error (.cipher fault)
  | (cipher, .ok ciphertext) => .ok ({ s with cipher := cipher }.mixHash S ciphertext, ciphertext)

def decryptAndHash (S : Suite Priv) (s : SymmetricState) (ciphertext : Bytes) :
    Except HandshakeFault (SymmetricState × Bytes) :=
  match s.cipher.decryptWithAd (S.aead.under s.hash) ciphertext with
  | (_, .error fault)       => .error (.cipher fault)
  | (cipher, .ok plaintext) => .ok ({ s with cipher := cipher }.mixHash S ciphertext, plaintext)

end SymmetricState

structure NoiseSession where
  send          : CipherState Bytes
  receive       : CipherState Bytes
  handshakeHash : Bytes

def SymmetricState.split (S : Suite Priv) (s : SymmetricState) (initiator : Bool) : Except HandshakeFault NoiseSession :=
  let out := S.noiseHkdf s.chainingKey []
  match keyed (if initiator then out.1 else out.2), keyed (if initiator then out.2 else out.1) with
  | .ok send, .ok receive => .ok ⟨send, receive, s.hash⟩
  | .error e, _           => .error e
  | _, .error e           => .error e

/-! ## `NoiseHandshake` -/

structure NoiseKeyPair (Priv : Type) where
  privateKey : Priv
  publicKey  : Bytes

structure Handshake (Priv : Type) where
  role             : Role
  symmetric        : SymmetricState
  static           : NoiseKeyPair Priv
  ephemeral        : Option (NoiseKeyPair Priv)
  remoteStatic     : Option Bytes
  remoteEphemeral  : Option Bytes
  firstMessageDone : Bool
  failed           : Bool
  inFlight         : Bool
  session          : Option NoiseSession

namespace Handshake

/-- A handshake before its first message: one that is given `rs` is an initiator. -/
def fresh (S : Suite Priv) (prologue : Bytes) (static : NoiseKeyPair Priv) (ephemeral : Option (NoiseKeyPair Priv))
    (remoteStatic : Option Bytes) : Handshake Priv where
  role             := if remoteStatic.isSome then .initiator else .responder
  symmetric        := (SymmetricState.initializeSymmetric.mixHash S prologue).mixHash S (remoteStatic.getD static.publicKey)
  static           := static
  ephemeral        := ephemeral
  remoteStatic     := remoteStatic
  remoteEphemeral  := none
  firstMessageDone := false
  failed           := false
  inFlight         := false
  session          := none

/-- `NoiseHandshake.start`: every key is length-checked here. -/
def start (S : Suite Priv) (prologue : Bytes) (static : NoiseKeyPair Priv) (ephemeral : Option (NoiseKeyPair Priv))
    (remoteStatic : Option Bytes) : Except HandshakeFault (Handshake Priv) :=
  if static.publicKey.length ≠ noiseKeyLength then .error .keyLength
  else if ephemeral.any (fun pair => pair.publicKey.length ≠ noiseKeyLength) then .error .keyLength
  else if remoteStatic.any (fun key => key.length ≠ noiseKeyLength) then .error .keyLength
  else .ok (fresh S prologue static ephemeral remoteStatic)

abbrev Call (Priv α : Type) := Resumption (Handshake Priv) HandshakeFault α

open Resumption (act)

def requireMaxMessageLength (length : Nat) : Call Priv Unit :=
  if length > noiseMaxMessageLength then .throw (.cipher .overLength) else .ret ()

def requireMessageLength (length : Nat) (message overhead : Nat) : Call Priv Unit :=
  if length < overhead then .throw (.tooShort message) else requireMaxMessageLength length

def requireKey (key : Bytes) : Call Priv Unit := if key.length ≠ noiseKeyLength then .throw .keyLength else .ret ()

def mixHash (S : Suite Priv) (data : Bytes) : Call Priv Unit :=
  act (fun h => .ok ({ h with symmetric := h.symmetric.mixHash S data }, ()))

def mixKey (S : Suite Priv) (inputKeyMaterial : Bytes) : Call Priv Unit :=
  act (fun h => (h.symmetric.mixKey S inputKeyMaterial).map (fun s => ({ h with symmetric := s }, ())))

def encryptAndHash (S : Suite Priv) (plaintext : Bytes) : Call Priv Bytes :=
  act (fun h => (h.symmetric.encryptAndHash S plaintext).map (fun r => ({ h with symmetric := r.1 }, r.2)))

def decryptAndHash (S : Suite Priv) (ciphertext : Bytes) : Call Priv Bytes :=
  act (fun h => (h.symmetric.decryptAndHash S ciphertext).map (fun r => ({ h with symmetric := r.1 }, r.2)))

def read {α : Type} (f : Handshake Priv → α) : Call Priv α := act (fun h => .ok (h, f h))

def write (f : Handshake Priv → Handshake Priv) : Call Priv Unit := act (fun h => .ok (f h, ()))

/-- `x25519Agree`: a rejected key, a rejected agreement and an all-zero result are one failure. -/
def dh (S : Suite Priv) (privateKey : Priv) (publicKey : Bytes) : Call Priv Bytes := do
  requireKey publicKey
  act (fun h =>
    match S.deriveBits privateKey publicKey with
    | none        => .error .agreement
    | some shared =>
      if shared.length ≠ noiseKeyLength ∨ shared = List.replicate noiseKeyLength 0 then .error .agreement
      else .ok (h, shared))

/-- The injected `e`, or the one `generateNoiseKeyPair` gives. -/
def useEphemeral (fresh : NoiseKeyPair Priv) : Call Priv (NoiseKeyPair Priv) :=
  act (fun h => .ok ({ h with ephemeral := some (h.ephemeral.getD fresh) }, h.ephemeral.getD fresh))

def splitSession (S : Suite Priv) {α : Type} (result : α) : Call Priv α :=
  act (fun h => (h.symmetric.split S (h.role == .initiator)).map (fun session => ({ h with session := some session }, result)))

def copyKey (source : Bytes) : Bytes := source.take noiseKeyLength

/-- `-> e, es, s, ss` -/
def writeMessage1 (S : Suite Priv) (payload : Bytes) (fresh : NoiseKeyPair Priv) : Call Priv Bytes := do
  requireMessageLength (message1Overhead + payload.length) 1 message1Overhead
  let ephemeral ← useEphemeral fresh
  mixHash S ephemeral.publicKey
  let remoteStatic ← read (fun h => h.remoteStatic.getD [])
  mixKey S (← dh S ephemeral.privateKey remoteStatic)
  let static ← read (·.static)
  let encryptedStatic ← encryptAndHash S static.publicKey
  mixKey S (← dh S static.privateKey remoteStatic)
  let encryptedPayload ← encryptAndHash S payload
  write (fun h => { h with firstMessageDone := true })
  return ephemeral.publicKey ++ encryptedStatic ++ encryptedPayload

/-- `-> e, es, s, ss` -/
def readMessage1 (S : Suite Priv) (message : Bytes) : Call Priv Bytes := do
  requireMessageLength message.length 1 message1Overhead
  let staticEnd := message1Overhead - noiseTagLength
  let remoteEphemeral := copyKey message
  write (fun h => { h with remoteEphemeral := some remoteEphemeral })
  mixHash S remoteEphemeral
  let static ← read (·.static)
  mixKey S (← dh S static.privateKey remoteEphemeral)
  let remoteStatic ← decryptAndHash S ((message.take staticEnd).drop noiseKeyLength)
  requireKey remoteStatic
  write (fun h => { h with remoteStatic := some remoteStatic })
  mixKey S (← dh S static.privateKey remoteStatic)
  let payload ← decryptAndHash S (message.drop staticEnd)
  write (fun h => { h with firstMessageDone := true })
  return payload

/-- `<- e, ee, se` -/
def writeMessage2 (S : Suite Priv) (payload : Bytes) (fresh : NoiseKeyPair Priv) : Call Priv Bytes := do
  requireMessageLength (message2Overhead + payload.length) 2 message2Overhead
  let ephemeral ← useEphemeral fresh
  mixHash S ephemeral.publicKey
  let remoteEphemeral ← read (fun h => h.remoteEphemeral.getD [])
  mixKey S (← dh S ephemeral.privateKey remoteEphemeral)
  let remoteStatic ← read (fun h => h.remoteStatic.getD [])
  mixKey S (← dh S ephemeral.privateKey remoteStatic)
  let encryptedPayload ← encryptAndHash S payload
  splitSession S (ephemeral.publicKey ++ encryptedPayload)

/-- `<- e, ee, se` -/
def readMessage2 (S : Suite Priv) (message : Bytes) : Call Priv Bytes := do
  requireMessageLength message.length 2 message2Overhead
  let remoteEphemeral := copyKey message
  mixHash S remoteEphemeral
  let ephemeral ← read (·.ephemeral)
  match ephemeral with
  | none           => .throw .rejected
  | some ephemeral =>
    mixKey S (← dh S ephemeral.privateKey remoteEphemeral)
    let static ← read (·.static)
    mixKey S (← dh S static.privateKey remoteEphemeral)
    let payload ← decryptAndHash S (message.drop noiseKeyLength)
    splitSession S payload

inductive Request (Priv : Type) where
  | writeMessage (payload : Bytes) (fresh : NoiseKeyPair Priv)
  | readMessage (message : Bytes)

def completes (h : Handshake Priv) : Request Priv → Bool
  | .writeMessage _ _ => h.role == .responder && h.firstMessageDone
  | .readMessage _    => h.role == .initiator && h.firstMessageDone

/-- The body a call runs inside `#step`. -/
def body (S : Suite Priv) (h : Handshake Priv) : Request Priv → Call Priv Bytes
  | .writeMessage payload fresh =>
    match h.role with
    | .initiator => if h.firstMessageDone then .throw (.turn .initiator true) else writeMessage1 S payload fresh
    | .responder => if h.firstMessageDone then writeMessage2 S payload fresh else .throw (.turn .responder true)
  | .readMessage message        =>
    match h.role with
    | .responder => if h.firstMessageDone then .throw (.turn .responder false) else readMessage1 S message
    | .initiator => if h.firstMessageDone then readMessage2 S message else .throw (.turn .initiator false)

/-- The guards of `#step`: the handshake, and what the call throws at once or runs. -/
def enter (S : Suite Priv) (h : Handshake Priv) (request : Request Priv) :
    Handshake Priv × Except HandshakeFault (Call Priv Bytes) :=
  if h.failed then (h, .error .alreadyFailed)
  else if h.session.isSome then (h, .error .alreadyComplete)
  else if h.inFlight then ({ h with failed := true }, .error .inFlight)
  else ({ h with inFlight := true }, .ok (h.body S request))

/-- The end of `#step`: its `catch` and its `finally`. -/
def leave (h : Handshake Priv) : Except HandshakeFault Bytes → Handshake Priv
  | .ok _    => { h with inFlight := false }
  | .error _ => { h with failed := true, inFlight := false }

def call (S : Suite Priv) (h : Handshake Priv) (request : Request Priv) :
    Handshake Priv × Except HandshakeFault Bytes :=
  match h.enter S request with
  | (h', .error e) => (h', .error e)
  | (h', .ok body) => ((body.exec h').1.leave (body.exec h').2, (body.exec h').2)

end Handshake

end Noise
end Dormouse

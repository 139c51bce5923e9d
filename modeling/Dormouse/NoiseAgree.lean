import Dormouse.NoiseHandshake
/-!
# NoiseAgree — what an honest IK handshake agrees on

The two roles mix the same tokens, in the same order, into one transcript: each message moves both symmetric states from
the same state to the same state.  So both split the same chaining key, in opposite orders.  Under different prologues
the transcripts differ before the first seal is opened, and the handshake ends there.
-/
namespace Dormouse
namespace Noise

variable {Priv : Type}

/-- What is relied on of the suite: keys are 32 bytes, an agreement of honest keys is the same from either end and is not
refused, and what the cipher seals it opens, a tag longer. -/
structure Suite.Lawful (S : Suite Priv) : Prop where
  publicHalf_length : ∀ a, (S.publicHalf a).length = noiseKeyLength
  agrees            : ∀ a b, ∃ shared, S.deriveBits a (S.publicHalf b) = some shared ∧
    S.deriveBits b (S.publicHalf a) = some shared ∧ shared.length = noiseKeyLength ∧
    shared ≠ List.replicate noiseKeyLength 0
  hkdf_length       : ∀ chainingKey input, (S.noiseHkdf chainingKey input).1.length = noiseKeyLength ∧
    (S.noiseHkdf chainingKey input).2.length = noiseKeyLength
  seal_length       : ∀ key nonce ad p, (S.aead.encrypt key nonce ad p).length = p.length + noiseTagLength
  opens             : ∀ key nonce ad p, S.aead.decrypt key nonce ad (S.aead.encrypt key nonce ad p) = some p

def Suite.shared (S : Suite Priv) (a b : Priv) : Bytes := (S.deriveBits a (S.publicHalf b)).getD []

variable {S : Suite Priv}

theorem Suite.Lawful.shared_comm (hS : S.Lawful) (a b : Priv) : S.shared a b = S.shared b a := by
  obtain ⟨shared, h1, h2, -⟩ := hS.agrees a b
  rw [Suite.shared, Suite.shared, h1, h2]

/-! ## The symmetric state -/

namespace SymmetricState

/-- `mixKey`, its keys of the right length. -/
def withKey (S : Suite Priv) (s : SymmetricState) (input : Bytes) : SymmetricState :=
  { s with
    chainingKey := (S.noiseHkdf s.chainingKey input).1
    cipher      := ⟨some (S.noiseHkdf s.chainingKey input).2, 0⟩ }

variable {S : Suite Priv}

theorem mixKey_eq (hS : S.Lawful) (s : SymmetricState) (input : Bytes) :
    s.mixKey S input = .ok (s.withKey S input) := by
  unfold mixKey keyed
  dsimp only
  rw [if_neg (not_not.mpr (hS.hkdf_length s.chainingKey input).2)]
  rfl

def Unused (s : SymmetricState) : Prop := ∃ key, s.cipher = ⟨some key, 0⟩

theorem unused_withKey (S : Suite Priv) (s : SymmetricState) (input : Bytes) : (s.withKey S input).Unused := ⟨_, rfl⟩

def firstNonce : Bytes := [0, 0, 0, 0] ++ littleEndian 8 0

def sealOf (S : Suite Priv) (s : SymmetricState) (p : Bytes) : Bytes :=
  S.aead.encrypt (s.cipher.key.getD []) firstNonce s.hash p

def sealedBy (S : Suite Priv) (s : SymmetricState) (ciphertext : Bytes) : SymmetricState :=
  { s with hash := S.sha256 (s.hash ++ ciphertext), cipher := ⟨s.cipher.key, 1⟩ }

theorem length_sealOf (hS : S.Lawful) (s : SymmetricState) (p : Bytes) :
    (s.sealOf S p).length = p.length + noiseTagLength := hS.seal_length _ _ _ _

theorem encryptAndHash_eq {s : SymmetricState} {p : Bytes} (hk : s.Unused)
    (hp : p.length + noiseTagLength ≤ noiseMaxMessageLength) :
    s.encryptAndHash S p = .ok (s.sealedBy S (s.sealOf S p), s.sealOf S p) := by
  obtain ⟨key, hk⟩ := hk
  unfold encryptAndHash CipherState.encryptWithAd sealedBy sealOf
  rw [hk]
  simp only [Option.isNone_some, Bool.false_eq_true, if_false, if_neg (not_lt.mpr hp)]
  rfl

theorem decryptAndHash_eq (hS : S.Lawful) {s : SymmetricState} {p : Bytes} (hk : s.Unused)
    (hp : p.length + noiseTagLength ≤ noiseMaxMessageLength) :
    s.decryptAndHash S (s.sealOf S p) = .ok (s.sealedBy S (s.sealOf S p), p) := by
  obtain ⟨key, hk⟩ := hk
  have hlen := length_sealOf hS s p
  have hopen : S.aead.decrypt key firstNonce s.hash (s.sealOf S p) = some p := by
    rw [sealOf, hk]
    exact hS.opens key firstNonce s.hash p
  have hnonce : noiseNonceBytes 0 = .ok firstNonce := rfl
  unfold decryptAndHash CipherState.decryptWithAd sealedBy
  rw [if_neg (by omega), hk]
  simp only [hnonce, AeadAd.under, hopen]
  rfl

def sessionOf (S : Suite Priv) (s : SymmetricState) (initiator : Bool) : NoiseSession :=
  ⟨⟨some (if initiator then (S.noiseHkdf s.chainingKey []).1 else (S.noiseHkdf s.chainingKey []).2), 0⟩,
    ⟨some (if initiator then (S.noiseHkdf s.chainingKey []).2 else (S.noiseHkdf s.chainingKey []).1), 0⟩, s.hash⟩

theorem split_eq (hS : S.Lawful) (s : SymmetricState) (initiator : Bool) :
    s.split S initiator = .ok (s.sessionOf S initiator) := by
  obtain ⟨h1, h2⟩ := hS.hkdf_length s.chainingKey []
  unfold split keyed sessionOf
  cases initiator <;> simp [h1, h2]

end SymmetricState

/-! ## The steps of a message, undisturbed -/

namespace Handshake

open Resumption

theorem exec_requireMessageLength {length message overhead : Nat} (h₁ : overhead ≤ length)
    (h₂ : length ≤ noiseMaxMessageLength) (h : Handshake Priv) :
    exec (requireMessageLength length message overhead) h = (h, .ok ()) := by
  unfold requireMessageLength requireMaxMessageLength
  rw [if_neg (by omega), if_neg (by omega)]
  rfl

theorem exec_requireKey {key : Bytes} (hk : key.length = noiseKeyLength) (h : Handshake Priv) :
    exec (requireKey key) h = (h, .ok ()) := by
  unfold requireKey
  rw [if_neg (not_not.mpr hk)]
  rfl

theorem exec_mixHash (S : Suite Priv) (data : Bytes) (h : Handshake Priv) :
    exec (mixHash S data) h = ({ h with symmetric := h.symmetric.mixHash S data }, .ok ()) := rfl

variable {S : Suite Priv}

theorem exec_mixKey (hS : S.Lawful) (input : Bytes) (h : Handshake Priv) :
    exec (mixKey S input) h = ({ h with symmetric := h.symmetric.withKey S input }, .ok ()) := by
  refine exec_act_ok ?_
  rw [SymmetricState.mixKey_eq hS]
  rfl

theorem exec_read {α : Type} (f : Handshake Priv → α) (h : Handshake Priv) : exec (read f) h = (h, .ok (f h)) := rfl

theorem exec_write (f : Handshake Priv → Handshake Priv) (h : Handshake Priv) : exec (write f) h = (f h, .ok ()) := rfl

theorem exec_useEphemeral (pair : NoiseKeyPair Priv) (h : Handshake Priv) :
    exec (useEphemeral pair) h =
      ({ h with ephemeral := some (h.ephemeral.getD pair) }, .ok (h.ephemeral.getD pair)) := rfl

theorem exec_dh (hS : S.Lawful) (a b : Priv) (h : Handshake Priv) :
    exec (dh S a (S.publicHalf b)) h = (h, .ok (S.shared a b)) := by
  obtain ⟨shared, hs, -, hl, hz⟩ := hS.agrees a b
  unfold dh
  rw [exec_bind_ok (exec_requireKey (hS.publicHalf_length b) h)]
  refine exec_act_ok ?_
  simp only [hs, Suite.shared, Option.getD_some]
  rw [if_neg (by simp [hl, hz])]

variable {h : Handshake Priv}

theorem exec_encryptAndHash {p : Bytes} (hk : h.symmetric.Unused) (hp : p.length + noiseTagLength ≤ noiseMaxMessageLength) :
    exec (encryptAndHash S p) h =
      ({ h with symmetric := h.symmetric.sealedBy S (h.symmetric.sealOf S p) }, .ok (h.symmetric.sealOf S p)) := by
  refine exec_act_ok ?_
  rw [SymmetricState.encryptAndHash_eq hk hp]
  rfl

theorem exec_decryptAndHash (hS : S.Lawful) {p c : Bytes} (hk : h.symmetric.Unused)
    (hp : p.length + noiseTagLength ≤ noiseMaxMessageLength) (hc : c = h.symmetric.sealOf S p) :
    exec (decryptAndHash S c) h = ({ h with symmetric := h.symmetric.sealedBy S c }, .ok p) := by
  subst hc
  refine exec_act_ok ?_
  rw [SymmetricState.decryptAndHash_eq hS hk hp]
  rfl

theorem exec_splitSession (hS : S.Lawful) {α : Type} (result : α) (h : Handshake Priv) :
    exec (splitSession S result) h =
      ({ h with session := some (h.symmetric.sessionOf S (h.role == .initiator)) }, .ok result) := by
  refine exec_act_ok ?_
  rw [SymmetricState.split_eq hS]
  rfl

/-! ## The messages -/

/-- The state in which the initiator's static key is sealed: behind `e, es`. -/
def atStatic (S : Suite Priv) (s : SymmetricState) (e b : Priv) : SymmetricState :=
  (s.mixHash S (S.publicHalf e)).withKey S (S.shared e b)

/-- The state in which the first payload is sealed: behind `e, es, s, ss`. -/
def atPayload1 (S : Suite Priv) (s : SymmetricState) (e a b : Priv) : SymmetricState :=
  ((atStatic S s e b).sealedBy S ((atStatic S s e b).sealOf S (S.publicHalf a))).withKey S (S.shared a b)

/-- The state in which the second payload is sealed: behind `e, ee, se`. -/
def atPayload2 (S : Suite Priv) (s : SymmetricState) (e a f : Priv) : SymmetricState :=
  ((s.mixHash S (S.publicHalf f)).withKey S (S.shared e f)).withKey S (S.shared a f)

def message1 (S : Suite Priv) (s : SymmetricState) (e a b : Priv) (payload : Bytes) : Bytes :=
  S.publicHalf e ++ (atStatic S s e b).sealOf S (S.publicHalf a) ++ (atPayload1 S s e a b).sealOf S payload

def behind1 (S : Suite Priv) (s : SymmetricState) (e a b : Priv) (payload : Bytes) : SymmetricState :=
  (atPayload1 S s e a b).sealedBy S ((atPayload1 S s e a b).sealOf S payload)

def message2 (S : Suite Priv) (s : SymmetricState) (e a f : Priv) (payload : Bytes) : Bytes :=
  S.publicHalf f ++ (atPayload2 S s e a f).sealOf S payload

def behind2 (S : Suite Priv) (s : SymmetricState) (e a f : Priv) (payload : Bytes) : SymmetricState :=
  (atPayload2 S s e a f).sealedBy S ((atPayload2 S s e a f).sealOf S payload)

def pairOf (S : Suite Priv) (a : Priv) : NoiseKeyPair Priv := ⟨a, S.publicHalf a⟩

@[simp] theorem pairOf_privateKey (S : Suite Priv) (a : Priv) : (pairOf S a).privateKey = a := rfl

@[simp] theorem pairOf_publicKey (S : Suite Priv) (a : Priv) : (pairOf S a).publicKey = S.publicHalf a := rfl

theorem publicHalf_fits (hS : S.Lawful) (a : Priv) :
    (S.publicHalf a).length + noiseTagLength ≤ noiseMaxMessageLength := by
  rw [hS.publicHalf_length a]
  decide

variable {e a b : Priv} {payload : Bytes} {pair : NoiseKeyPair Priv}

theorem exec_writeMessage1 (hS : S.Lawful) (he : h.ephemeral.getD pair = pairOf S e) (ha : h.static = pairOf S a)
    (hb : h.remoteStatic = some (S.publicHalf b)) (hp : message1Overhead + payload.length ≤ noiseMaxMessageLength) :
    exec (writeMessage1 S payload pair) h =
      ({ h with
         ephemeral := some (pairOf S e)
         symmetric := behind1 S h.symmetric e a b payload
         firstMessageDone := true }, .ok (message1 S h.symmetric e a b payload)) := by
  have hfit : payload.length + noiseTagLength ≤ noiseMaxMessageLength := by
    unfold message1Overhead at hp
    omega
  unfold writeMessage1
  rw [exec_bind_ok (exec_requireMessageLength (Nat.le_add_right _ _) hp h), exec_bind_ok (exec_useEphemeral pair h), he,
    exec_bind_ok (exec_mixHash S _ _), exec_bind_ok (exec_read _ _)]
  simp only [hb, Option.getD_some, pairOf_privateKey, pairOf_publicKey]
  rw [exec_bind_ok (exec_dh hS e b _), exec_bind_ok (exec_mixKey hS _ _), exec_bind_ok (exec_read _ _)]
  simp only [ha, pairOf_privateKey, pairOf_publicKey]
  rw [exec_bind_ok (exec_encryptAndHash (SymmetricState.unused_withKey S _ _) (publicHalf_fits hS a)),
    exec_bind_ok (exec_dh hS a b _), exec_bind_ok (exec_mixKey hS _ _),
    exec_bind_ok (exec_encryptAndHash (SymmetricState.unused_withKey S _ _) hfit), exec_bind_ok (exec_write _ _)]
  rfl

theorem message1_parts (hS : S.Lawful) (s : SymmetricState) (e a b : Priv) (payload : Bytes) :
    (message1 S s e a b payload).length = message1Overhead + payload.length ∧
    copyKey (message1 S s e a b payload) = S.publicHalf e ∧
    ((message1 S s e a b payload).take (message1Overhead - noiseTagLength)).drop noiseKeyLength =
      (atStatic S s e b).sealOf S (S.publicHalf a) ∧
    (message1 S s e a b payload).drop (message1Overhead - noiseTagLength) =
      (atPayload1 S s e a b).sealOf S payload := by
  have he := hS.publicHalf_length e
  have hs : ((atStatic S s e b).sealOf S (S.publicHalf a)).length = noiseKeyLength + noiseTagLength := by
    rw [SymmetricState.length_sealOf hS, hS.publicHalf_length]
  have hp := SymmetricState.length_sealOf hS (atPayload1 S s e a b) payload
  have hcut : (S.publicHalf e ++ (atStatic S s e b).sealOf S (S.publicHalf a)).length =
      message1Overhead - noiseTagLength := by
    rw [List.length_append, he, hs]
    rfl
  unfold message1 copyKey
  refine ⟨?_, ?_, ?_, ?_⟩
  · rw [List.length_append, hcut, hp]
    unfold message1Overhead
    omega
  · rw [List.append_assoc, ← he, List.take_left]
  · rw [← hcut, List.take_left, ← he, List.drop_left]
  · rw [← hcut, List.drop_left]

theorem exec_readMessage1 (hS : S.Lawful) (hb : h.static = pairOf S b)
    (hp : message1Overhead + payload.length ≤ noiseMaxMessageLength) :
    exec (readMessage1 S (message1 S h.symmetric e a b payload)) h =
      ({ h with
         remoteEphemeral := some (S.publicHalf e)
         remoteStatic := some (S.publicHalf a)
         symmetric := behind1 S h.symmetric e a b payload
         firstMessageDone := true }, .ok payload) := by
  have hfit : payload.length + noiseTagLength ≤ noiseMaxMessageLength := by
    unfold message1Overhead at hp
    omega
  obtain ⟨hlen, hkey, hstatic, hpayload⟩ := message1_parts hS h.symmetric e a b payload
  unfold readMessage1
  dsimp only
  rw [hlen, hkey, hstatic, hpayload, exec_bind_ok (exec_requireMessageLength (Nat.le_add_right _ _) hp h),
    exec_bind_ok (exec_write _ _), exec_bind_ok (exec_mixHash S _ _), exec_bind_ok (exec_read _ _)]
  simp only [hb, pairOf_privateKey]
  rw [exec_bind_ok (exec_dh hS b e _), hS.shared_comm b e, exec_bind_ok (exec_mixKey hS _ _),
    exec_bind_ok (exec_decryptAndHash hS (p := S.publicHalf a) (SymmetricState.unused_withKey S _ _)
      (publicHalf_fits hS a) ?_),
    exec_bind_ok (exec_requireKey (hS.publicHalf_length a) _), exec_bind_ok (exec_write _ _),
    exec_bind_ok (exec_dh hS b a _), hS.shared_comm b a, exec_bind_ok (exec_mixKey hS _ _),
    exec_bind_ok (exec_decryptAndHash hS (p := payload) (SymmetricState.unused_withKey S _ _) hfit ?_),
    exec_bind_ok (exec_write _ _)]
  all_goals rfl

variable {e a f : Priv}

theorem exec_writeMessage2 (hS : S.Lawful) (hf : h.ephemeral.getD pair = pairOf S f)
    (he : h.remoteEphemeral = some (S.publicHalf e)) (ha : h.remoteStatic = some (S.publicHalf a))
    (hp : message2Overhead + payload.length ≤ noiseMaxMessageLength) :
    exec (writeMessage2 S payload pair) h =
      ({ h with
         ephemeral := some (pairOf S f)
         symmetric := behind2 S h.symmetric e a f payload
         session := some ((behind2 S h.symmetric e a f payload).sessionOf S (h.role == .initiator)) },
        .ok (message2 S h.symmetric e a f payload)) := by
  have hfit : payload.length + noiseTagLength ≤ noiseMaxMessageLength := by
    unfold message2Overhead at hp
    omega
  unfold writeMessage2
  rw [exec_bind_ok (exec_requireMessageLength (Nat.le_add_right _ _) hp h), exec_bind_ok (exec_useEphemeral pair h), hf,
    exec_bind_ok (exec_mixHash S _ _), exec_bind_ok (exec_read _ _)]
  simp only [he, Option.getD_some, pairOf_privateKey, pairOf_publicKey]
  rw [exec_bind_ok (exec_dh hS f e _), hS.shared_comm f e, exec_bind_ok (exec_mixKey hS _ _),
    exec_bind_ok (exec_read _ _)]
  simp only [ha, Option.getD_some]
  rw [exec_bind_ok (exec_dh hS f a _), hS.shared_comm f a, exec_bind_ok (exec_mixKey hS _ _),
    exec_bind_ok (exec_encryptAndHash (SymmetricState.unused_withKey S _ _) hfit), exec_splitSession hS]
  rw [← ha, ← he]
  rfl

theorem message2_parts (hS : S.Lawful) (s : SymmetricState) (e a f : Priv) (payload : Bytes) :
    (message2 S s e a f payload).length = message2Overhead + payload.length ∧
    copyKey (message2 S s e a f payload) = S.publicHalf f ∧
    (message2 S s e a f payload).drop noiseKeyLength = (atPayload2 S s e a f).sealOf S payload := by
  have hf := hS.publicHalf_length f
  have hp := SymmetricState.length_sealOf hS (atPayload2 S s e a f) payload
  unfold message2 copyKey
  refine ⟨?_, ?_, ?_⟩
  · rw [List.length_append, hf, hp]
    unfold message2Overhead
    omega
  · rw [← hf, List.take_left]
  · rw [← hf, List.drop_left]

theorem exec_readMessage2 (hS : S.Lawful) (he : h.ephemeral = some (pairOf S e)) (ha : h.static = pairOf S a)
    (hp : message2Overhead + payload.length ≤ noiseMaxMessageLength) :
    exec (readMessage2 S (message2 S h.symmetric e a f payload)) h =
      ({ h with
         symmetric := behind2 S h.symmetric e a f payload
         session := some ((behind2 S h.symmetric e a f payload).sessionOf S (h.role == .initiator)) },
        .ok payload) := by
  have hfit : payload.length + noiseTagLength ≤ noiseMaxMessageLength := by
    unfold message2Overhead at hp
    omega
  obtain ⟨hlen, hkey, hpayload⟩ := message2_parts hS h.symmetric e a f payload
  unfold readMessage2
  dsimp only
  rw [hlen, hkey, hpayload, exec_bind_ok (exec_requireMessageLength (Nat.le_add_right _ _) hp h),
    exec_bind_ok (exec_mixHash S _ _), exec_bind_ok (exec_read _ _)]
  simp only [he, pairOf_privateKey]
  rw [exec_bind_ok (exec_dh hS e f _), exec_bind_ok (exec_mixKey hS _ _), exec_bind_ok (exec_read _ _)]
  simp only [ha, pairOf_privateKey]
  rw [exec_bind_ok (exec_dh hS a f _), exec_bind_ok (exec_mixKey hS _ _),
    exec_bind_ok (exec_decryptAndHash hS (p := payload) (SymmetricState.unused_withKey S _ _) hfit ?_)]
  · rw [exec_splitSession hS, ← ha, ← he]
    rfl
  · rfl

/-! ## The calls -/

/-- A handshake that takes a call: not failed, not complete, none in flight. -/
structure Ready (h : Handshake Priv) : Prop where
  failed   : h.failed = false
  session  : h.session = none
  inFlight : h.inFlight = false

theorem call_ready (hr : h.Ready) {request : Request Priv} {r : Call Priv Bytes} (hr' : h.body S request = r)
    {h' : Handshake Priv} {result : Except HandshakeFault Bytes} (hx : exec r { h with inFlight := true } = (h', result)) :
    h.call S request = (h'.leave result, result) := by
  unfold call enter
  rw [if_neg (by simp [hr.failed]), if_neg (by simp [hr.session]), if_neg (by simp [hr.inFlight])]
  simp only [hr', hx]

def wrote1 (S : Suite Priv) (h : Handshake Priv) (e a b : Priv) (payload : Bytes) : Handshake Priv :=
  { h with
    ephemeral        := some (pairOf S e)
    symmetric        := behind1 S h.symmetric e a b payload
    firstMessageDone := true
    inFlight         := false }

def took1 (S : Suite Priv) (h : Handshake Priv) (e a b : Priv) (payload : Bytes) : Handshake Priv :=
  { h with
    remoteEphemeral  := some (S.publicHalf e)
    remoteStatic     := some (S.publicHalf a)
    symmetric        := behind1 S h.symmetric e a b payload
    firstMessageDone := true
    inFlight         := false }

def wrote2 (S : Suite Priv) (h : Handshake Priv) (e a f : Priv) (payload : Bytes) : Handshake Priv :=
  { h with
    ephemeral := some (pairOf S f)
    symmetric := behind2 S h.symmetric e a f payload
    inFlight  := false
    session   := some ((behind2 S h.symmetric e a f payload).sessionOf S false) }

def took2 (S : Suite Priv) (h : Handshake Priv) (e a f : Priv) (payload : Bytes) : Handshake Priv :=
  { h with
    symmetric := behind2 S h.symmetric e a f payload
    inFlight  := false
    session   := some ((behind2 S h.symmetric e a f payload).sessionOf S true) }

theorem call_writeMessage1 (hS : S.Lawful) (hr : h.Ready) (hrole : h.role = .initiator) (hdone : h.firstMessageDone = false)
    (he : h.ephemeral.getD pair = pairOf S e) (ha : h.static = pairOf S a) (hb : h.remoteStatic = some (S.publicHalf b))
    (hp : message1Overhead + payload.length ≤ noiseMaxMessageLength) :
    h.call S (.writeMessage payload pair) = (wrote1 S h e a b payload, .ok (message1 S h.symmetric e a b payload)) := by
  have hx := exec_writeMessage1 hS (h := { h with inFlight := true }) he ha hb hp
  exact call_ready hr (by simp [body, hrole, hdone]) hx

theorem call_readMessage1 (hS : S.Lawful) (hr : h.Ready) (hrole : h.role = .responder) (hdone : h.firstMessageDone = false)
    (hb : h.static = pairOf S b) (hp : message1Overhead + payload.length ≤ noiseMaxMessageLength) :
    h.call S (.readMessage (message1 S h.symmetric e a b payload)) = (took1 S h e a b payload, .ok payload) := by
  have hx := exec_readMessage1 hS (h := { h with inFlight := true }) (e := e) (a := a) hb hp
  exact call_ready hr (by simp [body, hrole, hdone]) hx

theorem call_writeMessage2 (hS : S.Lawful) (hr : h.Ready) (hrole : h.role = .responder) (hdone : h.firstMessageDone = true)
    (hf : h.ephemeral.getD pair = pairOf S f) (he : h.remoteEphemeral = some (S.publicHalf e))
    (ha : h.remoteStatic = some (S.publicHalf a)) (hp : message2Overhead + payload.length ≤ noiseMaxMessageLength) :
    h.call S (.writeMessage payload pair) = (wrote2 S h e a f payload, .ok (message2 S h.symmetric e a f payload)) := by
  have hx := exec_writeMessage2 hS (h := { h with inFlight := true }) hf he ha hp
  rw [show (h.role == Role.initiator) = false by rw [hrole]; rfl] at hx
  exact call_ready hr (by simp [body, hrole, hdone]) hx

theorem call_readMessage2 (hS : S.Lawful) (hr : h.Ready) (hrole : h.role = .initiator) (hdone : h.firstMessageDone = true)
    (he : h.ephemeral = some (pairOf S e)) (ha : h.static = pairOf S a)
    (hp : message2Overhead + payload.length ≤ noiseMaxMessageLength) :
    h.call S (.readMessage (message2 S h.symmetric e a f payload)) = (took2 S h e a f payload, .ok payload) := by
  have hx := exec_readMessage2 hS (h := { h with inFlight := true }) (f := f) he ha hp
  rw [show (h.role == Role.initiator) = true by rw [hrole]; rfl] at hx
  exact call_ready hr (by simp [body, hrole, hdone]) hx

theorem start_eq (hS : S.Lawful) (prologue : Bytes) (a : Priv) (ephemeral remoteStatic : Option Priv) :
    start S prologue (pairOf S a) (ephemeral.map (pairOf S)) (remoteStatic.map S.publicHalf) =
      .ok (fresh S prologue (pairOf S a) (ephemeral.map (pairOf S)) (remoteStatic.map S.publicHalf)) := by
  have ha := hS.publicHalf_length a
  unfold start
  rw [if_neg (by simp [ha]), if_neg, if_neg]
  · cases remoteStatic with
    | none => simp
    | some b => simp [hS.publicHalf_length b]
  · cases ephemeral with
    | none => simp
    | some e => simp [hS.publicHalf_length e]

end Handshake

open Handshake

/-! ## Two parties -/

/-- An initiator and a responder, what each has written, and the payloads each has read. -/
structure Wire (Priv : Type) where
  initiator     : Handshake Priv
  responder     : Handshake Priv
  fromInitiator : List Bytes
  fromResponder : List Bytes
  initiatorGot  : List Bytes
  responderGot  : List Bytes

namespace Wire

/-- Honest parties: `a` calls, knowing the key of `b`; each has its prologue, and may be given its ephemeral key. -/
def start (S : Suite Priv) (prologue prologue' : Bytes) (a b : Priv) (ephemeral ephemeral' : Option Priv) :
    Except HandshakeFault (Wire Priv) := do
  let initiator ← Handshake.start S prologue (pairOf S a) (ephemeral.map (pairOf S)) ((some b).map S.publicHalf)
  let responder ← Handshake.start S prologue' (pairOf S b) (ephemeral'.map (pairOf S)) (Option.map S.publicHalf none)
  return ⟨initiator, responder, [], [], [], []⟩

/-- What honest parties do: either writes a payload, with the ephemeral key it would make, and either reads a message that
the other wrote. -/
inductive Move (Priv : Type) where
  | initiatorWrites (payload : Bytes) (e : Priv)
  | responderWrites (payload : Bytes) (f : Priv)
  | initiatorReads (k : Nat)
  | responderReads (k : Nat)

def step (S : Suite Priv) (w : Wire Priv) : Move Priv → Wire Priv
  | .initiatorWrites payload e =>
    let r := w.initiator.call S (.writeMessage payload (pairOf S e))
    { w with initiator := r.1, fromInitiator := w.fromInitiator ++ r.2.toOption.toList }
  | .responderWrites payload f =>
    let r := w.responder.call S (.writeMessage payload (pairOf S f))
    { w with responder := r.1, fromResponder := w.fromResponder ++ r.2.toOption.toList }
  | .initiatorReads k          =>
    match w.fromResponder[k]? with
    | none         => w
    | some message =>
      let r := w.initiator.call S (.readMessage message)
      { w with initiator := r.1, initiatorGot := w.initiatorGot ++ r.2.toOption.toList }
  | .responderReads k          =>
    match w.fromInitiator[k]? with
    | none         => w
    | some message =>
      let r := w.responder.call S (.readMessage message)
      { w with responder := r.1, responderGot := w.responderGot ++ r.2.toOption.toList }

def honest (payload payload' : Bytes) (e f : Priv) : List (Move Priv) :=
  [.initiatorWrites payload e, .responderReads 0, .responderWrites payload' f, .initiatorReads 0]

/-- Both sides are done: each has the other's payload, the responder has the initiator's static key, and the two sessions
have one hash and each other's keys, unused. -/
def Agreed (w : Wire Priv) (key payload payload' : Bytes) : Prop :=
  w.responderGot = [payload] ∧ w.initiatorGot = [payload'] ∧ w.responder.remoteStatic = some key ∧
  ∃ s s', w.initiator.session = some s ∧ w.responder.session = some s' ∧ s.handshakeHash = s'.handshakeHash ∧
    s.send.key.isSome ∧ s.receive.key.isSome ∧ s.send.key = s'.receive.key ∧ s.receive.key = s'.send.key ∧
    s.send.n = 0 ∧ s.receive.n = 0 ∧ s'.send.n = 0 ∧ s'.receive.n = 0

theorem start_eq {S : Suite Priv} (hS : S.Lawful) (prologue prologue' : Bytes) (a b : Priv)
    (ephemeral ephemeral' : Option Priv) :
    start S prologue prologue' a b ephemeral ephemeral' =
      .ok ⟨fresh S prologue (pairOf S a) (ephemeral.map (pairOf S)) (some (S.publicHalf b)),
        fresh S prologue' (pairOf S b) (ephemeral'.map (pairOf S)) none, [], [], [], []⟩ := by
  unfold start
  rw [Handshake.start_eq hS, Handshake.start_eq hS]
  rfl

variable {S : Suite Priv} {w : Wire Priv} {h : Handshake Priv}

theorem step_initiatorWrites {payload m : Bytes} {e : Priv}
    (hc : w.initiator.call S (.writeMessage payload (pairOf S e)) = (h, .ok m)) :
    step S w (.initiatorWrites payload e) = { w with initiator := h, fromInitiator := w.fromInitiator ++ [m] } := by
  simp only [step, hc]
  rfl

theorem step_responderWrites {payload m : Bytes} {f : Priv}
    (hc : w.responder.call S (.writeMessage payload (pairOf S f)) = (h, .ok m)) :
    step S w (.responderWrites payload f) = { w with responder := h, fromResponder := w.fromResponder ++ [m] } := by
  simp only [step, hc]
  rfl

theorem step_initiatorReads {k : Nat} {m payload : Bytes} (hk : w.fromResponder[k]? = some m)
    (hc : w.initiator.call S (.readMessage m) = (h, .ok payload)) :
    step S w (.initiatorReads k) = { w with initiator := h, initiatorGot := w.initiatorGot ++ [payload] } := by
  simp only [step, hk, hc]
  rfl

theorem step_responderReads {k : Nat} {m payload : Bytes} (hk : w.fromInitiator[k]? = some m)
    (hc : w.responder.call S (.readMessage m) = (h, .ok payload)) :
    step S w (.responderReads k) = { w with responder := h, responderGot := w.responderGot ++ [payload] } := by
  simp only [step, hk, hc]
  rfl

end Wire

theorem getD_map_pairOf (S : Suite Priv) (ephemeral : Option Priv) (e : Priv) :
    (ephemeral.map (pairOf S)).getD (pairOf S e) = pairOf S (ephemeral.getD e) := by
  cases ephemeral <;> rfl

/-- **An honest run under one prologue completes.** -/
theorem Wire.honest_agreed (hS : S.Lawful) (prologue : Bytes) (a b : Priv) (ephemeral ephemeral' : Option Priv) (e f : Priv)
    {payload payload' : Bytes} (hp : message1Overhead + payload.length ≤ noiseMaxMessageLength)
    (hp' : message2Overhead + payload'.length ≤ noiseMaxMessageLength) {w : Wire Priv}
    (hw : start S prologue prologue a b ephemeral ephemeral' = .ok w) :
    (Steps.run (step S) w (honest payload payload' e f)).Agreed (S.publicHalf a) payload payload' := by
  rw [start_eq hS] at hw
  cases hw
  obtain ⟨i, hi⟩ : ∃ i, i = fresh S prologue (pairOf S a) (ephemeral.map (pairOf S)) (some (S.publicHalf b)) := ⟨_, rfl⟩
  obtain ⟨r, hr⟩ : ∃ r, r = fresh S prologue (pairOf S b) (ephemeral'.map (pairOf S)) none := ⟨_, rfl⟩
  -- both start in one symmetric state, and each message moves both to one
  have hsym : r.symmetric = i.symmetric := by rw [hi, hr]; rfl
  have h1 : i.call S (.writeMessage payload (pairOf S e)) = _ :=
    call_writeMessage1 hS (by rw [hi]; exact ⟨rfl, rfl, rfl⟩) (by rw [hi]; rfl) (by rw [hi]; rfl)
      (by rw [hi]; exact getD_map_pairOf S ephemeral e) (by rw [hi]; rfl) (by rw [hi]; rfl) hp
  have h2 : r.call S (.readMessage (message1 S r.symmetric (ephemeral.getD e) a b payload)) = _ :=
    call_readMessage1 hS (by rw [hr]; exact ⟨rfl, rfl, rfl⟩) (by rw [hr]; rfl) (by rw [hr]; rfl) (by rw [hr]; rfl) hp
  have h3 : (took1 S r (ephemeral.getD e) a b payload).call S (.writeMessage payload' (pairOf S f)) = _ :=
    call_writeMessage2 hS (by rw [hr]; exact ⟨rfl, rfl, rfl⟩) (by rw [hr]; rfl) (by rw [hr]; rfl)
      (by rw [hr]; exact getD_map_pairOf S ephemeral' f) rfl rfl hp'
  have h4 := call_readMessage2 hS (h := wrote1 S i (ephemeral.getD e) a b payload) (e := ephemeral.getD e) (a := a)
    (f := ephemeral'.getD f) (by rw [hi]; exact ⟨rfl, rfl, rfl⟩) (by rw [hi]; rfl) rfl rfl (by rw [hi]; rfl) hp'
  rw [← hi, ← hr]
  unfold honest
  rw [hsym] at h2
  have hsym' : (took1 S r (ephemeral.getD e) a b payload).symmetric =
      (wrote1 S i (ephemeral.getD e) a b payload).symmetric := by rw [took1, wrote1, hsym]
  rw [hsym'] at h3
  rw [Steps.run_cons, step_initiatorWrites h1, Steps.run_cons, step_responderReads rfl h2, Steps.run_cons,
    step_responderWrites h3, Steps.run_cons, step_initiatorReads rfl h4, Steps.run_nil]
  refine ⟨rfl, rfl, rfl, _, _, rfl, rfl, ?_, rfl, rfl, ?_, ?_, rfl, rfl, rfl, rfl⟩
  all_goals rw [hsym']; rfl

/-! ## Different prologues -/

/-- The hash in which the initiator's static key is sealed, which is the seal's associated data. -/
def transcript (S : Suite Priv) (prologue : Bytes) (b e : Priv) : Bytes :=
  S.sha256 (S.sha256 (S.sha256 (noiseProtocolName ++ prologue) ++ S.publicHalf b) ++ S.publicHalf e)

theorem transcript_ne (hinj : Function.Injective S.sha256) {prologue prologue' : Bytes} (hne : prologue ≠ prologue')
    (b e : Priv) : transcript S prologue b e ≠ transcript S prologue' b e := by
  intro h
  have h1 := List.append_cancel_right (hinj h)
  have h2 := List.append_cancel_right (hinj h1)
  exact hne (List.append_cancel_left (hinj h2))

/-- What is sealed with one associated data is not opened with another. -/
def AeadAd.Binds (A : AeadAd) (ad ad' : Bytes) : Prop :=
  ad ≠ ad' → ∀ key nonce p, A.decrypt key nonce ad' (A.encrypt key nonce ad p) = none

namespace Handshake

open Resumption

variable {S : Suite Priv} {h : Handshake Priv}

theorem call_error (hs : h.session = none) {request : Request Priv} {h' : Handshake Priv} {fault : HandshakeFault}
    (hx : exec (h.body S request) { h with inFlight := true } = (h', .error fault)) (hs' : h'.session = none) :
    (h.call S request).1.failed = true ∧ (h.call S request).1.session = none ∧ ∃ e, (h.call S request).2 = .error e := by
  unfold call enter
  by_cases hf : h.failed = true
  · rw [if_pos hf]
    exact ⟨hf, hs, _, rfl⟩
  · rw [if_neg hf, if_neg (by simp [hs])]
    by_cases hi : h.inFlight = true
    · rw [if_pos hi]
      exact ⟨rfl, hs, _, rfl⟩
    · rw [if_neg hi]
      simp only [hx]
      exact ⟨rfl, hs', _, rfl⟩

theorem call_failed (S : Suite Priv) (hf : h.failed = true) (request : Request Priv) :
    h.call S request = (h, .error .alreadyFailed) := by
  unfold call enter
  rw [if_pos hf]

theorem exec_writeMessage1_long {payload : Bytes} (pair : NoiseKeyPair Priv)
    (hp : noiseMaxMessageLength < message1Overhead + payload.length) (h : Handshake Priv) :
    exec (writeMessage1 S payload pair) h = (h, .error (.cipher .overLength)) := by
  refine exec_bind_error ?_
  unfold requireMessageLength requireMaxMessageLength
  rw [if_neg (by omega), if_pos (by omega)]
  rfl

theorem exec_decryptAndHash_error {c key : Bytes} (hk : h.symmetric.cipher = ⟨some key, 0⟩)
    (hc : c.length ≤ noiseMaxMessageLength)
    (hdec : S.aead.decrypt key SymmetricState.firstNonce h.symmetric.hash c = none) :
    exec (decryptAndHash S c) h = (h, .error (.cipher .authentication)) := by
  have hnonce : noiseNonceBytes 0 = .ok SymmetricState.firstNonce := rfl
  refine exec_act_error ?_
  unfold SymmetricState.decryptAndHash CipherState.decryptWithAd
  rw [if_neg (not_lt.mpr hc), hk]
  simp only [hnonce, AeadAd.under, hdec]
  rfl

/-- A first message sealed in another transcript: the responder does not get past the static key. -/
theorem exec_readMessage1_other (hS : S.Lawful) {s : SymmetricState} {e a b : Priv} {payload : Bytes}
    (hb : h.static = pairOf S b) (hp : message1Overhead + payload.length ≤ noiseMaxMessageLength)
    (hck : s.chainingKey = h.symmetric.chainingKey)
    (hdec : ∀ key nonce p, S.aead.decrypt key nonce (S.sha256 (h.symmetric.hash ++ S.publicHalf e)) (S.aead.encrypt key nonce (S.sha256 (s.hash ++ S.publicHalf e)) p) = none) :
    
    ∃ h', exec (readMessage1 S (message1 S s e a b payload)) h = (h', .error (.cipher .authentication)) ∧
      h'.session = h.session := by
  obtain ⟨hlen, hkey, hstatic, -⟩ := message1_parts hS s e a b payload
  unfold readMessage1
  dsimp only
  rw [hlen, hkey, hstatic, exec_bind_ok (exec_requireMessageLength (Nat.le_add_right _ _) hp h),
    exec_bind_ok (exec_write _ _), exec_bind_ok (exec_mixHash S _ _), exec_bind_ok (exec_read _ _)]
  simp only [hb, pairOf_privateKey]
  rw [exec_bind_ok (exec_dh hS b e _), hS.shared_comm b e, exec_bind_ok (exec_mixKey hS _ _)]
  have hfits : ((atStatic S s e b).sealOf S (S.publicHalf a)).length ≤ noiseMaxMessageLength := by
    rw [SymmetricState.length_sealOf hS]
    exact publicHalf_fits hS a
  refine ⟨_, exec_bind_error (exec_decryptAndHash_error rfl hfits ?_), rfl⟩
  unfold SymmetricState.sealOf atStatic SymmetricState.withKey SymmetricState.mixHash
  rw [hck]
  exact hdec _ _ _

end Handshake

namespace Wire

/-- No message of the responder's, and none of the initiator's that the responder can read. -/
structure Apart (S : Suite Priv) (i r : Handshake Priv) (a b : Priv) (w : Wire Priv) : Prop where
  initiator : w.initiator.session = none ∧ (w.initiator.failed = true ∨ w.initiator = i ∨
    (w.initiator.role = .initiator ∧ w.initiator.firstMessageDone = true))
  responder : w.responder.session = none ∧ (w.responder.failed = true ∨ w.responder = r)
  sent      : ∀ m ∈ w.fromInitiator, ∃ e payload, message1Overhead + payload.length ≤ noiseMaxMessageLength ∧
    m = message1 S i.symmetric e a b payload
  silent    : w.fromResponder = []

theorem Apart.responder_error {S : Suite Priv} {i r : Handshake Priv} {a b : Priv} {w : Wire Priv}
    (hw : w.Apart S i r a b) {request : Request Priv}
    (hr : w.responder = r → ∃ h' fault, Resumption.exec (r.body S request) { r with inFlight := true } = (h', .error fault) ∧
      h'.session = none) :
    ∃ e, (w.responder.call S request).2 = .error e ∧ (w.responder.call S request).1.session = none ∧
      (w.responder.call S request).1.failed = true := by
  obtain ⟨hs, hf | rfl⟩ := hw.responder
  · rw [call_failed S hf]
    exact ⟨_, rfl, hs, hf⟩
  · obtain ⟨h', fault, hx, hs'⟩ := hr rfl
    obtain ⟨hf, hn, e, he⟩ := call_error hs hx hs'
    exact ⟨e, he, hn, hf⟩

section

variable {S : Suite Priv} (hS : S.Lawful) {prologue prologue' : Bytes} {a b : Priv} {ephemeral ephemeral' : Option Priv}
variable {i r : Handshake Priv}
variable (hi : i = fresh S prologue (pairOf S a) (ephemeral.map (pairOf S)) (some (S.publicHalf b)))
variable (hr : r = fresh S prologue' (pairOf S b) (ephemeral'.map (pairOf S)) none)

include hS hi in
theorem apart_initiatorWrites (w : Wire Priv) (payload : Bytes) (e : Priv) (hw : w.Apart S i r a b) :
    (step S w (.initiatorWrites payload e)).Apart S i r a b := by
  have herror : ∀ {h : Handshake Priv}, h.session = none → h.failed = true → ∀ {l : List Bytes}, l = [] →
      Apart S i r a b { w with initiator := h, fromInitiator := w.fromInitiator ++ l } := by
    rintro h hs hf _ rfl
    rw [List.append_nil]
    exact ⟨⟨hs, .inl hf⟩, hw.responder, hw.sent, hw.silent⟩
  show Apart S i r a b { w with
    initiator := (w.initiator.call S (.writeMessage payload (pairOf S e))).1
    fromInitiator := w.fromInitiator ++ (w.initiator.call S (.writeMessage payload (pairOf S e))).2.toOption.toList }
  obtain ⟨hs, hf | hfresh | ⟨hrole, hdone⟩⟩ := hw.initiator
  · rw [call_failed S hf]
    exact herror hs hf rfl
  · rw [hfresh]
    by_cases hp : message1Overhead + payload.length ≤ noiseMaxMessageLength
    · rw [call_writeMessage1 hS (e := ephemeral.getD e) (a := a) (b := b) (by rw [hi]; exact ⟨rfl, rfl, rfl⟩)
        (by rw [hi]; rfl) (by rw [hi]; rfl) (by rw [hi]; exact getD_map_pairOf S ephemeral e) (by rw [hi]; rfl)
        (by rw [hi]; rfl) hp]
      refine ⟨⟨by rw [hi]; rfl, .inr (.inr ⟨by rw [hi]; rfl, rfl⟩)⟩, hw.responder, ?_, hw.silent⟩
      intro m hm
      rcases List.mem_append.mp hm with hm | hm
      · exact hw.sent m hm
      · exact ⟨_, payload, hp, List.mem_singleton.mp hm⟩
    · have hbody : i.body S (.writeMessage payload (pairOf S e)) = writeMessage1 S payload (pairOf S e) := by
        rw [hi]
        rfl
      have hx := exec_writeMessage1_long (S := S) (pairOf S e) (not_le.mp hp) { i with inFlight := true }
      rw [← hbody] at hx
      rw [hfresh] at hs
      obtain ⟨hf, hn, fault, he⟩ := call_error hs hx hs
      exact herror hn hf (by rw [he]; rfl)
  · have hx : Resumption.exec (w.initiator.body S (.writeMessage payload (pairOf S e)))
        { w.initiator with inFlight := true } = ({ w.initiator with inFlight := true }, .error (.turn .initiator true)) := by
      simp [body, hrole, hdone]
    obtain ⟨hf, hn, fault, he⟩ := call_error hs hx hs
    exact herror hn hf (by rw [he]; rfl)

include hr in
theorem apart_responderWrites (w : Wire Priv) (payload : Bytes) (f : Priv) (hw : w.Apart S i r a b) :
    (step S w (.responderWrites payload f)).Apart S i r a b := by
  have hx : Resumption.exec (r.body S (.writeMessage payload (pairOf S f))) { r with inFlight := true } =
      ({ r with inFlight := true }, .error (.turn .responder true)) := by
    rw [hr]
    rfl
  obtain ⟨fault, he, hs, hf⟩ := hw.responder_error (fun _ => ⟨_, _, hx, by rw [hr]; rfl⟩)
  refine ⟨hw.initiator, ⟨hs, .inl hf⟩, hw.sent, ?_⟩
  show w.fromResponder ++ (w.responder.call S _).2.toOption.toList = []
  rw [he, hw.silent]
  rfl

theorem apart_initiatorReads (w : Wire Priv) (k : Nat) (hw : w.Apart S i r a b) :
    (step S w (.initiatorReads k)).Apart S i r a b := by
  simp only [step, hw.silent, List.getElem?_nil]
  exact hw

include hS hi hr in
theorem apart_responderReads
    (hdec : ∀ e key nonce p, S.aead.decrypt key nonce (transcript S prologue' b e)
      (S.aead.encrypt key nonce (transcript S prologue b e) p) = none) (w : Wire Priv) (k : Nat)
    (hw : w.Apart S i r a b) : (step S w (.responderReads k)).Apart S i r a b := by
  cases hk : w.fromInitiator[k]? with
  | none =>
    simp only [step, hk]
    exact hw
  | some m =>
    simp only [step, hk]
    obtain ⟨e, payload, hp, rfl⟩ := hw.sent m (List.mem_of_getElem? hk)
    obtain ⟨h', hx, hs'⟩ := exec_readMessage1_other hS (h := { r with inFlight := true }) (s := i.symmetric) (e := e)
      (a := a) (b := b) (by rw [hr]; rfl) hp (by rw [hi, hr]; rfl) (by rw [hi, hr]; exact hdec e)
    have hbody : r.body S (.readMessage (message1 S i.symmetric e a b payload)) =
        readMessage1 S (message1 S i.symmetric e a b payload) := by
      rw [hr]
      rfl
    obtain ⟨fault, -, hs, hf⟩ := hw.responder_error (fun _ => ⟨h', _, by rw [hbody]; exact hx, by rw [hs', hr]; rfl⟩)
    exact ⟨hw.initiator, ⟨hs, .inl hf⟩, hw.sent, hw.silent⟩

end

/-- **Under different prologues neither side completes**, whatever the parties do. -/
theorem apart_run {S : Suite Priv} (hS : S.Lawful) (hinj : Function.Injective S.sha256) {prologue prologue' : Bytes}
    (hne : prologue ≠ prologue') {a b : Priv}
    (hbinds : ∀ e, S.aead.Binds (transcript S prologue b e) (transcript S prologue' b e))
    {ephemeral ephemeral' : Option Priv} {w : Wire Priv}
    (hw : start S prologue prologue' a b ephemeral ephemeral' = .ok w) (moves : List (Move Priv)) :
    (Steps.run (step S) w moves).initiator.session = none ∧ (Steps.run (step S) w moves).responder.session = none := by
  rw [start_eq hS] at hw
  cases hw
  have hdec := fun e => hbinds e (transcript_ne hinj hne b e)
  have hstep : ∀ (w : Wire Priv) (move : Move Priv),
      w.Apart S (fresh S prologue (pairOf S a) (ephemeral.map (pairOf S)) (some (S.publicHalf b)))
        (fresh S prologue' (pairOf S b) (ephemeral'.map (pairOf S)) none) a b →
      (step S w move).Apart S (fresh S prologue (pairOf S a) (ephemeral.map (pairOf S)) (some (S.publicHalf b)))
        (fresh S prologue' (pairOf S b) (ephemeral'.map (pairOf S)) none) a b := by
    intro w move hw
    cases move with
    | initiatorWrites payload e => exact apart_initiatorWrites hS rfl w payload e hw
    | responderWrites payload f => exact apart_responderWrites rfl w payload f hw
    | initiatorReads k => exact apart_initiatorReads w k hw
    | responderReads k => exact apart_responderReads hS rfl rfl hdec w k hw
  have h := Steps.run_invariant hstep moves ⟨_, _, [], [], [], []⟩
    ⟨⟨rfl, .inr (.inl rfl)⟩, ⟨rfl, .inr rfl⟩, fun m hm => absurd hm List.not_mem_nil, rfl⟩
  exact ⟨h.initiator.1, h.responder.1⟩

end Wire

/-- **An honest handshake agrees on everything or on nothing.**  Under one prologue, with payloads that fit their messages,
it completes: each side has the other's payload, the responder has the initiator's key, and the sessions match.  Under
different prologues neither side completes, in any run of honest parties, if the hash is injective and the cipher binds the
two transcripts. -/
theorem honest_handshake_agrees {S : Suite Priv} (hS : S.Lawful) (a b : Priv) (ephemeral ephemeral' : Option Priv) :
    (∀ (prologue payload payload' : Bytes) (e f : Priv),
      message1Overhead + payload.length ≤ noiseMaxMessageLength →
      message2Overhead + payload'.length ≤ noiseMaxMessageLength →
      ∃ w, Wire.start S prologue prologue a b ephemeral ephemeral' = .ok w ∧
        (Steps.run (Wire.step S) w (Wire.honest payload payload' e f)).Agreed (S.publicHalf a) payload payload') ∧
    (∀ prologue prologue' : Bytes, prologue ≠ prologue' → Function.Injective S.sha256 →
      (∀ e, S.aead.Binds (transcript S prologue b e) (transcript S prologue' b e)) →
      ∃ w, Wire.start S prologue prologue' a b ephemeral ephemeral' = .ok w ∧ ∀ moves,
        (Steps.run (Wire.step S) w moves).initiator.session = none ∧
        (Steps.run (Wire.step S) w moves).responder.session = none) := by
  constructor
  · intro prologue payload payload' e f hp hp'
    exact ⟨_, Wire.start_eq hS .., Wire.honest_agreed hS prologue a b _ _ e f hp hp' (Wire.start_eq hS ..)⟩
  · intro prologue prologue' hne hinj hbinds
    exact ⟨_, Wire.start_eq hS .., Wire.apart_run hS hinj hne hbinds (Wire.start_eq hS ..)⟩

/-! A small suite: a hash that forgets nothing, keys that are one byte, and a tag that is the first byte of the prologue. -/

def smallTag (ad : Bytes) : Bytes := ad.getD 32 0 :: List.replicate 15 0

def smallSuite : Suite UInt8 where
  sha256     := id
  noiseHkdf  := fun chainingKey input => (List.replicate 32 (chainingKey.getD 0 0), List.replicate 32 (input.getD 1 0))
  deriveBits := fun a key => some (1 :: (a + key.getD 0 0) :: List.replicate 30 0)
  publicHalf := fun a => a :: List.replicate 31 0
  aead       :=
    { encrypt := fun _ _ ad p => p ++ smallTag ad
      decrypt := fun _ _ ad c =>
        if c.drop (c.length - 16) = smallTag ad then some (c.take (c.length - 16)) else none }

theorem smallSuite_lawful : smallSuite.Lawful where
  publicHalf_length a := by simp [smallSuite, noiseKeyLength]
  agrees a b := by
    refine ⟨1 :: (a + b) :: List.replicate 30 0, rfl, ?_, rfl, ?_⟩
    · show some (1 :: (b + a) :: List.replicate 30 0) = _
      rw [UInt8.add_comm]
    · intro h
      exact absurd (List.cons.inj h).1 (by decide)
  hkdf_length chainingKey input := ⟨List.length_replicate, List.length_replicate⟩
  seal_length key nonce ad p := by simp [smallSuite, smallTag, noiseTagLength]
  opens key nonce ad p := by simp [smallSuite, smallTag]

theorem smallSuite_binds (e : UInt8) :
    smallSuite.aead.Binds (transcript smallSuite [1] 2 e) (transcript smallSuite [2] 2 e) := by
  intro _ key nonce p
  have h1 : smallTag (transcript smallSuite [1] 2 e) = 1 :: List.replicate 15 0 := rfl
  have h2 : smallTag (transcript smallSuite [2] 2 e) = 2 :: List.replicate 15 0 := rfl
  simp only [smallSuite] at h1 h2 ⊢
  rw [h1, h2]
  simp

theorem honest_handshake_small :
    (∃ w, Wire.start smallSuite [1] [1] 1 2 none (some 3) = .ok w ∧
      (Steps.run (Wire.step smallSuite) w (Wire.honest [7] [8, 9] 4 5)).Agreed (smallSuite.publicHalf 1) [7] [8, 9]) ∧
    ∃ w, Wire.start smallSuite [1] [2] 1 2 none (some 3) = .ok w ∧ ∀ moves,
      (Steps.run (Wire.step smallSuite) w moves).initiator.session = none ∧
      (Steps.run (Wire.step smallSuite) w moves).responder.session = none :=
  ⟨(honest_handshake_agrees smallSuite_lawful 1 2 none (some 3)).1 [1] [7] [8, 9] 4 5 (by decide) (by decide),
    (honest_handshake_agrees smallSuite_lawful 1 2 none (some 3)).2 [1] [2] (by decide) (fun _ _ h => h)
      smallSuite_binds⟩

theorem Wire.honest_oversize (hS : S.Lawful) (prologue : Bytes) (a b e f : Priv) {payload : Bytes}
    (hp : noiseMaxMessageLength < message1Overhead + payload.length) (payload' : Bytes) {w : Wire Priv}
    (hw : start S prologue prologue a b none none = .ok w) :
    (Steps.run (step S) w (honest payload payload' e f)).initiator.session = none ∧
      (Steps.run (step S) w (honest payload payload' e f)).responder.session = none := by
  rw [start_eq hS] at hw
  cases hw
  obtain ⟨i, hi⟩ : ∃ i, i = fresh S prologue (pairOf S a) none (some (S.publicHalf b)) := ⟨_, rfl⟩
  have hready : i.Ready := by rw [hi]; exact ⟨rfl, rfl, rfl⟩
  have hbody : i.body S (.writeMessage payload (pairOf S e)) = writeMessage1 S payload (pairOf S e) := by rw [hi]; rfl
  have hc := call_ready hready hbody (exec_writeMessage1_long (pairOf S e) hp { i with inFlight := true })
  have hstep : step S ⟨i, fresh S prologue (pairOf S b) none none, [], [], [], []⟩ (.initiatorWrites payload e) =
      ⟨{ i with failed := true, inFlight := false }, fresh S prologue (pairOf S b) none none, [], [], [], []⟩ := by
    simp only [step, hc]
    rfl
  simp only [Option.map_none, ← hi]
  rw [honest, Steps.run_cons, hstep]
  exact ⟨hready.session, rfl⟩

theorem oversize_payload_refused :
    smallSuite.Lawful ∧ ∃ w, Wire.start smallSuite [1] [1] 1 2 none none = .ok w ∧
      (Steps.run (Wire.step smallSuite) w (Wire.honest (List.replicate 65440 0) [] 4 5)).initiator.session = none ∧
      (Steps.run (Wire.step smallSuite) w (Wire.honest (List.replicate 65440 0) [] 4 5)).responder.session = none :=
  ⟨smallSuite_lawful, _, Wire.start_eq smallSuite_lawful ..,
    Wire.honest_oversize smallSuite_lawful [1] 1 2 4 5
      (by rw [List.length_replicate]; decide) [] (Wire.start_eq smallSuite_lawful ..)⟩

end Noise
end Dormouse

import Dormouse.Acl
import Dormouse.OrdMap
/-!
# BurrowCeremony — what a Burrow's ceremonies are decided by

The pieces `BurrowRuntime` is composed of, each from its own source: the single-use challenges (`challenge.ts`), the
presence windows (`presence-window.ts`), the token bucket (`token-bucket.ts`) and the presence verifier
(`e2e-ceremony.ts`), all of `remote-lib-common/src/security`, and what one revocation names
(`lib/src/remote/burrow/acl.ts`).  The clock a method reads is an argument of it, and so are the random bytes.  The
hashes and the signature check of WebCrypto are parameters (`PresenceCrypto`).
-/
namespace Dormouse

/-! ## Challenges -/

def defaultChallengeTtlMs : Int := 2 * 60 * 1000

/-- The challenges issued and not yet consumed, with the instant each expires at. -/
structure ChallengeIssuer where
  pending : OrdMap JsString Int

namespace ChallengeIssuer

/-- The expired challenges at the front go; every challenge lives as long as the next, so they are a front part. -/
def sweepExpiredFront (issuer : ChallengeIssuer) (now : Int) : ChallengeIssuer where
  pending :=
    { entries := issuer.pending.entries.dropWhile (fun e => ¬ now < e.2)
      nodup   := issuer.pending.nodup.sublist ((List.dropWhile_sublist _).map Prod.fst) }

/-- The issuer of a Burrow is given no ceiling, so that nothing is evicted. -/
def issue (issuer : ChallengeIssuer) (challenge : JsString) (now : Int) : ChallengeIssuer × Int :=
  let expiresAt := now + defaultChallengeTtlMs
  ({ pending := (issuer.sweepExpiredFront now).pending.set challenge expiresAt }, expiresAt)

/-- True only for a challenge that is held and has not expired; it is held no more either way. -/
def consume (issuer : ChallengeIssuer) (challenge : JsString) (now : Int) : ChallengeIssuer × Bool :=
  match issuer.pending.get challenge with
  | none           => (issuer, false)
  | some expiresAt => ({ pending := issuer.pending.delete challenge }, now < expiresAt)

end ChallengeIssuer

/-! ## Presence windows -/

def presenceWindowIdleMs : Int := 300000
def presenceWindowMaxMs : Int := 12 * 60 * 60 * 1000

structure PresenceWindowRecord where
  accountId            : JsString
  passkeyCredentialId  : JsString
  passkeyPublicKeyHash : JsString
  deriving DecidableEq

def BurrowAclRecord.presented (r : BurrowAclRecord) : PresenceWindowRecord :=
  ⟨r.accountId, r.passkeyCredentialId, r.passkeyPublicKeyHash⟩

structure PresenceWindowEntry extends PresenceWindowRecord where
  provedAt : Int
  activeAt : Int
  deriving DecidableEq

structure PresenceWindows where
  entries : OrdMap JsString PresenceWindowEntry

namespace PresenceWindows

def sweepCapped (w : PresenceWindows) (now : Int) : PresenceWindows where
  entries :=
    { entries := w.entries.entries.filter (fun e => ¬ now - e.2.provedAt ≥ presenceWindowMaxMs)
      nodup   := w.entries.nodup.sublist (List.filter_sublist.map Prod.fst) }

def seed (w : PresenceWindows) (clientStaticPublicKey : JsString) (record : PresenceWindowRecord) (provedAt now : Int) :
    PresenceWindows :=
  { entries := (w.sweepCapped now).entries.set clientStaticPublicKey ⟨record, provedAt, provedAt⟩ }

def noteActivity (w : PresenceWindows) (clientStaticPublicKey : JsString) (activeAt : Int) : PresenceWindows :=
  match w.entries.get clientStaticPublicKey with
  | none       => w
  | some entry =>
    if activeAt ≤ entry.activeAt then w
    else { entries := w.entries.set clientStaticPublicKey { entry with activeAt } }

/-- The window of a Client static where it is open; a closed one is dropped on the way. -/
def open' (w : PresenceWindows) (clientStaticPublicKey : JsString) (now : Int) :
    PresenceWindows × Option PresenceWindowEntry :=
  match w.entries.get clientStaticPublicKey with
  | none       => (w, none)
  | some entry =>
    if now - entry.activeAt < presenceWindowIdleMs ∧ now - entry.provedAt < presenceWindowMaxMs then (w, some entry)
    else ({ entries := w.entries.delete clientStaticPublicKey }, none)

def clear : PresenceWindows := ⟨.empty⟩

def forget (w : PresenceWindows) (clientStaticPublicKey : JsString) : PresenceWindows :=
  ⟨w.entries.delete clientStaticPublicKey⟩

end PresenceWindows

/-! ## The token bucket -/

structure TokenBucket where
  capacity         : Nat
  refillIntervalMs : Nat
  tokens           : Nat
  lastRefillAt     : Int

/-- One token is spent, if there is one after the refill of the whole intervals since the last. -/
def TokenBucket.take (b : TokenBucket) (now : Int) : TokenBucket × Bool :=
  let elapsed := (now - b.lastRefillAt).toNat
  let refill  := elapsed / b.refillIntervalMs
  let b := if refill > 0 then
      { b with tokens := min b.capacity (b.tokens + refill), lastRefillAt := b.lastRefillAt + refill * b.refillIntervalMs }
    else b
  if b.tokens > 0 then ({ b with tokens := b.tokens - 1 }, true) else (b, false)

/-! ## Presence proofs -/

inductive PresenceBinding where
  | pairing (burrowId handshakeHash passkeyCredentialId : JsString)
  | connection (burrowId connectionId burrowChallenge handshakeHash passkeyCredentialId : JsString)
  deriving DecidableEq

def PresenceBinding.passkeyCredentialId : PresenceBinding → JsString
  | .pairing _ _ passkeyCredentialId        => passkeyCredentialId
  | .connection _ _ _ _ passkeyCredentialId => passkeyCredentialId

structure PasskeyAssertion where
  credentialId      : JsString
  clientDataJson    : JsString
  authenticatorData : JsString
  signature         : JsString
  deriving DecidableEq

structure PresenceProofV1 where
  binding             : PresenceBinding
  relayNonce          : JsString
  accountId           : JsString
  passkeyCredentialId : JsString
  passkeyPublicKey    : JsString
  assertion           : PasskeyAssertion
  deriving DecidableEq

structure ConnectionPolicy where
  rpId                    : JsString
  origin                  : JsString
  requireUserVerification : Bool
  deriving DecidableEq

inductive PresenceProofFailure where
  | malformed
  | bindingMismatch
  | credentialMismatch
  | challengeUnderivable
  | assertionInvalid
  deriving DecidableEq

def ceremonyFieldLimit : Nat := 1024

def bounded (value : JsString) : Bool := value.length ≤ ceremonyFieldLimit

def isPresenceBinding : PresenceBinding → Bool
  | .pairing burrowId handshakeHash passkeyCredentialId =>
    bounded burrowId && bounded handshakeHash && bounded passkeyCredentialId
  | .connection burrowId connectionId burrowChallenge handshakeHash passkeyCredentialId =>
    bounded burrowId && bounded connectionId && bounded burrowChallenge && bounded handshakeHash &&
      bounded passkeyCredentialId

def isPasskeyAssertion (a : PasskeyAssertion) : Bool :=
  bounded a.credentialId && bounded a.clientDataJson && bounded a.authenticatorData && bounded a.signature

def isPresenceProofV1 (proof : PresenceProofV1) : Bool :=
  isPresenceBinding proof.binding && bounded proof.relayNonce && bounded proof.accountId &&
    bounded proof.passkeyCredentialId && bounded proof.passkeyPublicKey && isPasskeyAssertion proof.assertion

/-- What the ceremonies take from WebCrypto: `none` where the source's function throws. -/
structure PresenceCrypto where
  presenceChallenge      : PresenceBinding → JsString → Option JsString
  verifyPasskeyAssertion : PasskeyAssertion → JsString → JsString → ConnectionPolicy → Bool
  hashPasskeyPublicKey   : JsString → Option JsString
  /-- The payload of connection message 2, in base64url: the challenge, and whether a window is offered. -/
  connectionMessage2     : JsString → Bool → JsString

def bindingEquals : PresenceBinding → PresenceBinding → Bool
  | .pairing burrowId handshakeHash passkeyCredentialId, .pairing burrowId' handshakeHash' passkeyCredentialId' =>
    burrowId == burrowId' && handshakeHash == handshakeHash' && passkeyCredentialId == passkeyCredentialId'
  | .connection burrowId connectionId burrowChallenge handshakeHash passkeyCredentialId,
    .connection burrowId' connectionId' burrowChallenge' handshakeHash' passkeyCredentialId' =>
    burrowId == burrowId' && connectionId == connectionId' && burrowChallenge == burrowChallenge' &&
      handshakeHash == handshakeHash' && passkeyCredentialId == passkeyCredentialId'
  | _, _ => false

def verifyPresenceProof (C : PresenceCrypto) (proof : PresenceProofV1) (expected : PresenceBinding)
    (policy : ConnectionPolicy) : Except PresenceProofFailure JsString :=
  if !isPresenceProofV1 proof then .error .malformed
  else if !bindingEquals proof.binding expected then .error .bindingMismatch
  else if proof.assertion.credentialId ≠ proof.binding.passkeyCredentialId then .error .credentialMismatch
  else if proof.passkeyCredentialId ≠ proof.binding.passkeyCredentialId then .error .credentialMismatch
  else
    match C.presenceChallenge proof.binding proof.relayNonce with
    | none           => .error .challengeUnderivable
    | some challenge =>
      if !C.verifyPasskeyAssertion proof.assertion proof.passkeyPublicKey challenge policy then .error .assertionInvalid
      else
        match C.hashPasskeyPublicKey proof.passkeyPublicKey with
        | none                      => .error .assertionInvalid
        | some passkeyPublicKeyHash => .ok passkeyPublicKeyHash

theorem bindingEquals_iff {left right : PresenceBinding} : bindingEquals left right = true ↔ left = right := by
  cases left <;> cases right <;> simp [bindingEquals, and_assoc]

/-- **A proof that verifies is bound to what was expected**, under the passkey whose assertion it carries. -/
theorem verifyPresenceProof_bound {C : PresenceCrypto} {proof : PresenceProofV1} {expected : PresenceBinding}
    {policy : ConnectionPolicy} {hash : JsString} (h : verifyPresenceProof C proof expected policy = .ok hash) :
    proof.binding = expected := by
  unfold verifyPresenceProof at h
  by_cases hw : isPresenceProofV1 proof = true
  · by_cases hb : bindingEquals proof.binding expected = true
    · exact bindingEquals_iff.1 hb
    · simp [hw, hb] at h
  · simp [hw] at h

/-! ## What one revocation names -/

inductive RevocationTarget where
  | client (clientStaticPublicKey : JsString)
  | passkey (passkeyCredentialId : JsString)
  deriving DecidableEq

def revocationNames : RevocationTarget → (clientStaticPublicKey passkeyCredentialId : JsString) → Bool
  | .client c, clientStaticPublicKey, _ => clientStaticPublicKey == c
  | .passkey p, _, passkeyCredentialId  => passkeyCredentialId == p

def RevocationTarget.names (target : RevocationTarget) (r : BurrowAclRecord) : Bool :=
  revocationNames target r.clientStaticPublicKey r.passkeyCredentialId

def revokeTarget (acl : BurrowAcl) (target : RevocationTarget) (now : Int) : BurrowAcl × List BurrowAclRecord :=
  let hit := acl.activeRecords.filter target.names
  match target with
  | .client c  => ((acl.revokeClient c now).1, hit)
  | .passkey p => ((acl.revokePasskey p now).1, hit)

theorem revokeTarget_fst (acl : BurrowAcl) (target : RevocationTarget) (now : Int) :
    (revokeTarget acl target now).1 = (acl.revokeMatching target.names now).1 := by
  cases target <;> rfl

theorem active_revokeTarget {acl : BurrowAcl} {target : RevocationTarget} {now : Int} {r : BurrowAclRecord} :
    (revokeTarget acl target now).1.Active r ↔ acl.Active r ∧ target.names r = false := by
  rw [revokeTarget_fst]
  exact BurrowAcl.active_revokeMatching

theorem active_foldl_revokeTarget {now : Int} {r : BurrowAclRecord} :
    ∀ (targets : List RevocationTarget) (acl : BurrowAcl),
      (targets.foldl (fun acl target => (revokeTarget acl target now).1) acl).Active r ↔
        acl.Active r ∧ ∀ target ∈ targets, target.names r = false
  | [], acl => by simp
  | target :: targets, acl => by
    rw [List.foldl_cons, active_foldl_revokeTarget targets, active_revokeTarget, List.forall_mem_cons, and_assoc]

theorem mem_revokeTarget_snd {acl : BurrowAcl} {target : RevocationTarget} {now : Int} {r : BurrowAclRecord} :
    r ∈ (revokeTarget acl target now).2 ↔ acl.Active r ∧ target.names r = true := by
  have h : (revokeTarget acl target now).2 = acl.activeRecords.filter target.names := by cases target <;> rfl
  rw [h, List.mem_filter, BurrowAcl.activeRecords, List.mem_filter, beq_iff_eq]
  rfl

end Dormouse

import Dormouse.BurrowCeremony
/-!
# BurrowRuntime — pairing, connection and revocation on one Burrow

`BurrowRuntime` of `lib/src/remote/burrow/burrow-runtime.ts` as a step function.  Each input is one synchronous stretch of
the class: a frame arriving, the frame chain taking its next frame, an `await` of the frame in hand settling, a call of
`approve`, `deny` or `revoke`, the approval queue starting a write, a delivery id minted, a write settled, a timer, a
teardown.  What outside code decides is an argument of the input: the clock, the random ids, what a ciphertext decrypts
to, whether a handshake or a write succeeds.

An object the class compares by identity has a `Ref`, given once.  The policy is compared by value: it is replaced only
by one that differs from it.  The messages sent, the access log and the callbacks are left out: nothing here reads them.
So are the socket's own lifecycle but for its teardown, and what goes on inside an established session, whose activity,
switch to the direct path and ending are inputs.  `trace` is no field of the class: it records what the results speak of.
-/
namespace Dormouse
namespace Burrow

abbrev ClientId := JsString
abbrev Ref := Nat

def maxPendingPairings : Nat := 8
def maxPendingConnectionHandshakes : Nat := 8
def maxEstablishedE2eSessions : Nat := 16
def maxTokensPerBurrow : Nat := 8
def maxQueuedRelayFrames : Nat := 128
def maxQueuedRelayFrameChars : Nat := 4 * 1024 * 1024
def defaultPairingTtlMs : Int := 5 * 60 * 1000
def establishedE2eIdleTimeoutMs : Int := 120000
def directOnlyDeadlineMs : Int := 15000 + 15000

structure HeldInvitation where
  ref       : Ref
  expiresAt : Int
  reserved  : Bool
  deriving DecidableEq

structure PairingApproval where
  code                 : JsString
  accountId            : JsString
  passkeyCredentialId  : JsString
  passkeyPublicKeyHash : JsString
  label                : JsString
  verifiedAt           : Int
  policy               : ConnectionPolicy
  deriving DecidableEq

structure PendingPairingSession where
  ref                   : Ref
  inviteId              : JsString
  pairingId             : JsString
  handshakeHash         : JsString
  clientStaticPublicKey : JsString
  requestedAt           : Int
  expiresAt             : Int
  committing            : Bool
  approval              : Option PairingApproval
  attempted             : Bool
  deriving DecidableEq

structure PendingConnectionSession where
  ref                   : Ref
  connectionId          : JsString
  handshakeHash         : JsString
  clientStaticPublicKey : JsString
  challenge             : JsString
  boundChallenge        : JsString
  expiresAt             : Int
  offer                 : Option PresenceWindowEntry
  deriving DecidableEq

structure EstablishedSession where
  ref                   : Ref
  connectionId          : JsString
  clientStaticPublicKey : JsString
  passkeyCredentialId   : JsString
  lastClientActivityAt  : Int
  directDeadlineAt      : Option Int
  deriving DecidableEq

structure ClientState where
  pairing     : Option PendingPairingSession := none
  connection  : Option PendingConnectionSession := none
  established : Option EstablishedSession := none
  deriving DecidableEq

def ClientState.isEmpty (st : ClientState) : Bool := st.pairing.isNone && st.connection.isNone && st.established.isNone

/-! ## The frames -/

inductive E2eKind where
  | pairing
  | connection
  deriving DecidableEq

structure E2eFrame where
  clientId : ClientId
  kind     : E2eKind
  id       : JsString
  isInit   : Bool
  deriving DecidableEq

inductive QueuedRelayFrame where
  | clientGone (clientId : ClientId)
  | e2e (frame : E2eFrame)
  deriving DecidableEq

inductive ConnectionPresence where
  | window
  | proof (proof : PresenceProofV1)
  deriving DecidableEq

/-- The fields a guard reads off a control message, `none` where one is missing or of another type. -/
structure ControlValue where
  code     : Option JsString
  label    : Option JsString
  presence : Option ConnectionPresence
  deriving DecidableEq

/-- What a transport ciphertext reads as; `failed` is a throw, which poisons the session. -/
inductive Receipt where
  | failed
  | keepalive
  | app
  | control (value : ControlValue)
  deriving DecidableEq

structure PairingRequestV1 where
  code     : JsString
  label    : JsString
  presence : PresenceProofV1
  deriving DecidableEq

def isPairingCode (code : JsString) : Bool := code.length == 2 && code.all (fun c => 48 ≤ c && c ≤ 57)

def asPairingRequestV1 (value : ControlValue) : Option PairingRequestV1 :=
  match value.code, value.label, value.presence with
  | some code, some label, some (.proof proof) =>
    if isPairingCode code && bounded label && isPresenceProofV1 proof then some ⟨code, label, proof⟩ else none
  | _, _, _ => none

def asConnectionRequestV1 (value : ControlValue) : Option ConnectionPresence :=
  match value.presence with
  | some .window        => some .window
  | some (.proof proof) => if isPresenceProofV1 proof then some (.proof proof) else none
  | none                => none

def pairingDeviceLabels : List JsString := [units "Dormouse Pocket (Home Screen)", units "Dormouse Pocket (browser)"]

def knownPairingDeviceLabel (label : JsString) : JsString :=
  if pairingDeviceLabels.contains label then label else units "Unknown device"

/-! ## The state -/

/-- Where the handler of the frame in hand is suspended, with what it holds there. -/
inductive Handling where
  | pairingHandshake (clientId : ClientId) (inviteId : JsString) (epoch : Nat) (held : HeldInvitation)
  | pairingProof (clientId : ClientId) (pairing : PendingPairingSession) (request : PairingRequestV1)
      (policy : ConnectionPolicy)
  | noiseStatic (clientId : ClientId) (connectionId : JsString) (epoch : Nat)
  | connectionRead (clientId : ClientId) (connectionId : JsString) (epoch : Nat) (policy : ConnectionPolicy)
  | connectionWrite (clientId : ClientId) (connectionId : JsString) (epoch : Nat) (policy : ConnectionPolicy)
      (clientStaticPublicKey challenge boundChallenge : JsString) (expiresAt : Int) (offer : Option PresenceWindowEntry)
  | connectionProof (clientId : ClientId) (connection : PendingConnectionSession) (challengeValid : Bool)
      (proof : PresenceProofV1) (policy : ConnectionPolicy)
  deriving DecidableEq

/-- An approval whose digits matched, as its write on the approval queue holds it. -/
structure ApprovalJob where
  clientId              : ClientId
  pairing               : Ref
  clientStaticPublicKey : JsString
  expiresAt             : Int
  approval              : PairingApproval
  revocationsAtConsent  : Nat
  deriving DecidableEq

def ApprovalJob.client (job : ApprovalJob) (deliveryId : JsString) : ApprovedClient where
  accountId             := job.approval.accountId
  passkeyCredentialId   := job.approval.passkeyCredentialId
  passkeyPublicKeyHash  := job.approval.passkeyPublicKeyHash
  clientStaticPublicKey := job.clientStaticPublicKey
  deliveryId            := deliveryId
  approvedBy            := units "burrow-user"
  label                 := job.approval.label

def ApprovalJob.named (job : ApprovalJob) (target : RevocationTarget) : Bool :=
  revocationNames target job.clientStaticPublicKey job.approval.passkeyCredentialId

inductive SaveJob where
  | approval (job : ApprovalJob)
  | revocations
  deriving DecidableEq

inductive Saving where
  | minting (job : ApprovalJob)
  | writing (job : ApprovalJob) (next : BurrowAcl) (record : BurrowAclRecord) (revocationsAtSnapshot : Nat)
  | revocations
  deriving DecidableEq

inductive Presence where
  | window (offer : PresenceWindowEntry)
  | proof (proof : PresenceProofV1) (policy : ConnectionPolicy) (passkeyPublicKeyHash : JsString)
  deriving DecidableEq

def Presence.presented : Presence → PresenceWindowRecord
  | .window offer       => offer.toPresenceWindowRecord
  | .proof shown _ hash => ⟨shown.accountId, shown.binding.passkeyCredentialId, hash⟩

/-- One promotion: the pending connection, its presence, the record, and the list of Clients as it was then. -/
structure Promotion where
  session    : Ref
  connection : PendingConnectionSession
  presence   : Presence
  record     : BurrowAclRecord
  acl        : BurrowAcl
  deriving DecidableEq

inductive Event where
  | attempted (pairing : Ref) (typed code : JsString)
  | saved (pairing : Ref) (ok : Bool)
  | published (pairing : Ref) (record : BurrowAclRecord)
  | revoked (target : RevocationTarget)
  /-- A challenge is asked for, and the issuer holds it until `held`, or holds it no more. -/
  | consumed (connection : Ref) (challenge : JsString) (held : Option Int) (now : Int)
  | promoted (promotion : Promotion)
  deriving DecidableEq

/-- What an `await` of the frame in hand settles with: whether it succeeded, the Client static and the handshake hash
of the Noise handshake, and the random id drawn next. -/
structure Outcome where
  ok                    : Bool
  clientStaticPublicKey : JsString
  handshakeHash         : JsString
  random                : JsString

inductive Input where
  | frame (frame : QueuedRelayFrame) (chars : Nat) (now : Int)
  | policy (requireUserVerification : Bool)
  | drainFrame (receipt : Receipt) (now : Int)
  | resume (outcome : Outcome) (now : Int)
  | approve (clientId : ClientId) (pairingId code : JsString) (now : Int)
  | deny (clientId : ClientId) (pairingId : JsString) (now : Int)
  | startSave
  | minted (deliveryId : Option JsString) (now : Int)
  | saveSettled (ok : Bool) (now : Int)
  | revoke (target : RevocationTarget) (now : Int)
  | saveRevocations
  | mintInvitation (inviteId : JsString) (epoch : Nat) (relayExpiresAtMs now : Int)
  | reap (now : Int)
  /-- A session decrypted a message of its Client. -/
  | heard (clientId : ClientId) (session : Ref) (now : Int)
  /-- Both directions of a session switched to the direct path. -/
  | wentDirect (clientId : ClientId) (session : Ref)
  /-- A session ended by itself: a fatal error, a path it may not take, a pane taken back. -/
  | ended (clientId : ClientId) (session : Ref)
  | teardown (now : Int)
  | stop (now : Int)
  | start

/-- What a Burrow is built with: whether there is a remote api behind it, and whether its sessions may only be direct. -/
structure Config where
  burrowId   : JsString
  hasSession : Bool
  directOnly : Bool
  deriving DecidableEq

structure BurrowRuntime where
  policy          : ConnectionPolicy
  acl             : BurrowAcl
  saving          : Option Saving
  saves           : List SaveJob
  revocations     : List RevocationTarget
  challenges      : ChallengeIssuer
  presenceWindows : PresenceWindows
  clients         : OrdMap ClientId ClientState
  invitations     : OrdMap JsString HeldInvitation
  frames          : List (QueuedRelayFrame × Nat)
  handling        : Option Handling
  epoch           : Nat
  initTokens      : TokenBucket
  stopped         : Bool
  nextRef         : Ref
  trace           : List Event

namespace BurrowRuntime

def create (policy : ConnectionPolicy) (acl : BurrowAcl) (now : Int) : BurrowRuntime where
  policy          := policy
  acl             := acl
  saving          := none
  saves           := []
  revocations     := []
  challenges      := ⟨.empty⟩
  presenceWindows := .clear
  clients         := .empty
  invitations     := .empty
  frames          := []
  handling        := none
  epoch           := 0
  initTokens      := ⟨8, 1000, 8, now⟩
  stopped         := false
  nextRef         := 0
  trace           := []

/-! ## Ending what a client holds -/

def pairingOf (s : BurrowRuntime) (id : ClientId) : Option PendingPairingSession := (s.clients.get id).bind (·.pairing)

def connectionOf (s : BurrowRuntime) (id : ClientId) : Option PendingConnectionSession :=
  (s.clients.get id).bind (·.connection)

def establishedOf (s : BurrowRuntime) (id : ClientId) : Option EstablishedSession :=
  (s.clients.get id).bind (·.established)

def modifyClient (s : BurrowRuntime) (id : ClientId) (f : ClientState → ClientState) : BurrowRuntime :=
  { s with clients := s.clients.set id (f ((s.clients.get id).getD {})) }

def pruneClient (s : BurrowRuntime) (id : ClientId) : BurrowRuntime :=
  match s.clients.get id with
  | none    => s
  | some st => if st.isEmpty then { s with clients := s.clients.delete id } else s

def retireInvitation (s : BurrowRuntime) (inviteId : JsString) : BurrowRuntime :=
  { s with invitations := s.invitations.delete inviteId }

def disposePairing (s : BurrowRuntime) (id : ClientId) : BurrowRuntime :=
  match s.pairingOf id with
  | none         => s
  | some pending => ((s.modifyClient id ({ · with pairing := none })).retireInvitation pending.inviteId).pruneClient id

/-- Every end of a pairing: one whose write is running is dropped without an answer, any other is answered first. -/
def finishPairing (s : BurrowRuntime) (id : ClientId) : BurrowRuntime := s.disposePairing id

def consumeChallenge (s : BurrowRuntime) (pending : PendingConnectionSession) (now : Int) : BurrowRuntime × Bool :=
  let consumed := s.challenges.consume pending.challenge now
  ({ s with
      challenges := consumed.1
      trace      := s.trace ++ [.consumed pending.ref pending.challenge (s.challenges.pending.get pending.challenge) now] },
    consumed.2)

def disposeConnection (s : BurrowRuntime) (id : ClientId) (now : Int) : BurrowRuntime :=
  match s.connectionOf id with
  | none         => s
  | some pending =>
    ((s.consumeChallenge pending now).1.modifyClient id ({ · with connection := none })).pruneClient id

def denyConnection (s : BurrowRuntime) (id : ClientId) (now : Int) : BurrowRuntime := s.disposeConnection id now

/-- The session goes, its activity folded into its Client's window; the entry is left to the caller. -/
def clearEstablished (s : BurrowRuntime) (id : ClientId) : BurrowRuntime :=
  match s.establishedOf id with
  | none         => s
  | some session =>
    { s with
      clients         := (s.modifyClient id ({ · with established := none })).clients
      presenceWindows := s.presenceWindows.noteActivity session.clientStaticPublicKey session.lastClientActivityAt }

def disposeEstablished (s : BurrowRuntime) (id : ClientId) : BurrowRuntime :=
  match s.establishedOf id with
  | none   => s
  | some _ => (s.clearEstablished id).pruneClient id

def disposeEstablishedOnly (s : BurrowRuntime) (id : ClientId) (only : Ref) : BurrowRuntime :=
  match s.establishedOf id with
  | none         => s
  | some session => if session.ref = only then s.disposeEstablished id else s

def disposeClient (s : BurrowRuntime) (id : ClientId) (now : Int) : BurrowRuntime :=
  match s.clients.get id with
  | none   => s
  | some _ =>
    let s := ((s.disposePairing id).disposeConnection id now).disposeEstablished id
    { s with clients := s.clients.delete id }

/-! ## The reaper -/

inductive Deadline where
  | pairing (id : ClientId)
  | connection (id : ClientId) (connection : Ref)
  | direct (id : ClientId) (session : Ref)
  | idle (id : ClientId)
  | invitation (inviteId : JsString)

def clientDeadlines (id : ClientId) (st : ClientState) : List (Int × Deadline) :=
  (match st.pairing with
    | some pairing => [(pairing.expiresAt, .pairing id)]
    | none         => []) ++
  (match st.connection with
    | some connection => [(connection.expiresAt, .connection id connection.ref)]
    | none            => []) ++
  (match st.established with
    | some session =>
      (match session.directDeadlineAt with
        | some directBy => [(directBy, .direct id session.ref)]
        | none          => []) ++ [(session.lastClientActivityAt + establishedE2eIdleTimeoutMs, .idle id)]
    | none => [])

def deadlines (s : BurrowRuntime) : List (Int × Deadline) :=
  s.clients.entries.flatMap (fun e => clientDeadlines e.1 e.2) ++
    s.invitations.entries.map (fun e => (e.2.expiresAt, .invitation e.1))

def expire (s : BurrowRuntime) (now : Int) : Deadline → BurrowRuntime
  | .pairing id => s.finishPairing id
  | .connection id connection =>
    match s.connectionOf id with
    | some pending => if pending.ref = connection then s.denyConnection id now else s
    | none         => s
  | .direct id session    => s.disposeEstablishedOnly id session
  | .idle id              => s.disposeEstablished id
  | .invitation inviteId  => s.retireInvitation inviteId

/-- Every deadline that has passed is met, over the deadlines as they were when the sweep began. -/
def reap (s : BurrowRuntime) (now : Int) : BurrowRuntime :=
  ((s.deadlines).filter (fun d => d.1 ≤ now)).foldl (fun s d => s.expire now d.2) s

/-! ## Evicting the oldest -/

/-- The client whose work of one kind is oldest, the first of those of one age, and how many have such work. -/
def oldest (s : BurrowRuntime) (age : ClientState → Option Int) : Option (ClientId × Int) :=
  s.clients.entries.foldl (fun best e =>
    match age e.2, best with
    | none, best               => best
    | some t, none             => some (e.1, t)
    | some t, some (id, since) => if t < since then some (e.1, t) else some (id, since)) none

/-- One kind of pending work is kept under its cap by ending its oldest, as often as it takes: at most once a client. -/
def evictOldestIfFull (age : ClientState → Option Int) (cap : Nat) (evict : BurrowRuntime → ClientId → BurrowRuntime) :
    Nat → BurrowRuntime → BurrowRuntime
  | 0, s        => s
  | fuel + 1, s =>
    if s.clients.count (fun st => (age st).isSome) < cap then s
    else
      match s.oldest age with
      | none         => s
      | some (id, _) => evictOldestIfFull age cap evict fuel (evict s id)

def pairingAge (st : ClientState) : Option Int := st.pairing.map (·.requestedAt)

def connectionAge (st : ClientState) : Option Int := st.connection.map (·.expiresAt)

def evictOldestPairingIfFull (s : BurrowRuntime) : BurrowRuntime :=
  evictOldestIfFull pairingAge maxPendingPairings finishPairing s.clients.size s

def evictOldestConnectionIfFull (s : BurrowRuntime) (now : Int) : BurrowRuntime :=
  evictOldestIfFull connectionAge maxPendingConnectionHandshakes (fun s id => s.disposeConnection id now) s.clients.size s

/-! ## Teardown, and a raise of the policy -/

/-- What a dropped socket takes with it: the waiting frames, every client and every invitation. -/
def dropTransientState (s : BurrowRuntime) (now : Int) : BurrowRuntime :=
  let s := { s with epoch := s.epoch + 1, frames := [] }
  let s := s.clients.keys.foldl (fun s id => s.disposeClient id now) s
  s.invitations.keys.foldl retireInvitation s

def stop (s : BurrowRuntime) (now : Int) : BurrowRuntime :=
  let s := s.clients.keys.foldl disposeEstablished s
  dropTransientState { s with presenceWindows := .clear, stopped := true } now

/-- Only ever up: every window, and every offer made of one, rests on a proof under the weaker demand. -/
def raisePolicy (s : BurrowRuntime) (requireUserVerification : Bool) : BurrowRuntime :=
  if !requireUserVerification || s.policy.requireUserVerification then s
  else
    { s with
      policy          := { s.policy with requireUserVerification := true }
      presenceWindows := .clear
      clients         := s.clients.mapValues (fun st =>
        { st with connection := st.connection.map ({ · with offer := none }) }) }

def enqueue (s : BurrowRuntime) (frame : QueuedRelayFrame) (chars : Nat) (now : Int) : BurrowRuntime :=
  if s.frames.length ≥ maxQueuedRelayFrames ∨ (s.frames.map Prod.snd).sum + chars > maxQueuedRelayFrameChars then
    s.dropTransientState now
  else { s with frames := s.frames ++ [(frame, chars)] }

def spendInitToken (s : BurrowRuntime) (now : Int) : BurrowRuntime × Bool :=
  ({ s with initTokens := (s.initTokens.take now).1 }, (s.initTokens.take now).2)

/-- The keygen is over: an invitation is held, the oldest evicted at the cap, unless a teardown came between. -/
def mintInvitation (s : BurrowRuntime) (inviteId : JsString) (epoch : Nat) (relayExpiresAtMs now : Int) :
    BurrowRuntime :=
  if s.epoch ≠ epoch then s
  else
    let s := s.reap now
    let s := (s.invitations.keys.take (s.invitations.size + 1 - maxTokensPerBurrow)).foldl retireInvitation s
    let expiresAt := min (now + defaultPairingTtlMs) relayExpiresAtMs
    if 0 ≤ expiresAt / 1000 ∧ expiresAt / 1000 < 2 ^ 32 then
      { s with
        invitations := s.invitations.set inviteId ⟨s.nextRef, expiresAt, false⟩
        nextRef     := s.nextRef + 1 }
    else s

/-! ## Pairing -/

def modifyPairing (s : BurrowRuntime) (id : ClientId) (f : PendingPairingSession → PendingPairingSession) :
    BurrowRuntime :=
  s.modifyClient id (fun st => { st with pairing := st.pairing.map f })

def onPairingInit (s : BurrowRuntime) (frame : E2eFrame) (now : Int) : BurrowRuntime :=
  match s.invitations.get frame.id with
  | none      => s
  | some held =>
    if held.reserved then s
    else
      let spent := s.spendInitToken now
      if !spent.2 then spent.1
      else { spent.1 with handling := some (.pairingHandshake frame.clientId frame.id spent.1.epoch held) }

/-- The invitation, where it is still the one held, is reserved. -/
def reserve (s : BurrowRuntime) (inviteId : JsString) (held : HeldInvitation) : BurrowRuntime :=
  if s.invitations.get inviteId = some held then
    { s with invitations := s.invitations.set inviteId { held with reserved := true } }
  else s

def installPairing (s : BurrowRuntime) (clientId : ClientId) (pending : PendingPairingSession) : BurrowRuntime :=
  { s with
    clients := (s.modifyClient clientId ({ · with pairing := some pending })).clients
    nextRef := s.nextRef + 1 }

def pairingShaken (s : BurrowRuntime) (clientId : ClientId) (inviteId : JsString) (epoch : Nat) (held : HeldInvitation)
    (o : Outcome) (now : Int) : BurrowRuntime :=
  if !o.ok then s
  else if s.epoch ≠ epoch ∨ (s.invitations.get inviteId).map (·.ref) ≠ some held.ref then s
  else
    let s := ((s.finishPairing clientId).evictOldestPairingIfFull).reserve inviteId held
    s.installPairing clientId
      { ref                   := s.nextRef
        inviteId              := inviteId
        pairingId             := o.random
        handshakeHash         := o.handshakeHash
        clientStaticPublicKey := o.clientStaticPublicKey
        requestedAt           := now
        expiresAt             := held.expiresAt
        committing            := false
        approval              := none
        attempted             := false }

def onPairingTransport (s : BurrowRuntime) (frame : E2eFrame) (receipt : Receipt) (now : Int) : BurrowRuntime :=
  match s.pairingOf frame.clientId with
  | none         => s
  | some pending =>
    if pending.inviteId ≠ frame.id ∨ pending.committing then s
    else if pending.expiresAt ≤ now then s.finishPairing frame.clientId
    else
      match receipt with
      | .failed        => s.disposePairing frame.clientId
      | .keepalive     => s
      | .app           => if pending.approval.isSome then s else s.finishPairing frame.clientId
      | .control value =>
        if pending.approval.isSome then s
        else
          match asPairingRequestV1 value with
          | none         => s.finishPairing frame.clientId
          | some request => { s with handling := some (.pairingProof frame.clientId pending request s.policy) }

def pairingProved (C : PresenceCrypto) (K : Config) (s : BurrowRuntime) (clientId : ClientId)
    (pending : PendingPairingSession) (request : PairingRequestV1) (policy : ConnectionPolicy) (now : Int) :
    BurrowRuntime :=
  if (s.pairingOf clientId).map (·.ref) ≠ some pending.ref then s
  else
    let passkeyCredentialId := request.presence.binding.passkeyCredentialId
    match verifyPresenceProof C request.presence (.pairing K.burrowId pending.handshakeHash passkeyCredentialId) policy with
    | .error _                 => s.finishPairing clientId
    | .ok passkeyPublicKeyHash =>
      if s.policy ≠ policy then s.finishPairing clientId
      else
        s.modifyPairing clientId (fun p => { p with
          approval := some
            { code                 := request.code
              accountId            := request.presence.accountId
              passkeyCredentialId  := passkeyCredentialId
              passkeyPublicKeyHash := passkeyPublicKeyHash
              label                := knownPairingDeviceLabel request.label
              verifiedAt           := now
              policy               := policy } })

def spendAttempt (s : BurrowRuntime) (clientId : ClientId) (pairing : Ref) (typed code : JsString) : BurrowRuntime :=
  { s with
    clients := (s.modifyPairing clientId ({ · with attempted := true })).clients
    trace   := s.trace ++ [.attempted pairing typed code] }

/-- The local confirmation: one attempt, spent before the digits are compared.  The digits expected are ASCII, so that
the UTF-8 forms the source compares agree exactly when the texts do. -/
def approvePairing (s : BurrowRuntime) (clientId : ClientId) (pairingId code : JsString) (now : Int) : BurrowRuntime :=
  match s.pairingOf clientId with
  | none         => s
  | some pending =>
    match pending.approval with
    | none          => s
    | some approval =>
      if pending.pairingId ≠ pairingId ∨ pending.attempted then s
      else
        let s := s.spendAttempt clientId pending.ref code approval.code
        if pending.expiresAt ≤ now then s.finishPairing clientId
        else if code ≠ approval.code then s.finishPairing clientId
        else
          { s with saves := s.saves ++ [.approval
              { clientId              := clientId
                pairing               := pending.ref
                clientStaticPublicKey := pending.clientStaticPublicKey
                expiresAt             := pending.expiresAt
                approval              := approval
                revocationsAtConsent  := s.revocations.length }] }

def denyPairing (s : BurrowRuntime) (clientId : ClientId) (pairingId : JsString) (now : Int) : BurrowRuntime :=
  match s.pairingOf clientId with
  | none         => s
  | some pending =>
    if pending.pairingId ≠ pairingId ∨ pending.attempted then s else (s.finishPairing clientId).reap now

/-! ## The approval queue -/

def startSave (s : BurrowRuntime) : BurrowRuntime :=
  match s.saving, s.saves with
  | none, .approval job :: rest => { s with saving := some (.minting job), saves := rest }
  | none, .revocations :: rest  => { s with saving := if s.stopped then none else some .revocations, saves := rest }
  | _, _                        => s

/-- The delivery id is minted, and the checks and the snapshot are made in one stretch; `none` is a mint that threw.
The snapshot is a copy of the live list, loaded from its own records. -/
def approvalMinted (s : BurrowRuntime) (job : ApprovalJob) (deliveryId : Option JsString) (now : Int) : BurrowRuntime :=
  let s := { s with saving := none }
  match deliveryId with
  | none            => s
  | some deliveryId =>
    if (s.pairingOf job.clientId).map (·.ref) ≠ some job.pairing then s
    else if job.expiresAt ≤ now then s.finishPairing job.clientId
    else if s.policy ≠ job.approval.policy then s.finishPairing job.clientId
    else if (s.revocations.drop job.revocationsAtConsent).any job.named then s.finishPairing job.clientId
    else
      let approved := s.acl.approve (job.client deliveryId) now
      { s with
        clients := (s.modifyPairing job.clientId ({ · with committing := true })).clients
        saving  := some (.writing job approved.1 approved.2 s.revocations.length) }

/-- The revocations made during the write are applied to the snapshot, which then is the live list. -/
def publish (s : BurrowRuntime) (job : ApprovalJob) (next : BurrowAcl) (record : BurrowAclRecord)
    (revocationsAtSnapshot : Nat) (now : Int) : BurrowRuntime :=
  { s with
    saving := none
    acl    := (s.revocations.drop revocationsAtSnapshot).foldl (fun acl target => (revokeTarget acl target now).1) next
    trace  := s.trace ++ [.saved job.pairing true, .published job.pairing record] }

def approvalSaved (s : BurrowRuntime) (job : ApprovalJob) (next : BurrowAcl) (record : BurrowAclRecord)
    (revocationsAtSnapshot : Nat) (now : Int) : BurrowRuntime :=
  let s := s.publish job next record revocationsAtSnapshot now
  if (s.acl.findActive job.approval.passkeyCredentialId job.clientStaticPublicKey).isNone then
    if (s.pairingOf job.clientId).map (·.ref) ≠ some job.pairing then s
    else (s.finishPairing job.clientId).reap now
  else
    let s := if s.policy = job.approval.policy then
        { s with presenceWindows :=
            s.presenceWindows.seed job.clientStaticPublicKey record.presented job.approval.verifiedAt now }
      else s
    if (s.pairingOf job.clientId).map (·.ref) ≠ some job.pairing then s
    else (s.disposePairing job.clientId).reap now

def approvalNotSaved (s : BurrowRuntime) (job : ApprovalJob) (now : Int) : BurrowRuntime :=
  let s := { s with saving := none, trace := s.trace ++ [.saved job.pairing false] }
  if (s.pairingOf job.clientId).map (·.ref) ≠ some job.pairing then s
  else (s.finishPairing job.clientId).reap now

def minted (s : BurrowRuntime) (deliveryId : Option JsString) (now : Int) : BurrowRuntime :=
  match s.saving with
  | some (.minting job) => s.approvalMinted job deliveryId now
  | _                   => s

def saveSettled (s : BurrowRuntime) (ok : Bool) (now : Int) : BurrowRuntime :=
  match s.saving with
  | some (.writing job next record revocationsAtSnapshot) =>
    if ok then s.approvalSaved job next record revocationsAtSnapshot now else s.approvalNotSaved job now
  | some .revocations => { s with saving := none }
  | _                 => s

/-! ## Revocation -/

def endRevokedSession (next : BurrowAcl) (s : BurrowRuntime) (id : ClientId) : BurrowRuntime :=
  match s.establishedOf id with
  | some session =>
    if (next.findActive session.passkeyCredentialId session.clientStaticPublicKey).isNone then s.disposeEstablished id
    else s
  | none => s

/-- A revocation refuses a connection of a static with no record. -/
def endRevokedConnection (next : BurrowAcl) (now : Int) (s : BurrowRuntime) (id : ClientId) : BurrowRuntime :=
  match s.connectionOf id with
  | some connection => if next.hasActiveClient connection.clientStaticPublicKey then s else s.denyConnection id now
  | none            => s

def endRevoked (next : BurrowAcl) (now : Int) (s : BurrowRuntime) (id : ClientId) : BurrowRuntime :=
  endRevokedConnection next now (endRevokedSession next s id) id

def revoke (s : BurrowRuntime) (target : RevocationTarget) (now : Int) : BurrowRuntime :=
  let s := { s with trace := s.trace ++ [.revoked target] }
  let revoked := revokeTarget s.acl target now
  if revoked.2.isEmpty then s
  else
    let s := { s with acl := revoked.1, revocations := s.revocations ++ [target] }
    let s := s.clients.keys.foldl (endRevoked revoked.1 now) s
    reap { s with
      presenceWindows := revoked.2.foldl (fun w r => w.forget r.clientStaticPublicKey) s.presenceWindows } now

/-! ## Connection -/

/-- Which client holds a session for the static, the last of them, and how many sessions the other clients hold. -/
def establishedFor (s : BurrowRuntime) (staticKey : JsString) (exceptClientId : Option ClientId) :
    Option ClientId × Nat :=
  s.clients.entries.foldl (fun acc e =>
    match e.2.established with
    | none         => acc
    | some session => (if session.clientStaticPublicKey = staticKey then some e.1 else acc.1,
        if some e.1 ≠ exceptClientId then acc.2 + 1 else acc.2)) (none, 0)

/-- The open window of a static, the activity of a session still running under it folded in first. -/
def openWindow (s : BurrowRuntime) (clientStaticPublicKey : JsString) (now : Int) :
    BurrowRuntime × Option PresenceWindowEntry :=
  let live := (s.establishedFor clientStaticPublicKey none).1.bind s.establishedOf
  let windows := match live with
    | some session => s.presenceWindows.noteActivity clientStaticPublicKey session.lastClientActivityAt
    | none         => s.presenceWindows
  let opened := windows.open' clientStaticPublicKey now
  ({ s with presenceWindows := opened.1 }, opened.2)

def onConnectionInit (s : BurrowRuntime) (frame : E2eFrame) (now : Int) : BurrowRuntime :=
  let spent := s.spendInitToken now
  if !spent.2 then spent.1
  else { spent.1 with handling := some (.noiseStatic frame.clientId frame.id spent.1.epoch) }

/-- Message 1 decrypted: the challenge is issued, and the window offered, if one is open. -/
def connectionReadMessage (C : PresenceCrypto) (s : BurrowRuntime) (clientId : ClientId) (connectionId : JsString)
    (epoch : Nat) (policy : ConnectionPolicy) (o : Outcome) (now : Int) : BurrowRuntime :=
  if !o.ok then s
  else
    let issued := s.challenges.issue o.random now
    let opened := { s with challenges := issued.1 }.openWindow o.clientStaticPublicKey now
    { opened.1 with handling := some (.connectionWrite clientId connectionId epoch policy o.clientStaticPublicKey o.random
        (C.connectionMessage2 o.random opened.2.isSome) issued.2 opened.2) }

def installConnection (s : BurrowRuntime) (clientId : ClientId) (pending : PendingConnectionSession) : BurrowRuntime :=
  { s with
    clients := (s.modifyClient clientId ({ · with connection := some pending })).clients
    nextRef := s.nextRef + 1 }

/-- Message 2 is written, and the connection is pending, unless a teardown came between. -/
def connectionOpened (s : BurrowRuntime) (clientId : ClientId) (connectionId : JsString) (epoch : Nat)
    (policy : ConnectionPolicy) (clientStaticPublicKey challenge boundChallenge : JsString) (expiresAt : Int)
    (offer : Option PresenceWindowEntry) (o : Outcome) (now : Int) : BurrowRuntime :=
  if !o.ok then s
  else if s.epoch ≠ epoch then s
  else
    let offer := if s.policy ≠ policy then none else offer
    let s := (s.disposeConnection clientId now).evictOldestConnectionIfFull now
    s.installConnection clientId
      { ref                   := s.nextRef
        connectionId          := connectionId
        handshakeHash         := o.handshakeHash
        clientStaticPublicKey := clientStaticPublicKey
        challenge             := challenge
        boundChallenge        := boundChallenge
        expiresAt             := expiresAt
        offer                 := offer }

/-- The record that authorizes a connection: one record holds all four identities. -/
def aclRecord (s : BurrowRuntime) (clientStaticPublicKey : JsString) (presented : PresenceWindowRecord) :
    Option BurrowAclRecord :=
  match s.acl.authorize presented.passkeyCredentialId clientStaticPublicKey with
  | .missed _     => none
  | .found record =>
    if record.accountId ≠ presented.accountId then none
    else if record.passkeyPublicKeyHash ≠ presented.passkeyPublicKeyHash then none
    else some record

def sessionOf (K : Config) (ref : Ref) (pending : PendingConnectionSession) (record : BurrowAclRecord) (now : Int) :
    EstablishedSession where
  ref                   := ref
  connectionId          := pending.connectionId
  clientStaticPublicKey := pending.clientStaticPublicKey
  passkeyCredentialId   := record.passkeyCredentialId
  lastClientActivityAt  := now
  directDeadlineAt      := if K.directOnly then some (now + directOnlyDeadlineMs) else none

/-- The client is given its session; without a remote api there is none, and nothing stays under the client's id. -/
def establish (K : Config) (s : BurrowRuntime) (clientId : ClientId) (promotion : Promotion) (now : Int) :
    BurrowRuntime :=
  if !K.hasSession then s.pruneClient clientId
  else
    { s with
      clients := (s.modifyClient clientId (fun st => { st with
        established := some (sessionOf K promotion.session promotion.connection promotion.record now) })).clients
      nextRef := s.nextRef + 1
      trace   := s.trace ++ [.promoted promotion] }

/-- The session of the same static under another client goes first, so that the cap is never exceeded. -/
def displaceIncumbent (s : BurrowRuntime) (clientId : ClientId) : Option ClientId → BurrowRuntime
  | some incumbent => if incumbent ≠ clientId then s.disposeEstablished incumbent else s
  | none           => s

def promoteConnection (K : Config) (s : BurrowRuntime) (clientId : ClientId) (pending : PendingConnectionSession)
    (record : BurrowAclRecord) (presence : Presence) (now : Int) : BurrowRuntime :=
  let found := s.establishedFor pending.clientStaticPublicKey (some clientId)
  if found.1 = none ∧ found.2 ≥ maxEstablishedE2eSessions then s.denyConnection clientId now
  else
    let cleared := ((s.modifyClient clientId ({ · with connection := none })).displaceIncumbent clientId found.1
      ).clearEstablished clientId
    establish K cleared clientId ⟨s.nextRef, pending, presence, record, s.acl⟩ now

/-- Presence is shown: the list decides.  Only a proof opens or refreshes a window. -/
def authorizeConnection (K : Config) (s : BurrowRuntime) (clientId : ClientId) (pending : PendingConnectionSession)
    (presence : Presence) (now : Int) : BurrowRuntime :=
  match s.aclRecord pending.clientStaticPublicKey presence.presented with
  | none        => s.denyConnection clientId now
  | some record =>
    let s := match presence with
      | .window _    => s
      | .proof _ _ _ =>
        { s with presenceWindows :=
            s.presenceWindows.seed pending.clientStaticPublicKey record.presented now now }
    promoteConnection K s clientId pending record presence now

/-- The connection request.  The challenge is consumed before anything else is decided. -/
def onConnectionRequest (K : Config) (s : BurrowRuntime) (clientId : ClientId) (pending : PendingConnectionSession)
    (presence : ConnectionPresence) (now : Int) : BurrowRuntime :=
  let consumed := s.consumeChallenge pending now
  match presence with
  | .window =>
    if !consumed.2 then consumed.1.denyConnection clientId now
    else
      match pending.offer with
      | none       => consumed.1.denyConnection clientId now
      | some offer => authorizeConnection K consumed.1 clientId pending (.window offer) now
  | .proof proof =>
    { consumed.1 with handling := some (.connectionProof clientId pending consumed.2 proof consumed.1.policy) }

def onConnectionTransport (K : Config) (s : BurrowRuntime) (frame : E2eFrame) (receipt : Receipt) (now : Int) :
    BurrowRuntime :=
  if (s.establishedOf frame.clientId).map (·.connectionId) = some frame.id then s
  else
    match s.connectionOf frame.clientId with
    | none         => s
    | some pending =>
      if pending.connectionId ≠ frame.id then s
      else
        match receipt with
        | .failed        => s.disposeConnection frame.clientId now
        | .keepalive     => s
        | .app           => s.denyConnection frame.clientId now
        | .control value =>
          match asConnectionRequestV1 value with
          | none          => s.denyConnection frame.clientId now
          | some presence => onConnectionRequest K s frame.clientId pending presence now

def connectionProved (C : PresenceCrypto) (K : Config) (s : BurrowRuntime) (clientId : ClientId)
    (pending : PendingConnectionSession) (challengeValid : Bool) (proof : PresenceProofV1) (policy : ConnectionPolicy)
    (now : Int) : BurrowRuntime :=
  if (s.connectionOf clientId).map (·.ref) ≠ some pending.ref then s
  else if !challengeValid then s.denyConnection clientId now
  else
    match verifyPresenceProof C proof (.connection K.burrowId pending.connectionId pending.boundChallenge
        pending.handshakeHash proof.binding.passkeyCredentialId) policy with
    | .error _ => s.denyConnection clientId now
    | .ok hash =>
      if s.policy ≠ policy then s.denyConnection clientId now
      else authorizeConnection K s clientId pending (.proof proof policy hash) now

/-! ## The frame chain -/

def onClientGone (s : BurrowRuntime) (id : ClientId) (now : Int) : BurrowRuntime := (s.disposeClient id now).reap now

def onE2e (K : Config) (s : BurrowRuntime) (frame : E2eFrame) (receipt : Receipt) (now : Int) : BurrowRuntime :=
  let s := if frame.isInit then s.reap now else s
  match frame.kind, frame.isInit with
  | .pairing, true     => s.onPairingInit frame now
  | .pairing, false    => s.onPairingTransport frame receipt now
  | .connection, true  => s.onConnectionInit frame now
  | .connection, false => onConnectionTransport K s frame receipt now

/-- The chain takes its next frame, once the one before it is done. -/
def drainFrame (K : Config) (s : BurrowRuntime) (receipt : Receipt) (now : Int) : BurrowRuntime :=
  match s.handling, s.frames with
  | none, (.clientGone id, _) :: rest => onClientGone { s with frames := rest } id now
  | none, (.e2e frame, _) :: rest     => onE2e K { s with frames := rest } frame receipt now
  | _, _                              => s

/-- The `await` of the frame in hand settles. -/
def resume (C : PresenceCrypto) (K : Config) (s : BurrowRuntime) (o : Outcome) (now : Int) : BurrowRuntime :=
  let done := { s with handling := none }
  match s.handling with
  | none => s
  | some (.pairingHandshake clientId inviteId epoch held) => done.pairingShaken clientId inviteId epoch held o now
  | some (.pairingProof clientId pending request policy) => pairingProved C K done clientId pending request policy now
  | some (.noiseStatic clientId connectionId epoch) =>
    if o.ok then { s with handling := some (.connectionRead clientId connectionId epoch s.policy) } else done
  | some (.connectionRead clientId connectionId epoch policy) =>
    connectionReadMessage C done clientId connectionId epoch policy o now
  | some (.connectionWrite clientId connectionId epoch policy clientStaticPublicKey challenge boundChallenge expiresAt
      offer) =>
    done.connectionOpened clientId connectionId epoch policy clientStaticPublicKey challenge boundChallenge expiresAt offer
      o now
  | some (.connectionProof clientId pending challengeValid proof policy) =>
    connectionProved C K done clientId pending challengeValid proof policy now

def modifySession (s : BurrowRuntime) (id : ClientId) (session : Ref) (f : EstablishedSession → EstablishedSession) :
    BurrowRuntime :=
  if (s.establishedOf id).map (·.ref) = some session then
    s.modifyClient id (fun st => { st with established := st.established.map f })
  else s

def step (C : PresenceCrypto) (K : Config) (s : BurrowRuntime) : Input → BurrowRuntime
  | .frame frame chars now => s.enqueue frame chars now
  | .policy requireUserVerification => s.raisePolicy requireUserVerification
  | .drainFrame receipt now => drainFrame K s receipt now
  | .resume outcome now => resume C K s outcome now
  | .approve clientId pairingId code now => s.approvePairing clientId pairingId code now
  | .deny clientId pairingId now => s.denyPairing clientId pairingId now
  | .startSave => s.startSave
  | .minted deliveryId now => s.minted deliveryId now
  | .saveSettled ok now => s.saveSettled ok now
  | .revoke target now => s.revoke target now
  | .saveRevocations => { s with saves := s.saves ++ [.revocations] }
  | .mintInvitation inviteId epoch relayExpiresAtMs now => s.mintInvitation inviteId epoch relayExpiresAtMs now
  | .reap now => s.reap now
  | .heard clientId session now => s.modifySession clientId session ({ · with lastClientActivityAt := now })
  | .wentDirect clientId session => s.modifySession clientId session ({ · with directDeadlineAt := none })
  | .ended clientId session => s.disposeEstablishedOnly clientId session
  | .teardown now => s.dropTransientState now
  | .stop now => s.stop now
  | .start => { s with stopped := false }

end BurrowRuntime
end Burrow
end Dormouse

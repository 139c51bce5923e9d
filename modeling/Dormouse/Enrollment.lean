import Dormouse.Js
import Dormouse.Interference
import Dormouse.OrdMap
/-!
# Enrollment — how a Burrow enrolls (`enroll-token.ts`, `state.ts`, `app.ts`)

A Burrow enrolls by the setup password, or, while there is no `burrows.json`, by the token of the offer an installer left at
a well-known path.  `BurrowStore.enroll` checks the credential and appends the row under one mutex.  The offer is taken off
its path by a rename to a name of the attempt's own; an attempt that finds it has taken another offer than the one it
verified links it back, unless a newer one is there.

An installer publishes an offer by renaming it over the path, between any two waits of an attempt.  Reading, renaming and
unlinking fail where `faulty` says so; a link fails only where its target exists.
-/
namespace Dormouse
namespace Relay

/-- `MAX_ENROLLED_BURROWS`. -/
def maxEnrolledBurrows : Nat := 32

/-- `ENROLL_OFFER_MAX_AGE_MS`. -/
def enrollOfferMaxAgeMs : Int := 24 * 60 * 60 * 1000

structure StoredBurrow where
  burrowId    : JsString
  burrowToken : JsString
  enrolledAt  : Int
deriving DecidableEq

structure EnrollmentOffer where
  origin   : JsString
  token    : JsString
  mintedAt : JsString
deriving DecidableEq

/-- An offer on disk, the `generation`-th that was published. -/
structure OfferFile where
  generation : Nat
  offer      : EnrollmentOffer
deriving DecidableEq

/-- The files an enrollment reads and writes, and the clock.  `published` are the offers published so far, and `redeemed`
the tokens whose redemption was answered `redeemed`. -/
structure EnrollDisk where
  burrows   : Option (List StoredBurrow)
  offer     : Option OfferFile
  claims    : OrdMap JsString OfferFile
  now       : Int
  faulty    : Bool
  published : List EnrollmentOffer
  redeemed  : List JsString

/-- What a request brings: its enroll token, or none with the setup password; and what its random bytes come to. -/
structure EnrollRequest where
  enrollToken : Option JsString
  claimPath   : JsString
  burrowId    : JsString
  burrowToken : JsString

/-- Why an enrollment is refused.  `credentialRejected` has the offer that the attempt claimed in place of the one it
verified, where it did. -/
inductive EnrollError where
  | credentialRejected (claimed : Option OfferFile)
  | offerNotInvalidated
  | limitReached
  | io

abbrev EnrollCall (α : Type) := Resumption EnrollDisk EnrollError α

/-- The answers of `redeemEnrollToken`. -/
inductive Redemption where
  | redeemed
  | rejected (claimed : Option OfferFile)
  | notInvalidated

namespace BurrowStore

/-- `ENROLL_TOKEN_PATTERN`, 64 lowercase hex digits. -/
def isEnrollToken (s : JsString) : Bool :=
  s.length = 64 && s.all (fun u => (48 ≤ u && u ≤ 57) || (97 ≤ u && u ≤ 102))

/-- `isEnrollmentOfferFresh`, over what `Date.parse` makes of a stamp. -/
def isEnrollmentOfferFresh (dateParse : JsString → Option Int) (offer : EnrollmentOffer) (now : Int) : Bool :=
  match dateParse offer.mintedAt with
  | none        => false
  | some minted => now - minted ≤ enrollOfferMaxAgeMs

/-- A rename of the offer to a claim: it fails where nothing is there, or for another reason. -/
inductive Renamed where
  | renamed
  | absent
  | failed

def renameOffer (claimPath : JsString) : EnrollCall Renamed :=
  Resumption.act fun d =>
    if d.faulty then .ok (d, .failed)
    else
      match d.offer with
      | none      => .ok (d, .absent)
      | some file => .ok ({ d with offer := none, claims := d.claims.set claimPath file }, .renamed)

/-- An unlink whose failure is ignored: what is left at a claim's path is inert. -/
def unlink (claimPath : JsString) : EnrollCall Unit :=
  Resumption.act fun d => .ok (if d.faulty then d else { d with claims := d.claims.delete claimPath }, ())

def spend (claimPath token : JsString) : EnrollCall Unit :=
  Resumption.act fun d =>
    let d := { d with redeemed := d.redeemed ++ [token] }
    .ok (if d.faulty then d else { d with claims := d.claims.delete claimPath }, ())

/-- `claimHolds`, with the file at the claim's path. -/
def claimHolds (claimPath verifiedToken : JsString) : EnrollCall (Bool × Option OfferFile) :=
  Resumption.act fun d =>
    let read := if d.faulty then none else d.claims.get claimPath
    .ok (d, match read with | none => false | some file => verifiedToken = file.offer.token, d.claims.get claimPath)

/-- `link`: an atomic publication that does not clobber. -/
def link (claimPath : JsString) : EnrollCall Unit :=
  Resumption.act fun d =>
    match d.offer, d.claims.get claimPath with
    | none, some file => .ok ({ d with offer := some file }, ())
    | _, _            => .ok (d, ())

def releaseClaim (claimPath : JsString) : EnrollCall Unit := do
  link claimPath
  unlink claimPath

def otherThan (verifiedToken : JsString) (claimed : Option OfferFile) : Option OfferFile :=
  claimed.filter (fun file => file.offer.token ≠ verifiedToken)

def claimOffer (claimPath verifiedToken : JsString) : EnrollCall Redemption := do
  match ← renameOffer claimPath with
  | .absent  => pure (.rejected none)
  | .failed  => pure .notInvalidated
  | .renamed =>
    let (holds, claimed) ← claimHolds claimPath verifiedToken
    if holds then
      spend claimPath verifiedToken
      pure .redeemed
    else
      releaseClaim claimPath
      pure (.rejected (otherThan verifiedToken claimed))

/-- `readEnrollmentOffer`, with the clock as it returns. -/
def readEnrollmentOffer : EnrollCall (Option EnrollmentOffer × Int) :=
  Resumption.act fun d => .ok (d, if d.faulty then none else d.offer.map (·.offer), d.now)

/-- `redeemEnrollToken`, where a path is configured. -/
def redeemEnrollToken (dateParse : JsString → Option Int) (claimPath supplied : JsString) : EnrollCall Redemption :=
  if isEnrollToken supplied then do
    let (offer, now) ← readEnrollmentOffer
    match offer with
    | none       => pure (.rejected none)
    | some offer =>
      if isEnrollmentOfferFresh dateParse offer now ∧ supplied = offer.token then claimOffer claimPath offer.token
      else pure (.rejected none)
  else pure (.rejected none)

/-- `invalidateEnrollOffer`, where a path is configured: whether the offer is gone. -/
def invalidateEnrollOffer (claimPath : JsString) : EnrollCall Bool := do
  match ← renameOffer claimPath with
  | .absent  => pure true
  | .failed  => pure false
  | .renamed =>
    unlink claimPath
    pure true

/-- What the route does before a Burrow is enrolled, where `configured` says if there is a path for offers. -/
def beforeEnroll (dateParse : JsString → Option Int) (configured : Bool) (request : EnrollRequest)
    (firstEnrollment : Bool) : EnrollCall Unit :=
  match request.enrollToken with
  | some enrollToken =>
    if firstEnrollment then
      if configured then do
        match ← redeemEnrollToken dateParse request.claimPath enrollToken with
        | .rejected claimed => .throw (.credentialRejected claimed)
        | .notInvalidated   => .throw .offerNotInvalidated
        | .redeemed         => pure ()
      else .throw (.credentialRejected none)
    else if configured then do
      let _ ← invalidateEnrollOffer request.claimPath
      .throw (.credentialRejected none)
    else .throw (.credentialRejected none)
  | none =>
    if firstEnrollment && configured then do
      if ← invalidateEnrollOffer request.claimPath then pure () else .throw .offerNotInvalidated
    else pure ()

/-- `exists`: whether the durable file was ever written. -/
def fileExists : EnrollCall Bool :=
  Resumption.act fun d => if d.faulty then .error .io else .ok (d, d.burrows.isSome)

/-- `list`, with the clock as it returns.  The cache behind it is keyed by the stat of the file, which each write changes. -/
def listBurrows : EnrollCall (List StoredBurrow × Int) := do
  Resumption.act fun d => if d.faulty then .error .io else .ok (d, ())
  Resumption.act fun d => if d.faulty then .error .io else .ok (d, d.burrows.getD [], d.now)

/-- `writeAtomic`, before a call returns `a`. -/
def writeBurrows (burrows : List StoredBurrow) (a : StoredBurrow) : EnrollCall StoredBurrow := do
  Resumption.act fun d => if d.faulty then .error .io else .ok (d, ())
  Resumption.act fun d => if d.faulty then .error .io else .ok (d, ())
  Resumption.act fun d => if d.faulty then .error .io else .ok ({ d with burrows := some burrows }, ())
  pure a

/-- `enroll`, as the route calls it. -/
def enroll (dateParse : JsString → Option Int) (configured : Bool) (request : EnrollRequest) :
    EnrollCall StoredBurrow := do
  let there ← fileExists
  beforeEnroll dateParse configured request (!there)
  let (burrows, now) ← listBurrows
  if burrows.length ≥ maxEnrolledBurrows then .throw .limitReached
  else
    let burrow : StoredBurrow := ⟨request.burrowId, request.burrowToken, now⟩
    writeBurrows (burrows ++ [burrow]) burrow

inductive World where
  | publish (offer : EnrollmentOffer)
  | clock (now : Int)
  | fault (faulty : Bool)

def outside : World → EnrollDisk → EnrollDisk
  | .publish offer, d => { d with offer := some ⟨d.published.length, offer⟩, published := d.published ++ [offer] }
  | .clock now, d     => { d with now }
  | .fault faulty, d  => { d with faulty }

end BurrowStore

abbrev BurrowStore := PromiseChain EnrollDisk EnrollError EnrollRequest StoredBurrow

/-- A request comes to the mutex, the one that holds it is resumed, or the world moves. -/
inductive EnrollEvent where
  | request (request : EnrollRequest)
  | resume
  | world (w : BurrowStore.World)

namespace EnrollEvent

def toEvent : EnrollEvent → PromiseChain.Event EnrollError EnrollRequest BurrowStore.World
  | .request r => .call r
  | .resume    => .resume
  | .world w   => .outside w

end EnrollEvent

namespace BurrowStore

def step (dateParse : JsString → Option Int) (configured : Bool) (c : BurrowStore) (ev : EnrollEvent) : BurrowStore :=
  PromiseChain.step (enroll dateParse configured) outside c ev.toEvent

def start (burrows : Option (List StoredBurrow)) (now : Int) : BurrowStore :=
  PromiseChain.start ⟨burrows, none, OrdMap.empty, now, false, [], []⟩

def FreshOffer (c : BurrowStore) : EnrollEvent → Prop
  | .world (.publish offer) => ∀ o ∈ c.shared.published, o.token ≠ offer.token
  | _                       => True

end BurrowStore

end Relay
end Dormouse

import Dormouse.Js
/-!
# RelayRouting — the frame layer both relays route through

`remote-lib-common/src/remote/relay-routing.ts` and the guards of `wire.ts` it reads a frame with.  A type guard of the
sources answers here the value it proves, `none` where it refuses.  `JSON.parse` is an argument, `none` where it throws:
nothing below depends on how a text is read, only on one text being read one way.
-/
namespace Dormouse
namespace Relay

abbrev Ref := Nat

inductive E2eKind where
  | pairing
  | connection
  deriving DecidableEq

inductive E2eClientStep where
  | init
  | transport
  deriving DecidableEq

inductive E2eBurrowStep where
  | response
  | transport
  deriving DecidableEq

structure E2eClientFrame where
  burrowId : JsString
  kind     : E2eKind
  id       : JsString
  step     : E2eClientStep
  ct       : JsString
  deriving DecidableEq

structure E2eBurrowFrame where
  clientId : JsString
  kind     : E2eKind
  id       : JsString
  step     : E2eBurrowStep
  ct       : JsString
  deriving DecidableEq

structure RelayPolicyFrame where
  requireUserVerification : Bool
  deriving DecidableEq

inductive RelayToBurrowFrame where
  | e2e (clientId burrowId : JsString) (kind : E2eKind) (id : JsString) (step : E2eClientStep) (ct : JsString)
  | clientGone (clientId : JsString)
  | policy (frame : RelayPolicyFrame)
  | passkeysChanged
  deriving DecidableEq

inductive RelayToClientFrame where
  | e2e (burrowId : JsString) (kind : E2eKind) (id : JsString) (step : E2eBurrowStep) (ct : JsString)
  | error (error : JsString)
  | burrowGone
  deriving DecidableEq

inductive Out where
  | toBurrow (socket : Ref) (frame : RelayToBurrowFrame)
  | toClient (socket : Ref) (frame : RelayToClientFrame)
  | pong (socket : Ref)
  | close (socket : Ref) (code : Nat) (reason : JsString)
  deriving DecidableEq

def relayPing : JsString := units "ping"
def maxRelayClientSockets : Nat := 64
def wsCloseIdle : Nat := 1001
def wsCloseIdleReason : JsString := units "no response to heartbeat"
def wsCloseUnauthorized : Nat := 1008
def wsCloseUnauthorizedReason : JsString := units "unauthorized"
def wsCloseFrameTooLarge : Nat := 1009
def wsCloseTryAgainLater : Nat := 1013
def wsCloseBurrowReplaced : Nat := 4000
def wsCloseBurrowReplacedReason : JsString := units "replaced by a newer burrow connection"
def wsCloseBurrowRevoked : Nat := 4001
def wsCloseBurrowRevokedReason : JsString := units "this burrow is no longer enrolled"
def wsCloseBurrowNotEntitled : Nat := 4002
def wsCloseBurrowNotEntitledReason : JsString := units "this account is not entitled to the Hosted Relay"

/-- `newClientId`: 16 random bytes in base64url, taken not to be drawn twice; the id a socket draws is named by the
socket. -/
structure ClientIds where
  newClientId : Ref → JsString
  fresh       : Function.Injective newClientId

/-! ## The guards -/

def base64UrlLength (byteLength : Nat) : Nat :=
  byteLength / 3 * 4 + (if byteLength % 3 = 0 then 0 else byteLength % 3 + 1)

def e2eIdLength : Nat := base64UrlLength 16
def noiseMaxMessageLength : Nat := 65535
def maxE2eCiphertextLength : Nat := base64UrlLength noiseMaxMessageLength
def maxClientIdLength : Nat := 256

/-- `[A-Za-z0-9_-]`. -/
def isBase64UrlUnit (u : UInt16) : Bool :=
  (65 ≤ u && u ≤ 90) || (97 ≤ u && u ≤ 122) || (48 ≤ u && u ≤ 57) || u == 95 || u == 45

def isString : Option Json → Option JsString
  | some (.str s) => some s
  | _             => none

def isBoundedString (value : Option Json) (limit : Nat) : Option JsString :=
  (isString value).filter (fun s => s.length ≤ limit)

def isBoundedBase64Url (value : Option Json) (limit : Nat) : Option JsString :=
  (isString value).filter (fun s => 0 < s.length && s.length ≤ limit && s.all isBase64UrlUnit)

def isExactBase64Url (value : Option Json) (length : Nat) : Option JsString :=
  (isBoundedBase64Url value length).filter (fun s => s.length = length)

def isE2eId (value : Option Json) : Option JsString := isExactBase64Url value e2eIdLength

def isE2eCiphertext (value : Option Json) : Option JsString := isBoundedBase64Url value maxE2eCiphertextLength

def isE2eKind (value : Option Json) : Option E2eKind :=
  if isString value = some (units "pairing") then some .pairing
  else if isString value = some (units "connection") then some .connection
  else none

def isE2eClientStep (value : Option Json) : Option E2eClientStep :=
  if isString value = some (units "init") then some .init
  else if isString value = some (units "transport") then some .transport
  else none

def isE2eBurrowStep (value : Option Json) : Option E2eBurrowStep :=
  if isString value = some (units "response") then some .response
  else if isString value = some (units "transport") then some .transport
  else none

def isE2eClientFrame (frame : Json) : Option E2eClientFrame :=
  if isString (frame.field (units "t")) ≠ some (units "e2e") then none
  else do
    let burrowId ← isE2eId (frame.field (units "burrowId"))
    let kind ← isE2eKind (frame.field (units "kind"))
    let id ← isE2eId (frame.field (units "id"))
    let step ← isE2eClientStep (frame.field (units "step"))
    let ct ← isE2eCiphertext (frame.field (units "ct"))
    some ⟨burrowId, kind, id, step, ct⟩

def isE2eBurrowFrame (frame : Json) : Option E2eBurrowFrame :=
  if isString (frame.field (units "t")) ≠ some (units "e2e") then none
  else do
    let clientId ← isBoundedString (frame.field (units "clientId")) maxClientIdLength
    let kind ← isE2eKind (frame.field (units "kind"))
    let id ← isE2eId (frame.field (units "id"))
    let step ← isE2eBurrowStep (frame.field (units "step"))
    let ct ← isE2eCiphertext (frame.field (units "ct"))
    some ⟨clientId, kind, id, step, ct⟩

/-! ## Reading and rebuilding a frame -/

def malformedFrameError : JsString := units "malformed frame"
def unknownFrameTypeError : JsString := units "unknown frame type"
def malformedE2eFrameError : JsString := units "malformed e2e frame"

def offlineError (burrowId : JsString) : RelayToClientFrame :=
  .error (units "burrow " ++ burrowId ++ units " is offline")

section Reading

variable (parse : JsString → Option Json)

/-- A raw text frame as a JSON object, or `none`; an array is one too. -/
def parseObject (raw : JsString) : Option Json :=
  (parse raw).filter (fun parsed =>
    match parsed with
    | .obj _ => true
    | .arr _ => true
    | _      => false)

/-- A Client frame's routing envelope, or the `error` frame it is answered with. -/
def readClientFrame (raw : JsString) : Except RelayToClientFrame E2eClientFrame :=
  match parseObject parse raw with
  | none        => .error (.error malformedFrameError)
  | some parsed =>
    match isString (parsed.field (units "t")) with
    | none   => .error (.error malformedFrameError)
    | some t =>
      if t ≠ units "e2e" then .error (.error unknownFrameTypeError)
      else
        match isE2eClientFrame parsed with
        | none       => .error (.error malformedE2eFrameError)
        | some frame => .ok frame

/-- A Burrow frame's routing envelope; a malformed one is dropped unanswered. -/
def readBurrowFrame (raw : JsString) : Option E2eBurrowFrame := (parseObject parse raw).bind isE2eBurrowFrame

theorem readClientFrame_error {raw : JsString} {frame : RelayToClientFrame}
    (h : readClientFrame parse raw = .error frame) : ∃ text, frame = .error text := by
  unfold readClientFrame at h
  repeat' split at h
  all_goals first | (obtain rfl := Except.error.inj h; exact ⟨_, rfl⟩) | cases h

end Reading

def toBurrowEnvelope (clientId : JsString) (frame : E2eClientFrame) : RelayToBurrowFrame :=
  .e2e clientId frame.burrowId frame.kind frame.id frame.step frame.ct

def toClientEnvelope (burrowId : JsString) (frame : E2eBurrowFrame) : RelayToClientFrame :=
  .e2e burrowId frame.kind frame.id frame.step frame.ct

end Relay
end Dormouse

import Dormouse.BurrowRuntime
import Dormouse.DirectPath
/-!
# OneTimeRuntime — one link, one phone, one session

`OneTimeRuntime` of `lib/src/remote/burrow/one-time-runtime.ts`, with the session it promotes (`established-session.ts`) and
that session's direct path (`direct-endpoint.ts`), as a step function.  Each input is one synchronous stretch: a message or
the close of the rendezvous socket, the drain taking its next item, the handshake of an `init` settling, a call of the
owner, a timer, an event of the peer connection, a call of the remote api.  What outside code decides is an argument: the
clock, what a ciphertext reads as, whether a handshake, a seal or a socket succeeds, what the channel held until the switch.
A message of the application arrives with the frame that completes it.

The owner's callbacks are taken to return before they call back.  An object compared by identity has a `Ref`, given once.
`log` is no field of the class: it records what leaves it, and what the results speak of.
-/
namespace Dormouse
namespace OneTime

open Burrow (Ref isPairingCode defaultPairingTtlMs establishedE2eIdleTimeoutMs directOnlyDeadlineMs)
open Direct (DirectPath DirectSignal AttemptState)

def oneTimeOpenTimeoutMs : Int := 8000
def maxOneTimeForwarded : Nat := 32
def oneTimeLinkTtlMs : Int := defaultPairingTtlMs
def oneTimeLinkMaxLength : Nat := 256
def wsCloseOneTimeExpired : Nat := 4010
def wsCloseOneTimePeerGone : Nat := 4013
def wsCloseOneTimeDeadline : Nat := 4014
def wsCloseOneTimeViolation : Nat := 4015

inductive OneTimeEndReason where
  | userEnded
  | userDenied
  | confirmationMismatch
  | expired
  | phoneLeft
  | directFailed
  | networkNotAllowed
  | idle
  | unreachable
  | rendezvousLost
  | burrowError
  deriving DecidableEq

inductive OneTimeDenialCode where
  | userDenied
  | confirmationMismatch
  | linkExpired
  | burrowError
  deriving DecidableEq

def endReasonForDenial : OneTimeDenialCode → OneTimeEndReason
  | .userDenied           => .userDenied
  | .confirmationMismatch => .confirmationMismatch
  | .linkExpired          => .expired
  | .burrowError          => .burrowError

def endsWithGoodbye : OneTimeEndReason → Bool
  | .userEnded         => true
  | .idle              => true
  | .networkNotAllowed => true
  | _                  => false

def endReasonForClose (code : Option Nat) : OneTimeEndReason :=
  if code = some wsCloseOneTimePeerGone then .phoneLeft
  else if code = some wsCloseOneTimeExpired ∨ code = some wsCloseOneTimeDeadline then .expired
  else if code = some wsCloseOneTimeViolation then .burrowError
  else .rendezvousLost

inductive DirectOnlyBreak where
  | relayedApp
  | pathRefused
  | givenUp
  | deadline
  deriving DecidableEq

/-- The end of the path that was refused, and the address it has, with whether it was observed. -/
inductive RefusedEnd where
  | ofRemote (address : Option (JsString × Bool))
  | ofLocal (address : Option JsString)
  deriving DecidableEq

structure PathRefusal where
  atMs    : Int
  kind    : DirectOnlyBreak
  refused : Option RefusedEnd
  deriving DecidableEq

inductive OneTimeState where
  | idle
  | opening
  | waiting (url : JsString) (expiresAt : Int)
  | confirming (label : JsString) (expiresAt : Int)
  | connecting (label : JsString)
  | connected (label : JsString) (since : Int)
  | ended (reason : OneTimeEndReason) (refusal : Option PathRefusal)
  deriving DecidableEq

def OneTimeState.isEnded : OneTimeState → Bool
  | .ended _ _ => true
  | _          => false

/-! ## The link -/

/-- The one-use keypair; of its halves only the public one is told. -/
structure NoiseKeyPair where
  ref                : Ref
  publicKeyBase64Url : JsString
  deriving DecidableEq

structure OneTimeLink where
  roomId          : JsString
  expiry          : Int
  ephPubBase64Url : JsString
  deriving DecidableEq

def linkFor (roomId : JsString) (roomExpiresAt : Int) (keyPair : NoiseKeyPair) (now : Int) : OneTimeLink where
  roomId          := roomId
  expiry          := min (now + oneTimeLinkTtlMs) roomExpiresAt / 1000
  ephPubBase64Url := keyPair.publicKeyBase64Url

def oneTimeLinkExpired (link : OneTimeLink) (now : Int) : Bool := link.expiry * 1000 < now

/-- Ten digits; `none` where the source throws. -/
def formatExpiry (expiry : Int) : Option JsString :=
  if expiry < 0 ∨ expiry > 0xffffffff then none
  else
    let digits := units (toString expiry.toNat)
    some (List.replicate (10 - digits.length) 48 ++ digits)

def formatOneTimeLinkUrl (origin : JsString) (link : OneTimeLink) : Option JsString :=
  (formatExpiry link.expiry).bind fun expiry =>
    let url := origin ++ units "/connect/#1." ++ link.roomId ++ units "." ++ expiry ++ units "." ++ link.ephPubBase64Url
    if url.length > oneTimeLinkMaxLength then none else some url

/-! ## The messages -/

/-- The fields a guard reads off a control message: those of a request, and the signal it is, if it is one. -/
structure Control where
  code   : Option JsString
  label  : Option JsString
  signal : Option DirectSignal
  deriving DecidableEq

structure OneTimeRequestV1 where
  code  : JsString
  label : JsString
  deriving DecidableEq

def asOneTimeRequestV1 (value : Control) : Option OneTimeRequestV1 :=
  match value.code, value.label with
  | some code, some label => if isPairingCode code && bounded label then some ⟨code, label⟩ else none
  | _, _                  => none

def oneTimeDeviceLabels : List JsString :=
  [units "iPhone", units "iPad", units "Android phone", units "Phone browser"]

def knownOneTimeDeviceLabel (label : JsString) : JsString :=
  if oneTimeDeviceLabels.contains label then label else units "Phone browser"

/-- What the transport does with a message to send: so many ciphertexts that leave, after which the channel may be lost,
a refusal that moved no counter, or a poisoned session. -/
inductive Sealing where
  | sealed (chunks : Nat) (lost : Bool)
  | refused
  | poisoned
  deriving DecidableEq

/-- What the remote api calls, on its own or while it handles a message. -/
inductive ApiCall where
  | send (sealing : Sealing)
  | endSession
  deriving DecidableEq

/-- One application message: its text, `none` where it is no JSON, and what the api calls while it handles it. -/
structure AppMessage where
  text  : Option JsString
  calls : List ApiCall
  deriving DecidableEq

/-- What a transport ciphertext reads as; `failed` is a throw. -/
inductive Receipt where
  | failed
  | keepalive
  | control (value : Control)
  | app (messages : List AppMessage)
  deriving DecidableEq

inductive Carrier where
  | relay
  | channel
  deriving DecidableEq

inductive Step where
  | init
  | transport
  deriving DecidableEq

inductive RendezvousWork where
  | frame (step : Step)
  | closed (code : Option Nat)
  deriving DecidableEq

inductive Raw where
  | pong
  | room (roomId : JsString) (expiresAt : Int)
  | frame (step : Step)
  | other
  deriving DecidableEq

/-! ## The state -/

structure ReservedPhone where
  ref       : Ref
  request   : Option OneTimeRequestV1
  attempted : Bool
  deriving DecidableEq

/-- An `EstablishedE2eSession`, with its direct path from `attempt` on; `peer` where one is held. -/
structure EstablishedE2eSession where
  directOnlyBy         : Option Int
  lastClientActivityAt : Int
  pathRefusal          : Option PathRefusal
  disposed             : Bool
  /-- The given-up attempt is reported a microtask later. -/
  givingUp             : Bool
  attempt              : AttemptState
  outbound             : DirectPath
  inbound              : DirectPath
  attempted            : Bool
  owesAnswer           : Bool
  peer                 : Bool
  deriving DecidableEq

namespace EstablishedE2eSession

def create (directOnly : Bool) (now : Int) : EstablishedE2eSession where
  directOnlyBy         := if directOnly then some (now + directOnlyDeadlineMs) else none
  lastClientActivityAt := now
  pathRefusal          := none
  disposed             := false
  givingUp             := false
  attempt              := .idle
  outbound             := .relay
  inbound              := .relay
  attempted            := false
  owesAnswer           := false
  peer                 := false

def path (e : EstablishedE2eSession) : DirectPath :=
  if !e.disposed && (e.outbound = .direct && e.inbound = .direct) then .direct else .relay

def switched (e : EstablishedE2eSession) : Bool := e.outbound = .direct || e.inbound = .direct

def directDeadlineAt (e : EstablishedE2eSession) : Option Int := if e.path = .direct then none else e.directOnlyBy

def idleDeadlineAt (e : EstablishedE2eSession) : Int := e.lastClientActivityAt + establishedE2eIdleTimeoutMs

end EstablishedE2eSession

inductive Event where
  | reserved (phone : Ref)
  /-- The request is surfaced for approval. -/
  | requested (phone : Ref) (code label : JsString)
  /-- The owner's calls, on the phone the link is reserved for. -/
  | approved (phone : Ref) (typed : JsString) (now : Int)
  | denied (phone : Ref)
  | dismissed
  | promoted (session phone : Ref)
  /-- A frame, or a ping, leaves over the rendezvous or the channel. -/
  | sent (carrier : Carrier)
  /-- The api is given a message. -/
  | handled (session : Ref) (carrier : Carrier) (text : JsString)
  | pathRefused (refusal : PathRefusal)
  | opened (state : OneTimeState)
  | announced (state : OneTimeState)
  deriving DecidableEq

structure Config where
  linkOrigin : JsString
  /-- A path policy holds the direct path. -/
  pathHeld   : Bool

structure OneTimeRuntime where
  state          : OneTimeState
  /-- `open` has not resolved. -/
  opening        : Bool
  /-- The keygen is running. -/
  minting        : Bool
  /-- The rendezvous socket is read, and pings. -/
  reading        : Bool
  pinging        : Bool
  keyPair        : Option NoiseKeyPair
  link           : Option OneTimeLink
  reserved       : Option ReservedPhone
  established    : Option Ref
  sessions       : OrdMap Ref EstablishedE2eSession
  work           : List RendezvousWork
  /-- The `init` in hand awaits its handshake, with the key it holds. -/
  handling       : Option NoiseKeyPair
  received       : Nat
  initTokens     : TokenBucket
  openDeadlineAt : Int
  nextRef        : Ref
  log            : List Event

namespace OneTimeRuntime

def create (now : Int) : OneTimeRuntime where
  state          := .idle
  opening        := false
  minting        := false
  reading        := false
  pinging        := false
  keyPair        := none
  link           := none
  reserved       := none
  established    := none
  sessions       := .empty
  work           := []
  handling       := none
  received       := 0
  initTokens     := ⟨8, 1000, 8, now⟩
  openDeadlineAt := 0
  nextRef        := 0
  log            := []

def note (s : OneTimeRuntime) (e : Event) : OneTimeRuntime := { s with log := s.log ++ [e] }

def sendFrame (s : OneTimeRuntime) : OneTimeRuntime := if s.reading then s.note (.sent .relay) else s

def closeRendezvous (s : OneTimeRuntime) : OneTimeRuntime := { s with reading := false, pinging := false }

def dismiss (s : OneTimeRuntime) (previous : OneTimeState) : OneTimeRuntime :=
  match previous, s.state with
  | .confirming _ _, .confirming _ _ => s
  | .confirming _ _, _               => s.note .dismissed
  | _, _                             => s

/-- `open` resolves, once `opening` is over. -/
def resolveOpen (s : OneTimeRuntime) (previous : OneTimeState) : OneTimeRuntime :=
  if previous = .opening ∧ s.state ≠ .opening ∧ s.opening then { s with opening := false }.note (.opened s.state) else s

def announce (s : OneTimeRuntime) (previous : OneTimeState) : OneTimeRuntime :=
  ((s.dismiss previous).resolveOpen previous).note (.announced s.state)

def setState (s : OneTimeRuntime) (next : OneTimeState) : OneTimeRuntime :=
  if s.state.isEnded then s else { s with state := next }.announce s.state

def modifySession (s : OneTimeRuntime) (ref : Ref) (f : EstablishedE2eSession → EstablishedE2eSession) : OneTimeRuntime :=
  match s.sessions.get ref with
  | none   => s
  | some e => { s with sessions := s.sessions.set ref (f e) }

/-- `DirectEndpoint.send`: the relay until the switch, the channel from it on. -/
def directSend (s : OneTimeRuntime) (ref : Ref) : OneTimeRuntime :=
  match s.sessions.get ref with
  | none   => s
  | some e => if e.outbound = .direct then (if e.peer then s.note (.sent .channel) else s) else s.sendFrame

/-- `EstablishedE2eSession.end`: the goodbye, where it seals, and the session is over. -/
def endSession (s : OneTimeRuntime) (ref : Ref) (seals : Bool) : OneTimeRuntime :=
  match s.sessions.get ref with
  | none   => s
  | some e =>
    if e.disposed then s
    else (if seals then s.directSend ref else s).modifySession ref ({ · with disposed := true, peer := false })

def disposeSession (s : OneTimeRuntime) (ref : Ref) : OneTimeRuntime :=
  s.modifySession ref (fun e => if e.disposed then e else { e with disposed := true, peer := false })

/-- The session an ending takes with it: told goodbye, or only disposed. -/
def letGo (s : OneTimeRuntime) (reason : OneTimeEndReason) (seals : Bool) : OneTimeRuntime :=
  match s.established with
  | none     => { s with established := none }.closeRendezvous
  | some ref =>
    let s := { s with established := none }
    let s := if endsWithGoodbye reason then s.endSession ref seals else s
    s.closeRendezvous.disposeSession ref

/-- `#end`, the one way the runtime ends: everything it holds goes. -/
def end' (s : OneTimeRuntime) (reason : OneTimeEndReason) (refusal : Option PathRefusal) (seals : Bool) : OneTimeRuntime :=
  if s.state.isEnded then s
  else
    let previous := s.state
    let s := ({ s with state := .ended reason refusal, work := [] }).letGo reason seals
    { s with reserved := none, keyPair := none }.announce previous

/-! ## The session's reports -/

def onSessionFatal (s : OneTimeRuntime) (ref : Ref) (seals : Bool) : OneTimeRuntime :=
  if s.established ≠ some ref then s
  else
    match s.state with
    | .connected _ _ => s.end' .phoneLeft none seals
    | _              => s.end' .directFailed none seals

/-- `EstablishedE2eSession.#fatal`. -/
def fatal (s : OneTimeRuntime) (ref : Ref) (seals : Bool) : OneTimeRuntime :=
  match s.sessions.get ref with
  | none   => s
  | some e => if e.disposed then s else s.onSessionFatal ref seals

def onDirectOnlyBroken (s : OneTimeRuntime) (ref : Ref) (reason : DirectOnlyBreak) (seals : Bool) : OneTimeRuntime :=
  if s.established ≠ some ref then s
  else if reason = .relayedApp then s.end' .burrowError none seals
  else
    match (s.sessions.get ref).bind (·.pathRefusal) with
    | none         => s.end' .directFailed none seals
    | some refusal => (s.note (.pathRefused refusal)).end' .networkNotAllowed (some refusal) seals

def breakDirectOnly (K : Config) (s : OneTimeRuntime) (ref : Ref) (reason : DirectOnlyBreak) (refused : Option RefusedEnd)
    (now : Int) (seals : Bool) : OneTimeRuntime :=
  match s.sessions.get ref with
  | none   => s
  | some e =>
    if e.disposed then s
    else
      let forPath := reason = .pathRefused ∨ (reason ≠ .relayedApp ∧ e.attempted)
      let s := if K.pathHeld ∧ forPath then
          s.modifySession ref ({ · with pathRefusal := some ⟨now, reason, refused⟩ })
        else s
      if e.directOnlyBy.isSome then s.onDirectOnlyBroken ref reason seals else s

def onTransportChanged (s : OneTimeRuntime) (ref : Ref) (path : DirectPath) (now : Int) : OneTimeRuntime :=
  if s.established ≠ some ref ∨ path ≠ .direct then s
  else
    match s.state with
    | .connecting label => { s.closeRendezvous with work := [] }.setState (.connected label now)
    | _                 => s

/-! ## The direct path -/

def alive (s : OneTimeRuntime) (ref : Ref) : Bool := (s.sessions.get ref).any (fun e => !e.disposed)

/-- What the owner hears when the path may have changed; one it has heard before it ignores. -/
def settle (s : OneTimeRuntime) (ref : Ref) (now : Int) : OneTimeRuntime :=
  match s.sessions.get ref with
  | none   => s
  | some e => if e.path = .direct then s.onTransportChanged ref .direct now else s

def sendSignal (s : OneTimeRuntime) (seals : Bool) : OneTimeRuntime × Bool := (if seals then s.sendFrame else s, seals)

def giveUp (s : OneTimeRuntime) (ref : Ref) (seals : Bool) : OneTimeRuntime × Bool :=
  match s.sessions.get ref with
  | none   => (s, false)
  | some e =>
    if e.switched then (s.fatal ref seals, false)
    else (s.modifySession ref ({ · with peer := false, attempt := .abandoned, givingUp := e.directOnlyBy.isSome }), true)

def decline (s : OneTimeRuntime) (ref : Ref) (seals : Bool) : OneTimeRuntime :=
  match (s.modifySession ref ({ · with owesAnswer := false })).giveUp ref seals with
  | (s', true)  => (s'.sendSignal seals).1
  | (s', false) => s'

/-- `#answer`, up to its await. -/
def answer (s : OneTimeRuntime) (ref : Ref) (builds seals : Bool) : OneTimeRuntime :=
  match s.sessions.get ref with
  | none   => s
  | some e =>
    if e.attempt ≠ .idle then s
    else if builds then
      s.modifySession ref ({ · with attempt := .attempting, owesAnswer := true, attempted := true, peer := true })
    else (s.modifySession ref ({ · with attempt := .attempting, owesAnswer := true })).decline ref seals

/-- `#answer` past its await; `sdp` where there is a description to send. -/
def described (s : OneTimeRuntime) (ref : Ref) (sdp seals : Bool) : OneTimeRuntime :=
  if !((s.sessions.get ref).any (fun e => !e.disposed && e.peer)) then s
  else if !sdp then s.decline ref seals
  else
    match (s.modifySession ref ({ · with owesAnswer := false })).sendSignal seals with
    | (s', true)  => s'
    | (s', false) => (s'.giveUp ref seals).1

/-- The channel is open: the switch is this end's last message on the relay. -/
def onOpen (s : OneTimeRuntime) (ref : Ref) (now : Int) (seals : Bool) : OneTimeRuntime :=
  if !s.alive ref then s
  else
    match s.sendSignal seals with
    | (s', true)  => (s'.modifySession ref ({ · with outbound := .direct })).settle ref now
    | (s', false) => (s'.giveUp ref seals).1

def onClosed (s : OneTimeRuntime) (ref : Ref) (seals : Bool) : OneTimeRuntime :=
  match s.sessions.get ref with
  | none   => s
  | some e => if e.disposed then s else if e.owesAnswer then s.decline ref seals else (s.giveUp ref seals).1

def onViolation (K : Config) (s : OneTimeRuntime) (ref : Ref) (pathRefused : Bool) (refused : Option RefusedEnd) (now : Int)
    (seals : Bool) : OneTimeRuntime :=
  if !s.alive ref then s
  else if pathRefused && ((s.sessions.get ref).bind (·.directOnlyBy)).isSome then
    breakDirectOnly K s ref .pathRefused refused now seals
  else s.fatal ref seals

def handoffExpired (s : OneTimeRuntime) (ref : Ref) (seals : Bool) : OneTimeRuntime :=
  if (s.sessions.get ref).any (fun e => !e.disposed && (e.outbound = .direct && e.inbound = .relay)) then s.fatal ref seals
  else s

/-! ## What the session reads and sends -/

/-- `#sendApp`. -/
def sendApp (s : OneTimeRuntime) (ref : Ref) (seals : Bool) : Sealing → OneTimeRuntime
  | .sealed chunks lost =>
    let s := (List.range chunks).foldl (fun s _ => if s.alive ref then s.directSend ref else s) s
    if lost then s.onClosed ref seals else s
  | .refused  => s
  | .poisoned => s.fatal ref seals

def apiCall (s : OneTimeRuntime) (ref : Ref) (seals : Bool) : ApiCall → OneTimeRuntime
  | .send sealing => s.sendApp ref seals sealing
  | .endSession   => if s.established = some ref then s.end' .userEnded none seals else s

def handleAll (s : OneTimeRuntime) (ref : Ref) (carrier : Carrier) (seals : Bool) : List AppMessage → OneTimeRuntime
  | []           => s
  | m :: messages =>
    match m.text with
    | none      => handleAll s ref carrier seals messages
    | some text =>
      let s := m.calls.foldl (fun s call => s.apiCall ref seals call) (s.note (.handled ref carrier text))
      if s.alive ref then handleAll s ref carrier seals messages else s

/-- `EstablishedE2eSession.#receive`. -/
def receive (K : Config) (s : OneTimeRuntime) (ref : Ref) (carrier : Carrier) (receipt : Receipt) (now : Int) (seals : Bool) :
    OneTimeRuntime :=
  match receipt with
  | .failed       => s.fatal ref seals
  | .app messages =>
    if carrier = .relay ∧ ((s.sessions.get ref).bind (·.directOnlyBy)).isSome then
      breakDirectOnly K s ref .relayedApp none now seals
    else (s.modifySession ref ({ · with lastClientActivityAt := now })).handleAll ref carrier seals messages
  | _ => s.modifySession ref ({ · with lastClientActivityAt := now })

/-- `DirectEndpoint.onSignal`, as the answerer; what the channel held is delivered by the caller. -/
def onSignal (s : OneTimeRuntime) (ref : Ref) (builds : Bool) (now : Int) (seals : Bool) (signal : DirectSignal) :
    OneTimeRuntime :=
  if !s.alive ref then s
  else
    match signal with
    | .offer  => s.answer ref builds seals
    | .switch =>
      if ((s.sessions.get ref).map (·.attempt)) ≠ some .attempting then s.fatal ref seals
      else (s.modifySession ref ({ · with inbound := .direct })).settle ref now
    | _       => s

/-- `DirectEndpoint.#deliver`. -/
def deliver (K : Config) (s : OneTimeRuntime) (ref : Ref) (carrier : Carrier) (builds : Bool) (now : Int) (seals : Bool)
    (receipt : Receipt) : OneTimeRuntime :=
  let s := receive K s ref carrier receipt now seals
  match receipt with
  | .control value =>
    match value.signal with
    | some signal => s.onSignal ref builds now seals signal
    | none        => s
  | _ => s

def deliverHeld (K : Config) (s : OneTimeRuntime) (ref : Ref) (builds : Bool) (now : Int) (seals : Bool)
    (held : List Receipt) : OneTimeRuntime :=
  held.foldl (fun s receipt => if s.alive ref then deliver K s ref .channel builds now seals receipt else s) s

def isSwitch : Receipt → Bool
  | .control value => value.signal = some .switch
  | _              => false

def onRelayFrame (K : Config) (s : OneTimeRuntime) (ref : Ref) (decodes builds : Bool) (now : Int) (seals : Bool)
    (receipt : Receipt) (held : List Receipt) : OneTimeRuntime :=
  match s.sessions.get ref with
  | none   => s
  | some e =>
    if e.disposed then s
    else if e.inbound = .direct ∨ !decodes then s.fatal ref seals
    else
      let s := deliver K s ref .relay builds now seals receipt
      if isSwitch receipt then deliverHeld K s ref builds now seals held else s

/-- `#onFrame` of the channel: processed once the peer has switched, held until then, or more than can be held. -/
def onChannelFrame (K : Config) (s : OneTimeRuntime) (ref : Ref) (overflows builds : Bool) (now : Int) (seals : Bool)
    (receipt : Receipt) : OneTimeRuntime :=
  match s.sessions.get ref with
  | none   => s
  | some e =>
    if e.disposed then s
    else if e.inbound = .direct then deliver K s ref .channel builds now seals receipt
    else if overflows then s.fatal ref seals
    else s

/-! ## The rendezvous -/

/-- `open`, once; the keygen runs on. -/
def open' (s : OneTimeRuntime) (now : Int) : OneTimeRuntime :=
  if s.state ≠ .idle then s
  else { s with opening := true, minting := true, openDeadlineAt := now + oneTimeOpenTimeoutMs }.setState .opening

/-- The keygen is over; `connects` where the socket could be made. -/
def minted (s : OneTimeRuntime) (publicKey : Option JsString) (connects : Bool) : OneTimeRuntime :=
  if !s.minting then s
  else
    let s := { s with minting := false }
    match publicKey with
    | none           => s.end' .burrowError none false
    | some publicKey =>
      if s.state ≠ .opening then s
      else
        let s := { s with keyPair := some ⟨s.nextRef, publicKey⟩, nextRef := s.nextRef + 1 }
        if connects then { s with reading := true } else s.end' .unreachable none false

def onRoomMessage (K : Config) (s : OneTimeRuntime) (raw : Raw) (now : Int) : OneTimeRuntime :=
  match raw, s.keyPair with
  | .room roomId expiresAt, some keyPair =>
    let link := linkFor roomId expiresAt keyPair now
    match formatOneTimeLinkUrl K.linkOrigin link with
    | none     => s.end' .burrowError none false
    | some url => { s with link := some link }.setState (.waiting url (link.expiry * 1000))
  | _, _ => s.end' .unreachable none false

def onMessage (K : Config) (s : OneTimeRuntime) (raw : Raw) (now : Int) (seals : Bool) : OneTimeRuntime :=
  if !s.reading ∨ raw = .pong then s
  else if s.link.isNone then onRoomMessage K s raw now
  else
    let s := { s with received := s.received + 1 }
    if s.received > maxOneTimeForwarded then s.end' .burrowError none seals
    else
      match raw with
      | .frame step => { s with work := s.work ++ [.frame step] }
      | _           => s

def onClose (s : OneTimeRuntime) (code : Option Nat) : OneTimeRuntime :=
  if !s.reading then s else { s with reading := false, pinging := false, work := s.work ++ [.closed code] }

def onRendezvousClosed (s : OneTimeRuntime) (code : Option Nat) (seals : Bool) : OneTimeRuntime :=
  match s.state with
  | .ended _ _     => s
  | .connected _ _ => s
  | _              => s.end' (if s.link.isSome then endReasonForClose code else .unreachable) none seals

/-! ## The ceremony -/

/-- `#onInit`, up to its await. -/
def onInit (s : OneTimeRuntime) (now : Int) : OneTimeRuntime :=
  match s.link, s.keyPair with
  | some _, some keyPair =>
    if s.reserved.isSome ∨ s.established.isSome then s
    else
      let taken := s.initTokens.take now
      let s := { s with initTokens := taken.1 }
      if taken.2 then { s with handling := some keyPair } else s
  | _, _ => s

/-- The handshake is over: the link is reserved, unless the runtime let go of the key meanwhile. -/
def initSettled (s : OneTimeRuntime) (ok : Bool) : OneTimeRuntime :=
  match s.handling with
  | none         => s
  | some keyPair =>
    let s := { s with handling := none }
    if !ok then s
    else if s.keyPair.map (·.ref) ≠ some keyPair.ref ∨ s.reserved.isSome then s
    else
      ({ s with
        reserved := some ⟨s.nextRef, none, false⟩
        keyPair  := none
        nextRef  := s.nextRef + 1 }.note (.reserved s.nextRef)).sendFrame

def deny (s : OneTimeRuntime) (phone : Ref) (code : OneTimeDenialCode) (seals : Bool) : OneTimeRuntime :=
  if s.reserved.map (·.ref) ≠ some phone then s
  else (if seals then s.sendFrame else s).end' (endReasonForDenial code) none seals

def surface (s : OneTimeRuntime) (phone : ReservedPhone) (request : OneTimeRequestV1) (link : OneTimeLink) :
    OneTimeRuntime :=
  let label := knownOneTimeDeviceLabel request.label
  ({ s with reserved := some { phone with request := some ⟨request.code, label⟩ } }.setState
    (.confirming label (link.expiry * 1000))).note (.requested phone.ref request.code label)

def onReserved (s : OneTimeRuntime) (phone : ReservedPhone) (decodes : Bool) (receipt : Receipt) (now : Int) (seals : Bool) :
    OneTimeRuntime :=
  if !decodes then s.end' .burrowError none seals
  else
    match receipt with
    | .failed        => s.end' .burrowError none seals
    | .keepalive     => s
    | .app _         => if phone.request.isSome then s else s.deny phone.ref .burrowError seals
    | .control value =>
      if phone.request.isSome then s
      else
        match asOneTimeRequestV1 value, s.link with
        | some request, some link =>
          if oneTimeLinkExpired link now then s.deny phone.ref .linkExpired seals else s.surface phone request link
        | _, _ => s.deny phone.ref .burrowError seals

def onTransport (K : Config) (s : OneTimeRuntime) (decodes builds : Bool) (receipt : Receipt) (held : List Receipt)
    (now : Int) (seals : Bool) : OneTimeRuntime :=
  match s.established, s.reserved with
  | some ref, _       => onRelayFrame K s ref decodes builds now seals receipt held
  | none, some phone  => s.onReserved phone decodes receipt now seals
  | none, none        => s

/-- The drain takes its next item, once the one before it is done. -/
def drain (K : Config) (s : OneTimeRuntime) (decodes builds : Bool) (receipt : Receipt) (held : List Receipt) (now : Int)
    (seals : Bool) : OneTimeRuntime :=
  match s.handling, s.work with
  | none, .closed code :: rest      => { s with work := rest }.onRendezvousClosed code seals
  | none, .frame .init :: rest      => { s with work := rest }.onInit now
  | none, .frame .transport :: rest => onTransport K { s with work := rest } decodes builds receipt held now seals
  | _, _                            => s

/-- The same Noise session, promoted, direct-only; `serves` where the session could be built. -/
def promote (s : OneTimeRuntime) (phone : Ref) (label : JsString) (now : Int) (seals serves : Bool) : OneTimeRuntime :=
  let s := { s with reserved := none }
  if !seals then s.end' .burrowError none seals
  else if !serves then s.end' .burrowError none seals
  else
    (({ s with
      established := some s.nextRef
      sessions    := s.sessions.set s.nextRef (.create true now)
      nextRef     := s.nextRef + 1 }.note (.promoted s.nextRef phone)).sendFrame).setState (.connecting label)

/-- The local confirmation: one attempt, spent before the expiry and the digits are looked at.  The digits expected are
ASCII, so that the UTF-8 forms the source compares agree exactly when the texts do. -/
def approve (s : OneTimeRuntime) (phone : Ref) (code : JsString) (now : Int) (seals serves : Bool) : OneTimeRuntime :=
  match s.reserved, s.link with
  | some reserved, some link =>
    if reserved.ref ≠ phone then s
    else
      match reserved.request with
      | none         => s
      | some request =>
        let s := s.note (.approved phone code now)
        if reserved.attempted then s
        else
          let s := { s with reserved := some { reserved with attempted := true } }
          if oneTimeLinkExpired link now then s.deny phone .linkExpired seals
          else if code ≠ request.code then s.deny phone .confirmationMismatch seals
          else s.promote phone request.label now seals serves
  | _, _ => s

def denyLocally (s : OneTimeRuntime) (phone : Ref) (seals : Bool) : OneTimeRuntime :=
  match s.reserved with
  | none          => s
  | some reserved =>
    if reserved.ref ≠ phone then s
    else
      let s := s.note (.denied phone)
      if reserved.attempted then s
      else { s with reserved := some { reserved with attempted := true } }.deny phone .userDenied seals

/-! ## The deadlines -/

inductive Deadline where
  | unreachable
  | linkExpired (phone : Option Ref)
  | direct (session : Ref)
  | idle

def idleDeadline (s : OneTimeRuntime) : List (Int × Deadline) :=
  match s.established.bind s.sessions.get with
  | some e => [(e.idleDeadlineAt, .idle)]
  | none   => []

def deadlines (s : OneTimeRuntime) : List (Int × Deadline) :=
  match s.state with
  | .opening        => [(s.openDeadlineAt, .unreachable)]
  | .waiting _ _    => s.link.toList.map (fun link => (link.expiry * 1000 + 1, .linkExpired (s.reserved.map (·.ref))))
  | .confirming _ _ => s.link.toList.map (fun link => (link.expiry * 1000 + 1, .linkExpired (s.reserved.map (·.ref))))
  | .connecting _   =>
    (match s.established with
      | some ref => (((s.sessions.get ref).bind (·.directDeadlineAt)).map (fun t => (t, Deadline.direct ref))).toList
      | none     => []) ++ s.idleDeadline
  | .connected _ _ => s.idleDeadline
  | _              => []

def expire (K : Config) (s : OneTimeRuntime) (refused : Option RefusedEnd) (now : Int) (seals : Bool) :
    Deadline → OneTimeRuntime
  | .unreachable              => s.end' .unreachable none seals
  | .linkExpired (some phone) => s.deny phone .linkExpired seals
  | .linkExpired none         => s.end' .expired none seals
  | .direct ref               =>
    if ((s.sessions.get ref).bind (·.directDeadlineAt)).isNone then s
    else breakDirectOnly K s ref .deadline refused now seals
  | .idle => s.end' .idle none seals

def reap (K : Config) (s : OneTimeRuntime) (refused : Option RefusedEnd) (now : Int) (seals : Bool) : OneTimeRuntime :=
  match s.deadlines.find? (fun d => d.1 ≤ now) with
  | some d => expire K s refused now seals d.2
  | none   => s

/-! ## One stretch -/

inductive Input where
  | open' (now : Int)
  | minted (publicKey : Option JsString) (connects : Bool)
  | socketOpened
  | ping
  | message (raw : Raw) (now : Int) (seals : Bool)
  | closed (code : Option Nat)
  | drain (decodes builds : Bool) (receipt : Receipt) (held : List Receipt) (now : Int) (seals : Bool)
  | initSettled (ok : Bool)
  | approve (phone : Ref) (code : JsString) (now : Int) (seals serves : Bool)
  | deny (phone : Ref) (seals : Bool)
  | end' (reason : OneTimeEndReason) (seals : Bool)
  | reap (refused : Option RefusedEnd) (now : Int) (seals : Bool)
  | described (session : Ref) (sdp seals : Bool)
  | channelOpened (session : Ref) (now : Int) (seals : Bool)
  | channelClosed (session : Ref) (seals : Bool)
  | violated (session : Ref) (pathRefused : Bool) (refused : Option RefusedEnd) (now : Int) (seals : Bool)
  | handoffExpired (session : Ref) (seals : Bool)
  | channelFrame (session : Ref) (overflows builds : Bool) (receipt : Receipt) (now : Int) (seals : Bool)
  | givenUp (session : Ref) (refused : Option RefusedEnd) (now : Int) (seals : Bool)
  | api (session : Ref) (call : ApiCall) (seals : Bool)

def step (K : Config) (s : OneTimeRuntime) : Input → OneTimeRuntime
  | .open' now => s.open' now
  | .minted publicKey connects => s.minted publicKey connects
  | .socketOpened => if s.reading then { s with pinging := true } else s
  | .ping => if s.pinging then s.note (.sent .relay) else s
  | .message raw now seals => onMessage K s raw now seals
  | .closed code => s.onClose code
  | .drain decodes builds receipt held now seals => drain K s decodes builds receipt held now seals
  | .initSettled ok => s.initSettled ok
  | .approve phone code now seals serves => s.approve phone code now seals serves
  | .deny phone seals => s.denyLocally phone seals
  | .end' reason seals => s.end' reason none seals
  | .reap refused now seals => reap K s refused now seals
  | .described session sdp seals => s.described session sdp seals
  | .channelOpened session now seals => s.onOpen session now seals
  | .channelClosed session seals => s.onClosed session seals
  | .violated session pathRefused refused now seals => onViolation K s session pathRefused refused now seals
  | .handoffExpired session seals => s.handoffExpired session seals
  | .channelFrame session overflows builds receipt now seals =>
    onChannelFrame K s session overflows builds now seals receipt
  | .givenUp session refused now seals =>
    if (s.sessions.get session).any (·.givingUp) then breakDirectOnly K s session .givenUp refused now seals else s
  | .api session call seals => s.apiCall session seals call

end OneTimeRuntime
end OneTime
end Dormouse

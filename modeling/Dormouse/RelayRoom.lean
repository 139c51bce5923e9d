import Dormouse.RelayRouting
import Dormouse.OrdMap
import Dormouse.Mealy
/-!
# RelayRoom — one account's hosted relay

`RelayRoom` of `hosted/server/relay-room.ts`.  The object keeps nothing but its sockets, each with what its attachment holds;
`ctx.getWebSockets` answers them in the order they were accepted.  A socket stops being `OPEN` at some time of its own
(`left`), and its close event is delivered at a later one (`closed`).  An upgrade reads its row under
`blockConcurrencyWhile`, so the read and the accept are one step; what a row read answers is an argument, and so is the
clock.  The account an upgrade or a call names is taken to be the object's own, and the alarm's time is left out.
-/
namespace Dormouse
namespace Relay

def relayIdleTimeoutMs : Int := 3 * 30000
def relayRoomSweepMs : Int := 60 * 60 * 1000
def relayRoomSweepGraceMs : Int := 10 * 60 * 1000
def uncheckedReason : JsString := units "relay could not recheck this socket"
def maxRelayFrameBytes : Nat := maxE2eCiphertextLength + maxClientIdLength + 2 * e2eIdLength + 1024

/-- The bytes of a text in UTF-8; the flag says that the unit before opened a surrogate pair.  A lone surrogate is encoded
as the replacement character. -/
def utf8LengthFrom : Bool → JsString → Nat
  | _,      []      => 0
  | paired, u :: us =>
    let opens := isHighSurrogate u && us.head?.any isLowSurrogate
    (if paired && isLowSurrogate u then 0
      else if opens then 4
      else if u < 0x80 then 1
      else if u < 0x800 then 2
      else 3) + utf8LengthFrom opens us

def exceedsRelayFrameBytes (raw : JsString) : Bool :=
  if raw.length * 3 ≤ maxRelayFrameBytes then false
  else raw.length > maxRelayFrameBytes || utf8LengthFrom false raw > maxRelayFrameBytes

/-- Whose a socket is; a Client's has the Burrow it is bound to. -/
inductive Role where
  | burrow (burrowId : JsString)
  | client (clientId session : JsString) (expiresAt : Int) (burrowId : Option JsString)
  deriving DecidableEq

namespace Role

def names (burrowId : JsString) : Role → Bool
  | burrow b => b = burrowId
  | _        => false

def hasId (clientId : JsString) : Role → Bool
  | client id _ _ _ => id = clientId
  | _               => false

def isBurrow : Role → Bool
  | burrow _ => true
  | _        => false

def isClient : Role → Bool
  | client _ _ _ _ => true
  | _              => false

def bound : Role → Option JsString
  | client _ _ _ b => b
  | _              => none

def bind (burrowId : Option JsString) : Role → Role
  | client id session expiresAt _ => client id session expiresAt burrowId
  | burrow b                      => burrow b

end Role

structure Conn where
  role      : Role
  openedAt  : Int
  checkedAt : Int
  retired   : Bool
  deriving DecidableEq

/-- A socket: its attachment, whether it is `OPEN`, and when the runtime last answered its ping. -/
structure Socket where
  conn       : Conn
  isOpen     : Bool
  answeredAt : Option Int
  deriving DecidableEq

def Socket.registered (w : Socket) : Bool := w.isOpen && !w.conn.retired

def Socket.withRole (w : Socket) (f : Role → Role) : Socket := { w with conn := { w.conn with role := f w.conn.role } }

structure BurrowRow where
  burrowId : JsString
  userId   : JsString
  entitled : Bool
  deriving DecidableEq

structure SessionRow where
  tokenHash : JsString
  userId    : JsString
  entitled  : Bool
  deriving DecidableEq

inductive Message where
  | text (raw : JsString)
  | binary (byteLength : Nat)
  deriving DecidableEq

structure RelayRoom where
  sockets : OrdMap Ref Socket
  nextRef : Ref

namespace RelayRoom

def create : RelayRoom := ⟨.empty, 0⟩

/-! ## What the object holds -/

/-- `#held`: the sockets of a kind that are registered, open and not retired. -/
def held (s : RelayRoom) (p : Role → Bool) : List (Ref × Socket) :=
  s.sockets.entries.filter (fun e => e.2.registered && p e.2.conn.role)

def burrow (s : RelayRoom) (burrowId : JsString) : Option (Ref × Socket) := (s.held (Role.names burrowId)).head?

def client (s : RelayRoom) (clientId : JsString) : Option (Ref × Socket) := (s.held (Role.hasId clientId)).head?

def modify (s : RelayRoom) (ref : Ref) (f : Socket → Socket) : RelayRoom :=
  match s.sockets.get ref with
  | none   => s
  | some w => { s with sockets := s.sockets.set ref (f w) }

def accept (s : RelayRoom) (role : Role) (openedAt checkedAt : Int) : RelayRoom where
  sockets := s.sockets.set s.nextRef ⟨⟨role, openedAt, checkedAt, false⟩, true, none⟩
  nextRef := s.nextRef + 1

/-! ## Closing -/

def dropClientsOf (s : RelayRoom) (burrowId : JsString) : RelayRoom × List Out :=
  ({ s with
    sockets := s.sockets.mapValues (fun w =>
      if w.registered && w.conn.role.bound = some burrowId then w.withRole (Role.bind none) else w) },
    (s.held (fun role => role.bound = some burrowId)).map (fun e => .toClient e.1 .burrowGone))

def tellGone (s : RelayRoom) (clientId : JsString) (burrowId : Option JsString) : List Out :=
  match burrowId.bind s.burrow with
  | none   => []
  | some e => [.toBurrow e.1 (.clientGone clientId)]

/-- `#unregister`: marked first, so that a second teardown is a no-op. -/
def unregister (s : RelayRoom) (ref : Ref) : RelayRoom × List Out :=
  match s.sockets.get ref with
  | none   => (s, [])
  | some w =>
    let s := s.modify ref (fun w => { w with conn := { w.conn with retired := true } })
    match w.conn.role with
    | .burrow b           => s.dropClientsOf b
    | .client id _ _ b    => (s, s.tellGone id b)

/-- `#retire`: unregister, then start the close handshake. -/
def retire (s : RelayRoom) (ref : Ref) (code : Nat) (reason : JsString) : RelayRoom × List Out :=
  let gone := s.unregister ref
  (gone.1.modify ref ({ · with isOpen := false }), gone.2 ++ [.close ref code reason])

def closeCode (code : Nat) : Nat := if code = 1005 ∨ code = 1006 then 1000 else code

/-- The close event, of a socket that is closing by now: judged by its attachment alone. -/
def webSocketClose (s : RelayRoom) (ref : Ref) (code : Nat) : RelayRoom × List Out :=
  match s.sockets.get ref with
  | none   => (s, [])
  | some w =>
    let s := s.modify ref ({ · with isOpen := false })
    if w.conn.retired then (s, [.close ref (closeCode code) []])
    else
      let gone := s.unregister ref
      (gone.1, gone.2 ++ [.close ref (closeCode code) []])

/-! ## Silence -/

def silent (w : Socket) (now : Int) : Bool := now - w.answeredAt.getD w.conn.openedAt > relayIdleTimeoutMs

/-- `#goneSilent`, of one of the sockets a caller found. -/
def retireSilent (now : Int) (s : RelayRoom) (e : Ref × Socket) : RelayRoom × List Out :=
  if silent e.2 now then s.retire e.1 wsCloseIdle wsCloseIdleReason else (s, [])

/-! ## Opening -/

/-- The row an upgrade reads says it may: `none` where the read failed. -/
def admitted (account : JsString) (row : Option (Option (JsString × Bool))) : Bool :=
  match row with
  | some (some (userId, entitled)) => userId = account && entitled
  | _                              => false

def openBurrow (s : RelayRoom) (account burrowId : JsString) (row : Option (Option (JsString × Bool)))
    (checkedAt now : Int) : RelayRoom × List Out :=
  if !admitted account row then (s, [])
  else
    match s.burrow burrowId with
    | none          => (s.accept (.burrow burrowId) now checkedAt, [])
    | some existing =>
      let gone := s.retire existing.1 wsCloseBurrowReplaced wsCloseBurrowReplacedReason
      (gone.1.accept (.burrow burrowId) now checkedAt, gone.2)

/-- A refused socket is never the object's: it is accepted and closed at once. -/
def refuseSocket (s : RelayRoom) (code : Nat) (reason : JsString) : RelayRoom × List Out :=
  ({ s with nextRef := s.nextRef + 1 }, [.close s.nextRef code reason])

def admitClient (D : ClientIds) (s : RelayRoom) (session : JsString) (expiresAt checkedAt now : Int) : RelayRoom × List Out :=
  if (s.held Role.isClient).length ≥ maxRelayClientSockets then
    s.refuseSocket wsCloseTryAgainLater (units "too many client sockets")
  else (s.accept (.client (D.newClientId s.nextRef) session expiresAt none) now checkedAt, [])

def openClient (D : ClientIds) (s : RelayRoom) (account session : JsString) (expiresAt : Int)
    (row : Option (Option (JsString × Bool))) (checkedAt now : Int) : RelayRoom × List Out :=
  if session = [] ∨ !(expiresAt > checkedAt) then s.refuseSocket wsCloseUnauthorized wsCloseUnauthorizedReason
  else
    match row with
    | none   => (s, [])
    | some _ =>
      if !admitted account row then s.refuseSocket wsCloseUnauthorized wsCloseUnauthorizedReason
      else if (s.held Role.isClient).length ≥ maxRelayClientSockets then
        let swept := Mealy.run (retireSilent now) s (s.held Role.isClient)
        let opened := admitClient D swept.1 session expiresAt checkedAt now
        (opened.1, swept.2 ++ opened.2)
      else admitClient D s session expiresAt checkedAt now

/-! ## Frames -/

def onClientFrame (parse : JsString → Option Json) (s : RelayRoom) (ref : Ref) (clientId : JsString)
    (bound : Option JsString) (raw : JsString) (now : Int) : RelayRoom × List Out :=
  match readClientFrame parse raw with
  | .error frame => (s, [.toClient ref frame])
  | .ok frame    =>
    match s.burrow frame.burrowId with
    | none        => (s, [.toClient ref (offlineError frame.burrowId)])
    | some burrow =>
      if silent burrow.2 now then
        let gone := s.retire burrow.1 wsCloseIdle wsCloseIdleReason
        (gone.1, gone.2 ++ [.toClient ref (offlineError frame.burrowId)])
      else if frame.step = .init then
        (s.modify ref (·.withRole (Role.bind (some frame.burrowId))),
          (if bound = some frame.burrowId then [] else s.tellGone clientId bound) ++
            [.toBurrow burrow.1 (toBurrowEnvelope clientId frame)])
      else if bound ≠ some frame.burrowId then (s, [])
      else (s, [.toBurrow burrow.1 (toBurrowEnvelope clientId frame)])

def onBurrowFrame (parse : JsString → Option Json) (s : RelayRoom) (burrowId raw : JsString) : List Out :=
  match readBurrowFrame parse raw with
  | none       => []
  | some frame =>
    match s.client frame.clientId with
    | none        => []
    | some client =>
      if client.2.conn.role.bound ≠ some burrowId then []
      else [.toClient client.1 (toClientEnvelope burrowId frame)]

def oversized : Message → Bool
  | .text raw          => exceedsRelayFrameBytes raw
  | .binary byteLength => byteLength > maxRelayFrameBytes

def webSocketMessage (parse : JsString → Option Json) (s : RelayRoom) (ref : Ref) (message : Message) (now : Int) :
    RelayRoom × List Out :=
  match s.sockets.get ref with
  | none   => (s, [])
  | some w =>
    if !w.registered then (s, [])
    else if oversized message then s.retire ref wsCloseFrameTooLarge (units "frame too large")
    else
      match message, w.conn.role with
      | .binary _, _                        => (s, [])
      | .text raw, .client clientId _ _ b   => onClientFrame parse s ref clientId b raw now
      | .text raw, .burrow burrowId         => (s, onBurrowFrame parse s burrowId raw)

/-! ## The calls of the Workers, and the alarm -/

def closeBurrow (s : RelayRoom) (burrowId : JsString) : RelayRoom × List Out :=
  match s.burrow burrowId with
  | none   => (s, [])
  | some e => s.retire e.1 wsCloseBurrowRevoked wsCloseBurrowRevokedReason

def retireIf (p : Socket → Bool) (code : Nat) (reason : JsString) (s : RelayRoom) (e : Ref × Socket) : RelayRoom × List Out :=
  if p e.2 then s.retire e.1 code reason else (s, [])

def hasSession (ended : List JsString) (w : Socket) : Bool :=
  match w.conn.role with
  | .client _ session _ _ => ended.contains session
  | _                     => false

def closeSessions (s : RelayRoom) (tokenHashes : List JsString) : RelayRoom × List Out :=
  Mealy.run (retireIf (hasSession tokenHashes) wsCloseUnauthorized wsCloseUnauthorizedReason) s (s.held Role.isClient)

def nudgeBurrows (s : RelayRoom) : List Out := (s.held Role.isBurrow).map (fun e => .toBurrow e.1 .passkeysChanged)

def onlineBurrows (s : RelayRoom) (now : Int) : RelayRoom × List Out :=
  Mealy.run (retireSilent now) s (s.held Role.isBurrow)

def expired (now : Int) (w : Socket) : Bool :=
  match w.conn.role with
  | .client _ _ expiresAt _ => expiresAt ≤ now
  | _                       => false

def expire (s : RelayRoom) (now : Int) : RelayRoom × List Out :=
  Mealy.run (retireIf (expired now) wsCloseUnauthorized wsCloseUnauthorizedReason) s (s.held Role.isClient)

/-- `#checked`: found live by a sweep begun at `start`. -/
def checked (s : RelayRoom) (ref : Ref) (start : Int) : RelayRoom :=
  s.modify ref (fun w => if w.conn.checkedAt ≥ start then w else { w with conn := { w.conn with checkedAt := start } })

def unchecked (start : Int) (w : Socket) : Bool := start - w.conn.checkedAt ≥ relayRoomSweepMs + relayRoomSweepGraceMs

def closeUnchecked (s : RelayRoom) (p : Role → Bool) (start : Int) : RelayRoom × List Out :=
  Mealy.run (retireIf (unchecked start) wsCloseTryAgainLater uncheckedReason) s (s.held p)

def sweepClient (gone asked : List JsString) (start : Int) (s : RelayRoom) (e : Ref × Socket) : RelayRoom × List Out :=
  if hasSession gone e.2 then s.retire e.1 wsCloseUnauthorized wsCloseUnauthorizedReason
  else if hasSession asked e.2 then (s.checked e.1 start, [])
  else (s, [])

/-- The sweep of the Clients, past its read; `asked` are the sessions it asked about. -/
def sweepClients (s : RelayRoom) (account : JsString) (asked : List JsString) (rows : Option (List SessionRow))
    (start : Int) : RelayRoom × List Out :=
  match rows with
  | none      => s.closeUnchecked Role.isClient start
  | some rows =>
    let live := (rows.filter (fun row => row.userId = account && row.entitled)).map (·.tokenHash)
    Mealy.run (sweepClient (asked.filter (fun session => !live.contains session)) asked start) s (s.held Role.isClient)

/-- Whether the account owns the Burrow, and is entitled to it; the last row of an id counts. -/
def owned (account : JsString) (rows : List BurrowRow) (burrowId : JsString) : Option Bool :=
  ((rows.filter (fun row => row.userId = account)).reverse.find? (fun row => row.burrowId = burrowId)).map (·.entitled)

def sweepBurrow (account : JsString) (rows : List BurrowRow) (start : Int) (s : RelayRoom) (burrowId : JsString) :
    RelayRoom × List Out :=
  match s.burrow burrowId with
  | none   => (s, [])
  | some e =>
    match owned account rows burrowId with
    | some true  => (s.checked e.1 start, [.toBurrow e.1 .passkeysChanged])
    | some false => s.retire e.1 wsCloseBurrowNotEntitled wsCloseBurrowNotEntitledReason
    | none       => s.retire e.1 wsCloseBurrowRevoked wsCloseBurrowRevokedReason

def sweepBurrows (s : RelayRoom) (account : JsString) (asked : List JsString) (rows : Option (List BurrowRow)) (start : Int) :
    RelayRoom × List Out :=
  match rows with
  | none      => s.closeUnchecked Role.isBurrow start
  | some rows => Mealy.run (sweepBurrow account rows start) s asked

/-! ## One event -/

inductive Input where
  | openBurrow (account burrowId : JsString) (row : Option (Option (JsString × Bool))) (checkedAt now : Int)
  | openClient (account session : JsString) (expiresAt : Int) (row : Option (Option (JsString × Bool))) (checkedAt now : Int)
  /-- A socket stops being `OPEN`. -/
  | left (socket : Ref)
  | message (socket : Ref) (message : Message) (now : Int)
  /-- The runtime answers a ping. -/
  | ping (socket : Ref) (now : Int)
  | closed (socket : Ref) (code : Nat)
  | closeBurrow (burrowId : JsString)
  | closeSessions (tokenHashes : List JsString)
  | nudgeBurrows
  | onlineBurrows (now : Int)
  | expire (now : Int)
  | sweepClients (account : JsString) (asked : List JsString) (rows : Option (List SessionRow)) (start : Int)
  | sweepBurrows (account : JsString) (asked : List JsString) (rows : Option (List BurrowRow)) (start : Int)

def step (D : ClientIds) (parse : JsString → Option Json) (s : RelayRoom) : Input → RelayRoom × List Out
  | .openBurrow account burrowId row checkedAt now => s.openBurrow account burrowId row checkedAt now
  | .openClient account session expiresAt row checkedAt now => openClient D s account session expiresAt row checkedAt now
  | .left socket => (s.modify socket ({ · with isOpen := false }), [])
  | .message socket message now => webSocketMessage parse s socket message now
  | .ping socket now => (s.modify socket ({ · with answeredAt := some now }), [.pong socket])
  | .closed socket code => s.webSocketClose socket code
  | .closeBurrow burrowId => s.closeBurrow burrowId
  | .closeSessions tokenHashes => s.closeSessions tokenHashes
  | .nudgeBurrows => (s, s.nudgeBurrows)
  | .onlineBurrows now => s.onlineBurrows now
  | .expire now => s.expire now
  | .sweepClients account asked rows start => s.sweepClients account asked rows start
  | .sweepBurrows account asked rows start => s.sweepBurrows account asked rows start

def after (D : ClientIds) (parse : JsString → Option Json) (inputs : List Input) : RelayRoom :=
  (Mealy.run (step D parse) create inputs).1

def log (D : ClientIds) (parse : JsString → Option Json) (inputs : List Input) : List Out :=
  (Mealy.run (step D parse) create inputs).2

end RelayRoom
end Relay
end Dormouse

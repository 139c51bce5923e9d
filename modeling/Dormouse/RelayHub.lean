import Dormouse.RelayRouting
import Dormouse.OrdMap
import Dormouse.Mealy
/-!
# RelayHub — the self-hosted relay

`RelayHub` of `relay/src/relay.ts`.  A conn is what a socket's handlers hold: compared by identity, so it is a `Ref`, and the
map's own entry is read where the guard has found the two the same.  A conn's `burrowId` is read only then, and is kept in
the map.  Each operation answers the hub after it and what it did to the sockets, in order.
-/
namespace Dormouse
namespace Relay

structure BurrowConn where
  burrowId : JsString
  ref      : Ref
  deriving DecidableEq

structure ClientConn where
  clientId : JsString
  ref      : Ref
  deriving DecidableEq

/-- A registered Client: its conn, when its session dies, and the Burrow it is talking to. -/
structure ClientEntry where
  ref       : Ref
  expiresAt : Int
  burrowId  : Option JsString
  deriving DecidableEq

structure RelayHub where
  burrows : OrdMap JsString Ref
  clients : OrdMap JsString ClientEntry
  nextRef : Ref

namespace RelayHub

def create : RelayHub := ⟨.empty, .empty, 0⟩

def isCurrent (s : RelayHub) (burrow : BurrowConn) : Bool := s.burrows.get burrow.burrowId = some burrow.ref

def entryOf (s : RelayHub) (client : ClientConn) : Option ClientEntry :=
  (s.clients.get client.clientId).filter (fun e => e.ref = client.ref)

def isBurrowOnline (s : RelayHub) (burrowId : JsString) : Bool := (s.burrows.get burrowId).isSome

def dropClientsOf (s : RelayHub) (burrowId : JsString) : RelayHub × List Out :=
  ({ s with clients := s.clients.mapValues (fun e => if e.burrowId = some burrowId then { e with burrowId := none } else e) },
    (s.clients.values.filter (fun e => e.burrowId = some burrowId)).map (fun e => .toClient e.ref .burrowGone))

/-! ## Burrow lifecycle -/

/-- The conn it answers is `⟨burrowId, s.nextRef⟩`; `first` is of the one kind its caller passes. -/
def registerBurrow (s : RelayHub) (burrowId : JsString) (first : Option RelayPolicyFrame) : RelayHub × List Out :=
  let sent := first.toList.map (fun frame => .toBurrow s.nextRef (.policy frame))
  let s' := { s with burrows := s.burrows.set burrowId s.nextRef, nextRef := s.nextRef + 1 }
  match s.burrows.get burrowId with
  | none          => (s', sent)
  | some existing =>
    let dropped := s'.dropClientsOf burrowId
    (dropped.1, sent ++ dropped.2 ++ [.close existing wsCloseBurrowReplaced wsCloseBurrowReplacedReason])

def onBurrowFrame (parse : JsString → Option Json) (s : RelayHub) (burrow : BurrowConn) (raw : JsString) : List Out :=
  if !s.isCurrent burrow then []
  else if raw = relayPing then [.pong burrow.ref]
  else
    match readBurrowFrame parse raw with
    | none       => []
    | some frame =>
      match s.clients.get frame.clientId with
      | none        => []
      | some client =>
        if client.burrowId ≠ some burrow.burrowId then []
        else [.toClient client.ref (toClientEnvelope burrow.burrowId frame)]

def unregisterBurrow (s : RelayHub) (burrow : BurrowConn) : RelayHub × List Out :=
  if !s.isCurrent burrow then (s, [])
  else { s with burrows := s.burrows.delete burrow.burrowId }.dropClientsOf burrow.burrowId

def closeBurrow (s : RelayHub) (burrowId : JsString) : RelayHub × List Out :=
  match s.burrows.get burrowId with
  | none     => (s, [])
  | some ref =>
    let gone := s.unregisterBurrow ⟨burrowId, ref⟩
    (gone.1, gone.2 ++ [.close ref wsCloseBurrowRevoked wsCloseBurrowRevokedReason])

def nudgeBurrows (s : RelayHub) : List Out := s.burrows.values.map (fun ref => .toBurrow ref .passkeysChanged)

/-! ## Client lifecycle -/

/-- At the cap the socket is refused, and its caller closes it; else the conn it answers is `⟨D.newClientId s.nextRef, s.nextRef⟩`. -/
def registerClient (D : ClientIds) (s : RelayHub) (expiresAt : Int) : RelayHub × List Out :=
  if s.clients.size ≥ maxRelayClientSockets then
    ({ s with nextRef := s.nextRef + 1 }, [.close s.nextRef wsCloseTryAgainLater (units "too many client sockets")])
  else
    ({ s with
      clients := s.clients.set (D.newClientId s.nextRef) ⟨s.nextRef, expiresAt, none⟩
      nextRef := s.nextRef + 1 }, [])

/-- The Burrow a Client was bound to is told that it is gone, while it is online. -/
def tellGone (s : RelayHub) (clientId : JsString) (burrowId : Option JsString) : List Out :=
  match burrowId.bind s.burrows.get with
  | none     => []
  | some ref => [.toBurrow ref (.clientGone clientId)]

/-- A Client holds at most one binding: a move tells the Burrow it leaves. -/
def bindClientToBurrow (s : RelayHub) (clientId : JsString) (client : ClientEntry) (burrowId : JsString) :
    RelayHub × List Out :=
  ({ s with clients := s.clients.set clientId { client with burrowId := some burrowId } },
    if client.burrowId = some burrowId then [] else s.tellGone clientId client.burrowId)

def onClientFrame (parse : JsString → Option Json) (s : RelayHub) (client : ClientConn) (raw : JsString) :
    RelayHub × List Out :=
  match s.entryOf client with
  | none       => (s, [])
  | some entry =>
    if raw = relayPing then (s, [.pong client.ref])
    else
      match readClientFrame parse raw with
      | .error frame => (s, [.toClient client.ref frame])
      | .ok frame    =>
        match s.burrows.get frame.burrowId with
        | none        => (s, [.toClient client.ref (offlineError frame.burrowId)])
        | some burrow =>
          if frame.step = .init then
            let bound := s.bindClientToBurrow client.clientId entry frame.burrowId
            (bound.1, bound.2 ++ [.toBurrow burrow (toBurrowEnvelope client.clientId frame)])
          else if entry.burrowId ≠ some frame.burrowId then (s, [])
          else (s, [.toBurrow burrow (toBurrowEnvelope client.clientId frame)])

def unregisterClient (s : RelayHub) (client : ClientConn) : RelayHub × List Out :=
  match s.entryOf client with
  | none       => (s, [])
  | some entry => ({ s with clients := s.clients.delete client.clientId }, s.tellGone client.clientId entry.burrowId)

def expireClient (now : Int) (s : RelayHub) (client : JsString × ClientEntry) : RelayHub × List Out :=
  if now < client.2.expiresAt then (s, [])
  else
    let gone := s.unregisterClient ⟨client.1, client.2.ref⟩
    (gone.1, gone.2 ++ [.close client.2.ref wsCloseUnauthorized wsCloseUnauthorizedReason])

def closeExpiredClients (s : RelayHub) (now : Int) : RelayHub × List Out :=
  Mealy.run (expireClient now) s s.clients.entries

/-! ## One call -/

inductive Input where
  | registerBurrow (burrowId : JsString) (first : Option RelayPolicyFrame)
  | burrowFrame (burrow : BurrowConn) (raw : JsString)
  | unregisterBurrow (burrow : BurrowConn)
  | closeBurrow (burrowId : JsString)
  | nudgeBurrows
  | registerClient (expiresAt : Int)
  | clientFrame (client : ClientConn) (raw : JsString)
  | unregisterClient (client : ClientConn)
  | closeExpiredClients (now : Int)

def step (D : ClientIds) (parse : JsString → Option Json) (s : RelayHub) : Input → RelayHub × List Out
  | .registerBurrow burrowId first => s.registerBurrow burrowId first
  | .burrowFrame burrow raw => (s, onBurrowFrame parse s burrow raw)
  | .unregisterBurrow burrow => s.unregisterBurrow burrow
  | .closeBurrow burrowId => s.closeBurrow burrowId
  | .nudgeBurrows => (s, s.nudgeBurrows)
  | .registerClient expiresAt => registerClient D s expiresAt
  | .clientFrame client raw => onClientFrame parse s client raw
  | .unregisterClient client => s.unregisterClient client
  | .closeExpiredClients now => s.closeExpiredClients now

def after (D : ClientIds) (parse : JsString → Option Json) (inputs : List Input) : RelayHub :=
  (Mealy.run (step D parse) create inputs).1

end RelayHub
end Relay
end Dormouse

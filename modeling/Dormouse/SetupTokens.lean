import Dormouse.Js
import Dormouse.OrdMap
import Dormouse.Steps
/-!
# SetupTokens — the setup tokens of a Relay (`setup-token.ts`, `app.ts`)

A setup token is what an enrolled Burrow's QR carries: it registers one passkey.  `POST setup/finish` claims it at its gate,
before the first of its checks, commits it right before the write, and on every failure puts it back; retiring a token, the
cap of its Burrow and its expiry kill it in whatever state it is.

A request is where it waits: for the enrolled Burrows, for the checks of the registration, or for the write of the passkey.
Between any two of these waits other requests run, tokens are minted and the clock is set.
-/
namespace Dormouse
namespace Relay

/-- `MAX_TOKENS_PER_BURROW`. -/
def maxTokensPerBurrow : Nat := 8

/-- `SETUP_TOKEN_TTL_MS`. -/
def setupTokenTtlMs : Int := 5 * 60 * 1000

inductive SetupTokenState where
  | live
  | claimed
  | committed
deriving DecidableEq

structure SetupTokenEntry where
  burrowId  : JsString
  expiresAt : Int
deriving DecidableEq

structure SetupTokenSlot where
  entry : SetupTokenEntry
  state : SetupTokenState
deriving DecidableEq

/-- The `#tokens` of a `SetupTokenIssuer`. -/
abbrev SetupTokens := OrdMap JsString SetupTokenSlot

namespace SetupTokens

def mark (tokens : SetupTokens) (token : JsString) (slot : SetupTokenSlot) (state : SetupTokenState) : SetupTokens :=
  tokens.set token { slot with state }

/-- `#live`: a token's slot while unexpired; an expired one is reclaimed here. -/
def live (now : Int) (tokens : SetupTokens) (token : JsString) : SetupTokens × Option SetupTokenSlot :=
  match tokens.get token with
  | none      => (tokens, none)
  | some slot => if slot.entry.expiresAt ≤ now then (tokens.delete token, none) else (tokens, some slot)

def peek (now : Int) (tokens : SetupTokens) (token : JsString) : SetupTokens × Option SetupTokenEntry :=
  match live now tokens token with
  | (tokens, none)      => (tokens, none)
  | (tokens, some slot) => (tokens, if slot.state = .live then some slot.entry else none)

def claim (now : Int) (tokens : SetupTokens) (token : JsString) : SetupTokens × Option SetupTokenEntry :=
  match live now tokens token with
  | (tokens, none)      => (tokens, none)
  | (tokens, some slot) =>
    if slot.state = .live then (tokens.mark token slot .claimed, some slot.entry) else (tokens, none)

def commit (now : Int) (tokens : SetupTokens) (token : JsString) : SetupTokens × Bool :=
  match live now tokens token with
  | (tokens, none)      => (tokens, false)
  | (tokens, some slot) => if slot.state = .claimed then (tokens.mark token slot .committed, true) else (tokens, false)

def settle (tokens : SetupTokens) (token : JsString) : SetupTokens := tokens.delete token

def restore (now : Int) (tokens : SetupTokens) (token : JsString) : SetupTokens :=
  match tokens.get token with
  | none      => tokens
  | some slot => if slot.entry.expiresAt ≤ now then tokens.delete token else tokens.mark token slot .live

def retire (now : Int) (tokens : SetupTokens) (token : JsString) : SetupTokens × Option SetupTokenEntry :=
  match live now tokens token with
  | (tokens, none)      => (tokens, none)
  | (tokens, some slot) => (tokens.delete token, if slot.state = .committed then none else some slot.entry)

def deleteAll (tokens : SetupTokens) (gone : List JsString) : SetupTokens := gone.foldl OrdMap.delete tokens

def pruneExpired (now : Int) (tokens : SetupTokens) : SetupTokens :=
  tokens.deleteAll ((tokens.entries.filter (fun e => e.2.entry.expiresAt ≤ now)).map Prod.fst)

def own (tokens : SetupTokens) (burrowId : JsString) : List (JsString × SetupTokenSlot) :=
  (tokens.entries.filter (fun e => e.2.entry.burrowId = burrowId)).mergeSort
    (fun left right => decide (left.2.entry.expiresAt ≤ right.2.entry.expiresAt))

def trimBurrow (tokens : SetupTokens) (burrowId : JsString) (limit : Nat) : SetupTokens :=
  tokens.deleteAll (((tokens.own burrowId).take ((tokens.own burrowId).length - limit)).map Prod.fst)

def prune (now : Int) (tokens : SetupTokens) (burrowId : JsString) : SetupTokens :=
  (tokens.pruneExpired now).trimBurrow burrowId (maxTokensPerBurrow - 1)

/-- `issue`, with the random token it draws. -/
def issue (now : Int) (tokens : SetupTokens) (burrowId token : JsString) : SetupTokens × SetupTokenEntry :=
  let entry := ⟨burrowId, now + setupTokenTtlMs⟩
  ((tokens.prune now burrowId).set token ⟨entry, .live⟩, entry)

end SetupTokens

/-- Where a `finish` past its gate waits. -/
inductive SetupFinish where
  | gated (token : JsString)
  | checking (token : JsString)
  | writing (token credentialId : JsString)
deriving DecidableEq

namespace SetupFinish

def token : SetupFinish → JsString
  | gated t     => t
  | checking t  => t
  | writing t _ => t

def holds : SetupFinish → SetupTokenState
  | writing _ _ => .committed
  | _           => .claimed

end SetupFinish

/-- The tokens, the clock, the finishes under way, and the credential ids of `account.json`. -/
structure SetupRelay where
  tokens   : SetupTokens
  now      : Int
  finishes : OrdMap Nat SetupFinish
  next     : Nat
  passkeys : List JsString

inductive SetupEvent where
  | clock (now : Int)
  /-- An enrolled Burrow asks for a token, and `token` is drawn for it. -/
  | mint (burrowId token : JsString)
  /-- A request that names `token` comes to its gate. -/
  | begin (token : JsString)
  | finish (token : JsString)
  | retire (token : JsString)
  /-- `burrowStore.has` answers a finish, or throws. -/
  | enrolled (i : Nat) (answer : Except Unit Bool)
  /-- `checkRegistration` answers a finish with the credential id, or refuses or throws. -/
  | checked (i : Nat) (answer : Option JsString)
  /-- `appendPasskey` has its turn: it can write, or its reading or writing fails. -/
  | appended (i : Nat) (written : Bool)

inductive SetupOutput where
  | minted (token : JsString) (entry : SetupTokenEntry)
  | peeked (token : JsString) (entry : Option SetupTokenEntry)
  | retired (token : JsString) (entry : Option SetupTokenEntry)
  | claimed (i : Nat) (token : JsString) (entry : SetupTokenEntry)
  | refused (token : JsString)
  /-- The minter of the token is no longer enrolled. -/
  | revoked (i : Nat) (token : JsString)
  | failed (i : Nat) (token : JsString)
  | registered (i : Nat) (token credentialId : JsString)
deriving DecidableEq

namespace SetupRelay

/-- A finish fails: its `finally`, or the `catch` of its gate, puts the token back. -/
def fail (s : SetupRelay) (i : Nat) (token : JsString) : SetupRelay × List SetupOutput :=
  ({ s with tokens := s.tokens.restore s.now token, finishes := s.finishes.delete i }, [.failed i token])

def step (s : SetupRelay) : SetupEvent → SetupRelay × List SetupOutput
  | .clock now => ({ s with now }, [])
  | .mint burrowId token =>
    let (tokens, entry) := s.tokens.issue s.now burrowId token
    ({ s with tokens }, [.minted token entry])
  | .begin token =>
    let (tokens, entry) := s.tokens.peek s.now token
    ({ s with tokens }, [.peeked token entry])
  | .retire token =>
    let (tokens, entry) := s.tokens.retire s.now token
    ({ s with tokens }, [.retired token entry])
  | .finish token =>
    match s.tokens.claim s.now token with
    | (tokens, none)       => ({ s with tokens }, [.refused token])
    | (tokens, some entry) =>
      ({ s with tokens, finishes := s.finishes.set s.next (.gated token), next := s.next + 1 },
        [.claimed s.next token entry])
  | .enrolled i answer =>
    match s.finishes.get i, answer with
    | some (.gated token), .error _   => s.fail i token
    -- the claim is left unended: a revoked minter's token is dead
    | some (.gated token), .ok false  => ({ s with finishes := s.finishes.delete i }, [.revoked i token])
    | some (.gated token), .ok true   => ({ s with finishes := s.finishes.set i (.checking token) }, [])
    | _, _                            => (s, [])
  | .checked i answer =>
    match s.finishes.get i, answer with
    | some (.checking token), none              => s.fail i token
    | some (.checking token), some credentialId =>
      match s.tokens.commit s.now token with
      | (tokens, false) => { s with tokens }.fail i token
      | (tokens, true)  => ({ s with tokens, finishes := s.finishes.set i (.writing token credentialId) }, [])
    | _, _                                      => (s, [])
  | .appended i written =>
    match s.finishes.get i with
    | some (.writing token credentialId) =>
      -- a credential id that is there already is a `DuplicateCredentialError`
      if written = true ∧ credentialId ∉ s.passkeys then
        ({ s with tokens := s.tokens.settle token, finishes := s.finishes.delete i,
                  passkeys := s.passkeys ++ [credentialId] }, [.registered i token credentialId])
      else s.fail i token
    | _ => (s, [])

def start (now : Int) (passkeys : List JsString) : SetupRelay := ⟨OrdMap.empty, now, OrdMap.empty, 0, passkeys⟩

end SetupRelay

structure SetupHistory where
  relay : SetupRelay
  log   : List SetupOutput

namespace SetupHistory

def step (h : SetupHistory) (ev : SetupEvent) : SetupHistory :=
  ⟨(h.relay.step ev).1, h.log ++ (h.relay.step ev).2⟩

def start (now : Int) (passkeys : List JsString) : SetupHistory := ⟨SetupRelay.start now passkeys, []⟩

def run (now : Int) (passkeys : List JsString) (events : List SetupEvent) : SetupHistory :=
  Steps.run step (start now passkeys) events

def Fresh (h : SetupHistory) : SetupEvent → Prop
  | .mint _ token => ∀ entry, SetupOutput.minted token entry ∉ h.log
  | _             => True

end SetupHistory

end Relay
end Dormouse

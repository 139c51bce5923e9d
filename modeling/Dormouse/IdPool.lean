import Dormouse.OrdMap
import Dormouse.Steps
import Dormouse.Js
/-!
# IdPool — numbered ids reserved ahead of their use

`createIdPool` of `lib/src/lib/id-pool.ts`: a block of ids a host reserved for this page, refilled in the background, and a
minter for a burst that reserves the rest apart from the pool.  The pool is one state and the host's answers are events:
an answer lands in a refill, and some time later the refill settles; or it resumes the burst that waits for it.  The page's
own count may be raised (`seed`); `reset` is for tests and left out.

A function a host gave is known by its number, and so is a request made of it.  `idFor` makes an id of a number of the
page's own count, or of a `crypto.randomUUID()`, which is the next of a sequence `uuid`.
-/
namespace Dormouse
namespace IdPool

abbrev Id := JsString

/-- What `createIdPool` is given.  Whether a skipped id is logged changes nothing here. -/
structure IdPoolOptions where
  size       : Nat
  low        : Nat
  idFor      : Nat ⊕ JsString → Id
  localStart : Nat

/-- A background request: the host it was made of, how many ids it asked for, and whether its answer came. -/
structure Fill where
  reserve : Nat
  asked   : Nat
  landed  : Bool

/-- A `minter` call that waits for an answer of the host.  `kept` remembers that the host was there when it began, has not
been replaced since, and answered every request before this one with an id. -/
structure Minter where
  count    : Nat
  reserve  : Nat
  reserved : List Id
  request  : Nat
  kept     : Bool

/-- The minter a `minter` call resolved to: the ids in hand.  `given` are the ids it returned so far, `calls` how often it
was called, and `idle` says that no id was in use at any call. -/
structure Burst where
  count : Nat
  ids   : List Id
  kept  : Bool
  given : List Id
  calls : Nat
  idle  : Bool

/-- The pool, what is under way, and what is remembered of the past: every id a host handed out and which host, every id
the page made itself, every id drawn for a caller, and those that were returned to one. -/
structure Pool where
  ids           : List Id
  reserveIds    : Option Nat
  refilling     : Option Nat
  localSequence : Nat
  requests      : Nat
  uuids         : Nat
  fills         : OrdMap Nat Fill
  minters       : List Minter
  bursts        : List Burst
  installed     : List Nat
  handed        : List (Nat × Id)
  made          : List Id
  drawn         : List Id
  returned      : List Id

def createIdPool (o : IdPoolOptions) : Pool where
  ids           := []
  reserveIds    := none
  refilling     := none
  localSequence := o.localStart
  requests      := 0
  uuids         := 0
  fills         := .empty
  minters       := []
  bursts        := []
  installed     := []
  handed        := []
  made          := []
  drawn         := []
  returned      := []

variable (o : IdPoolOptions) (uuid : Nat → JsString)

def fill (s : Pool) (reserve asked : Nat) : Pool :=
  { s with
    fills     := s.fills.set s.requests ⟨reserve, asked, false⟩
    refilling := some s.requests
    requests  := s.requests + 1 }

/-- Up to `size`, never past it. -/
def refill (s : Pool) : Pool :=
  match s.reserveIds, s.refilling with
  | some reserve, none => fill s reserve (max 1 (o.size - s.ids.length))
  | _, _               => s

def take (s : Pool) : Option Id × Pool :=
  let rest := { s with ids := s.ids.tail }
  (s.ids.head?, if rest.ids.length < o.low then refill o rest else rest)

def make (s : Pool) (id : Id) : Id × Pool := (id, { s with made := s.made ++ [id] })

def next (s : Pool) : Id × Pool :=
  if s.reserveIds = none then
    make { s with localSequence := s.localSequence + 1 } (o.idFor (.inl (s.localSequence + 1)))
  else
    match take o s with
    | (some id, s') => (id, s')
    | (none, s')    => make { s' with uuids := s'.uuids + 1 } (o.idFor (.inr (uuid s'.uuids)))

/-- `next`, with the id noted as drawn. -/
def draw (s : Pool) : Id × Pool :=
  let (id, s') := next o uuid s
  (id, { s' with drawn := s'.drawn ++ [id] })

/-- A call of a burst's minter draws from the burst, and once that is used up as a mint does. -/
def drawBurst (s : List Id × Pool) : Id × List Id × Pool :=
  match s.1 with
  | id :: ids => (id, ids, { s.2 with drawn := s.2.drawn ++ [id] })
  | []        => ((draw o uuid s.2).1, [], (draw o uuid s.2).2)

/-- The first id from `source` that is not in use, within so many tries. -/
def unused {σ : Type} (source : σ → Id × σ) (inUse : List Id) : Nat → σ → Option Id × σ
  | 0, s         => (none, s)
  | tries + 1, s =>
    let (id, s') := source s
    if id ∈ inUse then unused source inUse tries s' else (some id, s')

/-- Enough tries for every id in use and every id in hand: the page's own ids differ from one another. -/
def tries (inUse ids : List Id) : Nat := inUse.length + ids.length + 1

def give (s : Pool) (id : Option Id) : Pool := { s with returned := s.returned ++ id.toList }

def mint (s : Pool) (inUse : List Id) : Option Id × Pool :=
  let (id, s') := unused (draw o uuid) inUse (tries inUse s.ids) s
  (id, give s' id)

def takePooled : Nat → Pool → List Id × Pool
  | 0, s     => ([], s)
  | n + 1, s =>
    match take o s with
    | (none, _)     => ([], s)
    | (some id, s') => (id :: (takePooled n s').1, (takePooled n s').2)

def resolve (s : Pool) (count : Nat) (reserved : List Id) (kept : Bool) : Pool :=
  let (pooled, s') := takePooled o (count - reserved.length) s
  { s' with bursts := s'.bursts ++ [⟨count, pooled ++ reserved, kept, [], 0, true⟩] }

def reserveRest (s : Pool) (count reserve : Nat) (reserved : List Id) (kept : Bool) : Pool :=
  if s.reserveIds = some reserve ∧ s.ids.length < count - reserved.length then
    { s with minters := s.minters ++ [⟨count, reserve, reserved, s.requests, kept⟩], requests := s.requests + 1 }
  else resolve o s count reserved kept

def minter (s : Pool) (count : Nat) : Pool :=
  match s.reserveIds with
  | none         => resolve o s count [] false
  | some reserve => reserveRest o s count reserve [] true

/-- The host's answer to a burst's request: `none` is a failure. -/
def resume (s : Pool) (m : Minter) (block : Option (List Id)) : Pool :=
  match block with
  | none       => resolve o s m.count m.reserved false
  | some block =>
    if s.reserveIds ≠ some m.reserve ∨ block = [] then resolve o s m.count m.reserved false
    else reserveRest o s m.count m.reserve (m.reserved ++ block) m.kept

def land (s : Pool) (request : Nat) (f : Fill) (block : Option (List Id)) : Pool :=
  { s with
    ids   := if s.reserveIds = some f.reserve then s.ids ++ block.getD [] else s.ids
    fills := s.fills.set request { f with landed := true } }

def hand (s : Pool) (reserve : Nat) (block : Option (List Id)) : Pool :=
  { s with handed := s.handed ++ (block.getD []).map (fun id => (reserve, id)) }

/-- The request's answer arrives, wherever it was waited for; one that is not waited for does nothing. -/
def answer (s : Pool) (request : Nat) (block : Option (List Id)) : Pool :=
  match s.fills.get request with
  | some f => if f.landed then s else land (hand s f.reserve block) request f block
  | none   =>
    match s.minters.find? (fun m => m.request = request) with
    | some m =>
      resume o { hand s m.reserve block with minters := s.minters.eraseP (fun m => m.request = request) } m block
    | none   => s

def settle (s : Pool) (request : Nat) : Pool :=
  match s.fills.get request with
  | some f =>
    if f.landed then
      { s with
        fills     := s.fills.delete request
        refilling := if s.refilling = some request then none else s.refilling }
    else s
  | none   => s

def replaceHost (s : Pool) (reserve : Nat) : Pool :=
  { s with
    reserveIds := some reserve
    refilling  := none
    ids        := []
    installed  := s.installed ++ [reserve]
    minters    := s.minters.map (fun m => { m with kept := m.kept && m.reserve = reserve }) }

/-- `first` says that the caller already asked for the first block, of `size` ids. -/
def install (s : Pool) (reserve : Nat) (first : Bool) : Pool :=
  if first then fill (replaceHost s reserve) reserve o.size else refill o (replaceHost s reserve)

def mintBurst (s : Pool) (b : Nat) (inUse : List Id) : Pool :=
  match s.bursts[b]? with
  | none       => s
  | some burst =>
    let (id, ids, s') := unused (drawBurst o uuid) inUse (tries inUse (burst.ids ++ s.ids)) (burst.ids, s)
    give
      { s' with
        bursts := s'.bursts.set b
          { burst with
            ids   := ids
            given := burst.given ++ id.toList
            calls := burst.calls + 1
            idle  := burst.idle && inUse.isEmpty } }
      id

inductive Event where
  | install (reserve : Nat) (first : Bool)
  | mint (inUse : List Id)
  | seed (n : Nat)
  | minter (count : Nat)
  | answer (request : Nat) (block : Option (List Id))
  | settle (request : Nat)
  | mintBurst (b : Nat) (inUse : List Id)

def step (s : Pool) : Event → Pool
  | .install reserve first => install o s reserve first
  | .mint inUse            => (mint o uuid s inUse).2
  | .seed n                => { s with localSequence := max s.localSequence n }
  | .minter count          => minter o s count
  | .answer request block  => answer o s request block
  | .settle request        => settle s request
  | .mintBurst b inUse     => mintBurst o uuid s b inUse

end IdPool
end Dormouse

import Mathlib.Data.List.Dedup
import Dormouse.Js
import Dormouse.OrdMap
import Dormouse.PromiseChain
/-!
# PushStore — the push subscriptions of a Relay (`state.ts`)

`push-subscriptions.json` is a list of rows, one for each Burrow and delivery.  `upsert`, `removeDelivery` and
`removeEndpoints` read it, join it with the enrolled Burrows, and write it back as their last act, one call after the other
(`JsonFileStore.mutate`).  An upsert drops the rows of the addresses its delivery moves off, then the oldest rows until the
caps hold (`capSubscriptions`).

A row of the file is an object of the process that reads it: `capSubscriptions` tells rows apart by reference, which is a
row with its index here.
-/
namespace Dormouse
namespace Relay

/-- `MAX_PUSH_SUBSCRIPTIONS_PER_BURROW`. -/
def maxPushSubscriptionsPerBurrow : Nat := 32

/-- `MAX_PUSH_SUBSCRIPTIONS_TOTAL`, which is `MAX_PUSH_SUBSCRIPTIONS_PER_ACCOUNT`. -/
def maxPushSubscriptionsTotal : Nat := 256

structure PushKeys where
  p256dh : JsString
  auth   : JsString
deriving DecidableEq

/-- `Omit<StoredPushSubscription, 'subscribedAt'>`. -/
structure PushRecord where
  burrowId       : JsString
  deliveryId     : JsString
  endpoint       : JsString
  keys           : PushKeys
  vapidPublicKey : JsString
deriving DecidableEq

structure StoredPushSubscription (Time : Type) extends PushRecord where
  subscribedAt : Time
deriving DecidableEq

variable {Time : Type} [LinearOrder Time]

structure CapState (Time : Type) where
  perBurrow : OrdMap JsString Int
  total     : Int
  dropped   : List (StoredPushSubscription Time × Nat)

/-- `perBurrow.get(burrowId) ?? 0`. -/
def forBurrow (perBurrow : OrdMap JsString Int) (burrowId : JsString) : Int := (perBurrow.get burrowId).getD 0

def countRow (perBurrow : OrdMap JsString Int) (row : StoredPushSubscription Time) : OrdMap JsString Int :=
  perBurrow.set row.burrowId (forBurrow perBurrow row.burrowId + 1)

def capRow (keep : StoredPushSubscription Time × Nat) (st : CapState Time) (row : StoredPushSubscription Time × Nat) :
    CapState Time :=
  if row = keep then st
  else if st.total ≤ maxPushSubscriptionsTotal ∧ forBurrow st.perBurrow row.1.burrowId ≤ maxPushSubscriptionsPerBurrow then
    st
  else
    { perBurrow := st.perBurrow.set row.1.burrowId (forBurrow st.perBurrow row.1.burrowId - 1)
      total     := st.total - 1
      dropped   := row :: st.dropped }

def oldestFirst (rows : List (StoredPushSubscription Time × Nat)) : List (StoredPushSubscription Time × Nat) :=
  rows.mergeSort (fun a b => decide (a.1.subscribedAt ≤ b.1.subscribedAt))

def capSubscriptions (rows : List (StoredPushSubscription Time)) (keep : StoredPushSubscription Time) :
    List (StoredPushSubscription Time) :=
  let all := rows ++ [keep]
  if all.length ≤ maxPushSubscriptionsPerBurrow then all
  else
    let start : CapState Time := ⟨all.foldl countRow OrdMap.empty, all.length, []⟩
    let dropped := ((oldestFirst all.zipIdx).foldl (capRow (keep, rows.length)) start).dropped
    (all.zipIdx.filter (fun row => row ∉ dropped)).map Prod.fst

/-! ## The store -/

/-- The file, `none` while it is not there, and the clock. -/
structure PushDisk (Time : Type) where
  file : Option (List (StoredPushSubscription Time))
  now  : Time

/-- The rows of an absent file are `[]`. -/
def PushDisk.rows (d : PushDisk Time) : List (StoredPushSubscription Time) := d.file.getD []

inductive PushOp where
  | upsert (record : PushRecord)
  | removeDelivery (deliveryId : JsString)
  | removeEndpoints (endpoints : List JsString)

inductive PushAnswer (Time : Type) where
  | upserted (subscription : StoredPushSubscription Time) (endpointBurrowIds : List JsString)
  | removed (count : Nat)

abbrev PushCall (Time α : Type) := Resumption (PushDisk Time) Unit α

namespace PushStore

/-- The join of `list`: an absent `burrows.json` drops nothing. -/
def joinBurrows (burrows : Option (List JsString)) (rows : List (StoredPushSubscription Time)) :
    List (StoredPushSubscription Time) :=
  match burrows with
  | none     => rows
  | some ids => rows.filter (fun s => s.burrowId ∈ ids)

/-- `list`, which reads the two files one after the other, with the clock as it returns. -/
def list (burrows : Option (List JsString)) : PushCall Time (List (StoredPushSubscription Time) × Time) := do
  let rows ← Resumption.act (fun d => .ok (d, d.rows))
  let now ← Resumption.act (fun d => .ok (d, d.now))
  pure (joinBurrows burrows rows, now)

/-- `writeAtomic`, before a call returns `a`: the directory, the temp file, and the rename over the path. -/
def writeAtomic (rows : List (StoredPushSubscription Time)) (a : PushAnswer Time) : PushCall Time (PushAnswer Time) := do
  Resumption.act (fun d => .ok (d, ()))
  Resumption.act (fun d => .ok (d, ()))
  Resumption.act (fun d => .ok ({ d with file := some rows }, ()))
  pure a

def replacedEndpoints (all : List (StoredPushSubscription Time)) (record : PushRecord) : List JsString :=
  (all.filter (fun s => s.deliveryId = record.deliveryId ∧ s.endpoint ≠ record.endpoint)).map (·.endpoint)

def notReplaced (all : List (StoredPushSubscription Time)) (record : PushRecord) : List (StoredPushSubscription Time) :=
  all.filter (fun s => ¬(s.burrowId = record.burrowId ∧ s.deliveryId = record.deliveryId) ∧
    s.endpoint ∉ replacedEndpoints all record)

def upserted (all : List (StoredPushSubscription Time)) (stored : StoredPushSubscription Time) :
    List (StoredPushSubscription Time) :=
  capSubscriptions (notReplaced all stored.toPushRecord) stored

/-- The Burrows of the rows with an endpoint and a key, each once, as a `Set` keeps them. -/
def endpointBurrowIds (kept : List (StoredPushSubscription Time)) (record : PushRecord) : List JsString :=
  ((kept.filter (fun s => s.endpoint = record.endpoint ∧ s.vapidPublicKey = record.vapidPublicKey)).map
    (·.burrowId)).eraseDups

/-- `removeDelivery` and `removeEndpoints`: what is left once the rows of a kind are gone.  Where there are none, nothing is
written. -/
def removeRows (burrows : Option (List JsString)) (gone : StoredPushSubscription Time → Bool) :
    PushCall Time (PushAnswer Time) := do
  let (all, _) ← list burrows
  let kept := all.filter (fun s => !gone s)
  if kept.length = all.length then pure (.removed 0)
  else writeAtomic kept (.removed (all.length - kept.length))

def upsert (burrows : Option (List JsString)) (record : PushRecord) : PushCall Time (PushAnswer Time) := do
  let (all, now) ← list burrows
  let stored : StoredPushSubscription Time := { record with subscribedAt := now }
  let kept := upserted all stored
  writeAtomic kept (.upserted stored (endpointBurrowIds kept record))

def removeDelivery (burrows : Option (List JsString)) (deliveryId : JsString) : PushCall Time (PushAnswer Time) :=
  removeRows burrows (fun s => s.deliveryId = deliveryId)

def removeEndpoints (burrows : Option (List JsString)) (endpoints : List JsString) : PushCall Time (PushAnswer Time) :=
  removeRows burrows (fun s => s.endpoint ∈ endpoints)

def body (burrows : Option (List JsString)) : PushOp → PushCall Time (PushAnswer Time)
  | .upsert record             => upsert burrows record
  | .removeDelivery deliveryId => removeDelivery burrows deliveryId
  | .removeEndpoints endpoints => removeEndpoints burrows endpoints

end PushStore

abbrev PushStore (Time : Type) := PromiseChain (PushDisk Time) Unit PushOp (PushAnswer Time)

/-- What happens to a store: a call, its next wait, a failed read or write, or the clock is set, to any time. -/
abbrev PushEvent (Time : Type) := PromiseChain.Event Unit PushOp Time

namespace PushStore

def setClock (now : Time) (d : PushDisk Time) : PushDisk Time := { d with now }

def step (burrows : Option (List JsString)) : PushStore Time → PushEvent Time → PushStore Time :=
  PromiseChain.step (body burrows) setClock

end PushStore

end Relay
end Dormouse

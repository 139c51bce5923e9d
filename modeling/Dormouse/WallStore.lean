import Dormouse.LathAnimator
import Dormouse.LathRun
import Mathlib.Data.List.AList
/-!
# The Lath wall store

`createLathWallStore` of `lib/src/components/wall/lath-wall-store.ts`: one snapshot (the tree, the metadata of its leaves
and Doors, the parked leaves, the zoom and a revision), and beside it the geometry last reported and the hints of leaves
about to enter.  A mutator applies one core operation and commits, or commits nothing.

A `Map` is an association list, its order of insertion left out: no mutator reads it.  The listeners are left out too,
which a commit calls last, and so are the queries.  The values of a leaf's params are of any type `V`.
-/
namespace Dormouse
namespace Lath

variable {V : Type}

structure LeafMeta (V : Type) where
  component    : JsString
  tabComponent : JsString
  title        : JsString
  params       : Option (AList (fun _ : JsString => V))

structure WallSnapshot (V : Type) where
  tree     : LathTree
  leafMeta : AList (fun _ : LeafId => LeafMeta V)
  /-- Where each parked leaf was held, `none` for one that was never laid out. -/
  parked   : AList (fun _ : LeafId => Option Rect)
  zoomedId : Option LeafId
  revision : Nat

structure WallStore (V : Type) where
  snapshot   : WallSnapshot V
  geometry   : Option (Rect × LayoutOpts)
  enterHints : AList (fun _ : LeafId => EnterFrom)

def createLathWallStore : WallStore V := ⟨⟨⟨none⟩, ∅, ∅, none, 0⟩, none, ∅⟩

def oppositeEdge : Edge → Edge
  | .left   => .right
  | .right  => .left
  | .top    => .bottom
  | .bottom => .top

namespace WallStore

/-- An explicit hint, or the edge the leaf shares with its reference. -/
def deriveEnterHint (s : WallStore V) (id : LeafId) (placementEdge : Edge) : WallStore V :=
  if id ∈ s.enterHints then s
  else { s with enterHints := s.enterHints.insert id (.edge (oppositeEdge placementEdge)) }

/-- What a commit replaces; `none` is a field that is not given. -/
structure Next (V : Type) where
  tree     : Option LathTree := none
  leafMeta : Option (AList (fun _ : LeafId => LeafMeta V)) := none
  parked   : Option (AList (fun _ : LeafId => Option Rect)) := none
  zoomedId : Option (Option LeafId) := none

def commit (s : WallStore V) (next : Next V) : WallStore V :=
  { s with
    snapshot :=
      { tree     := next.tree.getD s.snapshot.tree
        leafMeta := next.leafMeta.getD s.snapshot.leafMeta
        parked   := next.parked.getD s.snapshot.parked
        zoomedId := next.zoomedId.getD s.snapshot.zoomedId
        revision := s.snapshot.revision + 1 } }

/-- What a leaf that enters the tree owes: it is parked no more, and enters from the rect it held. -/
def admitLeaf (s : WallStore V) (parked : AList (fun _ : LeafId => Option Rect)) (id : LeafId) :
    WallStore V × AList (fun _ : LeafId => Option Rect) :=
  match parked.lookup id with
  | none             => (s, parked)
  | some none        => ({ s with enterHints := s.enterHints.erase id }, parked.erase id)
  | some (some held) => ({ s with enterHints := s.enterHints.insert id (.rect held) }, parked.erase id)

/-- `admit`. -/
def admitIds (s : WallStore V) (ids : List LeafId) : WallStore V × AList (fun _ : LeafId => Option Rect) :=
  ids.foldl (fun r id => admitLeaf r.1 r.2 id) (s, s.snapshot.parked)

def leafRect (s : WallStore V) (id : LeafId) : Option Rect :=
  match s.geometry, findLeafPath s.snapshot.tree id with
  | some (rect, opts), some path => nodeRectAtPath s.snapshot.tree rect opts path
  | _,                 _         => none

def detachLeaf (s : WallStore V) (id : LeafId) (keepMeta park : Bool) : WallStore V × Bool × Option RestoreToken :=
  let r := remove s.snapshot.tree id
  if r.ok then
    let leafMeta := if keepMeta then s.snapshot.leafMeta else s.snapshot.leafMeta.erase id
    (s.commit
      { tree     := some r.tree
        leafMeta := some leafMeta
        parked   := if park ∧ id ∈ leafMeta then some (s.snapshot.parked.insert id (s.leafRect id)) else none
        zoomedId := if s.snapshot.zoomedId = some id then some none else none }, true, r.token)
  else (s, false, none)

/-! ## The operations

Each is with the flag it returns; of one that returns nothing, the flag is whether it committed. -/

def restoreSnapshot (s : WallStore V) (saved : WallSnapshot V) : WallStore V × Bool :=
  (s.commit
    { tree := some saved.tree, leafMeta := some saved.leafMeta, parked := some saved.parked
      zoomedId := some saved.zoomedId }, true)

def seedMeta (snapshot : WallSnapshot V) (leafMeta : List (LeafId × LeafMeta V)) :
    AList (fun _ : LeafId => LeafMeta V) :=
  leafMeta.foldl (fun m entry => m.insert entry.1 entry.2)
    (snapshot.parked.keys.foldl
      (fun m id => match snapshot.leafMeta.lookup id with | some held => m.insert id held | none => m) ∅)

def seed (s : WallStore V) (tree : LathTree) (leafMeta : List (LeafId × LeafMeta V)) : WallStore V × Bool :=
  let admitted := s.admitIds (leaves tree)
  (admitted.1.commit
    { tree := some tree, leafMeta := some (seedMeta s.snapshot leafMeta), parked := some admitted.2
      zoomedId := some none }, true)

def place (s : WallStore V) (tree : LathTree) (id : LeafId) (leafMeta : LeafMeta V) : WallStore V :=
  let admitted := s.admitIds [id]
  admitted.1.commit
    { tree := some tree, leafMeta := some (s.snapshot.leafMeta.insert id leafMeta), parked := some admitted.2 }

/-- The reference and the edge of `addLeaf`: the caller's, or the last leaf's. -/
def addLeafAt (s : WallStore V) (position : Option (LeafId × Edge)) : Option (LeafId × Edge) :=
  match position.filter (fun p => (findLeafPath s.snapshot.tree p.1).isSome) with
  | some p => some p
  | none   =>
    (leaves s.snapshot.tree).getLast?.map (fun refId =>
      (refId, match s.geometry with
        | some (rect, opts) => autoEdge s.snapshot.tree rect refId opts
        | none              => .right))

def addLeaf (s : WallStore V) (id : LeafId) (leafMeta : LeafMeta V) (position : Option (LeafId × Edge)) :
    WallStore V × Bool :=
  match s.snapshot.tree.root with
  | none   => (s.place (leafTree id) id leafMeta, true)
  | some _ =>
    match s.addLeafAt position with
    | none               => (s, false)
    | some (refId, edge) =>
      let r := split s.snapshot.tree refId edge id
      if r.ok then ((s.deriveEnterHint id edge).place r.tree id leafMeta, true) else (s, false)

def removeLeaf (s : WallStore V) (id : LeafId) : WallStore V × Bool × Option RestoreToken := s.detachLeaf id false false

def doorLeaf (s : WallStore V) (id : LeafId) (park : Bool) : WallStore V × Bool × Option RestoreToken :=
  s.detachLeaf id true park

def addDoor (s : WallStore V) (id : LeafId) (leafMeta : LeafMeta V) : WallStore V × Bool :=
  if id ∈ s.snapshot.leafMeta then (s, false)
  else (s.commit { leafMeta := some (s.snapshot.leafMeta.insert id leafMeta) }, true)

def forgetLeaf (s : WallStore V) (id : LeafId) : WallStore V × Bool :=
  if (findLeafPath s.snapshot.tree id).isSome then (s, false)
  else if id ∉ s.snapshot.leafMeta ∧ id ∉ s.snapshot.parked then (s, false)
  else
    ({ s with enterHints := s.enterHints.erase id }.commit
      { leafMeta := some (s.snapshot.leafMeta.erase id), parked := some (s.snapshot.parked.erase id) }, true)

def replaceLeaf (s : WallStore V) (oldId newId : LeafId) (leafMeta : LeafMeta V) : WallStore V × Bool :=
  let r := replace s.snapshot.tree oldId newId
  if r.ok then
    let admitted := s.admitIds [newId]
    (admitted.1.commit
      { tree     := some r.tree
        leafMeta := some ((s.snapshot.leafMeta.erase oldId).insert newId leafMeta)
        parked   := some admitted.2
        zoomedId := if s.snapshot.zoomedId = some oldId then some (some newId) else none }, true)
  else (s, false)

def restoreLeaf (s : WallStore V) (leafMeta : LeafMeta V) (token : Json) (fallbackRef : Option LeafId) :
    WallStore V × Bool × Option Tier :=
  let r := restore s.snapshot.tree token ⟨fallbackRef, s.geometry.map (·.1), s.geometry.map (·.2)⟩
  match r.ok, readRestoreToken token with
  | true, some t => ((s.deriveEnterHint t.leafId t.edge).place r.tree t.leafId leafMeta, true, r.tier)
  | _,    _      => (s, false, r.tier)

def commitTree (s : WallStore V) (r : OpResult) : WallStore V × Bool :=
  if r.ok then (s.commit { tree := some r.tree }, true) else (s, false)

def swapLeaves (s : WallStore V) (a b : LeafId) : WallStore V × Bool := s.commitTree (swap s.snapshot.tree a b)

def moveLeaf (s : WallStore V) (id : LeafId) (target : DropTarget) : WallStore V × Bool :=
  s.commitTree (move s.snapshot.tree id target)

def insertLeaf (s : WallStore V) (id : LeafId) (leafMeta : LeafMeta V) (target : DropTarget) : WallStore V × Bool :=
  let r := insert s.snapshot.tree id target .half
  if r.ok then
    let hinted := match target with
      | .edge target => s.deriveEnterHint id target.edge
      | .swap _      => s
    (hinted.place r.tree id leafMeta, true)
  else (s, false)

def resizeBoundary (s : WallStore V) (splitPath : List JsNum) (boundary deltaPx : JsNum) : WallStore V × Bool :=
  match s.geometry with
  | none              => (s, false)
  | some (rect, opts) => s.commitTree (resize s.snapshot.tree splitPath boundary deltaPx rect opts)

/-- A write to a leaf's metadata; `none` writes nothing. -/
def writeMeta (s : WallStore V) (id : LeafId) (f : LeafMeta V → Option (LeafMeta V)) : WallStore V × Bool :=
  match (s.snapshot.leafMeta.lookup id).bind f with
  | none          => (s, false)
  | some leafMeta => (s.commit { leafMeta := some (s.snapshot.leafMeta.insert id leafMeta) }, true)

def setTitle (s : WallStore V) (id : LeafId) (title : JsString) : WallStore V × Bool :=
  s.writeMeta id (fun cur => if cur.title = title then none else some { cur with title := title })

def updateParams (s : WallStore V) (id : LeafId) (patch : AList (fun _ : JsString => V)) : WallStore V × Bool :=
  s.writeMeta id (fun cur => some { cur with params := some (patch ∪ cur.params.getD ∅) })

def setMeta (s : WallStore V) (id : LeafId) (leafMeta : LeafMeta V) : WallStore V × Bool :=
  s.writeMeta id (fun _ => some leafMeta)

def setZoomed (s : WallStore V) (id : Option LeafId) : WallStore V × Bool :=
  if s.snapshot.zoomedId = id then (s, false) else (s.commit { zoomedId := some id }, true)

def setLayoutGeometry (s : WallStore V) (rect : Rect) (opts : LayoutOpts) : WallStore V :=
  if rect.width ≤ 0 ∨ rect.height ≤ 0 then s else { s with geometry := some (rect, opts) }

def setEnterHint (s : WallStore V) (id : LeafId) (enterFrom : EnterFrom) : WallStore V :=
  { s with enterHints := s.enterHints.insert id enterFrom }

def consumeEnterHints (s : WallStore V) : WallStore V × AList (fun _ : LeafId => EnterFrom) :=
  ({ s with enterHints := ∅ }, s.enterHints)

end WallStore

inductive WallCall (V : Type) where
  | restoreSnapshot (saved : WallSnapshot V)
  | seed (tree : LathTree) (leafMeta : List (LeafId × LeafMeta V))
  | addLeaf (id : LeafId) (leafMeta : LeafMeta V) (position : Option (LeafId × Edge))
  | removeLeaf (id : LeafId)
  | doorLeaf (id : LeafId) (park : Bool)
  | addDoor (id : LeafId) (leafMeta : LeafMeta V)
  | forgetLeaf (id : LeafId)
  | replaceLeaf (oldId newId : LeafId) (leafMeta : LeafMeta V)
  | restoreLeaf (leafMeta : LeafMeta V) (token : Json) (fallbackRef : Option LeafId)
  | swapLeaves (a b : LeafId)
  | moveLeaf (id : LeafId) (target : DropTarget)
  | insertLeaf (id : LeafId) (leafMeta : LeafMeta V) (target : DropTarget)
  | resizeBoundary (splitPath : List JsNum) (boundary deltaPx : JsNum)
  | setTitle (id : LeafId) (title : JsString)
  | updateParams (id : LeafId) (patch : AList (fun _ : JsString => V))
  | setMeta (id : LeafId) (leafMeta : LeafMeta V)
  | setZoomed (id : Option LeafId)
  | setLayoutGeometry (rect : Rect) (opts : LayoutOpts)
  | setEnterHint (id : LeafId) (enterFrom : EnterFrom)
  | consumeEnterHints

def WallStore.apply (s : WallStore V) : WallCall V → WallStore V × Bool
  | .restoreSnapshot saved              => s.restoreSnapshot saved
  | .seed tree leafMeta                 => s.seed tree leafMeta
  | .addLeaf id leafMeta position       => s.addLeaf id leafMeta position
  | .removeLeaf id                      => let r := s.removeLeaf id; (r.1, r.2.1)
  | .doorLeaf id park                   => let r := s.doorLeaf id park; (r.1, r.2.1)
  | .addDoor id leafMeta                => s.addDoor id leafMeta
  | .forgetLeaf id                      => s.forgetLeaf id
  | .replaceLeaf oldId newId leafMeta   => s.replaceLeaf oldId newId leafMeta
  | .restoreLeaf leafMeta token ref     => let r := s.restoreLeaf leafMeta token ref; (r.1, r.2.1)
  | .swapLeaves a b                     => s.swapLeaves a b
  | .moveLeaf id target                 => s.moveLeaf id target
  | .insertLeaf id leafMeta target      => s.insertLeaf id leafMeta target
  | .resizeBoundary path boundary delta => s.resizeBoundary path boundary delta
  | .setTitle id title                  => s.setTitle id title
  | .updateParams id patch              => s.updateParams id patch
  | .setMeta id leafMeta                => s.setMeta id leafMeta
  | .setZoomed id                       => s.setZoomed id
  | .setLayoutGeometry rect opts        => (s.setLayoutGeometry rect opts, false)
  | .setEnterHint id enterFrom          => (s.setEnterHint id enterFrom, false)
  | .consumeEnterHints                  => (s.consumeEnterHints.1, false)

end Lath
end Dormouse

import Dormouse.LathLayout
import Mathlib.Data.List.Dedup
/-!
# Lath's operations

`lib/src/lib/lath/ops.ts` and the drop targets of `drop-target.ts`.  Every operation is a function from a tree and its
arguments to a tree and a flag.  An argument is whatever a caller can pass: ids that are absent or taken, paths and
ranges of any numbers, an insert size that may be infinite or `NaN`, a token read back as untyped data.

A JavaScript `Set` of leaf ids is the list of its elements.  Where the source asserts a node's kind and would throw on
a tree `validate` refuses, the operation answers as it does on any other bad input: the tree unchanged, `ok: false`.
-/
namespace Dormouse
namespace Lath

structure OpResult where
  tree : LathTree
  ok   : Bool

/-! ## Drop targets -/

structure ChildRange where
  start : JsNum
  stop  : JsNum

structure EdgeDropTarget where
  path  : List JsNum
  edge  : Edge
  range : Option ChildRange

inductive DropTarget where
  | edge (target : EdgeDropTarget)
  | swap (leaf : LeafId)

/-- The split at a range's path with the children `start`, …, `stop - 1` under one more split of its direction. -/
def groupRange (d : Dir) (cs : List LathChild) (start stop : Nat) : LathNode :=
  let selected := (cs.take stop).drop start
  .split d (cs.take start ++ ⟨.split d (normalizeWeights selected), weightSum selected⟩ :: cs.drop stop)

/-- The tree with a target's range grouped, and the path of the target node in it. -/
def materializeTarget (tree : LathTree) (target : EdgeDropTarget) : Option (LathTree × List Nat) :=
  match indexPath target.path with
  | none      => none
  | some path =>
    match nodeAtPath tree path, target.range with
    | none,               _          => none
    | some _,             none       => some (tree, path)
    | some (.leaf _),     some _     => none
    | some (.split d cs), some range =>
      match range.start.int?, range.stop.int? with
      | some start, some stop =>
        if start < 0 ∨ stop > cs.length ∨ stop - start < 2 then none
        -- every child is the split itself
        else if stop - start = cs.length then some (tree, path)
        else
          some (⟨tree.root.map (replaceAtPath · path (groupRange d cs start.toNat stop.toNat))⟩, path ++ [start.toNat])
      | _, _ => none

/-- The child range of a split that holds exactly the wanted leaves, given each child's leaves. -/
def wantedRange (wanted : List LeafId) (parts : List (List LeafId)) : Option (Nat × Nat) :=
  let counts := parts.map (fun ids => (ids.filter (· ∈ wanted)).length)
  let first := counts.findIdx (fun count => 0 < count)
  -- one past `last`
  let stop := counts.length - (counts.reverse.takeWhile (fun count => count = 0)).length
  if first + 1 < stop ∧ counts.sum = wanted.length ∧
      (((counts.zip parts).take stop).drop first).all (fun p => 0 < p.1 && p.1 == p.2.length) then
    some (first, stop)
  else none

abbrev FoundTarget := Option (List Nat × Option (Nat × Nat))

mutual
/-- The walk of `targetByLeafSet`: a node's leaves, and the last match so far. -/
def targetWalk (wanted : List LeafId) (path : List Nat) (found : FoundTarget) : LathNode → List LeafId × FoundTarget
  | .leaf id    => ([id], if [id].length = wanted.length ∧ [id].all (· ∈ wanted) then some (path, none) else found)
  | .split _ cs =>
    let r := targetWalkAll wanted path found 0 cs
    let ids := r.1.flatten
    (ids,
      if ids.length = wanted.length ∧ ids.all (· ∈ wanted) then some (path, none)
      else
        match wantedRange wanted r.1 with
        | some range => some (path, some range)
        | none       => r.2)
def targetWalkAll (wanted : List LeafId) (path : List Nat) (found : FoundTarget) (i : Nat) :
    List LathChild → List (List LeafId) × FoundTarget
  | []           => ([], found)
  | ⟨n, _⟩ :: cs =>
    let r := targetWalk wanted (path ++ [i]) found n
    let rs := targetWalkAll wanted path r.2 (i + 1) cs
    (r.1 :: rs.1, rs.2)
end

def targetOfFound (edge : Edge) (found : List Nat × Option (Nat × Nat)) : EdgeDropTarget :=
  { path := found.1.map JsNum.ofNat, edge := edge
    range := found.2.map (fun r => ⟨.ofNat r.1, .ofNat r.2⟩) }

def targetByLeafSet (tree : LathTree) (wanted : List LeafId) (edge : Edge) : Option EdgeDropTarget :=
  if wanted.length = 0 then none
  else
    match tree.root with
    | none   => none
    | some n => (targetWalk wanted [] none n).2.map (targetOfFound edge)

/-! ## `split`, `remove`, `replace`, `swap` -/

def mkLeaf (id : LeafId) : LathNode := .leaf id

def besideNode (edge : Edge) (new : LathNode) (w : ℚ) (old : LathNode) (v : ℚ) : LathNode :=
  .split (edgeAxis edge) (if edgeIsBefore edge then [⟨new, w⟩, ⟨old, v⟩] else [⟨old, v⟩, ⟨new, w⟩])

def split (tree : LathTree) (at' : LeafId) (edge : Edge) (newId : LeafId) : OpResult :=
  match tree.root with
  | none      => ⟨tree, false⟩
  | some root =>
    match findLeafPath tree at' with
    | none        => ⟨tree, false⟩
    | some atPath =>
      if (findLeafPath tree newId).isSome then ⟨tree, false⟩
      else
        ⟨⟨normalize (replaceAtPath root atPath (besideNode edge (mkLeaf newId) (1 / 2) (mkLeaf at') (1 / 2)))⟩, true⟩

structure RestoreToken where
  leafId             : LeafId
  weight             : ℚ
  siblingId          : Option LeafId
  siblingLeafIds     : Option (List LeafId)
  siblingFingerprint : Option JsString
  edge               : Edge
  index              : Nat
  fingerprint        : Option JsString

structure RemoveResult where
  tree  : LathTree
  ok    : Bool
  token : Option RestoreToken

def siblingEdge (d : Dir) (before : Bool) : Edge :=
  match before, d with
  | true,  .row => .right
  | true,  .col => .bottom
  | false, .row => .left
  | false, .col => .top

def removeToken (id : LeafId) (d : Dir) (cs : List LathChild) (idx : Nat) (c sib : LathChild) : RestoreToken :=
  { leafId := id, weight := c.weight
    siblingId := (nodeLeaves sib.node).head?
    siblingLeafIds := some (nodeLeaves sib.node)
    siblingFingerprint := some (structureFingerprint sib.node)
    edge := siblingEdge d (decide (0 < idx)), index := idx
    fingerprint := some (structureFingerprint (.split d (cs.eraseIdx idx))) }

def remove (tree : LathTree) (id : LeafId) : RemoveResult :=
  match tree.root, findLeafPath tree id with
  | some root, some path =>
    match path.getLast? with
    | none     => ⟨⟨none⟩, true, some ⟨id, 1, none, none, none, .right, 0, none⟩⟩
    | some idx =>
      match nodeAt root path.dropLast with
      | some (.split d cs) =>
        -- the sibling before is preferred, else the one after
        match cs[idx]?, cs[if 0 < idx then idx - 1 else idx + 1]? with
        | some c, some sib =>
          ⟨⟨normalize (replaceAtPath root path.dropLast (.split d (cs.eraseIdx idx)))⟩, true,
            some (removeToken id d cs idx c sib)⟩
        | _, _ => ⟨tree, false, none⟩
      | _ => ⟨tree, false, none⟩
  | _, _ => ⟨tree, false, none⟩

def replace (tree : LathTree) (oldId newId : LeafId) : OpResult :=
  match tree.root, findLeafPath tree oldId with
  | some root, some path =>
    if (findLeafPath tree newId).isSome then ⟨tree, false⟩
    else ⟨⟨some (replaceAtPath root path (mkLeaf newId))⟩, true⟩
  | _, _ => ⟨tree, false⟩

def swap (tree : LathTree) (a b : LeafId) : OpResult :=
  if a = b then ⟨tree, false⟩
  else
    match tree.root, findLeafPath tree a, findLeafPath tree b with
    | some root, some pa, some pb =>
      ⟨⟨some (replaceAtPath (replaceAtPath root pa (mkLeaf b)) pb (mkLeaf a))⟩, true⟩
    | _, _, _ => ⟨tree, false⟩

/-! ## `insert` -/

inductive Share where
  | renormalize
  | keepSiblings
  | halve
  deriving DecidableEq

/-- Half of a child's weight; the caller's own where there is no such child. -/
def halfWeight (cs : List LathChild) (idx : Nat) (w : ℚ) : ℚ := ((cs[idx]?).map (fun c => c.weight / 2)).getD w

/-- The children of the target's own split with the new leaf spliced in beside `idx`. -/
def spliceLeaf (cs : List LathChild) (idx : Nat) (before : Bool) (newLeaf : LathNode) (w : ℚ) (share : Share) :
    List LathChild :=
  let scaled := cs.map (fun c => (⟨c.node, c.weight * (if share = .keepSiblings then 1 - w else 1)⟩ : LathChild))
  let half := halfWeight scaled idx w
  let weight := if share = .halve then half else w
  let children := if share = .halve then scaled.modify idx (fun c => ⟨c.node, half⟩) else scaled
  let at' := if before then idx else idx + 1
  children.take at' ++ ⟨newLeaf, weight⟩ :: children.drop at'

def insertBesideNode (tree : LathTree) (targetPath : List Nat) (edge : Edge) (newId : LeafId) (w : ℚ) (share : Share) :
    LathTree :=
  match tree.root with
  | none      => tree
  | some root =>
    match targetPath.getLast? with
    | none     => ⟨normalize (besideNode edge (mkLeaf newId) w root (1 - w))⟩
    | some idx =>
      let nest : LathTree :=
        match nodeAt root targetPath with
        | none            => tree
        | some targetNode =>
          ⟨normalize (replaceAtPath root targetPath (besideNode edge (mkLeaf newId) w targetNode (1 - w)))⟩
      match nodeAt root targetPath.dropLast with
      | some (.split d cs) =>
        if d = edgeAxis edge then
          ⟨normalize (replaceAtPath root targetPath.dropLast
            (.split d (normalizeWeights (spliceLeaf cs idx (edgeIsBefore edge) (mkLeaf newId) w share))))⟩
        else nest
      | _ => nest

inductive InsertSize where
  | half
  | weight (w : JsNum)

/-- A raw weight clamped into `(0, 1)`: `Math.min(Math.max(size, eps), 1 - eps)`. -/
def clampWeight : JsNum → ℚ
  | .fin q  => min (max q (1 / 1000000)) (1 - 1 / 1000000)
  | .negInf => 1 / 1000000
  | _       => 1 - 1 / 1000000

def InsertSize.isNaN : InsertSize → Bool
  | .weight .nan => true
  | _            => false

def InsertSize.clamped : InsertSize → ℚ
  | .half     => 1 / 2
  | .weight x => clampWeight x

/-- How an insert shares: `'half'` beside a single leaf halves it. -/
def shareFor (size : InsertSize) (targetNode : Option LathNode) (keepSiblings : Bool) : Share :=
  match size, targetNode with
  | .half, some (.leaf _) => .halve
  | _,     _              => if keepSiblings then .keepSiblings else .renormalize

def insertImpl (tree : LathTree) (id : LeafId) (target : DropTarget) (size : InsertSize) (keepSiblings : Bool) :
    OpResult :=
  match target with
  | .swap _      => ⟨tree, false⟩
  | .edge target =>
    if size.isNaN || tree.root.isNone || (findLeafPath tree id).isSome then ⟨tree, false⟩
    else
      match materializeTarget tree target with
      | none                => ⟨tree, false⟩
      | some (group, path) =>
        ⟨insertBesideNode group path target.edge id size.clamped
          (shareFor size (nodeAtPath group path) keepSiblings), true⟩

def insert (tree : LathTree) (id : LeafId) (target : DropTarget) (size : InsertSize) : OpResult :=
  insertImpl tree id target size false

/-! ## `move` -/

def sameLeafSet (a b : List LeafId) : Bool :=
  a.length == b.dedup.length && a.all (· ∈ b)

def leafWeight (root : LathNode) (idPath : List Nat) : ℚ :=
  match idPath.getLast? with
  | none     => 1
  | some idx =>
    match nodeAt root idPath.dropLast with
    | some (.split _ cs) => ((cs[idx]?).map (·.weight)).getD 1
    | _                  => 1

def moveSize (tree : LathTree) (id : LeafId) (target : EdgeDropTarget) : Option InsertSize :=
  match tree.root, findLeafPath tree id, materializeTarget tree target with
  | some root, some idPath, some (group, path) =>
    if ((leaves ⟨nodeAtPath group path⟩).filter (· ≠ id)).length = 1 then some .half
    else some (.weight (.fin (leafWeight root idPath)))
  | _, _, _ => none

/-- Whether the destination's container is what is left of the leaf's own split. -/
def isOwnSplit (root : LathNode) (id : LeafId) (idPath : List Nat) (at' : Option (LathTree × List Nat)) : Bool :=
  match idPath.getLast?, nodeAt root idPath.dropLast, at' with
  | some _, some (.split d cs), some (group, path) =>
    if path.isEmpty then false
    else
      match nodeAtPath group path.dropLast with
      | some (.split d' cs') =>
        decide (d' = d) && sameLeafSet (nodeLeaves (.split d' cs')) ((nodeLeaves (.split d cs)).filter (· ≠ id))
      | _ => false
  | _, _, _ => false

def move (tree : LathTree) (id : LeafId) (target : DropTarget) : OpResult :=
  match target with
  | .swap leaf   => swap tree id leaf
  | .edge target =>
    match tree.root, findLeafPath tree id, materializeTarget tree target with
    | some root, some idPath, some (group, path) =>
      let targetLeaves := leaves ⟨nodeAtPath group path⟩
      if targetLeaves = [id] then ⟨tree, false⟩
      else
        let t2 := (remove tree id).tree
        match moveSize tree id target, targetByLeafSet t2 (targetLeaves.filter (· ≠ id)).dedup target.edge with
        | some size, some destination =>
          let r := insertImpl t2 id (.edge destination) size
            (isOwnSplit root id idPath (materializeTarget t2 destination))
          if !r.ok then ⟨tree, false⟩
          else if r.tree.root.map structureFingerprint = some (structureFingerprint root) then ⟨tree, true⟩
          else r
        | _, _ => ⟨tree, false⟩
    | _, _, _ => ⟨tree, false⟩

/-! ## `restore` -/

/-- A field that must be `null` or a string. -/
def readNullable : Option Json → Option (Option JsString)
  | some .null    => some none
  | some (.str s) => some (some s)
  | _             => none

def readEdge : Option Json → Option Edge
  | some (.str s) =>
    if s = units "left" then some .left
    else if s = units "right" then some .right
    else if s = units "top" then some .top
    else if s = units "bottom" then some .bottom
    else none
  | _ => none

def readLeafIds : Option Json → Option (Option (List LeafId))
  | none           => some none
  | some (.arr xs) => (Json.strings? xs).map some
  | _              => none

def readOptional : Option Json → Option (Option JsString)
  | none          => some none
  | some (.str s) => some (some s)
  | _             => none

def readFinite : Option Json → Option ℚ
  | some (.num (.fin q)) => some q
  | _                    => none

def readIndex : Option Json → Option Nat
  | some (.num x) => x.index?
  | _             => none

def readString : Option Json → Option JsString
  | some (.str s) => some s
  | _             => none

/-- `isRestoreToken`, with the fields it has checked. -/
def readRestoreToken (token : Json) : Option RestoreToken := do
  let leafId ← readString (token.field (units "leafId"))
  let weight ← readFinite (token.field (units "weight"))
  let siblingId ← readNullable (token.field (units "siblingId"))
  let fingerprint ← readNullable (token.field (units "fingerprint"))
  let index ← readIndex (token.field (units "index"))
  let edge ← readEdge (token.field (units "edge"))
  let siblingLeafIds ← readLeafIds (token.field (units "siblingLeafIds"))
  let siblingFingerprint ← readOptional (token.field (units "siblingFingerprint"))
  if 0 < weight ∧ (weight < 1 ∨ weight = 1 ∧ siblingId = none ∧ fingerprint = none) then
    some ⟨leafId, weight, siblingId, siblingLeafIds, siblingFingerprint, edge, index, fingerprint⟩
  else none

mutual
def findFingerprint (fingerprint : JsString) : LathNode → Option (List Nat)
  | .leaf _     => none
  | .split d cs =>
    if structureFingerprint (.split d cs) = fingerprint then some [] else findFingerprintIn fingerprint 0 cs
def findFingerprintIn (fingerprint : JsString) (i : Nat) : List LathChild → Option (List Nat)
  | []           => none
  | ⟨n, _⟩ :: cs =>
    match findFingerprint fingerprint n with
    | some p => some (i :: p)
    | none   => findFingerprintIn fingerprint (i + 1) cs
end

def findSplitPathByFingerprint (tree : LathTree) (fingerprint : JsString) : Option (List Nat) :=
  tree.root.bind (findFingerprint fingerprint)

structure RestoreOpts where
  fallbackRef : Option LeafId
  rect        : Option Rect
  layoutOpts  : Option LayoutOpts

inductive Tier where
  | exact
  | neighbor
  | fallback
  deriving DecidableEq

structure RestoreResult where
  tree : LathTree
  ok   : Bool
  tier : Option Tier

def reinsertLeaf (cs : List LathChild) (token : RestoreToken) : List LathChild :=
  let scaled := cs.map (fun c => (⟨c.node, c.weight * (1 - token.weight)⟩ : LathChild))
  let insertAt := min token.index scaled.length
  scaled.take insertAt ++ ⟨mkLeaf token.leafId, token.weight⟩ :: scaled.drop insertAt

def restoreParent (tree : LathTree) (token : RestoreToken) (fingerprint : JsString) : Option LathTree :=
  match tree.root, findSplitPathByFingerprint tree fingerprint with
  | some root, some parentPath =>
    match nodeAt root parentPath with
    | some (.split d cs) =>
      some ⟨normalize (replaceAtPath root parentPath (.split d (normalizeWeights (reinsertLeaf cs token))))⟩
    | _ => none
  | _, _ => none

/-- The exact tier where the parent collapsed onto the sibling group. -/
def restoreSibling (tree : LathTree) (token : RestoreToken) : Option LathTree :=
  match token.siblingLeafIds, token.siblingFingerprint with
  | some ids, some fingerprint =>
    if 1 < ids.length ∧ fingerprint ≠ [] then
      match targetByLeafSet tree ids.dedup token.edge with
      | none        => none
      | some target =>
        match materializeTarget tree target with
        | none                => none
        | some (group, path) =>
          if (nodeAtPath group path).map structureFingerprint = some fingerprint then
            let r := insert tree token.leafId (.edge target) (.weight (.fin token.weight))
            if r.ok then some r.tree else none
          else none
    else none
  | _, _ => none

def restoreExact (tree : LathTree) (token : RestoreToken) : Option LathTree :=
  match token.siblingId, token.fingerprint with
  | some _, some fingerprint =>
    match restoreParent tree token fingerprint with
    | some t => some t
    | none   => restoreSibling tree token
  | _, _ => none

def restoreNeighbor (tree : LathTree) (token : RestoreToken) : Option LathTree :=
  match token.siblingId with
  | some siblingId =>
    let r := split tree siblingId token.edge token.leafId
    if (findLeafPath tree siblingId).isSome && r.ok then some r.tree else none
  | none => none

def fallbackEdge (tree : LathTree) (fallbackRef : LeafId) (opts : RestoreOpts) : Edge :=
  match opts.rect, opts.layoutOpts with
  | some rect, some layoutOpts => autoEdge tree rect fallbackRef layoutOpts
  | _,         _               => .right

def restoreFallback (tree : LathTree) (token : RestoreToken) (opts : RestoreOpts) : Option LathTree :=
  match opts.fallbackRef with
  | none             => none
  | some fallbackRef =>
    let r := split tree fallbackRef (fallbackEdge tree fallbackRef opts) token.leafId
    -- an empty id is falsy
    if fallbackRef ≠ [] ∧ (findLeafPath tree fallbackRef).isSome ∧ r.ok then some r.tree else none

/-- `restore` past its guard. -/
def restoreRead (tree : LathTree) (token : RestoreToken) (opts : RestoreOpts) : RestoreResult :=
  if (findLeafPath tree token.leafId).isSome then ⟨tree, false, none⟩
  else if tree.root.isNone then ⟨leafTree token.leafId, true, some .fallback⟩
  else
    match restoreExact tree token, restoreNeighbor tree token, restoreFallback tree token opts with
    | some t, _,      _      => ⟨t, true, some .exact⟩
    | none,   some t, _      => ⟨t, true, some .neighbor⟩
    | none,   none,   some t => ⟨t, true, some .fallback⟩
    | none,   none,   none   => ⟨tree, false, none⟩

def restore (tree : LathTree) (token : Json) (opts : RestoreOpts) : RestoreResult :=
  match readRestoreToken token with
  | none       => ⟨tree, false, none⟩
  | some token => restoreRead tree token opts

/-! ## `resize` -/

/-- Where the sash's first child ends up: clamped between the pair's minima, unmoved where these do not fit. -/
def clampSpan (spanA delta lo hi : ℚ) : ℚ := if lo ≤ hi then min (max (spanA + delta) lo) hi else spanA

/-- The spans after the sash at `boundary` moved by `delta`, clamped to the pair's minima; `none` is no motion. -/
def draggedSpans (cs : List LathChild) (d : Dir) (opts : LayoutOpts) (spans : List Int) (boundary : Nat) (delta : ℚ) :
    Option (List ℚ) :=
  match spans[boundary]?, spans[boundary + 1]?, cs[boundary]?, cs[boundary + 1]? with
  | some spanA, some spanB, some a, some b =>
    let pairSpan : ℚ := spanA + spanB
    let nextA := clampSpan spanA delta (minSpan d opts a.node) (pairSpan - minSpan d opts b.node)
    if nextA = spanA then none
    else some (((spans.map (fun (s : Int) => (s : ℚ))).set boundary nextA).set (boundary + 1) (pairSpan - nextA))
  | _, _, _, _ => none

def resize (tree : LathTree) (splitPath : List JsNum) (boundary deltaPx : JsNum) (rect : Rect) (opts : LayoutOpts) :
    OpResult :=
  match tree.root, indexPath splitPath, boundary.index?, deltaPx with
  | some root, some path, some boundary, .fin delta =>
    match nodeAt root path, nodeRectAtPath tree rect opts path with
    | some (.split d cs), some splitRect =>
      if cs.length ≤ boundary + 1 ∨ splitRect.span d - opts.gap * ((cs.length : ℚ) - 1) ≤ 0 then ⟨tree, false⟩
      else
        match draggedSpans cs d opts (allocateChildSpans cs (splitRect.span d) opts d) boundary delta with
        | none       => ⟨tree, true⟩
        | some spans =>
          -- a zero-pixel pane keeps a positive weight
          let children := cs.zipWith (fun c s => (⟨c.node, max s (1 / 1000000)⟩ : LathChild)) spans
          ⟨⟨normalize (replaceAtPath root path (.split d (normalizeWeights children)))⟩, true⟩
    | _, _ => ⟨tree, false⟩
  | _, _, _, _ => ⟨tree, false⟩

end Lath
end Dormouse

import Dormouse.Js
/-!
# Lath's core model — the split tree

`lib/src/lib/lath/model.ts`: the tree, its readers, `validate`, and the constructors every operation builds through.
Weights are exact rationals.  A path is a list of child indices; a caller's path may hold any numbers (`JsNum`), and
`indexPath` is what of it can name a node.

The recursive functions of the source walk a node and its child list; each is a pair here, one function per type, so
that they compute by structural recursion.
-/
namespace Dormouse
namespace Lath

abbrev LeafId := JsString

inductive Dir where
  | row
  | col
  deriving DecidableEq

inductive Edge where
  | left
  | right
  | top
  | bottom
  deriving DecidableEq

structure Weighted (α : Type) where
  node   : α
  weight : ℚ

inductive LathNode where
  | leaf (id : LeafId)
  | split (dir : Dir) (children : List (Weighted LathNode))

abbrev LathChild := Weighted LathNode

/-- `root: null` is the empty Wall. -/
structure LathTree where
  root : Option LathNode

def edgeAxis : Edge → Dir
  | .left | .right => .row
  | .top | .bottom => .col

def edgeIsBefore : Edge → Bool
  | .left | .top => true
  | .right | .bottom => false

def leafTree (id : LeafId) : LathTree := ⟨some (.leaf id)⟩

def LathNode.dir? : LathNode → Option Dir
  | .leaf _    => none
  | .split d _ => some d

theorem LathNode.ind {motive : LathNode → Prop} (leaf : ∀ id, motive (.leaf id))
    (split : ∀ d cs, (∀ c ∈ cs, motive c.node) → motive (.split d cs)) : ∀ n, motive n
  | .leaf id => leaf id
  | .split d cs => split d cs (fun c _ => LathNode.ind leaf split c.node)
termination_by n => sizeOf n
decreasing_by
  rename_i hc
  have := List.sizeOf_lt_of_mem hc
  rcases c with ⟨n, w⟩
  simp only [Weighted.mk.sizeOf_spec, LathNode.split.sizeOf_spec] at this ⊢
  omega

/-! ## Reading a tree -/

mutual
def nodeLeaves : LathNode → List LeafId
  | .leaf id    => [id]
  | .split _ cs => childLeaves cs
def childLeaves : List LathChild → List LeafId
  | []           => []
  | ⟨n, _⟩ :: cs => nodeLeaves n ++ childLeaves cs
end

def leaves (tree : LathTree) : List LeafId :=
  match tree.root with
  | none   => []
  | some n => nodeLeaves n

mutual
def findLeaf (id : LeafId) : LathNode → Option (List Nat)
  | .leaf id'   => if id' = id then some [] else none
  | .split _ cs => findLeafIn id 0 cs
def findLeafIn (id : LeafId) (i : Nat) : List LathChild → Option (List Nat)
  | []           => none
  | ⟨n, _⟩ :: cs =>
    match findLeaf id n with
    | some p => some (i :: p)
    | none   => findLeafIn id (i + 1) cs
end

def findLeafPath (tree : LathTree) (id : LeafId) : Option (List Nat) := tree.root.bind (findLeaf id)

/-- A caller's path, `none` once an entry names no array element: `children[i]` is `undefined` there. -/
def indexPath (path : List JsNum) : Option (List Nat) := path.mapM JsNum.index?

theorem indexPath_ofNat (p : List Nat) : indexPath (p.map JsNum.ofNat) = some p := by
  unfold indexPath
  induction p with
  | nil => rfl
  | cons i p ih => rw [List.map_cons, List.mapM_cons, ih]; simp

def nodeAt : LathNode → List Nat → Option LathNode
  | n,           []        => some n
  | .leaf _,     _ :: _    => none
  | .split _ cs, i :: rest => cs[i]?.bind (fun c => nodeAt c.node rest)

def nodeAtPath (tree : LathTree) (path : List Nat) : Option LathNode := tree.root.bind (nodeAt · path)

/-! ## `validate` -/

def weightSum (cs : List LathChild) : ℚ := (cs.map (·.weight)).sum

/-- `validate`'s messages, each with the values it prints. -/
inductive Violation where
  /-- `duplicate leaf id "…" at path …` -/
  | duplicateLeaf (id : LeafId) (path : List Nat)
  /-- `split at … directly contains a same-direction (…) split` -/
  | sameDirection (path : List Nat) (dir : Dir)
  /-- `split at … has … children (< 2)` -/
  | tooFewChildren (path : List Nat) (count : Nat)
  /-- `child … of split at … has non-positive or non-finite weight …` -/
  | badWeight (path : List Nat) (child : Nat) (weight : ℚ)
  /-- `weights of split at … sum to … (≠ 1)` -/
  | badSum (path : List Nat) (sum : ℚ)

def badWeights (path : List Nat) (i : Nat) : List LathChild → List Violation
  | []      => []
  | c :: cs => (if c.weight ≤ 0 then [.badWeight path i c.weight] else []) ++ badWeights path (i + 1) cs

/-- What a split is faulted for, its children apart; only positive weights are summed. -/
def splitViolations (path : List Nat) (parentDir : Option Dir) (d : Dir) (cs : List LathChild) : List Violation :=
  (if parentDir = some d then [.sameDirection path d] else []) ++
  (if cs.length < 2 then [.tooFewChildren path cs.length] else []) ++
  badWeights path 0 cs ++
  (let sum := weightSum (cs.filter (fun c => 0 < c.weight))
   if 0 < cs.length ∧ |sum - 1| > 1 / 1000000 then [.badSum path sum] else [])

mutual
def validateNode (path : List Nat) (parentDir : Option Dir) (seen : List LeafId) : LathNode → List Violation × List LeafId
  | .leaf id    => (if id ∈ seen then [.duplicateLeaf id path] else [], id :: seen)
  | .split d cs =>
    let r := validateChildren path d seen 0 cs
    (splitViolations path parentDir d cs ++ r.1, r.2)
def validateChildren (path : List Nat) (d : Dir) (seen : List LeafId) (i : Nat) :
    List LathChild → List Violation × List LeafId
  | []           => ([], seen)
  | ⟨n, _⟩ :: cs =>
    let r := validateChildren path d seen (i + 1) cs
    let s := validateNode (path ++ [i]) (some d) r.2 n
    (r.1 ++ s.1, s.2)
end

def validate (tree : LathTree) : List Violation :=
  match tree.root with
  | none   => []
  | some n => (validateNode [] none [] n).1

/-! ## Building a tree -/

def normalizeWeights (cs : List LathChild) : List LathChild :=
  let sum := weightSum cs
  if sum ≤ 0 then
    let w : ℚ := if 0 < cs.length then 1 / cs.length else 0
    cs.map (fun c => ⟨c.node, w⟩)
  else cs.map (fun c => ⟨c.node, c.weight / sum⟩)

/-- What a normalized child adds to its parent's list: nothing, its own children scaled when the directions match, or
itself. -/
def flattenInto (d : Dir) (w : ℚ) : Option LathNode → List LathChild
  | none                  => []
  | some (.leaf id)       => [⟨.leaf id, w⟩]
  | some (.split d' gcs)  => if d' = d then gcs.map (fun gc => ⟨gc.node, gc.weight * w⟩) else [⟨.split d' gcs, w⟩]

mutual
def normalize : LathNode → Option LathNode
  | .leaf id    => some (.leaf id)
  | .split d cs =>
    match collect d cs with
    | []             => none
    | [c]            => some c.node
    | c :: c' :: cs' => some (.split d (normalizeWeights (c :: c' :: cs')))
/-- The loop of `normalize` over a split's children. -/
def collect (d : Dir) : List LathChild → List LathChild
  | []           => []
  | ⟨n, w⟩ :: cs => flattenInto d w (normalize n) ++ collect d cs
end

def replaceAtPath : LathNode → List Nat → LathNode → LathNode
  | _,           [],        replacement => replacement
  | .leaf id,    _ :: _,    _           => .leaf id
  | .split d cs, i :: rest, replacement =>
    match cs[i]? with
    | none   => .split d cs
    | some c => .split d (cs.set i ⟨replaceAtPath c.node rest replacement, c.weight⟩)

/-! ## The structure fingerprint -/

/-- What `strip` keeps of a node: kinds, directions and leaf ids. -/
inductive Shape where
  | leaf (id : LeafId)
  | split (dir : Dir) (children : List Shape)

mutual
def strip : LathNode → Shape
  | .leaf id    => .leaf id
  | .split d cs => .split d (stripAll cs)
def stripAll : List LathChild → List Shape
  | []           => []
  | ⟨n, _⟩ :: cs => strip n :: stripAll cs
end

def Dir.text : Dir → JsString
  | .row => units "row"
  | .col => units "col"

mutual
/-- `JSON.stringify` of a stripped node. -/
def Shape.stringify : Shape → JsString
  | .leaf id    => units "\x7b\"k\":\"leaf\",\"id\":" ++ quote id ++ units "\x7d"
  | .split d cs =>
    units "\x7b\"k\":\"split\",\"dir\":\"" ++ d.text ++ units "\",\"children\":[" ++ Shape.stringifyAll cs ++ units "]\x7d"
def Shape.stringifyAll : List Shape → JsString
  | []           => []
  | [c]          => c.stringify
  | c :: d :: cs => c.stringify ++ units "," ++ Shape.stringifyAll (d :: cs)
end

def structureFingerprint (node : LathNode) : JsString := (strip node).stringify

end Lath
end Dormouse

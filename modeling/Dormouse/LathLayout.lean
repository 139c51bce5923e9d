import Dormouse.LathModel
/-!
# Lath's layout — pure geometry over the split tree

`lib/src/lib/lath/layout.ts`: minimum spans, the waterfill that allocates a split's span, cumulative rounding, and the
walks that turn a tree and a rect into leaf rects (`layout`), one node's rect (`nodeRectAtPath`) and the bands between
children (`sashes`).  Lengths are exact rationals; the allocated spans are integers, as the source rounds them.

The waterfill's loop is fuelled by the number of children and one more pass; `none` is a loop that did not end, which
`LathTiling.waterfill_spec` rules out.
-/
namespace Dormouse
namespace Lath

structure Rect where
  x      : ℚ
  y      : ℚ
  width  : ℚ
  height : ℚ
  deriving DecidableEq

structure Size where
  width  : ℚ
  height : ℚ

structure LayoutOpts where
  gap     : ℚ
  minLeaf : Size

mutual
/-- Minimum extent of a node along `axis`: a split along it sums its children and the gaps, a split across it takes the
largest child. -/
def minSpan (axis : Dir) (opts : LayoutOpts) : LathNode → ℚ
  | .leaf _     =>
    match axis with
    | .row => opts.minLeaf.width
    | .col => opts.minLeaf.height
  | .split d cs =>
    if d = axis then minSpanSum axis opts cs + opts.gap * ((cs.length : ℚ) - 1) else minSpanMax axis opts cs
def minSpanSum (axis : Dir) (opts : LayoutOpts) : List LathChild → ℚ
  | []           => 0
  | ⟨n, _⟩ :: cs => minSpan axis opts n + minSpanSum axis opts cs
def minSpanMax (axis : Dir) (opts : LayoutOpts) : List LathChild → ℚ
  | []           => 0
  | ⟨n, _⟩ :: cs => max (minSpan axis opts n) (minSpanMax axis opts cs)
end

/-! ## The waterfill -/

/-- One child in the waterfill: its weight and minimum, whether it is pinned to its minimum, and its fraction. -/
structure Slot where
  weight  : ℚ
  min     : ℚ
  clamped : Bool
  frac    : ℚ

def activeSlots (slots : List Slot) : List Slot := slots.filter (fun s => !s.clamped)

def activeWeight (slots : List Slot) : ℚ := ((activeSlots slots).map (·.weight)).sum

def share (slots : List Slot) (remaining : ℚ) (s : Slot) : ℚ :=
  if 0 < activeWeight slots then s.weight / activeWeight slots * remaining
  else remaining / (activeSlots slots).length

/-- Whether a pass clamps a child: its share is below its minimum. -/
def pinned (slots : List Slot) (remaining : ℚ) (s : Slot) : Bool :=
  !s.clamped && decide (share slots remaining s < s.min - 1 / 1000000000)

def pinSlot (slots : List Slot) (remaining : ℚ) (s : Slot) : Slot :=
  if pinned slots remaining s then { s with clamped := true, frac := s.min } else s

/-- The passes of the waterfill: the whole pass is judged against one budget, and what it pinned leaves the budget of
the next. -/
def waterfill : Nat → ℚ → List Slot → Option (List ℚ)
  | 0,        _,         _     => none
  | fuel + 1, remaining, slots =>
    if (activeSlots slots).length = 0 then some (slots.map (·.frac))
    else
      match slots.filter (pinned slots remaining) with
      | []        => some (slots.map (fun s => if s.clamped then s.frac else share slots remaining s))
      | s :: pins =>
        waterfill fuel (remaining - ((s :: pins).map (·.min)).sum) (slots.map (pinSlot slots remaining))

/-- `Math.round`: ties go up. -/
def round (q : ℚ) : Int := ⌊q + 1 / 2⌋

def cumulativeRoundFrom (target : Int) (cum : ℚ) (prevRounded : Int) : List ℚ → List Int
  | []          => []
  | [_]         => [target - prevRounded]
  | f :: g :: t => (round (cum + f) - prevRounded) :: cumulativeRoundFrom target (cum + f) (round (cum + f)) (g :: t)

def cumulativeRound (fracs : List ℚ) (total : ℚ) : List Int := cumulativeRoundFrom (round total) 0 0 fracs

def availableSpan (n : Nat) (span : ℚ) (opts : LayoutOpts) : ℚ := max 0 (span - opts.gap * ((n : ℚ) - 1))

def allocateFracs (cs : List LathChild) (available : ℚ) (opts : LayoutOpts) (dir : Dir) : List ℚ :=
  let mins := cs.map (fun c => minSpan dir opts c.node)
  let totalMin := mins.sum
  if totalMin > available then
    -- overconstrained: the minima are honoured in proportion
    if totalMin > 0 then mins.map (fun m => m / totalMin * available) else mins.map (fun _ => available / cs.length)
  else
    (waterfill (cs.length + 1) available
      (cs.map (fun c => ⟨c.weight, minSpan dir opts c.node, false, 0⟩))).getD (cs.map (fun _ => 0))

def allocateChildSpans (cs : List LathChild) (span : ℚ) (opts : LayoutOpts) (dir : Dir) : List Int :=
  cumulativeRound (allocateFracs cs (availableSpan cs.length span opts) opts dir) (availableSpan cs.length span opts)

/-! ## The walks -/

def Rect.span (r : Rect) : Dir → ℚ
  | .row => r.width
  | .col => r.height

def Rect.start (r : Rect) : Dir → ℚ
  | .row => r.x
  | .col => r.y

/-- The part of a rect that starts at `pos` along a direction and is `len` long there. -/
def Rect.slice (r : Rect) (d : Dir) (pos len : ℚ) : Rect :=
  match d with
  | .row => ⟨pos, r.y, len, r.height⟩
  | .col => ⟨r.x, pos, r.width, len⟩

def placeRects (d : Dir) (rect : Rect) (gap : ℚ) (pos : ℚ) : List Int → List Rect
  | []      => []
  | s :: ss => rect.slice d pos s :: placeRects d rect gap (pos + (s + gap)) ss

/-- `forEachChildRect`: the rects of a split's children, in split order. -/
def childRects (d : Dir) (cs : List LathChild) (rect : Rect) (opts : LayoutOpts) : List Rect :=
  placeRects d rect opts.gap (rect.start d) (allocateChildSpans cs (rect.span d) opts d)

def nonnegativeRect (r : Rect) : Rect := { r with width := max 0 r.width, height := max 0 r.height }

/-- `Map.set`: in place when the key is there, at the end when it is not. -/
def mapSet (out : List (LeafId × Rect)) (id : LeafId) (rect : Rect) : List (LeafId × Rect) :=
  if out.any (fun e => e.1 == id) then out.map (fun e => if e.1 = id then (id, rect) else e) else out ++ [(id, rect)]

mutual
def layoutNode (opts : LayoutOpts) (rect : Rect) (out : List (LeafId × Rect)) : LathNode → List (LeafId × Rect)
  | .leaf id    => mapSet out id rect
  | .split d cs => layoutChildren opts out cs (childRects d cs rect opts)
def layoutChildren (opts : LayoutOpts) (out : List (LeafId × Rect)) : List LathChild → List Rect → List (LeafId × Rect)
  | ⟨n, _⟩ :: cs, r :: rs => layoutChildren opts (layoutNode opts r out n) cs rs
  | _,            _       => out
end

/-- The map of `layout`, as its entries in insertion order. -/
def layout (tree : LathTree) (rect : Rect) (opts : LayoutOpts) : List (LeafId × Rect) :=
  match tree.root with
  | none   => []
  | some n => layoutNode opts (nonnegativeRect rect) [] n

def nodeRectAt (opts : LayoutOpts) : LathNode → Rect → List Nat → Option Rect
  | _,           cur, []        => some cur
  | .leaf _,     _,   _ :: _    => none
  | .split d cs, cur, i :: rest =>
    match cs[i]?, (childRects d cs cur opts)[i]? with
    | some c, some r => nodeRectAt opts c.node r rest
    | _,      _      => none

def nodeRectAtPath (tree : LathTree) (rect : Rect) (opts : LayoutOpts) (path : List Nat) : Option Rect :=
  tree.root.bind (fun n => nodeRectAt opts n (nonnegativeRect rect) path)

def autoEdge (tree : LathTree) (rect : Rect) (id : LeafId) (opts : LayoutOpts) : Edge :=
  match (layout tree rect opts).lookup id with
  | none   => .right
  | some r => if r.width - r.height > 0 then .right else .bottom

structure Sash where
  splitPath : List Nat
  boundary  : Nat
  dir       : Dir
  rect      : Rect

mutual
def sashesAt (opts : LayoutOpts) (path : List Nat) (r : Rect) : LathNode → List Sash
  | .leaf _     => []
  | .split d cs => sashesIn opts path r d 0 cs (childRects d cs r opts)
/-- One band behind every child but the last, then the child's own. -/
def sashesIn (opts : LayoutOpts) (path : List Nat) (r : Rect) (d : Dir) (i : Nat) :
    List LathChild → List Rect → List Sash
  | ⟨n, _⟩ :: cs, cr :: crs =>
    (if cs.isEmpty then [] else [⟨path, i, d, r.slice d (cr.start d + cr.span d) opts.gap⟩]) ++
      sashesAt opts (path ++ [i]) cr n ++ sashesIn opts path r d (i + 1) cs crs
  | _,            _         => []
end

def sashes (tree : LathTree) (rect : Rect) (opts : LayoutOpts) : List Sash :=
  match tree.root with
  | none   => []
  | some n => sashesAt opts [] (nonnegativeRect rect) n

end Lath
end Dormouse

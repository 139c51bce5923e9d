import Dormouse.OrdMap
import Dormouse.Pixels
import Dormouse.Steps
/-!
# ImageHistory — undo and redo over an editor's documents

`dor-tools-builtin/viewer/image/history.ts`.  A document names its raster, which is shared and changed in place, so the
rasters are a heap; of a document's objects nothing here reads anything.  An in-place edit changes the current raster a part
at a time, each part kept first, and `committed` is what each revision's raster held when it was made current.
-/
namespace Dormouse
namespace Image

open ByteRows

/-- A revision; its identity names it. -/
structure Doc where
  id     : Nat
  raster : Nat
  deriving DecidableEq

/-- Pixels kept from a raster: `pixels` covers `rect`. -/
structure Tile where
  rect   : Box
  pixels : Raster
  deriving DecidableEq

/-- What one in-place edit changed, within `rect`. -/
structure Patch where
  rect  : Box
  tiles : List Tile
  deriving DecidableEq

/-- A step's tiles hold their pixels as the revision it leads away from has them. -/
structure Step where
  source : Doc
  target : Doc
  patch  : Option Patch
  bytes  : Nat
  deriving DecidableEq

abbrev Applied := Option Box

/-- The steps that can be undone, oldest first, and those that can be redone, the next last. -/
structure History where
  past    : List Step
  future  : List Step
  bytes   : Int
  current : Doc
  limit   : Nat

abbrev Rasters := Nat → Raster

def Raster.byteLength (r : Raster) : Nat := r.data.length

namespace History

def create (current : Doc) (limit : Nat) : History := ⟨[], [], 0, current, limit⟩

def evict (limit : Nat) : List Step → Int → List Step × Int
  | [],           bytes => ([], bytes)
  | step :: past, bytes => if bytes > limit then evict limit past (bytes - step.bytes) else (step :: past, bytes)

/-- A patch is charged its tiles; a replaced raster is kept whole, charged to the step that leaves it. -/
def charge (rasters : Rasters) (source doc : Doc) : Option Patch → Nat
  | some p => (p.tiles.map (fun t => t.pixels.byteLength)).sum
  | none   => if doc.raster ≠ source.raster then (rasters source.raster).byteLength else 0

def commit (rasters : Rasters) (h : History) (doc : Doc) (patch : Option Patch) : History :=
  if doc = h.current then h
  else
    let bytes := charge rasters h.current doc patch
    let (past, left) := evict h.limit (h.past ++ [⟨h.current, doc, patch, bytes⟩]) (h.bytes + bytes)
    { h with past := past, future := [], bytes := left, current := doc }

end History

/-! ## Trading pixels -/

/-- Row `y` of a tile and its spot on the raster trade places. -/
def swapRow (rect : Box) (s : Raster × Raster) (y : Nat) : Raster × Raster :=
  let (raster, pixels) := s
  let rowBytes := rect.width * 4
  let start := ((rect.y + y) * raster.width + rect.x) * 4
  let kept := subarray pixels.data (y * rowBytes) ((y + 1) * rowBytes)
  let row := subarray raster.data start (start + rowBytes)
  (raster.set kept start, pixels.set row (y * rowBytes))

def swapTile (raster : Raster) (t : Tile) : Raster × Tile :=
  let (raster, pixels) := (List.range t.rect.height).foldl (swapRow t.rect) (raster, t.pixels)
  (raster, { t with pixels := pixels })

def swapTiles : Raster → List Tile → Raster × List Tile
  | raster, []         => (raster, [])
  | raster, t :: tiles =>
    let (raster, t) := swapTile raster t
    let (raster, tiles) := swapTiles raster tiles
    (raster, t :: tiles)

/-- The rasters and the step after its kept tiles were put on the raster, and what they replaced was kept. -/
def swap (rasters : Rasters) (step : Step) : Rasters × Step :=
  match step.patch with
  | none   => (rasters, step)
  | some p =>
    let (raster, tiles) := swapTiles (rasters step.source.raster) p.tiles
    (Function.update rasters step.source.raster raster, { step with patch := some { p with tiles := tiles } })

def Step.applied (step : Step) : Applied := step.patch.map Patch.rect

namespace History

def pop (steps : List Step) : Option (List Step × Step) := steps.getLast?.map (fun step => (steps.dropLast, step))

def undo (rasters : Rasters) (h : History) : Rasters × History × Option Applied :=
  match pop h.past with
  | none              => (rasters, h, none)
  | some (past, step) =>
    let (rasters, swapped) := swap rasters step
    (rasters, { h with past := past, future := h.future ++ [swapped], bytes := h.bytes - step.bytes, current := step.source },
      some step.applied)

def redo (rasters : Rasters) (h : History) : Rasters × History × Option Applied :=
  match pop h.future with
  | none                => (rasters, h, none)
  | some (future, step) =>
    let (rasters, swapped) := swap rasters step
    (rasters, { h with past := h.past ++ [swapped], future := future, bytes := h.bytes + step.bytes, current := step.target },
      some step.applied)

end History

/-! ## Keeping pixels -/

abbrev Kept := OrdMap Nat Tile

namespace Pieces

/-- The tiles of `size` that what is from `start` on, for `n` pixels, touches. -/
def touched (size start n : Nat) : List Nat := (List.range' (start / size) (start + n)).filter (fun i => i * size < start + n)

def columns (size width : Nat) : Nat := (width + size - 1) / size

def keepTile (size : Nat) (raster : Raster) (kept : Kept) (tx ty : Nat) : Kept :=
  let index := ty * columns size raster.width + tx
  match kept.get index with
  | some _ => kept
  | none   =>
    match clipRect raster.width raster.height (⟨tx * size, ty * size, size, size⟩ : Box).rect with
    | none     => kept
    | some rect => kept.set index ⟨rect, crop raster rect.rect⟩

def keep (size : Nat) (raster : Raster) (kept : Kept) (rect : Rect) : Option Box × Kept :=
  match clipRect raster.width raster.height rect with
  | none         => (none, kept)
  | some clipped =>
    (some clipped, (touched size clipped.y clipped.height).foldl (fun kept ty =>
      (touched size clipped.x clipped.width).foldl (fun kept tx => keepTile size raster kept tx ty) kept) kept)

def restore (raster : Raster) (kept : Kept) : Raster :=
  kept.values.foldl (fun r t => blit r t.pixels t.rect.x t.rect.y) raster

end Pieces

def Raster.paint (r : Raster) (box : Box) (bytes : Nat → UInt8) : Raster :=
  { r with
    data := r.data.mapIdx (fun i b => if box.contains (i / 4 % r.width) (i / 4 / r.width) then bytes i else b)
    size := List.length_mapIdx.trans r.size }

/-- One part of an edit: a rectangle, and what is written of it once its pixels are kept. -/
structure Stroke where
  rect  : Rect
  bytes : Nat → UInt8

def stroke (size : Nat) (s : Raster × Kept) (k : Stroke) : Raster × Kept :=
  match Pieces.keep size s.1 s.2 k.rect with
  | (none, kept)     => (s.1, kept)
  | (some box, kept) => (s.1.paint box k.bytes, kept)

def strokes (size : Nat) (raster : Raster) (l : List Stroke) : Raster × Kept := l.foldl (stroke size) (raster, .empty)

/-! ## A session -/

structure Session where
  rasters   : Rasters
  /-- The next new raster, and the next new document. -/
  fresh     : Nat
  revision  : Nat
  history   : History
  /-- What each revision's raster held when it was committed. -/
  committed : Nat → Raster

inductive Event where
  | edit (dirty : Box) (l : List Stroke)
  | replace (raster : Raster)
  | objects
  | undo
  | redo

namespace Session

def create (raster : Raster) (limit : Nat) : Session :=
  ⟨fun _ => raster, 1, 1, .create ⟨0, 0⟩ limit, fun _ => raster⟩

def commit (s : Session) (raster : Nat) (patch : Option Patch) : Session :=
  { s with
    revision  := s.revision + 1
    history   := s.history.commit s.rasters ⟨s.revision, raster⟩ patch
    committed := Function.update s.committed s.revision (s.rasters raster) }

def undo (s : Session) : Session :=
  let (rasters, history, _) := s.history.undo s.rasters
  { s with rasters := rasters, history := history }

def redo (s : Session) : Session :=
  let (rasters, history, _) := s.history.redo s.rasters
  { s with rasters := rasters, history := history }

end Session

def step (size : Nat) (s : Session) : Event → Session
  | .edit dirty l    =>
    let current := s.history.current.raster
    let (raster, kept) := strokes size (s.rasters current) l
    { s with rasters := Function.update s.rasters current raster }.commit current (some ⟨dirty, kept.values⟩)
  | .replace raster =>
    { s with rasters := Function.update s.rasters s.fresh raster, fresh := s.fresh + 1 }.commit s.fresh none
  | .objects        => s.commit s.history.current.raster none
  | .undo           => s.undo
  | .redo           => s.redo

end Image
end Dormouse

import Dormouse.CopyBuffer
/-!
# SelectionReflow — a selection carried through a reflow

`selection-reflow.ts`.  Each edge of a selection is kept as an offset in text cells into its logical line, from a marker on the line's
first row, with the text the selection had.  What a row reads as is the terminal's (`translate`, its `translateToString` with nothing
trimmed); a marker is the row it is on.
-/
namespace Dormouse
namespace SelectionReflow

open BufferCells (BufferCell BufferLine wrapRun textWidth)
open CopyText (GridPos Span)

/-! ## Selections -/

inductive SelectionShape where
  | linewise
  | block
  deriving DecidableEq

structure Selection where
  startRow : Nat
  startCol : Nat
  endRow   : Nat
  endCol   : Nat
  shape    : SelectionShape
  dragging : Bool
  program  : Bool
  deriving DecidableEq

/-- `normalizeSelection`: its first row and column, and its last. -/
def normalizeSelection (sel : Selection) : GridPos × GridPos :=
  match sel.shape with
  | .block =>
    (⟨min sel.startRow sel.endRow, min sel.startCol sel.endCol⟩, ⟨max sel.startRow sel.endRow, max sel.startCol sel.endCol⟩)
  | .linewise =>
    if sel.startRow < sel.endRow ∨ sel.startRow = sel.endRow ∧ sel.startCol ≤ sel.endCol then
      (⟨sel.startRow, sel.startCol⟩, ⟨sel.endRow, sel.endCol⟩)
    else (⟨sel.endRow, sel.endCol⟩, ⟨sel.startRow, sel.startCol⟩)

def spanOfSelection (sel : Selection) : Span :=
  ⟨(normalizeSelection sel).1, (normalizeSelection sel).2, sel.shape == .block⟩

/-! ## Text -/

def trimEnd (s : JsString) : JsString := s.rdropWhile Term.isSpace

inductive BufferType where
  | normal
  | alternate
  deriving DecidableEq

structure Terminal where
  type   : BufferType
  buffer : List BufferLine

section

variable (translate : BufferLine → Nat → Nat → JsString)

/-- The lines of text from a column of the first row on, through `toCol` of the row `n` below it; `text` is what the logical line has
so far. -/
def reflowLines (toCol : Nat) : Nat → Nat → JsString → List BufferLine → Option (List JsString)
  | _,     _,   _,    []            => none
  | 0,     col, text, line :: _     => some [trimEnd (text ++ translate line col (toCol + 1))]
  | n + 1, col, text, line :: below =>
    let text := text ++ translate line col (textWidth line below.head?)
    if below.head?.any (·.isWrapped) then reflowLines toCol n 0 text below
    else (reflowLines toCol n 0 [] below).map (trimEnd text :: ·)

/-- From one position through another, soft wraps joined, wrap padding skipped, and each logical line's trailing blanks trimmed. -/
def reflowText (buffer : List BufferLine) (start stop : GridPos) : Option JsString :=
  if stop.row < start.row then some []
  else
    (reflowLines translate stop.col (stop.row - start.row) start.col [] (buffer.drop start.row)).map
      (fun lines => [0x0a].intercalate lines)

/-! ## Edges -/

inductive Edge where
  | start
  | stop
  deriving DecidableEq

/-- A position's logical line's first row, and its offset from there; on wrap padding, where the text resumes or the cell before. -/
def lineOffset (buffer : List BufferLine) (pos : GridPos) (edge : Edge) : Option (Nat × Nat) :=
  let (top, lines) := wrapRun BufferLine.isWrapped buffer pos.row none
  let k := pos.row - top
  match lines[k]? with
  | none      => none
  | some line =>
    let width := textWidth line lines[k + 1]?
    let offset := if pos.col < width then pos.col else if edge = .start then width else width - 1
    some (top, offset + ((List.range k).map (fun i => (lines[i]?.map (textWidth · lines[i + 1]?)).getD 0)).sum)

structure EdgeAnchor where
  marker : Int
  offset : Nat

structure Anchor where
  start : EdgeAnchor
  stop  : EdgeAnchor
  text  : JsString

/-- A walk down a logical line's rows, from row `row`. -/
def locateIn (row : Nat) : List BufferLine → Nat → Option GridPos
  | [],                   _    => none
  | [line],               rest => some ⟨row, min rest (line.cells.length - 1)⟩
  | line :: next :: more, rest =>
    if rest < textWidth line (some next) then some ⟨row, min rest (line.cells.length - 1)⟩
    else locateIn (row + 1) (next :: more) (rest - textWidth line (some next))

/-- Past its line's last row an offset stays on that row, at its last cell. -/
def locateEdge (buffer : List BufferLine) (edge : EdgeAnchor) : Option GridPos :=
  if edge.marker < 0 then none
  else
    let line := edge.marker.toNat
    let (top, lines) := wrapRun BufferLine.isWrapped buffer line none
    locateIn line (lines.drop (line - top)) edge.offset

def anchorSelection (terminal : Terminal) (sel : Selection) : Option Anchor :=
  if sel.dragging ∨ sel.shape = .block ∨ sel.program ∨ terminal.type ≠ .normal then none
  else
    let span := spanOfSelection sel
    match reflowText translate terminal.buffer span.start span.stop, lineOffset terminal.buffer span.start .start,
      lineOffset terminal.buffer span.stop .stop with
    | some text, some (first, offset), some (first', offset') => some ⟨⟨first, offset⟩, ⟨first', offset'⟩, text⟩
    | _, _, _ => none

/-- Where reflow put the anchored cells; none when a line was trimmed away or the cells no longer read as they did. -/
def followReflow (terminal : Terminal) (anchor : Anchor) : Option Span :=
  if terminal.type ≠ .normal then none
  else
    match locateEdge terminal.buffer anchor.start, locateEdge terminal.buffer anchor.stop with
    | some start, some stop =>
      if reflowText translate terminal.buffer start stop = some anchor.text then some ⟨start, stop, false⟩ else none
    | _, _ => none

end

end SelectionReflow
end Dormouse

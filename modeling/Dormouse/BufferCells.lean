import Dormouse.Js
/-!
# BufferCells — the rows and cells of a terminal's buffer

`buffer-cells.ts`: the walk over soft wraps that every reader of a buffer shares, and its one reading of a row's cells.
-/
namespace Dormouse
namespace BufferCells

/-! ## Soft wraps -/

section

variable {L : Type} (isWrapped : L → Bool)

/-- The rows that soft wraps join above `first`, nearest first, of those above it. -/
def climb (first : L) : List L → List L
  | []          => []
  | above :: up => if isWrapped first then above :: climb above up else []

def within (reach : Option Nat) (lines : List L) : List L :=
  match reach with
  | none   => lines
  | some n => lines.take n

/-- The rows of the logical line through row `r`, after the first one's index. -/
def wrapRun (rows : List L) (r : Nat) (reach : Option Nat) : Nat × List L :=
  match rows[r]? with
  | none      => (r, [])
  | some line =>
    let above := within reach (climb isWrapped line (rows.take r).reverse)
    (r - above.length, above.reverse ++ line :: within reach ((rows.drop (r + 1)).takeWhile isWrapped))

end

/-! ## Cells -/

/-- A cell of a row: its characters, and how many columns it takes. -/
structure BufferCell where
  chars : JsString
  width : Nat
  deriving DecidableEq

structure BufferLine where
  cells     : List BufferCell
  isWrapped : Bool
  deriving DecidableEq

/-- The cells of `line` that its logical line's text holds: all but the blank left when a wide character wraps to `next`. -/
def textWidth (line : BufferLine) (next : Option BufferLine) : Nat :=
  match next with
  | none      => line.cells.length
  | some next =>
    if next.isWrapped && line.cells.getLast?.any (fun last => last.chars.isEmpty && last.width == 1) &&
        next.cells.head?.any (fun first => first.width == 2) then line.cells.length - 1
    else line.cells.length

/-- A cell's characters: a space where it is empty, nothing for a wide character's second half. -/
def cellText (cell : BufferCell) : JsString :=
  if cell.width = 0 then [] else if cell.chars = [] then [0x20] else cell.chars

def textCells (line : BufferLine) (next : Option BufferLine) : List JsString :=
  (line.cells.take (textWidth line next)).map cellText

end BufferCells
end Dormouse

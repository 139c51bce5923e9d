import Dormouse.BufferCells
import Dormouse.TermText
import Mathlib.Data.List.DropRight
/-!
# CopyBuffer — the rows a copy reads, and positions in them

The first part of `copy-text.ts`.  A `CopyBuffer` has the cells of its rows and which of them a soft wrap continues; the rows of a
logical line are those `wrapRun` walks, so that every row of one names the same first and last.  `terminalCopyBuffer` is the buffer
of a terminal.
-/
namespace Dormouse
namespace CopyText

open BufferCells (BufferLine wrapRun textCells)

/-! ## Rows -/

structure BufferRow where
  cells   : List JsString
  wrapped : Bool
  deriving DecidableEq

structure CopyRow where
  cells   : List JsString
  wrapped : Bool
  top     : Nat
  bottom  : Nat
  deriving DecidableEq

structure CopyBuffer where
  cols : Nat
  rows : List BufferRow

namespace CopyBuffer

def length (buf : CopyBuffer) : Nat := buf.rows.length

/-- Row `index`, and the rows of its logical line; an empty one outside the buffer. -/
def row (buf : CopyBuffer) (index : Nat) : CopyRow :=
  match buf.rows[index]? with
  | none   => ⟨[], false, index, index⟩
  | some r =>
    let run := wrapRun BufferRow.wrapped buf.rows index none
    ⟨r.cells, r.wrapped, run.1, run.1 + run.2.length - 1⟩

end CopyBuffer

/-- Blank, as `\s` has it. -/
def isSpaces (s : JsString) : Bool := s.all Term.isSpace

def readRows : List BufferLine → List BufferRow × Bool
  | []            => ([], false)
  | line :: below =>
    let (rows, textFollows) := readRows below
    let cells := textCells line below.head?
    (⟨if textFollows then cells else cells.rdropWhile isSpaces, line.isWrapped⟩ :: rows,
      textFollows || cells.any (fun c => !isSpaces c))

def terminalRows : List BufferLine → List BufferRow
  | []            => []
  | line :: below =>
    (readRows (line :: below.takeWhile (·.isWrapped))).1 ++ terminalRows (below.dropWhile (·.isWrapped))
  termination_by lines => lines.length
  decreasing_by
    have := (List.dropWhile_sublist (fun l : BufferLine => l.isWrapped) (l := below)).length_le
    simp only [List.length_cons]
    omega

def terminalCopyBuffer (cols : Nat) (lines : List BufferLine) : CopyBuffer := ⟨cols, terminalRows lines⟩

/-! ## Positions -/

structure GridPos where
  row : Nat
  col : Nat
  deriving DecidableEq

/-- `start` before `end` in reading order, unless it is a block; both are in it. -/
structure Span where
  start : GridPos
  stop  : GridPos
  block : Bool
  deriving DecidableEq

/-- What `comparePos` orders by. -/
def before (p q : GridPos) : Prop := p.row < q.row ∨ p.row = q.row ∧ p.col < q.col

instance (p q : GridPos) : Decidable (before p q) := inferInstanceAs (Decidable (_ ∨ _))

def contains (span : Span) (p : GridPos) : Bool :=
  if span.block then
    span.start.row ≤ p.row && p.row ≤ span.stop.row && span.start.col ≤ p.col && p.col ≤ span.stop.col
  else !decide (before p span.start) && !decide (before span.stop p)

def isBlankCell (ch : Option JsString) : Bool := ch = none || ch = some [0x20]

def cellAt (buf : CopyBuffer) (p : GridPos) : Option JsString := (buf.row p.row).cells[p.col]?

end CopyText
end Dormouse

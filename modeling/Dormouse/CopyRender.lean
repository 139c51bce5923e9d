import Dormouse.CopyLine
/-!
# CopyRender — a scope's text in each format

`copy-text.ts` from `extract` to `render`.  A line that a bars-only line before it is written with may have its quote prefix cut by
a soft wrap; `quoteBlank` then reads past its cells and throws, and so does `render` (`none`).
-/
namespace Dormouse
namespace CopyText

open Term (isSpace)

inductive CopyFormat where
  | auto
  | exact
  | spaces
  | joined
  deriving DecidableEq

structure Cell where
  ch    : JsString
  /-- Outside the dragged selection. -/
  added : Bool
  deriving DecidableEq

structure Line where
  /-- Trailing blanks trimmed. -/
  cells     : List Cell
  /-- The blanks trimmed, which a deleted soft wrap puts back. -/
  trail     : List Cell
  row       : Nat
  startCol  : Nat
  /-- A row a soft wrap continues; never in a block slab. -/
  continues : Bool
  /-- Cells through its quote prefix, which a deleted break drops. -/
  quote     : Nat
  deriving DecidableEq

/-! ## Rows -/

/-- `cells` as a line's text and the trailing blanks after it. -/
def splitTrail (cells : List Cell) : List Cell × List Cell :=
  let text := cells.rdropWhile (fun c => isSpaces c.ch)
  (text, cells.drop text.length)

/-- The cells of row `r` that a scope covers, and their columns. -/
def scopeCells (buf : CopyBuffer) (scope : Span) (r : Nat) : List (JsString × Nat) :=
  let cells := (buf.row r).cells
  let a := if scope.block || r = scope.start.row then scope.start.col else 0
  let b := if scope.block || r = scope.stop.row then scope.stop.col + 1 else cells.length
  (cells.zipIdx.take b).drop a

def rowLine (buf : CopyBuffer) (scope original : Span) (r : Nat) : Line :=
  let out := ((scopeCells buf scope r).filter (fun c => c.1 ≠ [])).map (fun c => (⟨c.1, !contains original ⟨r, c.2⟩⟩ : Cell))
  { cells     := (splitTrail out).1
    trail     := (splitTrail out).2
    row       := r
    startCol  := if scope.block || r = scope.start.row then scope.start.col else 0
    continues := !scope.block && (buf.row r).wrapped
    quote     := 0 }

def pushLine (lines : List (List Line)) (line : Line) : List (List Line) :=
  if line.continues && !lines.isEmpty then lines.dropLast ++ [lines.getLast?.getD [] ++ [line]] else lines ++ [[line]]

def scopeRows (scope : Span) : List Nat := List.range' scope.start.row (scope.stop.row + 1 - scope.start.row)

/-- The rows of `scope`, grouped by logical line. -/
def extract (buf : CopyBuffer) (scope original : Span) : List (List Line) :=
  ((scopeRows scope).map (rowLine buf scope original)).foldl pushLine []

/-! ## Stripping decoration -/

def leading (cells : List Cell) : Nat := (cells.takeWhile (fun c => c.ch = [0x20])).length

/-- Cells spanned by the first `chars` units. -/
def cellsForChars : List Cell → Nat → Nat
  | [],         _     => 0
  | c :: cells, chars => if 0 < chars then cellsForChars cells (chars - c.ch.length) + 1 else 0

def cellsText (cells : List Cell) : JsString := cells.flatMap Cell.ch

def ownCells : List Line → List (List Cell)
  | []             => []
  | [l]            => [l.cells]
  | l :: m :: rows => (l.cells ++ l.trail) :: ownCells (m :: rows)

/-- A cell that holds a quote bar alone, as `>`. -/
def asQuoteMark (c : Cell) : Cell := if c.ch.length = 1 && c.ch.all isQuoteBar then { c with ch := [0x3e] } else c

/-- The `i`th cell without a marker from `from_` to `to_`, and as a quote mark from `qFrom` to `qTo`. -/
def undecorated (from_ to_ qFrom qTo : Nat) (c : Cell) (i : Nat) : Cell :=
  if from_ ≤ i && i < to_ then { c with ch := [0x20] } else if qFrom ≤ i && i < qTo then asQuoteMark c else c

/-- Where decoration falls, in cells: a marker, a quote prefix, and the end of what is kept. -/
structure CellSpans where
  from_  : Nat
  to_    : Nat
  qFrom  : Nat
  qTo    : Nat
  keepTo : Nat

def cellSpans (joined : List Cell) : CellSpans :=
  let d := decoration (cellsText joined)
  { from_  := cellsForChars joined d.blankFrom
    to_    := cellsForChars joined d.blankTo
    qFrom  := d.quote.elim 0 (fun q => cellsForChars joined q.1)
    qTo    := d.quote.elim 0 (fun q => cellsForChars joined q.2)
    keepTo := cellsForChars joined d.keepTo }

/-- What is kept of a joined line: a cut ends it at its last text. -/
def keptCells (joined : List Cell) (s : CellSpans) : List Cell :=
  let kept := (joined.take s.keepTo).zipIdx.map (fun c => undecorated s.from_ s.to_ s.qFrom s.qTo c.1 c.2)
  if s.keepTo < joined.length then (splitTrail kept).1 else kept

/-- The rows of what is kept, `first` cells before them. -/
def strippedRows (s : CellSpans) (cut : Bool) (kept : List Cell) : Bool → Nat → List (Line × List Cell) → List Line
  | _,       _,     []               => []
  | isFirst, first, (l, own) :: rows =>
    -- a cut drops the rows past it
    if cut && !isFirst && kept.length ≤ first then []
    else
      let end_ := first + own.length
      let touched := kept.length < end_ || (first < s.to_ && s.from_ < end_) || (first < s.qTo && s.qFrom < end_)
      let slice := splitTrail ((kept.take end_).drop first)
      (if touched then { l with cells := slice.1, trail := slice.2, quote := if isFirst then min s.qTo end_ else 0 } else l) ::
        strippedRows s cut kept false end_ rows

/-- A logical line's rows with its decoration blanked and its quote bars as `>`; none of a frame. -/
def stripDecoration (rows : List Line) : Option (List Line) :=
  let own := ownCells rows
  let joined := own.flatten
  if isFrameOnly (cellsText joined) then none
  else
    let s := cellSpans joined
    some (strippedRows s (s.keepTo < joined.length) (keptCells joined s) true 0 (rows.zip own))

structure ScopeLines where
  block    : Bool
  raw      : List (List Line)
  stripped : List (List Line)

def readScope (buf : CopyBuffer) (scope original : Span) : ScopeLines :=
  let raw := extract buf scope original
  ⟨scope.block, raw, raw.filterMap stripDecoration⟩

/-! ## Layouts -/

/-- A line, and whether its logical line has no text in the scope past its quote prefix. -/
abbrev Shown := Line × Bool

def flagged (logical : List (List Line)) : List Shown :=
  logical.flatMap (fun rows => rows.map (fun l => (l, rows.all (fun l => decide (l.cells.length ≤ l.quote)))))

def dropDoubled : Bool → List Shown → List Shown
  | _,      []      => []
  | before, l :: ls => if l.2 && before then dropDoubled l.2 ls else l :: dropDoubled l.2 ls

def shown (format : CopyFormat) (logical : List (List Line)) : List Shown :=
  let lines := flagged logical
  let text := (lines.dropWhile (·.2)).rdropWhile (·.2)
  match format with
  | .exact  => lines
  | .auto   => dropDoubled false text
  | .spaces => text.filter (fun l => !l.2)
  | .joined => text.filter (fun l => !l.2)

def neighbours {α : Type} : Option α → List α → List (Option α × α × Option α)
  | _,      []     => []
  | before, a :: l => (before, a, l.head?) :: neighbours (some a) l

def fixedBreak : CopyFormat → Option BreakKind
  | .auto   => none
  | .exact  => some .keep
  | .spaces => some .space
  | .joined => some .none

def decision (buf : CopyBuffer) (format : CopyFormat) (line : Shown) (next : Option Shown) : CopyAsks BreakKind :=
  match next, fixedBreak format with
  | none,      _         => pure .keep
  | some _,    some kind => pure kind
  | some next, none      =>
    -- the row its line ends at, past any rows a cut decoration dropped
    let end_ := if next.1.continues then line.1.row else (buf.row line.1.row).bottom
    if line.2 || next.2 || next.1.row ≠ end_ + 1 then pure .keep else autoBreak buf end_

/-- The cells up to the `depth`th quote mark of a prefix of `quote` cells; none where the row has too few. -/
def quoteEnd : Nat → Nat → List Cell → Option Nat
  | 0,         _,         _          => some 0
  | _ + 1,     0,         _          => some 0
  | _ + 1,     _ + 1,     []         => none
  | depth + 1, quote + 1, c :: cells => (quoteEnd (if c.ch ≠ [0x20] then depth else depth + 1) quote cells).map (· + 1)

/-- A line of bars alone between quoted lines, with the shallower one's prefix. -/
def quoteBlank (buf : CopyBuffer) (before blank after : Line) : CopyAsks (Option Line) :=
  if isBarsOnly (buf.row blank.row).cells.flatten then do
    let above ← line before.row
    let below ← line after.row
    pure ((quoteEnd (min above.depth below.depth) after.quote after.cells).map fun end_ =>
      if 0 < end_ then { blank with cells := after.cells.take end_ } else blank)
  else pure (some blank)

def laidOut (buf : CopyBuffer) : Option Shown × Shown × Option Shown → CopyAsks (Option Line)
  | (some before, (l, true), some after) => quoteBlank buf before.1 l after.1
  | (_,           (l, _),    _)          => pure (some l)

structure Layout where
  lines : List Line
  /-- Auto's shared indent, in absolute columns. -/
  base  : Nat
  auto  : List BreakKind

def computeLayout (buf : CopyBuffer) (scopeLines : ScopeLines) (format : CopyFormat) : CopyAsks (Option Layout) := do
  let lines := shown format (if format = .exact then scopeLines.raw else scopeLines.stripped)
  let indents ← Asks.each (fun l => do
    let start ← contentStart buf l.1.row
    pure (min (l.1.startCol + leading l.1.cells) start)) (lines.filter (fun l => !l.2 && !l.1.continues))
  let auto ← Asks.each (fun l => decision buf format l.2.1 l.2.2) (neighbours none lines)
  let placed ← Asks.eachSome (laidOut buf) (neighbours none lines)
  pure (placed.map fun placed => ⟨placed, indents.min?.getD 0, auto⟩)

/-! ## Rendering -/

inductive Piece where
  | text (text : JsString) (added lead : Bool)
  /-- `auto` is the format's own decision, `kind` it after any override. -/
  | lineBreak (index : Nat) (kind auto : BreakKind)

structure Rendering where
  pieces : List Piece
  text   : JsString

def breakText : BreakKind → JsString
  | .keep  => [0x0a]
  | .space => [0x20]
  | .none  => []

/-- A line's cells: less what a joined line sheds, or Auto's shared indent, and the blanks a deleted soft wrap puts back. -/
def lineCells (format : CopyFormat) (base : Nat) (joined rejoined rejoins : Bool) (line : Line) : List Cell :=
  let lead := if joined && 0 < line.quote then line.quote + leading (line.cells.drop line.quote) else leading line.cells
  let strip :=
    if rejoined then 0
    else if format = .exact then if joined then lead else 0
    else if joined || format ≠ .auto then lead
    else if base < line.startCol || line.continues then lead
    else min lead (base - line.startCol)
  if rejoins then line.cells.drop strip ++ line.trail else line.cells.drop strip

def addCell (runs : List Piece) (added lead : Bool) (ch : JsString) : List Piece :=
  match runs.getLast? with
  | some (.text text a l) => if a = added ∧ l = lead then runs.dropLast ++ [.text (text ++ ch) a l]
      else runs ++ [.text ch added lead]
  | _                     => runs ++ [.text ch added lead]

def textRuns (leadRun : Nat) (cells : List Cell) : List Piece :=
  cells.zipIdx.foldl (fun runs c => addCell runs c.1.added (decide (c.2 < leadRun)) c.1.ch) []

/-- The lines from index `i` on; `rejoined` after a deleted soft wrap, which joins exactly. -/
def renderFrom (format : CopyFormat) (base : Nat) (overrides : Nat → Option BreakKind) :
    Nat → Bool → Bool → List (Line × BreakKind) → Rendering
  | _, _,      _,        []                   => ⟨[], []⟩
  | i, joined, rejoined, (line, auto) :: rest =>
    let kind := (overrides i).getD auto
    let rejoins := kind = .none && rest.head?.any (·.1.continues)
    let cells := lineCells format base joined rejoined rejoins line
    let runs := textRuns (if rejoined then 0 else leading cells) cells
    let below := renderFrom format base overrides (i + 1) (kind ≠ .keep) rejoins rest
    if rest.isEmpty then ⟨runs, cellsText cells⟩
    else ⟨runs ++ .lineBreak i kind auto :: below.pieces, cellsText cells ++ breakText kind ++ below.text⟩

def formatOf (block : Bool) (chosen : CopyFormat) : CopyFormat := if block && chosen = .auto then .exact else chosen

def renderLines (buf : CopyBuffer) (scopeLines : ScopeLines) (chosen : CopyFormat) (overrides : Nat → Option BreakKind) :
    CopyAsks (Option Rendering) := do
  let format := formatOf scopeLines.block chosen
  let layout ← computeLayout buf scopeLines format
  pure (layout.map fun l => renderFrom format l.base overrides 0 false false (l.lines.zip l.auto))

def render (buf : CopyBuffer) (scope original : Span) (format : CopyFormat) (overrides : Nat → Option BreakKind) :
    CopyAsks (Option Rendering) := renderLines buf (readScope buf scope original) format overrides

end CopyText
end Dormouse

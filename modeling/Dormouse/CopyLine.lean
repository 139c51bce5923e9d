import Dormouse.Asks
import Dormouse.CopyDecoration
import Dormouse.CopyNudge
/-!
# CopyLine — a logical line's facts, and what is judged of a break

`copy-text.ts` from `line` to `autoBreak`.  What is read of a buffer beyond its rows is a question (`Asks`): a line's facts, and
the wrap width at a break.  `lineFacts` and `nearWidth` are the answers with nothing kept.
-/
namespace Dormouse
namespace CopyText

open Term (isSpace isDigit trim)

/-! ## Lines -/

structure LineFacts where
  top      : Nat
  bottom   : Nat
  /-- The text, with decoration and quote prefix blanked, trimmed at its end. -/
  plain    : JsString
  /-- How many quotes it is nested in. -/
  depth    : Nat
  /-- Where its quote prefix starts, or else its text. -/
  start    : Nat
  /-- Blank, a frame, or a box's side. -/
  boundary : Bool
  deriving DecidableEq

/-- `s` with spaces from `from_` to `to_`. -/
def blanked (s : JsString) (from_ to_ : Nat) : JsString := s.take from_ ++ List.replicate (to_ - from_) 0x20 ++ s.drop to_

def trimEnd (s : JsString) : JsString := s.rdropWhile isSpace

/-- `/^[│┃║]/`. -/
def startsBoxSide (text : JsString) : Bool := text.head?.any (fun c => c = 0x2502 || c = 0x2503 || c = 0x2551)

/-- The text of rows `top` to `bottom`, joined as a deleted soft wrap joins them. -/
def rowsText (buf : CopyBuffer) (top bottom : Nat) : JsString :=
  (List.range' top (bottom + 1 - top)).flatMap (fun i => (buf.row i).cells.flatten)

/-- The facts of the logical line that row `r` is part of. -/
def lineFacts (buf : CopyBuffer) (r : Nat) : LineFacts :=
  let row := buf.row r
  let text := rowsText buf row.top row.bottom
  let d := decoration text
  let marked := blanked (text.take d.keepTo) d.blankFrom d.blankTo
  let plain := trimEnd (d.quote.elim marked (fun q => blanked marked q.1 q.2))
  { top      := row.top
    bottom   := row.bottom
    plain    := plain
    depth    := d.quote.elim 0 (fun q => (((text.take q.2).drop q.1).filter (fun c => !isBlankUnit c)).length)
    start    := d.quote.elim (indentOf plain) (·.1)
    boundary := trim text = [] || isBarsOnly text || isFrameOnly text || startsBoxSide text }

def hangIndent (text : JsString) : Nat :=
  let indent := indentOf text
  indent + (listMarker (text.drop indent)).getD 0

/-! ## The width at a break -/

def WIDTH_REACH : Nat := 64

abbrev LineAsks := Asks Nat (fun _ => LineFacts)

def beside (buf : CopyBuffer) (dir : Direction) (at_ : LineFacts) : Option Nat :=
  match dir with
  | .backward => if 0 < at_.top && at_.top - 1 < buf.length then some (at_.top - 1) else none
  | .forward  => if at_.bottom + 1 < buf.length then some (at_.bottom + 1) else none

/-- The lines from one on in a direction, up to a boundary, the buffer's edge, or `reach` of them. -/
def paragraphLines (buf : CopyBuffer) (dir : Direction) : Nat → LineFacts → LineAsks (List LineFacts)
  | 0,         _   => pure []
  | reach + 1, at_ =>
    match beside buf dir at_ with
    | none   => pure []
    | some r => do
      let next ← Asks.question r
      if next.boundary then pure []
      else do
        let rest ← paragraphLines buf dir reach next
        pure (next :: rest)

def widest (lines : List LineFacts) : Nat := (lines.map (fun l => l.plain.length)).foldl max 0

def nearWidth (buf : CopyBuffer) (r : Nat) : Nat :=
  let above := lineFacts buf r
  let below := lineFacts buf (r + 1)
  let up := (paragraphLines buf .backward WIDTH_REACH above).answer (lineFacts buf)
  let down := (paragraphLines buf .forward WIDTH_REACH below).answer (lineFacts buf)
  widest (above :: below :: up ++ down)

/-- 40 columns, or 60% of a narrower terminal, as the floats have it. -/
def minWrapWidth (buf : CopyBuffer) : Nat := min 40 (3 * buf.cols / 5)

/-! ## Questions -/

/-- What the functions above a line's facts and the wrap width ask. -/
inductive Fact where
  | line (r : Nat)
  | wrapWidth (r : Nat)

def FactOf : Fact → Type
  | .line _      => LineFacts
  | .wrapWidth _ => Nat

abbrev CopyAsks := Asks Fact FactOf

def line (r : Nat) : CopyAsks LineFacts := Asks.question (Fact.line r)

def wrapWidth (r : Nat) : CopyAsks Nat := Asks.question (Fact.wrapWidth r)

def facts (buf : CopyBuffer) : (q : Fact) → FactOf q
  | .line r      => lineFacts buf r
  | .wrapWidth r => nearWidth buf r

@[simp] theorem answer_line (buf : CopyBuffer) (r : Nat) : (line r).answer (facts buf) = lineFacts buf r :=
  Asks.answer_question (facts buf) (Fact.line r)

@[simp] theorem answer_wrapWidth (buf : CopyBuffer) (r : Nat) : (wrapWidth r).answer (facts buf) = nearWidth buf r :=
  Asks.answer_question (facts buf) (Fact.wrapWidth r)

/-! ## Breaks -/

inductive BreakKind where
  | keep
  | space
  | none
  deriving DecidableEq

/-- Whether the line above `l`, in its paragraph and quote, fills the width. -/
def fillsAbove (l : LineFacts) : CopyAsks Bool :=
  if l.top = 0 then pure false
  else do
    let above ← line (l.top - 1)
    if above.boundary || above.depth ≠ l.depth then pure false
    else do
      let width ← wrapWidth (l.top - 1)
      pure (decide (width ≤ above.plain.length))

/-- `/[;{}]$/` before the break, or `/^[)}\]]/` after it. -/
def isCodeBreak (cur next : JsString) : Bool :=
  cur.getLast?.any (fun c => c = 0x3b || c = 0x7b || c = 0x7d) || next.head?.any (fun c => c = 0x29 || c = 0x7d || c = 0x5d)

/-- `/[/\\#?=&]/`, or `/^[A-Za-z0-9+_\-.]{16,}$/`. -/
def isTokenish (word : JsString) : Bool :=
  word.any (fun c => (units "/\\#?=&").contains c) ||
    (decide (16 ≤ word.length) && word.all (fun c => (0x41 ≤ c && c ≤ 0x5a) || (0x61 ≤ c && c ≤ 0x7a) || isDigit c ||
      (units "+_-.").contains c))

/-- Blank, in another quote, a new list item, after code punctuation, or not hung under the line before. -/
def keptAtOnce (above below : LineFacts) : Bool :=
  let next := below.plain.dropWhile isSpace
  let hang := hangIndent above.plain
  let indent := indentOf below.plain
  trim above.plain = [] || trim below.plain = [] || above.depth ≠ below.depth || (listMarker next).isSome ||
    isCodeBreak above.plain next || hang + 1 < indent || indent + 1 < hang

/-- A space that a wrapper carried onto the row after a full one. -/
def isCarried (above below : LineFacts) (width : Nat) : Bool :=
  hangIndent above.plain < indentOf below.plain && width ≤ above.plain.length

def widthBreak (buf : CopyBuffer) (above below : LineFacts) (width : Nat) : BreakKind :=
  let cur := above.plain
  let firstWord := (below.plain.dropWhile isSpace).takeWhile (fun c => !isBlankUnit c)
  let lastWord := cur.rtakeWhile (fun c => !isBlankUnit c)
  -- a break the next word would have fit before was typed, not wrapped
  if width < minWrapWidth buf || cur.length + 1 + firstWord.length ≤ width then .keep
  else if width ≤ cur.length && isTokenish lastWord && !isCarried above below width then .none
  else .space

def autoBreak (buf : CopyBuffer) (r : Nat) : CopyAsks BreakKind :=
  if buf.length ≤ r + 1 then pure .keep
  else if (buf.row (r + 1)).wrapped then pure .none
  else do
    let above ← line r
    let below ← line (r + 1)
    if keptAtOnce above below then pure .keep
    else do
      let width ← wrapWidth r
      let hang := hangIndent above.plain
      let indent := indentOf below.plain
      let hangs ← if indent = hang || isCarried above below width then pure true
        else if indent < hang then fillsAbove above
        else pure false
      pure (if hangs then widthBreak buf above below width else .keep)

/-- Where row `r`'s text starts: past its line's indent, or at the first cell of a row a soft wrap continues. -/
def contentStart (buf : CopyBuffer) (r : Nat) : CopyAsks Nat :=
  if (buf.row r).wrapped then pure 0
  else do
    let l ← line r
    pure (indentOf l.plain)

end CopyText
end Dormouse

import Dormouse.CopyBuffer
import Dormouse.SmartToken
/-!
# SmartTokenBuffer — the token under the pointer

The part of `smart-token.ts` that reads a buffer.  Of the rows that soft wraps join to the pointer's it reads those that its token
can reach, and it turns offsets of their text into cells.  `tokenOfLine` is the token of the logical line's whole text;
`detectTokenInBuffer_eq` is that the two are one.
-/
namespace Dormouse
namespace SmartToken

open BufferCells (BufferCell BufferLine wrapRun textCells textWidth cellText climb within)
open CopyText (GridPos)

/-! ## Rows as text -/

structure RowText where
  row   : Nat
  cells : List JsString
  deriving DecidableEq

namespace RowText

def text (r : RowText) : JsString := r.cells.flatten

def units (r : RowText) : List Nat := r.cells.zipIdx.flatMap (fun c => List.replicate c.1.length c.2)

def holdsWhitespace (r : RowText) : Bool := r.text.any isWhitespace

end RowText

/-- The rows of a run, the first of them `top`. -/
def rowTexts (top : Nat) : List BufferLine → List RowText
  | []            => []
  | line :: lines => ⟨top, textCells line lines.head?⟩ :: rowTexts (top + 1) lines

def textOf (rows : List RowText) : JsString := rows.flatMap RowText.text

/-! ## Reading the pointer's token -/

/-- `start` left to the first half of a wide character. -/
def wideStart (cells : List JsString) : Nat → Nat
  | 0         => 0
  | start + 1 => if cells[start + 1]? = some [] then wideStart cells start else start + 1

/-- `stop` right to the second half of a wide character. -/
def wideEnd (cells : List JsString) (stop : Nat) : Nat := stop + ((cells.drop (stop + 1)).takeWhile (fun c => c = [])).length

def through : List RowText → List RowText
  | []      => []
  | r :: rs => if r.holdsWhitespace then [r] else r :: through rs

/-- The row and cell that unit `unit` of the joined text sits in. -/
def locate : List RowText → Nat → Option (RowText × Nat)
  | [],        _    => none
  | r :: rows, unit => if r.text.length ≤ unit then locate rows (unit - r.text.length) else r.units[unit]?.map (fun c => (r, c))

structure BufferToken where
  kind  : Kind
  text  : JsString
  start : GridPos
  stop  : GridPos
  deriving DecidableEq

def WRAP_REACH : Nat := 16

def cellsOf (read : List RowText) (token : DetectedToken) : Option BufferToken :=
  match locate read token.start, locate read (token.stop - 1) with
  | some first, some last =>
    some ⟨token.kind, token.text, ⟨first.1.row, first.2⟩, ⟨last.1.row, wideEnd last.1.cells last.2⟩⟩
  | _, _                  => none

def readToken (rows : List BufferLine) (row col : Nat) : Option BufferToken :=
  let run := wrapRun BufferLine.isWrapped rows row (some WRAP_REACH)
  let texts := rowTexts run.1 run.2
  match texts.drop (row - run.1) with
  | []            => none
  | here :: below =>
    match here.units.idxOf? (wideStart here.cells col) with
    | none       => none
    | some probe =>
      let up := if (here.text.take probe).any isWhitespace then [] else (through (texts.take (row - run.1)).reverse).reverse
      let down := if (here.text.drop probe).any isWhitespace then [] else through below
      let read := up ++ here :: down
      (detectTokenAt (textOf read) ((textOf up).length + probe)).bind (cellsOf read)

def detectTokenInBuffer (rows : List BufferLine) (row col : Nat) : Option BufferToken :=
  match rows[row]?.bind (fun line => line.cells[col]?) with
  | none      => none
  | some cell =>
    if cell.width ≠ 0 && (cell.chars.isEmpty || cell.chars.head?.any isWhitespace) then none else readToken rows row col

/-! ## The token of a whole line -/

def unitCells (rows : List RowText) : List (RowText × Nat) := rows.flatMap (fun r => r.units.map (fun c => (r, c)))

def tokenOf (rows : List RowText) (unit : Nat) : Option BufferToken :=
  (detectTokenAt (textOf rows) unit).bind fun token =>
    ((unitCells rows)[token.start]?).bind fun first =>
      ((unitCells rows)[token.stop - 1]?).map fun last =>
        ⟨token.kind, token.text, ⟨first.1.row, first.2⟩, ⟨last.1.row, wideEnd last.1.cells last.2⟩⟩

/-- The token at the first unit of the pointer's cell, of all the text that soft wraps join. -/
def tokenOfLine (rows : List BufferLine) (row col : Nat) : Option BufferToken :=
  let run := wrapRun BufferLine.isWrapped rows row none
  let texts := rowTexts run.1 run.2
  ((unitCells texts).findIdx? (fun c => c.1.row = row && c.2 = wideStart c.1.cells col)).bind (tokenOf texts)

/-! ## Units and cells -/

theorem length_flatMap_replicate : ∀ (cells : List JsString) (n : Nat),
    ((cells.zipIdx n).flatMap (fun c => List.replicate c.1.length c.2)).length = cells.flatten.length
  | [], n => rfl
  | cell :: cells, n => by
    rw [List.zipIdx_cons, List.flatMap_cons, List.length_append, List.length_replicate, length_flatMap_replicate cells (n + 1),
      List.flatten_cons, List.length_append]

theorem RowText.length_units (r : RowText) : r.units.length = r.text.length := length_flatMap_replicate r.cells 0

theorem length_unitCells : ∀ (rows : List RowText), (unitCells rows).length = (textOf rows).length
  | [] => rfl
  | r :: rows => by
    have ih := length_unitCells rows
    rw [unitCells, textOf] at ih ⊢
    rw [List.flatMap_cons, List.flatMap_cons, List.length_append, List.length_append, List.length_map, r.length_units, ih]

theorem unitCells_append (A B : List RowText) : unitCells (A ++ B) = unitCells A ++ unitCells B := List.flatMap_append

theorem textOf_append (A B : List RowText) : textOf (A ++ B) = textOf A ++ textOf B := List.flatMap_append

theorem locate_eq : ∀ (rows : List RowText) (unit : Nat), locate rows unit = (unitCells rows)[unit]?
  | [], unit => rfl
  | r :: rows, unit => by
    have hcons : unitCells (r :: rows) = r.units.map (fun c => (r, c)) ++ unitCells rows := List.flatMap_cons
    rw [locate, hcons, List.getElem?_append, List.length_map, r.length_units]
    split
    · next hle =>
      rw [if_neg (by omega), locate_eq rows]
    · next hlt =>
      rw [if_pos (by omega), List.getElem?_map]

theorem cellsOf_eq (read : List RowText) (unit : Nat) : (detectTokenAt (textOf read) unit).bind (cellsOf read) =
    tokenOf read unit := by
  unfold tokenOf
  refine congrArg (Option.bind _) (funext fun token => ?_)
  rw [cellsOf, locate_eq, locate_eq]
  cases (unitCells read)[token.start]? with
  | none => rfl
  | some first => cases (unitCells read)[token.stop - 1]? <;> rfl

/-! ## Rows the token cannot reach -/

/-- **Rows past white space on either side change nothing.** -/
theorem tokenOf_append {X S Y : List RowText} {u : Nat} (hu : u < (textOf S).length)
    (hX : X = [] ∨ ∃ c ∈ (textOf S).take u, isWhitespace c) (hY : Y = [] ∨ ∃ c ∈ (textOf S).drop u, isWhitespace c) :
    tokenOf (X ++ S ++ Y) ((textOf X).length + u) = tokenOf S u := by
  unfold tokenOf
  rw [textOf_append, textOf_append, detectTokenAt_append hu (hX.imp_left (fun h => h ▸ rfl)) (hY.imp_left (fun h => h ▸ rfl))]
  cases htoken : detectTokenAt (textOf S) u with
  | none => rfl
  | some token =>
    obtain ⟨hlt, hle⟩ := detectTokenAt_bounds htoken
    have hcell : ∀ i, i < (textOf S).length → (unitCells (X ++ S ++ Y))[(textOf X).length + i]? = (unitCells S)[i]? := by
      intro i hi
      rw [← length_unitCells] at hi
      rw [unitCells_append, unitCells_append, ← length_unitCells, List.append_assoc,
        List.getElem?_append_right (Nat.le_add_right _ _), Nat.add_sub_cancel_left, List.getElem?_append_left hi]
    rw [Option.map_some, Option.bind_some, Option.bind_some, DetectedToken.shift]
    dsimp only
    rw [Nat.add_sub_assoc (by omega), hcell _ (by omega), hcell _ (by omega)]

theorem through_prefix : ∀ (rows : List RowText), ∃ rest, rows = through rows ++ rest ∧
    (rest = [] ∨ ∃ c ∈ textOf (through rows), isWhitespace c)
  | [] => ⟨[], rfl, Or.inl rfl⟩
  | r :: rows => by
    rw [through]
    split
    · next hspace =>
      obtain ⟨c, hc, hw⟩ := List.any_eq_true.1 hspace
      exact ⟨rows, rfl, Or.inr ⟨c, List.mem_flatMap.2 ⟨r, List.mem_singleton_self r, hc⟩, hw⟩⟩
    · obtain ⟨rest, hrows, hrest⟩ := through_prefix rows
      refine ⟨rest, congrArg (r :: ·) hrows, hrest.imp_right ?_⟩
      rintro ⟨c, hc, hw⟩
      exact ⟨c, List.mem_append_right _ hc, hw⟩

theorem reads_tokenOf (A : List RowText) (here : RowText) (B : List RowText) {probe : Nat} (hprobe : probe < here.text.length) :
    let up := if (here.text.take probe).any isWhitespace then [] else (through A.reverse).reverse
    let down := if (here.text.drop probe).any isWhitespace then [] else through B
    tokenOf (up ++ here :: down) ((textOf up).length + probe) = tokenOf (A ++ here :: B) ((textOf A).length + probe) := by
  intro up down
  obtain ⟨X, hA, hX⟩ : ∃ X, A = X ++ up ∧ (X = [] ∨ ∃ c ∈ textOf up ++ here.text.take probe, isWhitespace c) := by
    dsimp only [up]
    split
    · next hspace =>
      obtain ⟨c, hc, hw⟩ := List.any_eq_true.1 hspace
      exact ⟨A, (List.append_nil A).symm, Or.inr ⟨c, List.mem_append_right _ hc, hw⟩⟩
    · obtain ⟨rest, hrows, hrest⟩ := through_prefix A.reverse
      refine ⟨rest.reverse, ?_, hrest.imp List.reverse_eq_nil_iff.2 ?_⟩
      · rw [← List.reverse_append, ← hrows, List.reverse_reverse]
      · rintro ⟨c, hc, hw⟩
        obtain ⟨r, hr, hcr⟩ := List.mem_flatMap.1 hc
        exact ⟨c, List.mem_append_left _ (List.mem_flatMap.2 ⟨r, List.mem_reverse.2 hr, hcr⟩), hw⟩
  obtain ⟨Y, hB, hY⟩ : ∃ Y, B = down ++ Y ∧ (Y = [] ∨ ∃ c ∈ here.text.drop probe ++ textOf down, isWhitespace c) := by
    dsimp only [down]
    split
    · next hspace =>
      obtain ⟨c, hc, hw⟩ := List.any_eq_true.1 hspace
      exact ⟨B, rfl, Or.inr ⟨c, List.mem_append_left _ hc, hw⟩⟩
    · obtain ⟨rest, hrows, hrest⟩ := through_prefix B
      exact ⟨rest, hrows, hrest.imp_right (fun ⟨c, hc, hw⟩ => ⟨c, List.mem_append_right _ hc, hw⟩)⟩
  have htext : textOf (up ++ here :: down) = textOf up ++ (here.text ++ textOf down) := textOf_append up (here :: down)
  have htake : (textOf (up ++ here :: down)).take ((textOf up).length + probe) = textOf up ++ here.text.take probe := by
    rw [htext, List.take_length_add_append, List.take_append_of_le_length (Nat.le_of_lt hprobe)]
  have hdrop : (textOf (up ++ here :: down)).drop ((textOf up).length + probe) = here.text.drop probe ++ textOf down := by
    rw [htext, List.drop_length_add_append, List.drop_append_of_le_length (Nat.le_of_lt hprobe)]
  have hlt : (textOf up).length + probe < (textOf (up ++ here :: down)).length := by
    rw [htext, List.length_append, List.length_append]
    omega
  have hrows : A ++ here :: B = X ++ (up ++ here :: down) ++ Y := by
    rw [hA, hB, List.append_assoc, List.append_assoc, List.append_assoc, List.cons_append]
  have hlen : (textOf A).length + probe = (textOf X).length + ((textOf up).length + probe) := by
    rw [hA, textOf_append, List.length_append, Nat.add_assoc]
  rw [hrows, hlen, tokenOf_append hlt (by rwa [htake]) (by rwa [hdrop])]

/-! ## The pointer's unit -/

theorem le_row_of_mem : ∀ {lines : List BufferLine} {top : Nat} {r : RowText}, r ∈ rowTexts top lines → top ≤ r.row
  | _ :: _, top, r, h => by
    rcases List.mem_cons.1 h with rfl | h
    · exact Nat.le_refl top
    · exact Nat.le_of_succ_le (le_row_of_mem h)

theorem rowTexts_split : ∀ {lines : List BufferLine} {k : Nat} {line : BufferLine} (top : Nat), lines[k]? = some line →
    ∃ A B, rowTexts top lines = A ++ ⟨top + k, textCells line lines[k + 1]?⟩ :: B ∧ A.length = k ∧
      (∀ r ∈ A, r.row ≠ top + k) ∧ ∀ r ∈ B, r.row ≠ top + k
  | line :: lines, 0, _, top, h => by
    obtain rfl := Option.some.inj h
    refine ⟨[], rowTexts (top + 1) lines, ?_, rfl, fun r hr => absurd hr List.not_mem_nil, fun r hr => ?_⟩
    · rw [rowTexts, List.head?_eq_getElem?]
      rfl
    · have := le_row_of_mem hr
      omega
  | line :: lines, k + 1, line', top, h => by
    obtain ⟨A, B, hrows, hlen, hA, hB⟩ := rowTexts_split (top + 1) (List.getElem?_cons_succ ▸ h)
    rw [Nat.add_right_comm, Nat.add_assoc] at hrows
    refine ⟨⟨top, textCells line lines.head?⟩ :: A, B, congrArg (_ :: ·) hrows, congrArg (· + 1) hlen, ?_, fun r hr => ?_⟩
    · intro r hr
      rcases List.mem_cons.1 hr with rfl | hr
      · dsimp only
        omega
      · have := hA r hr
        omega
    · have := hB r hr
      omega

theorem findIdx?_eq_none_of_row {rows : List RowText} {row : Nat} (h : ∀ r ∈ rows, r.row ≠ row) (f : RowText → Nat) :
    (unitCells rows).findIdx? (fun c => c.1.row = row && c.2 = f c.1) = none := by
  rw [List.findIdx?_eq_none_iff]
  intro c hc
  obtain ⟨r, hr, hcr⟩ := List.mem_flatMap.1 hc
  obtain ⟨u, _, rfl⟩ := List.mem_map.1 hcr
  rw [decide_eq_false (h r hr), Bool.false_and]

theorem findIdx?_pointer {A B : List RowText} {here : RowText} (hA : ∀ r ∈ A, r.row ≠ here.row) (hB : ∀ r ∈ B, r.row ≠ here.row)
    (col : Nat) : (unitCells (A ++ here :: B)).findIdx? (fun c => c.1.row = here.row && c.2 = wideStart c.1.cells col) =
      (here.units.idxOf? (wideStart here.cells col)).map (fun probe => (textOf A).length + probe) := by
  have hcons : unitCells (here :: B) = here.units.map (fun c => (here, c)) ++ unitCells B := List.flatMap_cons
  rw [unitCells_append, List.findIdx?_append, findIdx?_eq_none_of_row hA (fun r => wideStart r.cells col),
    Option.none_or, hcons,
    List.findIdx?_append, findIdx?_eq_none_of_row hB (fun r => wideStart r.cells col), Option.map_none, Option.or_none,
    List.findIdx?_map, length_unitCells, List.idxOf?]
  refine congr (congrArg Option.map (funext fun probe => Nat.add_comm _ _)) (congrArg (fun p => List.findIdx? p here.units) ?_)
  funext c
  simp only [Function.comp_apply, decide_true, Bool.true_and]
  rfl

/-! ## Units of a cell -/

theorem idxOf?_units_from : ∀ (cells : List JsString) (n : Nat) {c p : Nat},
    ((cells.zipIdx n).flatMap (fun c => List.replicate c.1.length c.2)).idxOf? c = some p →
      p < cells.flatten.length ∧ ∃ k, c = n + k ∧ ∃ u us, cells[k]? = some (u :: us) ∧ cells.flatten[p]? = some u
  | [], n, c, p, h => by cases h
  | cell :: cells, n, c, p, h => by
    rw [List.zipIdx_cons, List.flatMap_cons, List.idxOf?, List.findIdx?_append] at h
    cases cell with
    | nil =>
      obtain ⟨hlt, k, rfl, u, us, hcell, hat⟩ := idxOf?_units_from cells (n + 1) (c := c) (p := p)
        (by simpa [List.idxOf?] using h)
      exact ⟨hlt, k + 1, by omega, u, us, hcell, hat⟩
    | cons u us =>
      by_cases hc : n = c
      · have hp : p = 0 := by simpa [List.replicate_succ, List.findIdx?_cons, hc] using h.symm
        subst hp hc
        exact ⟨by simp, 0, rfl, u, us, rfl, rfl⟩
      · have hnone : (List.replicate (u :: us).length n).findIdx? (· == c) = none := by
          rw [List.findIdx?_eq_none_iff]
          intro x hx
          rw [List.eq_of_mem_replicate hx]
          exact beq_false_of_ne hc
        dsimp only at h
        rw [hnone, Option.none_or, Option.map_eq_some_iff] at h
        obtain ⟨q, hq, rfl⟩ := h
        obtain ⟨hlt, k, rfl, v, vs, hcell, hat⟩ := idxOf?_units_from cells (n + 1) hq
        refine ⟨?_, k + 1, by omega, v, vs, hcell, ?_⟩
        · rw [List.flatten_cons, List.length_append, List.length_replicate]
          omega
        · rw [List.flatten_cons, List.length_replicate, Nat.add_comm, List.getElem?_append_right (Nat.le_add_right _ _),
            Nat.add_sub_cancel_left, hat]

theorem RowText.idxOf?_units {r : RowText} {c p : Nat} (h : r.units.idxOf? c = some p) :
    p < r.text.length ∧ ∃ u us, r.cells[c]? = some (u :: us) ∧ r.text[p]? = some u := by
  obtain ⟨hlt, k, rfl, u, us, hcell, hat⟩ := idxOf?_units_from r.cells 0 h
  rw [Nat.zero_add]
  exact ⟨hlt, u, us, hcell, hat⟩

theorem wideStart_of_ne {cells : List JsString} {col : Nat} (h : cells[col]? ≠ some []) : wideStart cells col = col := by
  cases col with
  | zero => rfl
  | succ col => rw [wideStart, if_neg h]

theorem detectTokenAt_whitespace {line : JsString} {col : Nat} {u : UInt16} (h : (line)[col]? = some u)
    (hu : isWhitespace u = true) :
    detectTokenAt line col = none := by
  have hlt := (List.getElem?_eq_some_iff.1 h).1
  unfold detectTokenAt
  rw [if_neg (List.ne_nil_of_length_pos (by omega)), Nat.min_eq_left (by omega)]
  dsimp only
  rw [h, Option.any_some, hu, if_pos rfl]

theorem cellText_blank {cell : BufferCell} (hwidth : cell.width ≠ 0)
    (h : (cell.chars.isEmpty || cell.chars.head?.any isWhitespace) = true) : ∃ u us, cellText cell = u :: us ∧
    isWhitespace u = true := by
  rw [cellText, if_neg hwidth]
  cases hchars : cell.chars with
  | nil => exact ⟨0x20, [], rfl, rfl⟩
  | cons u us =>
    rw [hchars] at h
    exact ⟨u, us, rfl, h⟩

/-- **A pointer on a blank cell, or on no cell, has no token.** -/
theorem no_token_of_blank {A B : List RowText} {here : RowText} {col : Nat}
    (hblank : ∀ u us, here.cells[col]? = some (u :: us) → isWhitespace u) (hempty : here.cells[col]? ≠ some []) :
    ((here.units.idxOf? (wideStart here.cells col)).map (fun probe => (textOf A).length + probe)).bind
    (tokenOf (A ++ here :: B)) = none := by
  rw [wideStart_of_ne hempty]
  cases hprobe : here.units.idxOf? col with
  | none => rfl
  | some probe =>
    obtain ⟨hlt, u, us, hcell, hat⟩ := RowText.idxOf?_units hprobe
    have hu : (textOf (A ++ here :: B))[(textOf A).length + probe]? = some u := by
      rw [textOf_append, List.getElem?_append_right (Nat.le_add_right _ _), Nat.add_sub_cancel_left]
      show (here.text ++ textOf B)[probe]? = some u
      rw [List.getElem?_append_left hlt, hat]
    rw [Option.map_some, Option.bind_some, tokenOf, detectTokenAt_whitespace hu (hblank u us hcell), Option.bind_none]

/-! ## A run in reach -/

section

variable {L : Type} (isWrapped : L → Bool)

theorem length_climb_le : ∀ (first : L) (up : List L), (climb isWrapped first up).length ≤ up.length
  | first, [] => Nat.le_refl 0
  | first, above :: up => by
    rw [climb]
    split
    · exact Nat.succ_le_succ (length_climb_le above up)
    · exact Nat.zero_le _

/-- **A run in reach is walked whole.** -/
theorem wrapRun_reach {rows : List L} {r n : Nat} (hup : r - (wrapRun isWrapped rows r none).1 ≤ n)
    (hdown : (wrapRun isWrapped rows r none).1 + (wrapRun isWrapped rows r none).2.length - 1 - r ≤ n) :
    wrapRun isWrapped rows r (some n) = wrapRun isWrapped rows r none := by
  unfold wrapRun at hup hdown ⊢
  cases hline : rows[r]? with
  | none => rfl
  | some line =>
    rw [hline] at hup hdown
    dsimp only [within] at hup hdown ⊢
    have hle := length_climb_le isWrapped line (rows.take r).reverse
    rw [List.length_reverse, List.length_take] at hle
    rw [List.length_append, List.length_reverse, List.length_cons] at hdown
    have habove : (climb isWrapped line (rows.take r).reverse).length ≤ n := by omega
    have hbelow : ((rows.drop (r + 1)).takeWhile isWrapped).length ≤ n := by omega
    rw [List.take_of_length_le habove, List.take_of_length_le hbelow]

end

theorem wrapRun_get {rows : List BufferLine} {r : Nat} {line : BufferLine} (h : rows[r]? = some line) :
    let run := wrapRun BufferLine.isWrapped rows r none
    run.1 ≤ r ∧ run.2[r - run.1]? = some line := by
  have hle := length_climb_le BufferLine.isWrapped line (rows.take r).reverse
  rw [List.length_reverse, List.length_take] at hle
  unfold wrapRun
  rw [h]
  dsimp only [within]
  refine ⟨Nat.sub_le _ _, ?_⟩
  rw [List.getElem?_append_right (by rw [List.length_reverse]; omega), List.length_reverse,
    Nat.sub_sub_self (by omega), Nat.sub_self,
    List.getElem?_cons_zero]

/-- **Reading only the rows that a token can reach changes nothing**, where the logical line lies within reach of the pointer. -/
theorem detectTokenInBuffer_eq (rows : List BufferLine) (row col : Nat)
    (hup : row - (wrapRun BufferLine.isWrapped rows row none).1 ≤ WRAP_REACH)
    (hdown : (wrapRun BufferLine.isWrapped rows row none).1 +
      (wrapRun BufferLine.isWrapped rows row none).2.length - 1 - row ≤ WRAP_REACH) :
    detectTokenInBuffer rows row col = tokenOfLine rows row col := by
  unfold detectTokenInBuffer readToken tokenOfLine
  rw [wrapRun_reach _ hup hdown]
  cases hline : rows[row]? with
  | none      =>
    have hrun : wrapRun BufferLine.isWrapped rows row none = (row, []) := by
      unfold wrapRun
      rw [hline]
    rw [hrun]
    rfl
  | some line =>
    obtain ⟨htop, hget⟩ := wrapRun_get hline
    generalize wrapRun BufferLine.isWrapped rows row none = run at htop hget ⊢
    obtain ⟨A, B, hrows, hlen, hA, hB⟩ := rowTexts_split run.1 hget
    rw [Nat.add_sub_cancel' htop] at hrows hA hB
    generalize hhere : RowText.mk row (textCells line run.2[row - run.1 + 1]?) = here at hrows
    have hrow : here.row = row := hhere ▸ rfl
    have hcells : here.cells = textCells line run.2[row - run.1 + 1]? := hhere ▸ rfl
    subst hrow
    dsimp only [Option.bind_some]
    rw [hrows, findIdx?_pointer hA hB col, ← hlen, List.drop_left, List.take_left]
    have hcell : ∀ chars, here.cells[col]? = some chars → ∃ cell, line.cells[col]? = some cell ∧ chars = cellText cell := by
      intro chars hchars
      rw [hcells, textCells, List.getElem?_map, Option.map_eq_some_iff] at hchars
      obtain ⟨cell, hat, rfl⟩ := hchars
      rw [List.getElem?_take] at hat
      split at hat
      · exact ⟨cell, hat, rfl⟩
      · cases hat
    cases hat : line.cells[col]? with
    | none      =>
      refine (no_token_of_blank (fun u us h => ?_) (fun h => ?_)).symm
      · obtain ⟨_, hsome, _⟩ := hcell _ h
        cases hat.symm.trans hsome
      · obtain ⟨_, hsome, _⟩ := hcell _ h
        cases hat.symm.trans hsome
    | some cell =>
      dsimp only
      split
      · next hblank =>
        rw [Bool.and_eq_true, decide_eq_true_eq] at hblank
        obtain ⟨v, vs, htext, hv⟩ := cellText_blank hblank.1 hblank.2
        refine (no_token_of_blank (fun u us h => ?_) (fun h => ?_)).symm
        · obtain ⟨_, hsome, hchars⟩ := hcell _ h
          obtain rfl := Option.some.inj (hat.symm.trans hsome)
          cases hchars.trans htext
          exact hv
        · obtain ⟨_, hsome, hchars⟩ := hcell _ h
          obtain rfl := Option.some.inj (hat.symm.trans hsome)
          cases hchars.trans htext
      · cases hprobe : here.units.idxOf? (wideStart here.cells col) with
        | none       => rfl
        | some probe =>
          dsimp only
          rw [cellsOf_eq, reads_tokenOf A here B (RowText.idxOf?_units hprobe).1]
          rfl

def wrappedUrl : List BufferLine :=
  [⟨(units "https://").map (fun u => ⟨[u], 1⟩), false⟩, ⟨(units "a.b/c. x").map (fun u => ⟨[u], 1⟩), true⟩]

theorem detectTokenInBuffer_eq_url : detectTokenInBuffer wrappedUrl 1 1 = tokenOfLine wrappedUrl 1 1 :=
  detectTokenInBuffer_eq wrappedUrl 1 1 (by decide +kernel) (by decide +kernel)

end SmartToken
end Dormouse

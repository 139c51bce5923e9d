import Dormouse.SelectionReflow
/-!
# SelectionFollow — a selection follows its text through reflow

A layout cuts each logical line's text into rows of one width (`cut`), each row made full with blank cells, so that a wide character
is never split.  Where a text cell is in a layout (`place`) is what `lineOffset` undoes and `locateEdge` finds, and what `reflowText`
reads between two text cells is the same in every layout (`reflowText_layout`); so the selection is followed to the same cells.
-/
namespace Dormouse
namespace SelectionReflow

open BufferCells
open CopyText (GridPos Span before)

/-! ## The walk over soft wraps -/

section

variable {L : Type} {isWrapped : L → Bool}

theorem climb_of_not_wrapped {line : L} (h : isWrapped line = false) (up : List L) : climb isWrapped line up = [] := by
  cases up with
  | nil => rfl
  | cons above up => rw [climb, h, if_neg Bool.false_ne_true]

theorem climb_append {first : L} (hfirst : isWrapped first = false) (up : List L) : ∀ (line : L) (ws : List L),
    isWrapped line = true → (∀ x ∈ ws, isWrapped x = true) → climb isWrapped line (ws ++ first :: up) = ws ++ [first]
  | line, [], h, _ => by
    rw [List.nil_append, climb, if_pos h, climb_of_not_wrapped hfirst, List.nil_append]
  | line, x :: ws, h, hws => by
    rw [List.cons_append, climb, if_pos h, climb_append hfirst up x ws (hws x List.mem_cons_self)
      (fun y hy => hws y (List.mem_cons_of_mem x hy)), List.cons_append]

/-- **The rows that soft wraps join are walked whole, from any of them.** -/
theorem wrapRun_block {pre : List L} {first : L} {rest post : List L} (hfirst : isWrapped first = false)
    (hrest : ∀ x ∈ rest, isWrapped x = true) (hpost : ∀ x ∈ post.head?, isWrapped x = false) {k : Nat}
    (hk : k < rest.length + 1) :
    wrapRun isWrapped (pre ++ (first :: rest) ++ post) (pre.length + k) none = (pre.length, first :: rest) := by
  have hget : (pre ++ (first :: rest) ++ post)[pre.length + k]? = (first :: rest)[k]? := by
    rw [List.append_assoc, List.getElem?_append_right (Nat.le_add_right _ _), Nat.add_sub_cancel_left,
      List.getElem?_append_left (by simpa using hk)]
  have htake : (pre ++ (first :: rest) ++ post).take (pre.length + k) = pre ++ (first :: rest).take k := by
    rw [List.append_assoc, List.take_length_add_append, List.take_append_of_le_length (by simp; omega)]
  have hdrop : (pre ++ (first :: rest) ++ post).drop (pre.length + k + 1) = rest.drop k ++ post := by
    rw [Nat.add_assoc, List.append_assoc, List.drop_length_add_append, List.cons_append, List.drop_succ_cons,
      List.drop_append_of_le_length (by omega)]
  have hbelow : (rest.drop k ++ post).takeWhile isWrapped = rest.drop k := by
    rw [List.takeWhile_append_of_pos (fun x hx => hrest x (List.mem_of_mem_drop hx))]
    have : post.takeWhile isWrapped = [] := by
      cases post with
      | nil => rfl
      | cons x post => rw [List.takeWhile_cons, hpost x (by simp), if_neg Bool.false_ne_true]
    rw [this, List.append_nil]
  have habove : ∀ line, (first :: rest)[k]? = some line →
      climb isWrapped line (pre ++ (first :: rest).take k).reverse = ((first :: rest).take k).reverse := by
    intro line hline
    cases k with
    | zero =>
      obtain rfl : first = line := Option.some.inj hline
      exact climb_of_not_wrapped hfirst _
    | succ k =>
      have hmem : line ∈ rest := List.mem_of_getElem? hline
      rw [List.take_succ_cons, List.reverse_append, List.reverse_cons, List.append_assoc, List.singleton_append]
      exact climb_append hfirst pre.reverse line _ (hrest line hmem)
        (fun x hx => hrest x (List.mem_of_mem_take (List.mem_reverse.1 hx)))
  obtain ⟨line, hline⟩ : ∃ line, (first :: rest)[k]? = some line := ⟨_, List.getElem?_eq_getElem (by simpa using hk)⟩
  have hsplit : (first :: rest).take k ++ line :: rest.drop k = first :: rest := by
    obtain ⟨hlt, heq⟩ := List.getElem?_eq_some_iff.1 hline
    have hcut := List.take_append_drop k (first :: rest)
    rwa [List.drop_eq_getElem_cons hlt, heq, List.drop_succ_cons] at hcut
  rw [wrapRun, hget, hline]
  simp only [within]
  rw [htake, habove line hline, hdrop, hbelow, List.length_reverse, List.reverse_reverse, hsplit, List.length_take,
    Nat.min_eq_left (by simp; omega), Nat.add_sub_cancel]

end

/-! ## Layouts -/

def widthAt (t : List BufferCell) (i : Nat) : Option Nat := t[i]?.map (·.width)

/-- A logical line's text cells: a wide character's two halves stand together, and no unwritten cell directly before one. -/
structure TextLine (t : List BufferCell) : Prop where
  widths  : ∀ c ∈ t, c.width ≤ 2
  halves  : ∀ i, widthAt t i = some 2 ↔ widthAt t (i + 1) = some 0
  first   : widthAt t 0 ≠ some 0
  written : ∀ i c, t[i]? = some c → widthAt t (i + 1) = some 2 → ¬(c.chars = [] ∧ c.width = 1)

/-- A line's text, a row at a time: one cell fewer where a wide character would be split. -/
def cut (w : Nat) (t : List BufferCell) : List (List BufferCell) :=
  if h : t.length ≤ w ∨ w < 2 then [t]
  else
    let n := if widthAt t w = some 0 then w - 1 else w
    t.take n :: cut w (t.drop n)
  termination_by t.length
  decreasing_by
    rw [List.length_drop]
    split <;> omega

def blank : BufferCell := ⟨[], 1⟩

def padRow (w : Nat) (isWrapped : Bool) (row : List BufferCell) : BufferLine :=
  ⟨row ++ List.replicate (w - row.length) blank, isWrapped⟩

def blockRows (w : Nat) (isWrapped : Bool) : List (List BufferCell) → List BufferLine
  | []          => []
  | row :: rest => padRow w isWrapped row :: rest.map (padRow w true)

def layout (w : Nat) (lines : List (List BufferCell)) : List BufferLine :=
  lines.flatMap (fun t => blockRows w false (cut w t))

def place : List (List BufferCell) → Nat → GridPos
  | [],          i => ⟨0, i⟩
  | row :: rest, i => if i < row.length then ⟨0, i⟩ else ⟨(place rest (i - row.length)).row + 1,
      (place rest (i - row.length)).col⟩

def firstRow (w : Nat) (lines : List (List BufferCell)) (a : Nat) : Nat := (layout w (lines.take a)).length

/-- Where text cell `i` of logical line `a` is in a layout. -/
def textPos (w : Nat) (lines : List (List BufferCell)) (a i : Nat) : GridPos :=
  let p := place (cut w ((lines[a]?).getD [])) i
  ⟨firstRow w lines a + p.row, p.col⟩

def EndsHalf (row : List BufferCell) : Prop := ∃ c, row.getLast? = some c ∧ c.width = 2

def StartsWide (row : List BufferCell) : Prop := ∃ c, row.head? = some c ∧ c.width = 2

inductive Rows (w : Nat) : List (List BufferCell) → Prop where
  | last (row : List BufferCell) (short : row.length ≤ w) (whole : ¬EndsHalf row) : Rows w [row]
  | full (row next : List BufferCell) (rest : List (List BufferCell)) (length : row.length = w) (whole : ¬EndsHalf row)
      (written : StartsWide next → ∀ c, row.getLast? = some c → ¬(c.chars = [] ∧ c.width = 1)) (below : Rows w (next :: rest)) :
      Rows w (row :: next :: rest)
  | padded (row next : List BufferCell) (rest : List (List BufferCell)) (length : row.length + 1 = w) (whole : ¬EndsHalf row)
      (wide : StartsWide next) (below : Rows w (next :: rest)) : Rows w (row :: next :: rest)

variable {w : Nat} {rows : List (List BufferCell)}

theorem Rows.ind {motive : ∀ rows, Rows w rows → Prop}
    (last : ∀ row (short : row.length ≤ w) (whole : ¬EndsHalf row), motive [row] (.last row short whole))
    (more : ∀ row next rest (h : Rows w (row :: next :: rest)) (_ : ¬EndsHalf row) (_ : row.length ≤ w) (below : Rows w (next :: rest)), motive (next :: rest) below → motive (row :: next :: rest) h)
    (h : Rows w rows) : motive rows h := by
  induction h with
  | last row short whole => exact last row short whole
  | full row next rest length whole written below ih => exact more row next rest _ whole length.le below ih
  | padded row next rest length whole wide below ih => exact more row next rest _ whole (by omega) below ih

theorem widthAt_drop (t : List BufferCell) (n i : Nat) : widthAt (t.drop n) i = widthAt t (n + i) := by
  rw [widthAt, widthAt, List.getElem?_drop]

theorem TextLine.drop {t : List BufferCell} (h : TextLine t) {n : Nat} (hn : widthAt t n ≠ some 0) : TextLine (t.drop n) where
  widths c hc := h.widths c (List.mem_of_mem_drop hc)
  halves i := by rw [widthAt_drop, widthAt_drop, ← Nat.add_assoc, h.halves]
  first := by rwa [widthAt_drop]
  written i c hc := by
    rw [widthAt_drop, ← Nat.add_assoc]
    rw [List.getElem?_drop] at hc
    exact h.written (n + i) c hc

theorem TextLine.not_endsHalf {t : List BufferCell} (h : TextLine t) {n : Nat} (hn : n ≤ t.length)
    (hsplit : widthAt t n ≠ some 0) :
    ¬EndsHalf (t.take n) := by
  rintro ⟨c, hc, hwide⟩
  rw [List.getLast?_take] at hc
  split at hc
  · cases hc
  · next hpos =>
    have hlt : n - 1 < t.length := by omega
    rw [List.getElem?_eq_getElem hlt, Option.some_or, Option.some.injEq] at hc
    have : widthAt t (n - 1) = some 2 := by rw [widthAt, List.getElem?_eq_getElem hlt, hc, Option.map_some, hwide]
    rw [h.halves, show n - 1 + 1 = n by omega] at this
    exact hsplit this

theorem flatten_cut (w : Nat) (t : List BufferCell) : (cut w t).flatten = t := by
  induction t using cut.induct w with
  | case1 t h => rw [cut, dif_pos h, List.flatten_singleton]
  | case2 t h n ih =>
    rw [cut, dif_neg h]
    show (t.take n :: cut w (t.drop n)).flatten = t
    rw [List.flatten_cons, ih, List.take_append_drop]

theorem cut_ne_nil (w : Nat) (t : List BufferCell) : cut w t ≠ [] := by
  rw [cut]
  split
  · exact List.cons_ne_nil _ _
  · exact List.cons_ne_nil _ _

theorem head_cut (hw : 2 ≤ w) {t row : List BufferCell} {rest : List (List BufferCell)} (h : cut w t = row :: rest) :
    row.head? = t.head? := by
  rw [cut] at h
  split at h
  · rw [(List.cons.inj h).1]
  · rw [← (List.cons.inj h).1, List.head?_take, if_neg]
    split <;> omega

theorem rows_cut (hw : 2 ≤ w) {t : List BufferCell} (h : TextLine t) : Rows w (cut w t) := by
  induction t using cut.induct w with
  | case1 t hlast =>
    rw [cut, dif_pos hlast]
    refine .last t (by omega) ?_
    have hnone : widthAt t t.length ≠ some 0 := by
      rw [widthAt, List.getElem?_eq_none (le_refl _), Option.map_none]
      exact nofun
    have := h.not_endsHalf (le_refl _) hnone
    rwa [List.take_length] at this
  | case2 t hlong n ih =>
    have hlen : w < t.length := by omega
    have hn : n = if widthAt t w = some 0 then w - 1 else w := rfl
    have hsplit : widthAt t n ≠ some 0 := by
      rw [hn]
      split
      · next hzero =>
        -- the second half is in its own row's place, so the cell before it is the first
        have hwide : widthAt t (w - 1) = some 2 := by
          rw [h.halves, show w - 1 + 1 = w by omega]
          exact hzero
        rw [hwide]
        exact fun heq => absurd (Option.some.inj heq) (by decide)
      · next hzero => exact hzero
    have hle : n ≤ w := by
      rw [hn]
      split <;> omega
    have hbelow := ih (h.drop hsplit)
    have hwhole := h.not_endsHalf (le_trans hle hlen.le) hsplit
    rw [cut, dif_neg hlong]
    show Rows w (t.take n :: cut w (t.drop n))
    generalize hrest : cut w (t.drop n) = rest at hbelow
    cases rest with
    | nil => exact absurd hrest (cut_ne_nil w _)
    | cons next rest =>
      have hhead : StartsWide next ↔ widthAt t n = some 2 := by
        rw [StartsWide, head_cut hw hrest, List.head?_drop, widthAt, Option.map_eq_some_iff]
      by_cases hzero : widthAt t w = some 0
      · have hn : n = w - 1 := by rw [hn, if_pos hzero]
        refine .padded _ _ _ (by rw [List.length_take]; omega) hwhole (hhead.2 ?_) hbelow
        rw [hn, h.halves, show w - 1 + 1 = w by omega]
        exact hzero
      · have hn : n = w := by rw [hn, if_neg hzero]
        refine .full _ _ _ (by rw [List.length_take]; omega) hwhole (fun hwide c hc => ?_) hbelow
        have hlast : t[w - 1]? = some c := by
          rw [hn, List.getLast?_take, if_neg (by omega), List.getElem?_eq_getElem (by omega), Option.some_or] at hc
          rw [List.getElem?_eq_getElem (by omega)]
          exact hc
        refine h.written (w - 1) c hlast ?_
        rw [show w - 1 + 1 = w by omega, ← hn]
        exact hhead.1 hwide

theorem blockRows_cons (w : Nat) (f : Bool) (row : List BufferCell) (rest : List (List BufferCell)) :
    blockRows w f (row :: rest) = padRow w f row :: blockRows w true rest := by
  cases rest <;> rfl

theorem length_blockRows (w : Nat) (f : Bool) (rows : List (List BufferCell)) : (blockRows w f rows).length = rows.length := by
  cases rows with
  | nil => rfl
  | cons row rest => rw [blockRows, List.length_cons, List.length_map, List.length_cons]

theorem textWidth_row {row next : List BufferCell} {rest : List (List BufferCell)} (h : Rows w (row :: next :: rest))
    (f : Bool) : textWidth (padRow w f row) (some (padRow w true next)) = row.length := by
  have hwide : ((padRow w true next).cells.head?.any (fun c => c.width == 2)) = true ↔ StartsWide next := by
    rw [padRow, StartsWide, List.head?_append]
    cases next with
    | nil =>
      cases hn : w - ([] : List BufferCell).length <;> simp [List.replicate_succ, blank]
    | cons c next => simp
  cases h with
  | full _ _ _ hlen _ hwritten _ =>
    have hpad : (padRow w f row).cells = row := by
      rw [padRow, hlen, Nat.sub_self, List.replicate_zero, List.append_nil]
    rw [textWidth, hpad, if_neg]
    rintro hcond
    rw [Bool.and_eq_true, Bool.and_eq_true, Option.any_eq_true] at hcond
    obtain ⟨⟨-, c, hc, hunwritten⟩, hhead⟩ := hcond
    refine hwritten (hwide.1 hhead) c hc ?_
    simpa using hunwritten
  | padded _ _ _ hlen _ hstarts _ =>
    have hpad : (padRow w f row).cells = row ++ [blank] := by
      rw [padRow, show w - row.length = 1 by omega, List.replicate_one]
    rw [textWidth, hpad, if_pos]
    · simp
    · rw [hwide.2 hstarts, List.getLast?_concat]
      rfl

theorem textWidth_last {row : List BufferCell} (h : row.length ≤ w) (f : Bool) {next : Option BufferLine}
    (hnext : ∀ x ∈ next, x.isWrapped = false) : textWidth (padRow w f row) next = w := by
  have hlen : (padRow w f row).cells.length = w := by
    rw [padRow, List.length_append, List.length_replicate]
    omega
  cases next with
  | none => exact hlen
  | some next =>
    rw [textWidth, hnext next rfl, Bool.false_and, Bool.false_and, if_neg Bool.false_ne_true, hlen]

/-- The text cells of the rows above row `k` of a line. -/
def textAbove (lines : List BufferLine) (k : Nat) : Nat :=
  ((List.range k).map (fun i => (lines[i]?.map (textWidth · lines[i + 1]?)).getD 0)).sum

theorem textAbove_cons (line : BufferLine) (lines : List BufferLine) (k : Nat) :
    textAbove (line :: lines) (k + 1) = textWidth line lines.head? + textAbove lines k := by
  rw [textAbove, List.range_succ_eq_map, List.map_cons, List.sum_cons, List.map_map, textAbove]
  congr 1
  cases lines <;> rfl

/-- **The offset of a text cell is undone by its place.** -/
theorem textAbove_place (h : Rows w rows) (f : Bool) {i : Nat} (hi : i < rows.flatten.length) :
    ∃ line, (blockRows w f rows)[(place rows i).row]? = some line ∧
      (place rows i).col < textWidth line (blockRows w f rows)[(place rows i).row + 1]? ∧
      textAbove (blockRows w f rows) (place rows i).row + (place rows i).col = i := by
  induction h using Rows.ind generalizing f i with
  | last row hshort _ =>
    rw [List.flatten_singleton] at hi
    rw [place, if_pos hi]
    refine ⟨padRow w f row, rfl, ?_, Nat.zero_add i⟩
    show i < textWidth (padRow w f row) none
    rw [textWidth_last hshort f (fun x hx => by cases hx)]
    omega
  | more row next rest hrows _ _ _ ih =>
    have hwidth := textWidth_row hrows f
    rw [blockRows_cons, place]
    by_cases hin : i < row.length
    · rw [if_pos hin]
      refine ⟨padRow w f row, rfl, ?_, Nat.zero_add i⟩
      show i < textWidth (padRow w f row) (some (padRow w true next))
      rw [hwidth]
      exact hin
    · rw [if_neg hin]
      rw [List.flatten_cons, List.length_append] at hi
      have hi' : i - row.length < (next :: rest).flatten.length := by omega
      obtain ⟨line, hline, hcol, hsum⟩ := ih true hi'
      refine ⟨line, hline, hcol, ?_⟩
      dsimp only
      rw [textAbove_cons]
      show textWidth (padRow w f row) (some (padRow w true next)) + _ + _ = i
      rw [hwidth]
      omega

/-- **A walk from a line's first row finds the place of a text cell.** -/
theorem locateIn_place (h : Rows w rows) (f : Bool) (r : Nat) {i : Nat} (hi : i < rows.flatten.length) :
    locateIn r (blockRows w f rows) i = some ⟨r + (place rows i).row, (place rows i).col⟩ := by
  have hlen : ∀ (row : List BufferCell) (f : Bool), row.length ≤ w → (padRow w f row).cells.length = w := by
    intro row f hle
    rw [padRow, List.length_append, List.length_replicate]
    omega
  induction h using Rows.ind generalizing f r i with
  | last row hshort _ =>
    rw [List.flatten_singleton] at hi
    rw [place, if_pos hi]
    show some (GridPos.mk r (min i ((padRow w f row).cells.length - 1))) = _
    rw [hlen row f hshort, Nat.min_eq_left (by omega)]
    rfl
  | more row next rest hrows _ hshort _ ih =>
    have hwidth := textWidth_row hrows f
    rw [blockRows_cons, place]
    show locateIn r (padRow w f row :: padRow w true next :: rest.map (padRow w true)) i = _
    rw [locateIn, hwidth]
    by_cases hin : i < row.length
    · rw [if_pos hin, if_pos hin, hlen row f hshort, Nat.min_eq_left (by omega)]
      rfl
    · rw [if_neg hin, if_neg hin]
      rw [List.flatten_cons, List.length_append] at hi
      have hi' : i - row.length < (next :: rest).flatten.length := by omega
      have := ih true (r + 1) hi'
      rw [blockRows] at this
      rw [this]
      congr 2
      dsimp only
      omega

theorem place_spec : ∀ {rows : List (List BufferCell)} {i : Nat}, i < rows.flatten.length → (place rows i).row < rows.length ∧
    i = (rows.take (place rows i).row).flatten.length + (place rows i).col ∧
    ∀ row ∈ (rows.drop (place rows i).row).head?, (place rows i).col < row.length
  | [], i, h => absurd h (Nat.not_lt_zero i)
  | row :: rest, i, h => by
    rw [place]
    by_cases hin : i < row.length
    · rw [if_pos hin]
      exact ⟨Nat.succ_pos _, (Nat.zero_add i).symm, fun r hr => Option.some.inj hr ▸ hin⟩
    · rw [if_neg hin]
      rw [List.flatten_cons, List.length_append] at h
      have hi : i - row.length < rest.flatten.length := by omega
      obtain ⟨hrow, hsum, hcol⟩ := place_spec hi
      refine ⟨Nat.succ_lt_succ hrow, ?_, hcol⟩
      dsimp only
      rw [List.take_succ_cons, List.flatten_cons, List.length_append]
      omega

theorem place_drop : ∀ {rows : List (List BufferCell)} {k i : Nat}, (rows.take k).flatten.length ≤ i → k ≤ rows.length →
    place rows i = ⟨(place (rows.drop k) (i - (rows.take k).flatten.length)).row + k,
      (place (rows.drop k) (i - (rows.take k).flatten.length)).col⟩
  | rows, 0, i, _, _ => rfl
  | [], k + 1, i, _, hk => absurd hk (Nat.not_succ_le_zero k)
  | row :: rest, k + 1, i, h, hk => by
    rw [List.take_succ_cons, List.flatten_cons, List.length_append] at h ⊢
    have hle : (rest.take k).flatten.length ≤ i - row.length := by omega
    have ih := place_drop hle (Nat.le_of_succ_le_succ hk)
    rw [place, if_neg (by omega), ih, List.drop_succ_cons, Nat.sub_sub]
    rfl

theorem Rows.drop {w : Nat} {rows : List (List BufferCell)} (h : Rows w rows) {k : Nat} (hk : k < rows.length) :
    Rows w (rows.drop k) := by
  induction h using Rows.ind generalizing k with
  | last row short whole =>
    obtain rfl : k = 0 := by
      rw [List.length_singleton] at hk
      omega
    exact .last row short whole
  | more row next rest hrows _ _ _ ih =>
    cases k with
    | zero => exact hrows
    | succ k => exact ih (Nat.lt_of_succ_lt_succ hk)

theorem blockRows_drop (w : Nat) (f : Bool) (rows : List (List BufferCell)) (k : Nat) :
    ∃ f', (blockRows w f rows).drop k = blockRows w f' (rows.drop k) := by
  induction rows generalizing f k with
  | nil => exact ⟨f, by rw [blockRows, List.drop_nil, List.drop_nil, blockRows]⟩
  | cons row rest ih =>
    cases k with
    | zero => exact ⟨f, rfl⟩
    | succ k =>
      obtain ⟨f', hf⟩ := ih true k
      exact ⟨f', by rw [blockRows_cons, List.drop_succ_cons, List.drop_succ_cons, hf]⟩

/-! ## What is read -/

/-- What is relied on of a terminal's text: it is of the cells read, part by part where no wide character is split, and an unwritten
cell is a space. -/
structure Reads (translate : BufferLine → Nat → Nat → JsString) : Prop where
  cells : ∀ l l' a b a' b', (l.cells.take b).drop a = (l'.cells.take b').drop a' → translate l a b = translate l' a' b'
  parts : ∀ l a m b, (∀ c ∈ l.cells, c.width ≤ 2) → a ≤ m → m ≤ b → ¬EndsHalf ((l.cells.take m).drop a) →
    translate l a b = translate l a m ++ translate l m b
  blank : translate ⟨[blank], false⟩ 0 1 = [0x20]

def textOf (translate : BufferLine → Nat → Nat → JsString) (cells : List BufferCell) : JsString :=
  translate ⟨cells, false⟩ 0 cells.length

section

variable {translate : BufferLine → Nat → Nat → JsString} (ht : Reads translate)
include ht

theorem translate_eq (l : BufferLine) (a b : Nat) : translate l a b = textOf translate ((l.cells.take b).drop a) :=
  ht.cells _ _ _ _ _ _ (by rw [List.take_length, List.drop_zero])

theorem textOf_append {xs ys : List BufferCell} (hx : ∀ c ∈ xs, c.width ≤ 2) (hy : ∀ c ∈ ys, c.width ≤ 2)
    (hwhole : ¬EndsHalf xs) :
    textOf translate (xs ++ ys) = textOf translate xs ++ textOf translate ys := by
  have hparts := ht.parts ⟨xs ++ ys, false⟩ 0 xs.length (xs ++ ys).length
    (fun c hc => (List.mem_append.1 hc).elim (hx c) (hy c)) (Nat.zero_le _) (by simp) (by simpa using hwhole)
  rw [translate_eq ht, translate_eq ht, translate_eq ht _ xs.length] at hparts
  dsimp only at hparts
  rwa [List.take_length, List.drop_zero, List.take_left, List.drop_zero, List.drop_left] at hparts

theorem textOf_nil : textOf translate [] = [] := by
  have hnone : ∀ c ∈ ([] : List BufferCell), c.width ≤ 2 := fun c hc => by cases hc
  have h := textOf_append ht hnone hnone (fun ⟨c, hc, _⟩ => by cases hc)
  rw [List.append_nil] at h
  exact List.self_eq_append_left.1 h

theorem textOf_blanks (n : Nat) : textOf translate (List.replicate n blank) = List.replicate n 0x20 := by
  induction n with
  | zero => exact textOf_nil ht
  | succ n ih =>
    have hblank : ∀ m, ∀ c ∈ List.replicate m blank, c.width ≤ 2 := by
      intro m c hc
      rw [List.eq_of_mem_replicate hc]
      decide
    have happ := textOf_append ht (hblank 1) (hblank n) (by rintro ⟨c, hc, hw⟩; cases hc; cases hw)
    have hone : textOf translate (List.replicate 1 blank) = [0x20] := ht.blank
    rw [hone, ih] at happ
    exact happ

omit ht in
theorem trimEnd_spaces (s : JsString) (n : Nat) : trimEnd (s ++ List.replicate n 0x20) = trimEnd s := by
  induction n with
  | zero => rw [List.replicate_zero, List.append_nil]
  | succ n ih =>
    rw [List.replicate_succ', ← List.append_assoc, trimEnd, List.rdropWhile_concat_pos _ _ _ (by decide), ← trimEnd, ih]

omit ht in
theorem not_endsHalf_drop {row : List BufferCell} (h : ¬EndsHalf row) (n : Nat) : ¬EndsHalf (row.drop n) := by
  rintro ⟨c, hc, hwide⟩
  rw [List.getLast?_drop] at hc
  split at hc
  · cases hc
  · exact h ⟨c, hc, hwide⟩

theorem reflowLines_more {w : Nat} {row next : List BufferCell} {rest : List (List BufferCell)}
    (h : Rows w (row :: next :: rest))
    (f : Bool) (post : List BufferLine) (toCol n col : Nat) (text : JsString) :
    reflowLines translate toCol (n + 1) col text (blockRows w f (row :: next :: rest) ++ post) =
      reflowLines translate toCol n 0 (text ++ textOf translate (row.drop col)) (blockRows w true (next :: rest) ++ post) := by
  have hread : translate (padRow w f row) col (textWidth (padRow w f row) (some (padRow w true next))) =
      textOf translate (row.drop col) := by
    rw [textWidth_row h, translate_eq ht, padRow, List.take_left]
  rw [← hread, blockRows_cons]
  rfl

section

variable {w : Nat} {rows : List (List BufferCell)} (h : Rows w rows) (hwidths : ∀ c ∈ rows.flatten, c.width ≤ 2) (f : Bool)
include h hwidths

theorem reflowLines_stop (post : List BufferLine) (text : JsString) {col j : Nat} (hj : j < rows.flatten.length)
    (hcol : ∀ row ∈ rows.head?, col ≤ row.length) :
    reflowLines translate (place rows j).col (place rows j).row col text (blockRows w f rows ++ post) =
      some [trimEnd (text ++ textOf translate ((rows.flatten.take (j + 1)).drop col))] := by
  induction h using Rows.ind generalizing f text col j with
  | last row hshort _ =>
    rw [List.flatten_singleton] at hj ⊢
    rw [place, if_pos hj]
    show some [trimEnd (text ++ translate (padRow w f row) col (j + 1))] = _
    rw [translate_eq ht, padRow, List.take_append_of_le_length hj]
  | more row next rest hrows hwhole hshort hbelow ih =>
    have hle : col ≤ row.length := hcol row rfl
    have hrow : ∀ c ∈ row, c.width ≤ 2 := fun c hc => hwidths c (by rw [List.flatten_cons]; exact List.mem_append_left _ hc)
    have hrest : ∀ c ∈ (next :: rest).flatten, c.width ≤ 2 :=
      fun c hc => hwidths c (by rw [List.flatten_cons]; exact List.mem_append_right _ hc)
    rw [place]
    by_cases hin : j < row.length
    · rw [if_pos hin, blockRows_cons]
      show some [trimEnd (text ++ translate (padRow w f row) col (j + 1))] = _
      rw [translate_eq ht, padRow, List.take_append_of_le_length hin, List.flatten_cons, List.take_append_of_le_length hin]
    · rw [if_neg hin]
      rw [List.flatten_cons, List.length_append] at hj
      have hj' : j - row.length < (next :: rest).flatten.length := by omega
      have hsplit : ((row :: next :: rest).flatten.take (j + 1)).drop col =
          row.drop col ++ ((next :: rest).flatten.take (j - row.length + 1)) := by
        rw [List.flatten_cons, List.take_append, List.take_of_length_le (by omega), List.drop_append_of_le_length hle,
          show j + 1 - row.length = j - row.length + 1 by omega]
      rw [reflowLines_more ht hrows, ih hrest true (text ++ textOf translate (row.drop col)) hj' (fun _ _ => Nat.zero_le _),
        List.drop_zero, hsplit, textOf_append ht (fun c hc => hrow c (List.mem_of_mem_drop hc))
          (fun c hc => hrest c (List.mem_of_mem_take hc)) (not_endsHalf_drop hwhole col), List.append_assoc]

theorem reflowLines_past {post : List BufferLine} (hpost : ∀ x ∈ post.head?, x.isWrapped = false)
    (toCol n : Nat) (text : JsString)
    {col : Nat} (hcol : ∀ row ∈ rows.head?, col ≤ row.length) :
    reflowLines translate toCol (rows.length + n) col text (blockRows w f rows ++ post) =
      (reflowLines translate toCol n 0 [] post).map (trimEnd (text ++ textOf translate (rows.flatten.drop col)) :: ·) := by
  induction h using Rows.ind generalizing f text col with
  | last row hshort hwhole =>
    have hle : col ≤ row.length := hcol row rfl
    rw [List.flatten_singleton] at hwidths ⊢
    have hblank : ∀ c ∈ List.replicate (w - row.length) blank, c.width ≤ 2 := by
      intro c hc
      rw [List.eq_of_mem_replicate hc]
      decide
    have hread : translate (padRow w f row) col (textWidth (padRow w f row) post.head?) =
        textOf translate (row.drop col) ++ List.replicate (w - row.length) 0x20 := by
      rw [textWidth_last hshort f hpost, translate_eq ht, padRow, List.take_of_length_le (by simp; omega),
        List.drop_append_of_le_length hle, textOf_append ht (fun c hc => hwidths c (List.mem_of_mem_drop hc)) hblank
          (not_endsHalf_drop hwhole col), textOf_blanks ht]
    have hnot : ¬(post.head?.any (fun l => l.isWrapped) = true) := by
      rw [Option.any_eq_true]
      rintro ⟨x, hx, hwrapped⟩
      rw [hpost x hx] at hwrapped
      exact Bool.noConfusion hwrapped
    rw [List.length_singleton, Nat.add_comm, blockRows, List.map_nil, List.singleton_append, reflowLines]
    rw [if_neg hnot, hread, ← List.append_assoc, trimEnd_spaces]
  | more row next rest hrows hwhole hshort hbelow ih =>
    have hle : col ≤ row.length := hcol row rfl
    have hrow : ∀ c ∈ row, c.width ≤ 2 := fun c hc => hwidths c (by rw [List.flatten_cons]; exact List.mem_append_left _ hc)
    have hrest : ∀ c ∈ (next :: rest).flatten, c.width ≤ 2 :=
      fun c hc => hwidths c (by rw [List.flatten_cons]; exact List.mem_append_right _ hc)
    have hflat : (row :: next :: rest).flatten = row ++ (next :: rest).flatten := rfl
    rw [List.length_cons, Nat.add_right_comm, reflowLines_more ht hrows,
      ih hrest true (text ++ textOf translate (row.drop col)) (fun _ _ => Nat.zero_le _), List.drop_zero, hflat,
      List.drop_append_of_le_length hle, textOf_append ht (fun c hc => hrow c (List.mem_of_mem_drop hc)) hrest
        (not_endsHalf_drop hwhole col), List.append_assoc]

end

omit ht in
theorem layout_cons (w : Nat) (t : List BufferCell) (lines : List (List BufferCell)) :
    layout w (t :: lines) = blockRows w false (cut w t) ++ layout w lines := rfl

omit ht in
theorem layout_append (w : Nat) (as bs : List (List BufferCell)) : layout w (as ++ bs) = layout w as ++ layout w bs :=
  List.flatMap_append

omit ht in
theorem head_layout (w : Nat) (lines : List (List BufferCell)) : ∀ x ∈ (layout w lines).head?, x.isWrapped = false := by
  cases lines with
  | nil => exact fun x hx => by cases hx
  | cons t lines =>
    intro x hx
    rw [layout_cons] at hx
    obtain ⟨row, rest, hrows⟩ := List.exists_cons_of_ne_nil (cut_ne_nil w t)
    rw [hrows, blockRows_cons, List.cons_append, List.head?_cons, Option.mem_some_iff] at hx
    rw [← hx]
    rfl

section

variable {w : Nat} (hw : 2 ≤ w)
include hw

theorem reflowLines_layout {t : List BufferCell} (more : List (List BufferCell)) {j : Nat} (hj : j < t.length)
    (htext : TextLine t) :
    ∀ mid : List (List BufferCell), (∀ t ∈ mid, TextLine t) →
      reflowLines translate (place (cut w t) j).col ((layout w mid).length + (place (cut w t) j).row) 0 []
      (layout w (mid ++ t :: more)) =
        some (mid.map (fun t => trimEnd (textOf translate t)) ++ [trimEnd (textOf translate (t.take (j + 1)))])
  | [], _ => by
    have h := reflowLines_stop ht (rows_cut hw htext) (by rw [flatten_cut]; exact htext.widths) false (layout w more) []
      (by rw [flatten_cut]; exact hj) (fun _ _ => Nat.zero_le _)
    rw [flatten_cut, List.drop_zero] at h
    rw [List.nil_append, layout_cons, layout, List.flatMap_nil, List.length_nil, Nat.zero_add, h]
    rfl
  | s :: mid, hmid => by
    have hs := hmid s List.mem_cons_self
    have ih := reflowLines_layout more hj htext mid (fun x hx => hmid x (List.mem_cons_of_mem s hx))
    have h := reflowLines_past ht (rows_cut hw hs) (by rw [flatten_cut]; exact hs.widths)
      false (head_layout w (mid ++ t :: more))
      (place (cut w t) j).col ((layout w mid).length + (place (cut w t) j).row) [] (fun _ _ => Nat.zero_le _)
    rw [flatten_cut, List.drop_zero, ih] at h
    rw [List.cons_append, layout_cons, layout_cons, List.length_append, length_blockRows, Nat.add_assoc, h]
    rfl

/-- **What is read from a text cell through one of a line below it** is the same in every layout. -/
theorem reflowText_lines {s t : List BufferCell} (above mid more : List (List BufferCell)) {i j : Nat} (hi : i < s.length)
    (hj : j < t.length) (hs : TextLine s) (ht' : TextLine t) (hmid : ∀ t ∈ mid, TextLine t) :
    reflowText translate (layout w (above ++ s :: (mid ++ t :: more)))
      ⟨(layout w above).length + (place (cut w s) i).row, (place (cut w s) i).col⟩
      ⟨(layout w (above ++ s :: mid)).length + (place (cut w t) j).row, (place (cut w t) j).col⟩ =
      some ([0x0a].intercalate (trimEnd (textOf translate (s.drop i)) ::
        (mid.map (fun t => trimEnd (textOf translate t)) ++ [trimEnd (textOf translate (t.take (j + 1)))]))) := by
  have hi' : i < (cut w s).flatten.length := by rwa [flatten_cut]
  obtain ⟨hrow, hsum, hcol⟩ := place_spec hi'
  generalize place (cut w s) i = p at hrow hsum hcol ⊢
  obtain ⟨f, hf⟩ := blockRows_drop w false (cut w s) p.row
  have hlen : (layout w (above ++ s :: mid)).length = (layout w above).length + ((cut w s).length + (layout w mid).length) := by
    rw [layout_append, layout_cons, List.length_append, List.length_append, length_blockRows]
  have hflat : s = ((cut w s).take p.row).flatten ++ ((cut w s).drop p.row).flatten := by
    rw [← List.flatten_append, List.take_append_drop, flatten_cut]
  have hwidths : ∀ c ∈ ((cut w s).drop p.row).flatten, c.width ≤ 2 :=
    fun c hc => hs.widths c (by rw [hflat]; exact List.mem_append_right _ hc)
  have hdrop : (layout w (above ++ s :: (mid ++ t :: more))).drop ((layout w above).length + p.row) =
      blockRows w f ((cut w s).drop p.row) ++ layout w (mid ++ t :: more) := by
    rw [layout_append, List.drop_length_add_append, layout_cons,
      List.drop_append_of_le_length (by rw [length_blockRows]; exact hrow.le), hf]
  have htext : ((cut w s).drop p.row).flatten.drop p.col = s.drop i := by
    conv => rhs; rw [hflat, hsum]
    rw [List.drop_length_add_append]
  have hbelow : (layout w above).length + ((cut w s).length + (layout w mid).length) + (place (cut w t) j).row -
      ((layout w above).length + p.row) =
        ((cut w s).drop p.row).length + ((layout w mid).length + (place (cut w t) j).row) := by
    rw [List.length_drop]
    omega
  have hpast := reflowLines_past ht ((rows_cut hw hs).drop hrow) hwidths f (head_layout w (mid ++ t :: more))
    (place (cut w t) j).col ((layout w mid).length + (place (cut w t) j).row) [] (fun row hr => (hcol row hr).le)
  rw [reflowText, if_neg (by dsimp only; omega)]
  dsimp only
  rw [hdrop, hlen, hbelow, hpast, reflowLines_layout ht hw more hj ht' mid hmid, htext]
  rfl

/-- **What is read between two text cells of a line** is the same in every layout. -/
theorem reflowText_line {s : List BufferCell} (above more : List (List BufferCell)) {i j : Nat}
    (hij : i ≤ j) (hj : j < s.length)
    (hs : TextLine s) :
    reflowText translate (layout w (above ++ s :: more))
      ⟨(layout w above).length + (place (cut w s) i).row, (place (cut w s) i).col⟩
      ⟨(layout w above).length + (place (cut w s) j).row, (place (cut w s) j).col⟩ =
      some ([0x0a].intercalate [trimEnd (textOf translate ((s.take (j + 1)).drop i))]) := by
  have hi' : i < (cut w s).flatten.length := by
    rw [flatten_cut]
    omega
  obtain ⟨hrow, hsum, hcol⟩ := place_spec hi'
  generalize place (cut w s) i = p at hrow hsum hcol ⊢
  obtain ⟨f, hf⟩ := blockRows_drop w false (cut w s) p.row
  have hflat : s = ((cut w s).take p.row).flatten ++ ((cut w s).drop p.row).flatten := by
    rw [← List.flatten_append, List.take_append_drop, flatten_cut]
  have hwidths : ∀ c ∈ ((cut w s).drop p.row).flatten, c.width ≤ 2 :=
    fun c hc => hs.widths c (by rw [hflat]; exact List.mem_append_right _ hc)
  have hdrop : (layout w (above ++ s :: more)).drop ((layout w above).length + p.row) =
      blockRows w f ((cut w s).drop p.row) ++ layout w more := by
    rw [layout_append, List.drop_length_add_append, layout_cons,
      List.drop_append_of_le_length (by rw [length_blockRows]; exact hrow.le), hf]
  have hoff : ((cut w s).take p.row).flatten.length ≤ j := by omega
  have hj' : j - ((cut w s).take p.row).flatten.length < ((cut w s).drop p.row).flatten.length := by
    have := congrArg List.length hflat
    rw [List.length_append] at this
    omega
  have htext : (((cut w s).drop p.row).flatten.take (j - ((cut w s).take p.row).flatten.length + 1)).drop p.col =
      (s.take (j + 1)).drop i := by
    have htake : s.take (j + 1) = ((cut w s).take p.row).flatten ++
        ((cut w s).drop p.row).flatten.take (j + 1 - ((cut w s).take p.row).flatten.length) := by
      conv => lhs; rw [hflat]
      rw [List.take_append, List.take_of_length_le (Nat.le_succ_of_le hoff)]
    rw [htake, hsum, List.drop_length_add_append, Nat.sub_add_comm hoff]
  have hstop := reflowLines_stop ht ((rows_cut hw hs).drop hrow) hwidths f (layout w more)
    [] hj' (fun row hr => (hcol row hr).le)
  rw [place_drop hoff hrow.le, reflowText, if_neg (by dsimp only; omega)]
  dsimp only
  rw [hdrop, show (layout w above).length + ((place ((cut w s).drop p.row)
    (j - ((cut w s).take p.row).flatten.length)).row + p.row) -
    ((layout w above).length + p.row) = (place ((cut w s).drop p.row) (j - ((cut w s).take p.row).flatten.length)).row by omega,
    hstop, htext]
  rfl

end

end

/-! ## Lines of a layout -/

theorem place_before : ∀ {rows : List (List BufferCell)} {i j : Nat}, i < j → j < rows.flatten.length →
    before (place rows i) (place rows j)
  | [], i, j, _, hj => absurd hj (Nat.not_lt_zero j)
  | row :: rest, i, j, hij, hj => by
    rw [place, place]
    by_cases hi : i < row.length
    · rw [if_pos hi]
      by_cases hj' : j < row.length
      · rw [if_pos hj']
        exact Or.inr ⟨rfl, hij⟩
      · rw [if_neg hj']
        exact Or.inl (Nat.succ_pos _)
    · rw [if_neg hi, if_neg (by omega)]
      rw [List.flatten_cons, List.length_append] at hj
      have hij' : i - row.length < j - row.length := by omega
      have hj' : j - row.length < rest.flatten.length := by omega
      rcases place_before hij' hj' with h | ⟨h, h'⟩
      · exact Or.inl (Nat.succ_lt_succ h)
      · exact Or.inr ⟨congrArg Nat.succ h, h'⟩

def spanLines (translate : BufferLine → Nat → Nat → JsString) (lines : List (List BufferCell)) (a i b j : Nat) :
    List JsString :=
  if a = b then [trimEnd (textOf translate (((lines[a]?.getD []).take (j + 1)).drop i))]
  else
    trimEnd (textOf translate ((lines[a]?.getD []).drop i)) ::
      (((lines.take b).drop (a + 1)).map (fun t => trimEnd (textOf translate t)) ++
        [trimEnd (textOf translate ((lines[b]?.getD []).take (j + 1)))])

section

variable {lines : List (List BufferCell)} {a : Nat} {t : List BufferCell} (ha : lines[a]? = some t)
include ha

theorem lines_at : lines = lines.take a ++ t :: lines.drop (a + 1) := by
  obtain ⟨hlt, heq⟩ := List.getElem?_eq_some_iff.1 ha
  rw [← heq, ← List.drop_eq_getElem_cons hlt, List.take_append_drop]

theorem layout_at (w : Nat) : layout w lines = layout w (lines.take a) ++ blockRows w false (cut w t) ++
    layout w (lines.drop (a + 1)) := by
  conv => lhs; rw [lines_at ha]
  rw [layout_append, layout_cons, List.append_assoc]

theorem textPos_eq (w i : Nat) : textPos w lines a i =
    ⟨(layout w (lines.take a)).length + (place (cut w t) i).row, (place (cut w t) i).col⟩ := by
  rw [textPos, ha]
  rfl

theorem wrapRun_layout {w k : Nat} (hk : k < (cut w t).length) :
    wrapRun BufferLine.isWrapped (layout w lines) (firstRow w lines a + k) none = (firstRow w lines a,
      blockRows w false (cut w t)) := by
  have hlayout := layout_at ha w
  obtain ⟨row, rest, hrows⟩ := List.exists_cons_of_ne_nil (cut_ne_nil w t)
  rw [hrows] at hlayout hk ⊢
  rw [hlayout, firstRow]
  refine wrapRun_block rfl (fun x hx => ?_) (head_layout w _) (by rw [List.length_map]; exact hk)
  obtain ⟨r, -, rfl⟩ := List.mem_map.1 hx
  rfl

section

variable {w : Nat} (hw : 2 ≤ w) (htext : TextLine t) {i : Nat} (hi : i < t.length)
include hw htext hi

/-- **A text cell's offset is its index in its line.** -/
theorem lineOffset_textPos (edge : Edge) : lineOffset (layout w lines) (textPos w lines a i) edge =
    some (firstRow w lines a, i) := by
  have hi' : i < (cut w t).flatten.length := by rwa [flatten_cut]
  obtain ⟨line, hline, hcol, hsum⟩ := textAbove_place (rows_cut hw htext) false hi'
  have hrun := wrapRun_layout ha (place_spec hi').1
  rw [firstRow] at hrun ⊢
  rw [textPos_eq ha, lineOffset]
  dsimp only
  rw [hrun]
  dsimp only
  rw [Nat.add_sub_cancel_left, hline]
  dsimp only
  rw [if_pos hcol, ← textAbove, Nat.add_comm, hsum]

/-- **An offset is located at its text cell.** -/
theorem locateEdge_textPos : locateEdge (layout w lines) ⟨firstRow w lines a, i⟩ = some (textPos w lines a i) := by
  have hi' : i < (cut w t).flatten.length := by rwa [flatten_cut]
  have hrun := wrapRun_layout ha (Nat.lt_of_le_of_lt (Nat.zero_le _) (place_spec hi').1)
  rw [locateEdge, if_neg (by dsimp only; omega)]
  dsimp only
  rw [Int.toNat_natCast, ← Nat.add_zero (firstRow w lines a), hrun, Nat.add_zero]
  dsimp only
  rw [Nat.sub_self, List.drop_zero, locateIn_place (rows_cut hw htext) false _ hi', textPos_eq ha]
  rfl

end

end

theorem ordered_of_textPos {lines : List (List BufferCell)} {w a b i j : Nat} {s t : List BufferCell} (ha : lines[a]? = some s)
    (hb : lines[b]? = some t) (hi : i < s.length) (hj : j < t.length)
    (h : ¬before (textPos w lines b j) (textPos w lines a i)) : a < b ∨ a = b ∧ i ≤ j := by
  rcases Nat.lt_trichotomy a b with hab | rfl | hba
  · exact Or.inl hab
  · obtain rfl : s = t := Option.some.inj (ha.symm.trans hb)
    refine Or.inr ⟨rfl, Nat.le_of_not_lt (fun hji => h ?_)⟩
    have hi' : i < (cut w s).flatten.length := by rwa [flatten_cut]
    rw [textPos_eq ha, textPos_eq ha]
    rcases place_before hji hi' with hlt | ⟨heq, hlt⟩
    · exact Or.inl (Nat.add_lt_add_left hlt _)
    · exact Or.inr ⟨congrArg ((layout w (lines.take a)).length + ·) heq, hlt⟩
  · refine absurd (Or.inl ?_) h
    have hj' : j < (cut w t).flatten.length := by rwa [flatten_cut]
    have hrow := (place_spec hj').1
    have hsplit : lines.take a = lines.take b ++ t :: (lines.take a).drop (b + 1) := by
      have hb' : (lines.take a)[b]? = some t := by rw [List.getElem?_take_of_lt hba, hb]
      have := lines_at hb'
      rwa [List.take_take, Nat.min_eq_left hba.le] at this
    rw [textPos_eq ha, textPos_eq hb, hsplit, layout_append, layout_cons, List.length_append,
      List.length_append, length_blockRows]
    dsimp only
    omega

/-- **What is read between two text cells is the same in every layout.** -/
theorem reflowText_layout {translate : BufferLine → Nat → Nat → JsString} (ht : Reads translate)
    {lines : List (List BufferCell)}
    (hlines : ∀ t ∈ lines, TextLine t) {w a b i j : Nat} (hw : 2 ≤ w) {s t : List BufferCell} (ha : lines[a]? = some s)
    (hb : lines[b]? = some t) (hi : i < s.length) (hj : j < t.length) (hab : a < b ∨ a = b ∧ i ≤ j) :
    reflowText translate (layout w lines) (textPos w lines a i) (textPos w lines b j) =
      some ([0x0a].intercalate (spanLines translate lines a i b j)) := by
  have hs := hlines s (List.mem_of_getElem? ha)
  rw [textPos_eq ha, textPos_eq hb, spanLines, ha, hb]
  rcases hab with hab | ⟨rfl, hij⟩
  · have hb' : (lines.drop (a + 1))[b - (a + 1)]? = some t := by
      rw [List.getElem?_drop, show a + 1 + (b - (a + 1)) = b by omega, hb]
    have hbelow : lines.drop (a + 1) = (lines.take b).drop (a + 1) ++ t :: (lines.drop (a + 1)).drop (b - (a + 1) + 1) := by
      have := lines_at hb'
      rwa [← List.drop_take] at this
    have habove : lines.take b = lines.take a ++ s :: (lines.take b).drop (a + 1) := by
      have ha' : (lines.take b)[a]? = some s := by rw [List.getElem?_take_of_lt hab, ha]
      have := lines_at ha'
      rwa [List.take_take, Nat.min_eq_left hab.le] at this
    have hread := reflowText_lines ht hw (lines.take a) ((lines.take b).drop (a + 1))
      ((lines.drop (a + 1)).drop (b - (a + 1) + 1)) hi hj hs
      (hlines t (List.mem_of_getElem? hb)) (fun x hx => hlines x (List.mem_of_mem_take (List.mem_of_mem_drop hx)))
    rw [← hbelow, ← lines_at ha, ← habove] at hread
    rw [if_neg (by omega)]
    exact hread
  · obtain rfl : s = t := Option.some.inj (ha.symm.trans hb)
    have hread := reflowText_line ht hw (lines.take a) (lines.drop (a + 1)) hij hj hs
    rw [← lines_at ha] at hread
    rw [if_pos rfl]
    exact hread

theorem spanOfSelection_ordered (sel : Selection) (h : sel.shape = .linewise) :
    ¬before (spanOfSelection sel).stop (spanOfSelection sel).start := by
  rw [spanOfSelection, normalizeSelection, h]
  dsimp only
  split
  · next hle =>
    simp only [before]
    omega
  · next hgt =>
    simp only [before]
    omega

/-- **A selection follows its text through reflow**: anchored between two text cells of one layout, and followed in another with its
markers on the same lines' first rows, it is between the same text cells. -/
theorem follow_same_text {translate : BufferLine → Nat → Nat → JsString} (ht : Reads translate) (lines : List (List BufferCell))
    (hlines : ∀ t ∈ lines, TextLine t) (w w' : Nat) (hw : 2 ≤ w) (hw' : 2 ≤ w') (sel : Selection)
    (hshape : sel.shape = .linewise)
    (hdragging : sel.dragging = false) (howner : sel.program = false) (a b i j : Nat) (s t : List BufferCell)
    (ha : lines[a]? = some s) (hb : lines[b]? = some t) (hi : i < s.length) (hj : j < t.length)
    (hstart : (spanOfSelection sel).start = textPos w lines a i) (hstop : (spanOfSelection sel).stop = textPos w lines b j) :
    ∃ anchor, anchorSelection translate ⟨.normal, layout w lines⟩ sel = some anchor ∧
      anchor.start.marker = firstRow w lines a ∧ anchor.stop.marker = firstRow w lines b ∧
      followReflow translate ⟨.normal, layout w' lines⟩
          { anchor with start.marker := firstRow w' lines a, stop.marker := firstRow w' lines b } =
        some ⟨textPos w' lines a i, textPos w' lines b j, false⟩ := by
  have hs := hlines s (List.mem_of_getElem? ha)
  have ht' := hlines t (List.mem_of_getElem? hb)
  have hordered := spanOfSelection_ordered sel hshape
  rw [hstart, hstop] at hordered
  have hab := ordered_of_textPos ha hb hi hj hordered
  refine ⟨⟨⟨firstRow w lines a, i⟩, ⟨firstRow w lines b, j⟩, [0x0a].intercalate (spanLines translate lines a i b j)⟩,
    ?_, rfl, rfl, ?_⟩
  · rw [anchorSelection, if_neg (by simp [hshape, hdragging, howner])]
    dsimp only
    rw [hstart, hstop, reflowText_layout ht hlines hw ha hb hi hj hab, lineOffset_textPos ha hw hs hi,
      lineOffset_textPos hb hw ht' hj]
  · rw [followReflow, if_neg (by simp)]
    dsimp only
    rw [locateEdge_textPos ha hw' hs hi, locateEdge_textPos hb hw' ht' hj]
    dsimp only
    rw [reflowText_layout ht hlines hw' ha hb hi hj hab, if_pos rfl]

/-- A reading that goes past the second half of each wide character it reads the first of. -/
def readCells : Nat → List BufferCell → JsString
  | _,        []      => []
  | skip + 1, _ :: cs => readCells skip cs
  | 0,        c :: cs => (if c.chars = [] then [0x20] else c.chars) ++ readCells (c.width - 1) cs

theorem readCells_append : ∀ (xs ys : List BufferCell) (skip : Nat), skip ≤ xs.length → skip ≤ 1 → (∀ c ∈ xs, c.width ≤ 2) →
    ¬EndsHalf xs → readCells skip (xs ++ ys) = readCells skip xs ++ readCells 0 ys
  | [], ys, skip, hle, _, _, _ => by
    obtain rfl : skip = 0 := Nat.le_zero.1 hle
    rfl
  | c :: cs, ys, 1, _, _, hwidths, hend => by
    have hrest : ¬EndsHalf cs := by
      rintro ⟨x, hx, hwide⟩
      refine hend ⟨x, ?_, hwide⟩
      rw [List.getLast?_cons, hx, Option.getD_some]
    rw [List.cons_append, readCells, readCells,
      readCells_append cs ys 0 (Nat.zero_le _) (Nat.zero_le 1) (fun x hx => hwidths x (List.mem_cons_of_mem c hx)) hrest]
  | c :: cs, ys, 0, _, _, hwidths, hend => by
    have hc := hwidths c List.mem_cons_self
    have hskip : c.width - 1 ≤ cs.length := by
      cases cs with
      | nil =>
        have : c.width ≠ 2 := fun hwide => hend ⟨c, rfl, hwide⟩
        show c.width - 1 ≤ 0
        omega
      | cons d cs =>
        rw [List.length_cons]
        omega
    have hrest : ¬EndsHalf cs := by
      rintro ⟨x, hx, hwide⟩
      refine hend ⟨x, ?_, hwide⟩
      rw [List.getLast?_cons, hx, Option.getD_some]
    rw [List.cons_append, readCells, readCells,
      readCells_append cs ys (c.width - 1) hskip (by omega) (fun x hx => hwidths x (List.mem_cons_of_mem c hx)) hrest,
      List.append_assoc]
  | c :: cs, ys, skip + 2, _, hone, _, _ => absurd hone (by omega)

theorem reads_readCells : Reads (fun l a b => readCells 0 ((l.cells.take b).drop a)) where
  cells l l' a b a' b' h := congrArg (readCells 0) h
  parts l a m b hwidths ham hmb hend := by
    have hsplit : (l.cells.take b).drop a = (l.cells.take m).drop a ++ (l.cells.take b).drop m := by
      have htake : ((l.cells.take b).drop a).take (m - a) = (l.cells.take m).drop a := by
        rw [← List.drop_take, List.take_take, Nat.min_eq_left hmb]
      have hdrop : ((l.cells.take b).drop a).drop (m - a) = (l.cells.take b).drop m := by
        rw [List.drop_drop, Nat.add_sub_cancel' ham]
      rw [← htake, ← hdrop, List.take_append_drop]
    rw [hsplit]
    exact readCells_append _ _ 0 (Nat.zero_le _) (Nat.zero_le 1)
      (fun c hc => hwidths c (List.mem_of_mem_take (List.mem_of_mem_drop hc))) hend
  blank := rfl

theorem follow_same_text_three :
    let lines : List (List BufferCell) := [[⟨[0x61], 1⟩, ⟨[0x62], 1⟩, ⟨[0x63], 1⟩]]
    ∃ anchor, anchorSelection (fun l a b => readCells 0 ((l.cells.take b).drop a)) ⟨.normal, layout 2 lines⟩
        ⟨0, 1, 1, 0, .linewise, false, false⟩ = some anchor ∧
      followReflow (fun l a b => readCells 0 ((l.cells.take b).drop a)) ⟨.normal, layout 4 lines⟩
          { anchor with start.marker := firstRow 4 lines 0, stop.marker := firstRow 4 lines 0 } =
        some ⟨textPos 4 lines 0 1, textPos 4 lines 0 2, false⟩ := by
  intro lines
  have hline : TextLine [⟨[0x61], 1⟩, ⟨[0x62], 1⟩, ⟨[0x63], 1⟩] := by
    refine ⟨by decide, fun i => ?_, by decide, fun i c hc hwide => ?_⟩
    · rcases i with _ | _ | _ | i <;> simp [widthAt]
    · rcases i with _ | _ | _ | i <;> simp [widthAt] at hwide
  have hlast : cut 2 [⟨[0x63], 1⟩] = [[⟨[0x63], 1⟩]] := by
    unfold cut
    rw [dif_pos (by decide)]
  have hcut : cut 2 [⟨[0x61], 1⟩, ⟨[0x62], 1⟩, ⟨[0x63], 1⟩] = [[⟨[0x61], 1⟩, ⟨[0x62], 1⟩], [⟨[0x63], 1⟩]] := by
    unfold cut
    rw [dif_neg (by decide)]
    exact congrArg ([⟨[0x61], 1⟩, ⟨[0x62], 1⟩] :: ·) hlast
  have hat : lines[0]? = some [⟨[0x61], 1⟩, ⟨[0x62], 1⟩, ⟨[0x63], 1⟩] := rfl
  obtain ⟨anchor, hanchor, -, -, hfollow⟩ := follow_same_text reads_readCells lines
    (fun t ht => by rw [List.mem_singleton.1 ht]; exact hline) 2 4 (by decide) (by decide) ⟨0, 1, 1, 0, .linewise, false, false⟩
    rfl rfl rfl 0 0 1 2 _ _ hat hat (by decide) (by decide) (by rw [textPos_eq hat, hcut]; rfl)
    (by rw [textPos_eq hat, hcut]; rfl)
  exact ⟨anchor, hanchor, hfollow⟩

end SelectionReflow
end Dormouse

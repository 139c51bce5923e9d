import Dormouse.CopyStrip
/-!
# CopyEssence — copying loses no text

What a scope's text in a format and the cells of the scope have in common (`essence`) is the same characters in the same order,
unless a marker's cell holds more than the marker, or the row after a line of bars ends inside its quote prefix and the copy
throws.
-/
namespace Dormouse
namespace CopyText

open Term (isSpace)

/-! ## The rows of a scope -/

theorem flatten_pushLine (lines : List (List Line)) (l : Line) : (pushLine lines l).flatten = lines.flatten ++ [l] := by
  unfold pushLine
  split
  · next h =>
    rw [Bool.and_eq_true, Bool.not_eq_true', List.isEmpty_eq_false_iff] at h
    conv => rhs; rw [← List.dropLast_append_getLast h.2]
    rw [List.getLast?_eq_some_getLast h.2]
    simp only [Option.getD_some, List.flatten_append, List.flatten_cons, List.flatten_nil, List.append_nil, List.append_assoc]
  · rw [List.flatten_append, List.flatten_singleton]

theorem extract_flatten (buf : CopyBuffer) (scope original : Span) :
    (extract buf scope original).flatten = (scopeRows scope).map (rowLine buf scope original) := by
  have hfold : ∀ (ls : List Line) (lines : List (List Line)), (ls.foldl pushLine lines).flatten = lines.flatten ++ ls := by
    intro ls
    induction ls with
    | nil => exact fun lines => (List.append_nil _).symm
    | cons l ls ih =>
      intro lines
      rw [List.foldl_cons, ih, flatten_pushLine, List.append_assoc, List.singleton_append]
  exact hfold _ []

/-- The text of row `r` in a scope. -/
def rowCells (buf : CopyBuffer) (scope : Span) (r : Nat) : List JsString := (scopeCells buf scope r).map (·.1)

def scopeText (buf : CopyBuffer) (scope : Span) : JsString :=
  (scopeRows scope).flatMap (fun r => (rowCells buf scope r).flatten)

/-- A row's cells as they are read: a wide character's second half is none. -/
def readCells (buf : CopyBuffer) (scope original : Span) (r : Nat) : List Cell :=
  ((scopeCells buf scope r).filter (fun c => c.1 ≠ [])).map (fun c => ⟨c.1, !contains original ⟨r, c.2⟩⟩)

theorem rowLine_cells (buf : CopyBuffer) (scope original : Span) (r : Nat) :
    (rowLine buf scope original r).cells ++ (rowLine buf scope original r).trail = readCells buf scope original r :=
    splitTrail_append _

theorem rowLine_raw (buf : CopyBuffer) (scope original : Span) (r : Nat) : RawLine (rowLine buf scope original r) :=
  ⟨slight_splitTrail _, rfl⟩

theorem cellsText_filter (added : Nat → Bool) : ∀ (cells : List (JsString × Nat)),
    cellsText ((cells.filter (fun c => c.1 ≠ [])).map (fun c => ⟨c.1, added c.2⟩)) = (cells.map (·.1)).flatten
  | [] => rfl
  | c :: cells => by
    have ih := cellsText_filter added cells
    rw [List.map_cons, List.flatten_cons, List.filter_cons]
    split
    · rw [List.map_cons, cellsText_cons, ih]
    · next h =>
      have hc : c.1 = [] := by simpa using h
      rw [hc, List.nil_append, ih]

theorem cellsText_readCells (buf : CopyBuffer) (scope original : Span) (r : Nat) :
    cellsText (readCells buf scope original r) = (rowCells buf scope r).flatten :=
  cellsText_filter (fun col => !contains original ⟨r, col⟩) _

theorem lineEssence_rows (buf : CopyBuffer) (scope original : Span) : ∀ (rows : List Nat),
    lineEssence (rows.map (rowLine buf scope original)) = essence (rows.flatMap (fun r => (rowCells buf scope r).flatten))
  | [] => rfl
  | r :: rows => by
    rw [List.map_cons, lineEssence_cons, lineEssence_rows buf scope original rows, List.flatMap_cons, essence_append,
      ← cellsText_readCells buf scope original, ← rowLine_cells,
      essence_of_slight_right (rowLine_raw buf scope original r).trail]

theorem lineEssence_extract (buf : CopyBuffer) (scope original : Span) :
    lineEssence (extract buf scope original).flatten = essence (scopeText buf scope) := by
  rw [extract_flatten]
  exact lineEssence_rows buf scope original _

theorem extract_raw {buf : CopyBuffer} {scope original : Span} {rows : List Line} (h : rows ∈ extract buf scope original) :
    ∀ l ∈ rows, ∃ r, l = rowLine buf scope original r := by
  intro l hl
  have hmem : l ∈ (extract buf scope original).flatten := List.mem_flatten.2 ⟨rows, h, hl⟩
  rw [extract_flatten] at hmem
  obtain ⟨r, _, rfl⟩ := List.mem_map.1 hmem
  exact ⟨r, rfl⟩

def PlainBuffer (buf : CopyBuffer) : Prop := ∀ row ∈ buf.rows, ∀ chars ∈ row.cells, Plain chars

theorem plain_row {buf : CopyBuffer} (h : PlainBuffer buf) (r : Nat) : ∀ chars ∈ (buf.row r).cells, Plain chars := by
  intro chars hchars
  unfold CopyBuffer.row at hchars
  cases hrow : buf.rows[r]? with
  | none =>
    rw [hrow] at hchars
    exact absurd hchars List.not_mem_nil
  | some row =>
    rw [hrow] at hchars
    exact h row (List.mem_of_getElem? hrow) chars hchars

theorem plain_rowLine {buf : CopyBuffer} (h : PlainBuffer buf) (scope original : Span) (r : Nat) :
    ∀ c ∈ (rowLine buf scope original r).cells ++ (rowLine buf scope original r).trail, Plain c.ch := by
  intro c hc
  rw [rowLine_cells, readCells] at hc
  obtain ⟨d, hd, rfl⟩ := List.mem_map.1 hc
  have hmem : d ∈ (buf.row r).cells.zipIdx := List.mem_of_mem_take (List.mem_of_mem_drop (List.mem_of_mem_filter hd))
  exact plain_row h r d.1 (List.fst_mem_of_mem_zipIdx hmem)

/-! ## All the lines of a scope -/

theorem stripped_cons (rows : List Line) (lines : List (List Line)) : ((rows :: lines).filterMap stripDecoration).flatten =
    (stripDecoration rows).getD [] ++ (lines.filterMap stripDecoration).flatten := by
  rw [List.filterMap_cons]
  cases stripDecoration rows <;> rfl

theorem lineEssence_length_stripped : ∀ {lines : List (List Line)}, (∀ rows ∈ lines, ∀ l ∈ rows, RawLine l) →
    (lineEssence lines.flatten).length = (lineEssence (lines.filterMap stripDecoration).flatten).length +
      (lines.map (fun rows => (essence (cellsText (markerCells (joinedCells rows)))).length)).sum
  | [], _ => rfl
  | rows :: lines, hraw => by
    obtain ⟨P, S, hall, hkept⟩ := stripDecoration_essence (hraw rows List.mem_cons_self)
    have ih := @lineEssence_length_stripped lines (fun rs hrs => hraw rs (List.mem_cons_of_mem rows hrs))
    rw [stripped_cons, List.flatten_cons, lineEssence_append, lineEssence_append, hall, hkept, List.map_cons, List.sum_cons]
    simp only [List.length_append]
    omega

theorem lineEssence_stripped : ∀ {lines : List (List Line)}, (∀ rows ∈ lines, ∀ l ∈ rows, RawLine l) →
    (∀ rows ∈ lines, SlightCells (markerCells (joinedCells rows))) →
      lineEssence (lines.filterMap stripDecoration).flatten = lineEssence lines.flatten
  | [], _, _ => rfl
  | rows :: lines, hraw, hslight => by
    obtain ⟨P, S, hall, hkept⟩ := stripDecoration_essence (hraw rows List.mem_cons_self)
    have ih := @lineEssence_stripped lines (fun rs hrs => hraw rs (List.mem_cons_of_mem rows hrs))
      (fun rs hrs => hslight rs (List.mem_cons_of_mem rows hrs))
    have hmarker : essence (cellsText (markerCells (joinedCells rows))) = [] := hslight rows List.mem_cons_self
    rw [stripped_cons, List.flatten_cons, lineEssence_append, lineEssence_append, ih, hall, hkept, hmarker, List.append_nil]

/-- **Stripping keeps all essence where no marker's cell holds any, and only there.** -/
theorem lineEssence_stripped_iff {lines : List (List Line)} (hraw : ∀ rows ∈ lines, ∀ l ∈ rows, RawLine l) :
    lineEssence (lines.filterMap stripDecoration).flatten = lineEssence lines.flatten ↔
      ∀ rows ∈ lines, SlightCells (markerCells (joinedCells rows)) := by
  refine ⟨fun heq rows hrows => ?_, lineEssence_stripped hraw⟩
  have hlen := lineEssence_length_stripped hraw
  rw [heq] at hlen
  have hsum := List.sum_eq_zero_iff_forall_eq_nat.1 (Nat.left_eq_add.1 hlen)
  exact List.eq_nil_of_length_eq_zero (hsum _ (List.mem_map.2 ⟨rows, hrows, rfl⟩))

/-! ## Lines shown -/

/-- A line whose rows shed slight cells, and which is slight where it is blank. -/
structure ShownSound (l : Shown) : Prop where
  line  : LineSound l.1
  blank : l.2 = true → SlightCells l.1.cells

def shownEssence (lines : List Shown) : JsString := lineEssence (lines.map (·.1))

theorem shownEssence_cons (l : Shown) (lines : List Shown) :
    shownEssence (l :: lines) = essence (cellsText l.1.cells) ++ shownEssence lines := by
  rw [shownEssence, List.map_cons, lineEssence_cons]
  rfl

theorem shownEssence_append (p q : List Shown) : shownEssence (p ++ q) = shownEssence p ++ shownEssence q := by
  rw [shownEssence, List.map_append, lineEssence_append]
  rfl

theorem shownEssence_blank {lines : List Shown} (h : ∀ l ∈ lines, ShownSound l) (hblank : ∀ l ∈ lines, l.2 = true) :
    shownEssence lines = [] := by
  induction lines with
  | nil => rfl
  | cons l lines ih =>
    have hl : essence (cellsText l.1.cells) = [] := (h l List.mem_cons_self).blank (hblank l List.mem_cons_self)
    rw [shownEssence_cons, hl, List.nil_append]
    exact ih (fun x hx => h x (List.mem_cons_of_mem l hx)) (fun x hx => hblank x (List.mem_cons_of_mem l hx))

theorem flagged_fst (logical : List (List Line)) : (flagged logical).map (·.1) = logical.flatten := by
  rw [flagged, List.map_flatMap, List.flatten_eq_flatMap]
  refine congrArg (fun f => List.flatMap f logical) (funext fun rows => ?_)
  rw [List.map_map]
  exact List.map_id' rows

theorem flagged_sound {logical : List (List Line)} (h : ∀ rows ∈ logical, ∀ l ∈ rows, LineSound l) :
    ∀ l ∈ flagged logical, ShownSound l := by
  intro l hl
  obtain ⟨rows, hrows, hl⟩ := List.mem_flatMap.1 hl
  obtain ⟨m, hm, rfl⟩ := List.mem_map.1 hl
  refine ⟨h rows hrows m hm, fun hblank => ?_⟩
  have hle : m.cells.length ≤ m.quote := of_decide_eq_true (List.all_eq_true.1 hblank m hm)
  have := (h rows hrows m hm).quote
  rwa [List.take_of_length_le hle] at this

theorem dropDoubled_spec : ∀ {lines : List Shown} (before : Bool), (∀ l ∈ lines, ShownSound l) →
    shownEssence (dropDoubled before lines) = shownEssence lines ∧ ∀ l ∈ dropDoubled before lines, l ∈ lines
  | [], _, _ => ⟨rfl, fun _ h => h⟩
  | l :: lines, before, h => by
    obtain ⟨hess, hmem⟩ := @dropDoubled_spec lines l.2 (fun x hx => h x (List.mem_cons_of_mem l hx))
    rw [dropDoubled]
    split
    · next hdrop =>
      rw [Bool.and_eq_true] at hdrop
      have hl : essence (cellsText l.1.cells) = [] := (h l List.mem_cons_self).blank hdrop.1
      exact ⟨by rw [hess, shownEssence_cons, hl, List.nil_append], fun x hx => List.mem_cons_of_mem l (hmem x hx)⟩
    · refine ⟨by rw [shownEssence_cons, hess, shownEssence_cons], fun x hx => ?_⟩
      rcases List.mem_cons.1 hx with rfl | hx
      · exact List.mem_cons_self
      · exact List.mem_cons_of_mem l (hmem x hx)

theorem shownEssence_filter {lines : List Shown} (h : ∀ l ∈ lines, ShownSound l) :
    shownEssence (lines.filter (fun l => !l.2)) = shownEssence lines := by
  induction lines with
  | nil => rfl
  | cons l lines ih =>
    have ih := ih (fun x hx => h x (List.mem_cons_of_mem l hx))
    rw [List.filter_cons]
    split
    · rw [shownEssence_cons, ih, shownEssence_cons]
    · next hblank =>
      have hl : essence (cellsText l.1.cells) = [] := (h l List.mem_cons_self).blank (by simpa using hblank)
      rw [ih, shownEssence_cons, hl, List.nil_append]

/-- **A format leaves out blank lines only.** -/
theorem shown_spec (format : CopyFormat) {logical : List (List Line)} (h : ∀ rows ∈ logical, ∀ l ∈ rows, LineSound l) :
    shownEssence (shown format logical) = lineEssence logical.flatten ∧ ∀ l ∈ shown format logical, ShownSound l := by
  have hsound := flagged_sound h
  have hall : shownEssence (flagged logical) = lineEssence logical.flatten := congrArg lineEssence (flagged_fst logical)
  have hdropped : ((flagged logical).dropWhile (·.2)).rdropWhile (·.2) ⊆ flagged logical := fun x hx =>
    (List.dropWhile_sublist _).subset ((List.rdropWhile_prefix _ _).subset hx)
  have htext : shownEssence (((flagged logical).dropWhile (·.2)).rdropWhile (·.2)) = lineEssence logical.flatten := by
    have hfront : shownEssence ((flagged logical).takeWhile (·.2)) = [] :=
      shownEssence_blank (fun l hl => hsound l ((List.takeWhile_prefix _).subset hl))
        (fun l hl => List.mem_takeWhile_imp (p := fun l : Shown => l.2) hl)
    have hback : shownEssence (((flagged logical).dropWhile (·.2)).rtakeWhile (·.2)) = [] :=
      shownEssence_blank (fun l hl => hsound l ((List.dropWhile_sublist _).subset ((List.rtakeWhile_suffix _ _).subset hl)))
        (fun l hl => List.mem_rtakeWhile_imp (p := fun l : Shown => l.2) hl)
    refine Eq.trans ?_ hall
    conv => rhs; rw [← List.takeWhile_append_dropWhile (p := (·.2)) (l := flagged logical)]
    rw [shownEssence_append, hfront, List.nil_append]
    conv => rhs; rw [← List.rdropWhile_append_rtakeWhile (p := (·.2)) (l := (flagged logical).dropWhile (·.2))]
    rw [shownEssence_append, hback, List.append_nil]
  have htextSound : ∀ l ∈ ((flagged logical).dropWhile (·.2)).rdropWhile (·.2), ShownSound l := fun l hl =>
    hsound l (hdropped hl)
  cases format with
  | exact => exact ⟨hall, hsound⟩
  | auto =>
    obtain ⟨hess, hmem⟩ := dropDoubled_spec false htextSound
    exact ⟨hess.trans htext, fun l hl => htextSound l (hmem l hl)⟩
  | spaces => exact ⟨(shownEssence_filter htextSound).trans htext, fun l hl => htextSound l (List.mem_of_mem_filter hl)⟩
  | joined => exact ⟨(shownEssence_filter htextSound).trans htext, fun l hl => htextSound l (List.mem_of_mem_filter hl)⟩

/-! ## Lines between those beside them -/

def marks (cells : List Cell) : Nat := (cells.filter (fun c => c.ch ≠ [0x20])).length

theorem quoteEnd_le : ∀ {depth quote : Nat} {cells : List Cell} {n : Nat}, quoteEnd depth quote cells = some n → n ≤ quote
  | 0, _, _, n, h => by
    obtain rfl := Option.some.inj ((by rw [quoteEnd] at h; exact h : some 0 = some n))
    exact Nat.zero_le _
  | _ + 1, 0, _, n, h => by
    rw [quoteEnd] at h
    exact Nat.le_of_eq (Option.some.inj h).symm
  | _ + 1, _ + 1, [], n, h => by
    rw [quoteEnd] at h
    cases h
  | depth + 1, quote + 1, c :: cells, n, h => by
    rw [quoteEnd] at h
    obtain ⟨m, hm, rfl⟩ := Option.map_eq_some_iff.1 h
    exact Nat.succ_le_succ (quoteEnd_le hm)

/-- **A prefix is read past its row where the row is shorter than it and has fewer marks than are asked for.** -/
theorem quoteEnd_eq_none_iff : ∀ {depth quote : Nat} {cells : List Cell},
    quoteEnd depth quote cells = none ↔ cells.length < quote ∧ marks cells < depth
  | 0, quote, cells => by
    rw [quoteEnd.eq_def]
    exact ⟨fun h => (by cases h), fun h => absurd h.2 (Nat.not_lt_zero _)⟩
  | depth + 1, 0, cells => by
    rw [quoteEnd]
    exact ⟨fun h => (by cases h), fun h => absurd h.1 (Nat.not_lt_zero _)⟩
  | depth + 1, quote + 1, [] => by
    rw [quoteEnd]
    exact ⟨fun _ => ⟨Nat.succ_pos _, Nat.succ_pos _⟩, fun _ => rfl⟩
  | depth + 1, quote + 1, c :: cells => by
    rw [quoteEnd, Option.map_eq_none_iff, quoteEnd_eq_none_iff, List.length_cons, Nat.succ_lt_succ_iff, marks,
      marks, List.filter_cons]
    refine and_congr_right fun _ => ?_
    by_cases hc : c.ch = [0x20]
    · rw [if_neg (not_not.2 hc), if_neg (by simpa using hc)]
    · rw [if_pos hc, if_pos (by simpa using hc), List.length_cons, Nat.succ_lt_succ_iff]

section

variable (buf : CopyBuffer)

/-- A line of bars alone before a row that its quote prefix is cut short on. -/
def CutShort : Option Shown × Shown × Option Shown → Prop
  | (some before, (l, true), some after) => isBarsOnly (buf.row l.row).cells.flatten = true ∧
      after.1.cells.length < after.1.quote ∧
      marks after.1.cells < min (lineFacts buf before.1.row).depth (lineFacts buf after.1.row).depth
  | _                                    => False

theorem answer_quoteBlank (before blank after : Line) : (quoteBlank buf before blank after).answer (facts buf) =
    if isBarsOnly (buf.row blank.row).cells.flatten then
      (quoteEnd (min (lineFacts buf before.row).depth (lineFacts buf after.row).depth) after.quote after.cells).map
        (fun end_ => if 0 < end_ then { blank with cells := after.cells.take end_ } else blank)
    else some blank := by
  unfold quoteBlank
  rw [Asks.answer_ite]
  rfl

theorem laidOut_none_iff (t : Option Shown × Shown × Option Shown) :
    (laidOut buf t).answer (facts buf) = none ↔ CutShort buf t := by
  obtain ⟨before, ⟨l, flag⟩, after⟩ := t
  cases before with
  | none => exact ⟨fun h => (by cases h), fun h => h.elim⟩
  | some before =>
    cases flag with
    | false => exact ⟨fun h => (by cases h), fun h => h.elim⟩
    | true =>
      cases after with
      | none => exact ⟨fun h => (by cases h), fun h => h.elim⟩
      | some after =>
        rw [laidOut, answer_quoteBlank, CutShort]
        split
        · next hbars => rw [Option.map_eq_none_iff, quoteEnd_eq_none_iff, and_iff_right hbars]
        · next hbars => exact ⟨fun h => (by cases h), fun h => absurd h.1 hbars⟩

/-- **A line is laid out with its essence.** -/
theorem laidOut_spec {before : Option Shown} {l : Shown} {after : Option Shown} {m : Line} (hl : ShownSound l)
    (hafter : ∀ a ∈ after, ShownSound a) (h : (laidOut buf (before, l, after)).answer (facts buf) = some m) :
    LineSound m ∧ essence (cellsText m.cells) = essence (cellsText l.1.cells) := by
  have hsame : ∀ {m : Line}, some l.1 = some m → LineSound m ∧ essence (cellsText m.cells) = essence (cellsText l.1.cells) := by
    rintro m hm
    obtain rfl := Option.some.inj hm
    exact ⟨hl.line, rfl⟩
  obtain ⟨l, flag⟩ := l
  cases before with
  | none => exact hsame h
  | some before =>
    cases flag with
    | false => exact hsame h
    | true =>
      cases after with
      | none => exact hsame h
      | some after =>
        rw [laidOut, answer_quoteBlank] at h
        split at h
        · obtain ⟨end_, hend, rfl⟩ := Option.map_eq_some_iff.1 h
          split
          · have hslight : SlightCells (after.1.cells.take end_) :=
              (hafter after rfl).line.quote.sub (fun c hc => List.take_subset_take_left _ (quoteEnd_le hend) hc)
            have hblank : essence (cellsText l.cells) = [] := hl.blank rfl
            refine ⟨⟨hl.line.trail, hslight.sub (fun c hc => List.mem_of_mem_take hc)⟩, ?_⟩
            rw [hblank]
            exact hslight
          · exact ⟨hl.line, rfl⟩
        · exact hsame h

/-- **Laid out, lines keep their essence and shed slight cells only.** -/
theorem placed_spec : ∀ {lines : List Shown} {before : Option Shown} {placed : List Line}, (∀ l ∈ lines, ShownSound l) →
    (neighbours before lines).mapM (fun t => (laidOut buf t).answer (facts buf)) = some placed →
      placed.length = lines.length ∧ lineEssence placed = shownEssence lines ∧ ∀ l ∈ placed, LineSound l
  | [], before, placed, _, h => by
    obtain rfl := Option.some.inj ((by simpa [neighbours] using h : some [] = some placed))
    exact ⟨rfl, rfl, fun _ hl => absurd hl List.not_mem_nil⟩
  | l :: lines, before, placed, hsound, h => by
    rw [neighbours, List.mapM_cons] at h
    obtain ⟨m, hm, h⟩ := Option.bind_eq_some_iff.1 h
    obtain ⟨rest, hrest, h⟩ := Option.bind_eq_some_iff.1 h
    obtain rfl := Option.some.inj h
    have htail : ∀ x ∈ lines, ShownSound x := fun x hx => hsound x (List.mem_cons_of_mem l hx)
    obtain ⟨hm', hess⟩ := laidOut_spec buf (hsound l List.mem_cons_self) (fun a ha => htail a (List.mem_of_head? ha)) hm
    obtain ⟨hlen, hrestEss, hrestSound⟩ := placed_spec htail hrest
    refine ⟨congrArg (· + 1) hlen, by rw [lineEssence_cons, hess, hrestEss, shownEssence_cons], fun x hx => ?_⟩
    rcases List.mem_cons.1 hx with rfl | hx
    · exact hm'
    · exact hrestSound x hx

theorem mapM_eq_none_iff {α β : Type} {f : α → Option β} : ∀ {l : List α}, l.mapM f = none ↔ ∃ a ∈ l, f a = none
  | [] => by simp
  | a :: l => by
    rw [List.mapM_cons]
    cases hf : f a with
    | none => exact ⟨fun _ => ⟨a, List.mem_cons_self, hf⟩, fun _ => rfl⟩
    | some b =>
      have ih := mapM_eq_none_iff (f := f) (l := l)
      have hmem : (∃ x ∈ a :: l, f x = none) ↔ ∃ x ∈ l, f x = none := by
        simp [hf]
      rw [hmem, ← ih]
      cases l.mapM f with
      | none => exact ⟨fun _ => rfl, fun _ => rfl⟩
      | some bs => exact ⟨fun h => (by cases h), fun h => (by cases h)⟩

end

/-! ## Rendering -/

theorem essence_breakText (kind : BreakKind) : essence (breakText kind) = [] := by
  cases kind <;> decide

theorem slight_leading (cells : List Cell) : SlightCells (cells.take (leading cells)) := by
  rw [leading, ← List.prefix_iff_eq_take.1 (List.takeWhile_prefix _), slightCells_iff]
  intro c hc u hu
  have hspace : c.ch = [0x20] := of_decide_eq_true (List.mem_takeWhile_imp (p := fun c : Cell => decide (c.ch = [0x20])) hc)
  rw [hspace, List.mem_singleton] at hu
  rw [hu]
  decide

/-- **What a line sheds is slight.** -/
theorem essence_lineCells {l : Line} (h : LineSound l) (format : CopyFormat) (base : Nat) (joined rejoined rejoins : Bool) :
    essence (cellsText (lineCells format base joined rejoined rejoins l)) = essence (cellsText l.cells) := by
  have hlead : SlightCells (l.cells.take (if joined && 0 < l.quote then l.quote + leading (l.cells.drop l.quote)
    else leading l.cells)) := by
    split
    · rw [List.take_add, slightCells_append]
      exact ⟨h.quote, slight_leading _⟩
    · exact slight_leading _
  unfold lineCells
  dsimp only
  generalize (if joined && 0 < l.quote then l.quote + leading (l.cells.drop l.quote) else leading l.cells) = lead at hlead
  have hdrop : ∀ strip, strip ≤ lead → essence (cellsText (l.cells.drop strip)) = essence (cellsText l.cells) := by
    intro strip hstrip
    conv => rhs; rw [← List.take_append_drop strip l.cells]
    exact (essence_of_slight_left (hlead.sub (fun c hc => List.take_subset_take_left _ hstrip hc)) _).symm
  generalize hstrip : (if rejoined then 0
    else if format = .exact then if joined then lead else 0
    else if joined || format ≠ .auto then lead
    else if base < l.startCol || l.continues then lead
    else min lead (base - l.startCol)) = strip
  have hle : strip ≤ lead := by
    rw [← hstrip]
    split
    · exact Nat.zero_le _
    split
    · split
      · exact Nat.le_refl _
      · exact Nat.zero_le _
    split
    · exact Nat.le_refl _
    split
    · exact Nat.le_refl _
    · exact Nat.min_le_left _ _
  split
  · rw [essence_of_slight_right h.trail, hdrop strip hle]
  · exact hdrop strip hle

/-- **A rendering has its lines' essence.** -/
theorem essence_renderFrom (format : CopyFormat) (base : Nat) (overrides : Nat → Option BreakKind) :
    ∀ {lines : List (Line × BreakKind)} (i : Nat) (joined rejoined : Bool), (∀ l ∈ lines, LineSound l.1) →
      essence (renderFrom format base overrides i joined rejoined lines).text = lineEssence (lines.map (·.1))
  | [], i, joined, rejoined, _ => rfl
  | (l, auto) :: lines, i, joined, rejoined, h => by
    have hl := fun rejoins => essence_lineCells (h (l, auto) List.mem_cons_self) format base joined rejoined rejoins
    have ih := fun joined rejoined => @essence_renderFrom format base overrides lines (i + 1) joined rejoined
      (fun x hx => h x (List.mem_cons_of_mem _ hx))
    rw [renderFrom, List.map_cons, lineEssence_cons]
    dsimp only
    split
    · next hnil =>
      rw [List.isEmpty_iff.1 hnil, List.map_nil, lineEssence_nil, List.append_nil]
      exact hl _
    · dsimp only
      rw [essence_append, essence_append, essence_breakText, List.append_nil, hl, ih]

/-! ## Copying -/

section

variable (buf : CopyBuffer)

def shownLines (scope original : Span) (format : CopyFormat) : List Shown :=
  let scopeLines := readScope buf scope original
  shown format (if format = .exact then scopeLines.raw else scopeLines.stripped)

theorem length_neighbours {α : Type} : ∀ (before : Option α) (l : List α), (neighbours before l).length = l.length
  | _, [] => rfl
  | _, a :: l => congrArg (· + 1) (length_neighbours (some a) l)

def decisions (format : CopyFormat) (lines : List Shown) : List BreakKind :=
  (neighbours none lines).map (fun l => (decision buf format l.2.1 l.2.2).answer (facts buf))

/-- **A rendering is made of the lines laid out**, whatever their shared indent. -/
theorem answer_render (scope original : Span) (chosen : CopyFormat) (overrides : Nat → Option BreakKind) :
    ∃ base, (render buf scope original chosen overrides).answer (facts buf) =
      ((neighbours none (shownLines buf scope original (formatOf scope.block chosen))).mapM
        (fun t => (laidOut buf t).answer (facts buf))).map fun placed =>
          renderFrom (formatOf scope.block chosen) base overrides 0 false false
            (placed.zip (decisions buf (formatOf scope.block chosen)
              (shownLines buf scope original (formatOf scope.block chosen)))) := by
  have hlayout : ∀ format, ∃ base, (computeLayout buf (readScope buf scope original) format).answer (facts buf) =
      ((neighbours none (shownLines buf scope original format)).mapM (fun t => (laidOut buf t).answer (facts buf))).map
        (fun placed => ⟨placed, base, decisions buf format (shownLines buf scope original format)⟩) := by
    intro format
    refine ⟨?_, ?_⟩
    rotate_left
    · unfold computeLayout
      simp only [Asks.answer_bind, Asks.answer_each, Asks.answer_eachSome, Asks.answer_pure]
      rfl
  obtain ⟨base, hbase⟩ := hlayout (formatOf scope.block chosen)
  refine ⟨base, ?_⟩
  unfold render renderLines
  rw [Asks.answer_bind]
  show (Option.map _ ((computeLayout buf (readScope buf scope original) (formatOf scope.block chosen)).answer (facts buf))) = _
  rw [hbase, Option.map_map]
  rfl

/-- Copied, a scope has all its characters but for white space, `>`, box and block glyphs and bullets, and in their order. -/
def KeepsText (scope original : Span) (format : CopyFormat) (overrides : Nat → Option BreakKind) : Prop :=
  ∃ r, (render buf scope original format overrides).answer (facts buf) = some r ∧ essence r.text = essence (scopeText buf scope)

/-- With every break kept, Exact writes the scope's rows, trailing blanks trimmed. -/
def WritesRows (scope original : Span) (overrides : Nat → Option BreakKind) : Prop :=
  (∀ i, (overrides i).getD .keep = .keep) →
    ∃ r, (render buf scope original .exact overrides).answer (facts buf) = some r ∧
      r.text = [0x0a].intercalate ((scopeRows scope).map (fun r => ((rowCells buf scope r).rdropWhile isSpaces).flatten))

/-- No cell under a marker holds more than decoration, and no shown line's quote prefix is read past its row. -/
def Unharmed (scope original : Span) (format : CopyFormat) : Prop :=
  format = .exact ∨ ((∀ rows ∈ extract buf scope original, SlightCells (markerCells (joinedCells rows))) ∧
    ∀ t ∈ neighbours none (shownLines buf scope original format), ¬CutShort buf t)

theorem shownLines_spec (hplain : PlainBuffer buf) (scope original : Span) (format : CopyFormat) :
    (∀ l ∈ shownLines buf scope original format, ShownSound l) ∧ shownEssence (shownLines buf scope original format) =
      lineEssence (if format = .exact then extract buf scope original
        else (extract buf scope original).filterMap stripDecoration).flatten := by
  have hraw : ∀ rows ∈ extract buf scope original, ∀ l ∈ rows, RawLine l := fun rows hrows l hl => by
    obtain ⟨r, rfl⟩ := extract_raw hrows l hl
    exact rowLine_raw buf scope original r
  have hlines : ∀ rows ∈ (if format = .exact then extract buf scope original
      else (extract buf scope original).filterMap stripDecoration), ∀ l ∈ rows, LineSound l := by
    split
    · exact fun rows hrows l hl => (hraw rows hrows l hl).sound
    · intro stripped hstripped
      obtain ⟨rows, hrows, hstrip⟩ := List.mem_filterMap.1 hstripped
      have hsound := stripDecoration_sound (hraw rows hrows) (fun l hl => by
        obtain ⟨r, rfl⟩ := extract_raw hrows l hl
        exact plain_rowLine hplain scope original r)
      rwa [hstrip] at hsound
  obtain ⟨hess, hsound⟩ := shown_spec format hlines
  exact ⟨hsound, hess⟩

theorem placed_exact (scope original : Span) :
    (neighbours none (shownLines buf scope original .exact)).mapM (fun t => (laidOut buf t).answer (facts buf)) =
      some ((scopeRows scope).map (rowLine buf scope original)) := by
  have hraw : ∀ l ∈ shownLines buf scope original .exact, l.1.quote = 0 := by
    intro l hl
    have hl' : l ∈ flagged (extract buf scope original) := hl
    obtain ⟨rows, hrows, hl'⟩ := List.mem_flatMap.1 hl'
    obtain ⟨m, hm, rfl⟩ := List.mem_map.1 hl'
    obtain ⟨r, rfl⟩ := extract_raw hrows m hm
    rfl
  have hone : ∀ (before : Option Shown) (l : Shown) (after : Option Shown), (∀ a ∈ after, a.1.quote = 0) →
      (laidOut buf (before, l, after)).answer (facts buf) = some l.1 := by
    intro before l after hafter
    obtain ⟨l, flag⟩ := l
    cases before with
    | none => rfl
    | some before =>
      cases flag with
      | false => rfl
      | true =>
        cases after with
        | none => rfl
        | some after =>
          rw [laidOut, answer_quoteBlank, hafter after rfl]
          split
          · rw [show ∀ depth, quoteEnd depth 0 after.1.cells = some 0 from fun depth => by cases depth <;> rfl]
            rfl
          · rfl
  have hall : ∀ (lines : List Shown) (before : Option Shown), (∀ l ∈ lines, l.1.quote = 0) →
      (neighbours before lines).mapM (fun t => (laidOut buf t).answer (facts buf)) = some (lines.map (·.1)) := by
    intro lines
    induction lines with
    | nil => exact fun _ _ => rfl
    | cons l lines ih =>
      intro before h
      have htail : ∀ x ∈ lines, x.1.quote = 0 := fun x hx => h x (List.mem_cons_of_mem l hx)
      rw [neighbours, List.mapM_cons, hone before l lines.head? (fun a ha => htail a (List.mem_of_head? ha)), ih (some l) htail]
      rfl
  rw [hall _ none hraw, ← extract_flatten]
  exact congrArg some (flagged_fst _)

theorem keepsText_iff (hplain : PlainBuffer buf) (scope original : Span) (chosen : CopyFormat)
    (overrides : Nat → Option BreakKind) :
    KeepsText buf scope original chosen overrides ↔ Unharmed buf scope original (formatOf scope.block chosen) := by
  obtain ⟨base, hrender⟩ := answer_render buf scope original chosen overrides
  unfold KeepsText
  rw [hrender]
  generalize formatOf scope.block chosen = format
  obtain ⟨hsound, hess⟩ := shownLines_spec buf hplain scope original format
  have hraw : ∀ rows ∈ extract buf scope original, ∀ l ∈ rows, RawLine l := fun rows hrows l hl => by
    obtain ⟨r, rfl⟩ := extract_raw hrows l hl
    exact rowLine_raw buf scope original r
  cases hplaced : (neighbours none (shownLines buf scope original format)).mapM (fun t =>
    (laidOut buf t).answer (facts buf)) with
  | none =>
    obtain ⟨t, ht, hcut⟩ := mapM_eq_none_iff.1 hplaced
    rw [laidOut_none_iff] at hcut
    refine ⟨fun ⟨_, hr, _⟩ => (by cases hr), fun h => ?_⟩
    rcases h with rfl | h
    · cases hplaced.symm.trans (placed_exact buf scope original)
    · exact absurd hcut (h.2 t ht)
  | some placed =>
    obtain ⟨hlen, hplacedEss, hplacedSound⟩ := placed_spec buf hsound hplaced
    have hnot : ∀ t ∈ neighbours none (shownLines buf scope original format), ¬CutShort buf t := fun t ht hcut => by
      have := mapM_eq_none_iff (f := fun t => (laidOut buf t).answer (facts buf)).2 ⟨t, ht, (laidOut_none_iff buf t).2 hcut⟩
      cases hplaced.symm.trans this
    have hzip : (placed.zip (decisions buf format (shownLines buf scope original format))).map (·.1) = placed :=
      List.map_fst_zip (Nat.le_of_eq (by rw [hlen, decisions, List.length_map, length_neighbours]))
    have htext : essence (renderFrom format base overrides 0 false false
        (placed.zip (decisions buf format (shownLines buf scope original format)))).text =
          lineEssence (if format = .exact then extract buf scope original
            else (extract buf scope original).filterMap stripDecoration).flatten := by
      rw [essence_renderFrom, hzip, hplacedEss, hess]
      exact fun l hl => hplacedSound l.1 (List.of_mem_zip hl).1
    rw [Option.map_some]
    have hiff : (∃ r, some (renderFrom format base overrides 0 false false
        (placed.zip (decisions buf format (shownLines buf scope original format)))) = some r ∧
          essence r.text = essence (scopeText buf scope)) ↔ lineEssence (if format = .exact then extract buf scope original
            else (extract buf scope original).filterMap stripDecoration).flatten =
              lineEssence (extract buf scope original).flatten := by
      rw [lineEssence_extract, ← htext]
      exact ⟨fun ⟨r, hr, heq⟩ => Option.some.inj hr ▸ heq, fun h => ⟨_, rfl, h⟩⟩
    rw [hiff]
    by_cases hexact : format = .exact
    · rw [if_pos hexact]
      exact ⟨fun _ => Or.inl hexact, fun _ => rfl⟩
    · rw [if_neg hexact, lineEssence_stripped_iff hraw]
      exact ⟨fun h => Or.inr ⟨h, hnot⟩, fun h => (h.resolve_left hexact).1⟩

theorem renderFrom_keep {overrides : Nat → Option BreakKind} (h : ∀ i, (overrides i).getD .keep = .keep) (base : Nat) :
    ∀ (lines : List (Line × BreakKind)) (i : Nat), (∀ l ∈ lines, l.2 = .keep) →
      (renderFrom .exact base overrides i false false lines).text =
      [0x0a].intercalate (lines.map (fun l => cellsText l.1.cells))
  | [], i, _ => rfl
  | [(l, auto)], i, hkeep => by
    have hauto : auto = .keep := hkeep (l, auto) List.mem_cons_self
    subst hauto
    rw [renderFrom, h i]
    exact (List.append_nil (cellsText l.cells)).symm
  | (l, auto) :: m :: lines, i, hkeep => by
    have hauto : auto = .keep := hkeep (l, auto) List.mem_cons_self
    have ih := renderFrom_keep h base (m :: lines) (i + 1) (fun x hx => hkeep x (List.mem_cons_of_mem _ hx))
    subst hauto
    rw [renderFrom, h i]
    show cellsText l.cells ++ [0x0a] ++ (renderFrom .exact base overrides (i + 1) false false (m :: lines)).text = _
    rw [ih]
    simp [List.intercalate]

theorem cellsText_rowLine (scope original : Span) (r : Nat) :
    cellsText (rowLine buf scope original r).cells = ((rowCells buf scope r).rdropWhile isSpaces).flatten := by
  show cellsText ((readCells buf scope original r).rdropWhile (fun c => isSpaces c.ch)) = _
  unfold rowCells readCells
  generalize scopeCells buf scope r = cells
  induction cells using List.reverseRecOn with
  | nil => rfl
  | append_singleton cells c ih =>
    rw [List.map_append, List.map_singleton, List.filter_append]
    by_cases hempty : c.1 = []
    · have hone : [c].filter (fun c => c.1 ≠ []) = [] := by simp [hempty]
      rw [hone, List.append_nil, hempty, List.rdropWhile_concat_pos (p := isSpaces) _ _ rfl, ih]
    · have hone : [c].filter (fun c => c.1 ≠ []) = [c] := by simp [hempty]
      rw [hone, List.map_append, List.map_singleton]
      by_cases hspaces : isSpaces c.1 = true
      · rw [List.rdropWhile_concat_pos (p := isSpaces) _ _ hspaces,
          List.rdropWhile_concat_pos (p := fun c : Cell => isSpaces c.ch) _ _ hspaces, ih]
      · rw [List.rdropWhile_concat_neg (p := isSpaces) _ _ hspaces,
          List.rdropWhile_concat_neg (p := fun c : Cell => isSpaces c.ch) _ _ hspaces, cellsText_append, List.flatten_append,
          cellsText_filter (fun col => !contains original ⟨r, col⟩)]
        refine congrArg (_ ++ ·) ?_
        rw [cellsText, List.flatMap_singleton, List.flatten_singleton]

theorem writesRows (scope original : Span) (overrides : Nat → Option BreakKind) : WritesRows buf scope original overrides := by
  intro hkeep
  obtain ⟨base, hrender⟩ := answer_render buf scope original .exact overrides
  have hformat : formatOf scope.block .exact = .exact := by
    unfold formatOf
    rw [if_neg (by simp)]
  rw [hformat, placed_exact] at hrender
  refine ⟨_, hrender, ?_⟩
  have hdecided : ∀ d ∈ decisions buf .exact (shownLines buf scope original .exact), d = .keep := by
    intro d hd
    obtain ⟨t, _, rfl⟩ := List.mem_map.1 hd
    obtain ⟨_, l, after⟩ := t
    cases after <;> rfl
  have hlen : ((scopeRows scope).map (rowLine buf scope original)).length =
      (decisions buf .exact (shownLines buf scope original .exact)).length := by
    rw [← extract_flatten, ← flagged_fst, List.length_map, decisions, List.length_map, length_neighbours]
    rfl
  rw [renderFrom_keep hkeep base _ 0 (fun l hl => hdecided l.2 (List.of_mem_zip hl).2)]
  refine congrArg _ ?_
  have hfst := List.map_fst_zip (Nat.le_of_eq hlen)
  calc _ = (((scopeRows scope).map (rowLine buf scope original)).zip
          (decisions buf .exact (shownLines buf scope original .exact)) |>.map Prod.fst).map (fun l => cellsText l.cells) := by
        rw [List.map_map]; rfl
    _ = _ := by
        rw [hfst, List.map_map]
        exact List.map_congr_left (fun r _ => cellsText_rowLine buf scope original r)

/-- **Copying loses no text** where no cell under a marker holds more than the marker and no row ends inside a quote prefix that the
line of bars before it is written with; and Exact, every break kept, writes the scope's rows. -/
theorem copy_loses_no_text (hplain : PlainBuffer buf) (scope original : Span) (format : CopyFormat)
    (overrides : Nat → Option BreakKind) : (KeepsText buf scope original format overrides ∧
      WritesRows buf scope original overrides) ↔
      Unharmed buf scope original (formatOf scope.block format) :=
  (and_iff_left (writesRows buf scope original overrides)).trans (keepsText_iff buf hplain scope original format overrides)

end

/-! ## A quote prefix that a soft wrap cuts -/

/-- A quote of two levels, a line of bars, and a quote of two levels that is wrapped after its first mark. -/
def cutQuote : CopyBuffer :=
  ⟨7, [⟨(units "> > aaa").map (fun u => [u]), false⟩, ⟨[[0x258e]], false⟩, ⟨(units "> ").map (fun u => [u]), false⟩,
    ⟨(units "> foo").map (fun u => [u]), true⟩]⟩

def cutQuoteScope : Span := ⟨⟨0, 0⟩, ⟨3, 6⟩, false⟩

theorem plain_single (u : UInt16) : Plain [u] := by
  intro v hv _
  rw [List.mem_singleton.1 hv]

theorem plain_cutQuote : PlainBuffer cutQuote := by
  intro row hrow chars hchars
  have hmap : ∀ s : JsString, ∀ chars ∈ s.map (fun u => [u]), Plain chars := by
    intro s chars hchars
    obtain ⟨u, _, rfl⟩ := List.mem_map.1 hchars
    exact plain_single u
  simp only [cutQuote, List.mem_cons, List.not_mem_nil, or_false] at hrow
  rcases hrow with rfl | rfl | rfl | rfl
  · exact hmap _ chars hchars
  · rw [List.mem_singleton.1 hchars]
    exact plain_single _
  · exact hmap _ chars hchars
  · exact hmap _ chars hchars

/-- **The copy of a plain buffer can throw.** -/
theorem copy_throws : ¬∀ (buf : CopyBuffer) (scope original : Span) (format : CopyFormat) (overrides : Nat → Option BreakKind),
    PlainBuffer buf → KeepsText buf scope original format overrides ∧ WritesRows buf scope original overrides := by
  intro h
  obtain ⟨r, hr, _⟩ := (h cutQuote cutQuoteScope cutQuoteScope .auto (fun _ => none) plain_cutQuote).1
  have hnone : ((render cutQuote cutQuoteScope cutQuoteScope .auto (fun _ => none)).answer (facts cutQuote)).isNone = true := by
    decide +kernel
  rw [hr] at hnone
  cases hnone

theorem copy_loses_no_text_quote :
    (KeepsText cutQuote cutQuoteScope cutQuoteScope .auto (fun _ => none) ∧
      WritesRows cutQuote cutQuoteScope cutQuoteScope (fun _ => none)) ↔
      Unharmed cutQuote cutQuoteScope cutQuoteScope .auto :=
  copy_loses_no_text cutQuote plain_cutQuote cutQuoteScope cutQuoteScope .auto (fun _ => none)

end CopyText
end Dormouse

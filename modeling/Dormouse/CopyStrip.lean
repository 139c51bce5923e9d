import Dormouse.CopyRender
import Mathlib.Data.List.Infix
/-!
# CopyStrip — what stripping decoration leaves of a line

`essence` is a text without white space, `>`, box and block glyphs and bullets.  Stripping a logical line's decoration loses the
essence of the cells under its leading marker and none other (`stripDecoration_essence`), and leaves rows that are
`LineSound`: what a joined line sheds of them is slight.
-/
namespace Dormouse
namespace CopyText

open Term (isSpace)

/-! ## Essence -/

def essence (s : JsString) : JsString := s.filter (fun c => !isSlight c)

theorem essence_append (s t : JsString) : essence (s ++ t) = essence s ++ essence t := List.filter_append _ _

theorem essence_eq_nil_iff {s : JsString} : essence s = [] ↔ ∀ c ∈ s, isSlight c = true := by
  rw [essence, List.filter_eq_nil_iff]
  exact forall₂_congr (fun c _ => by rw [Bool.not_eq_true, Bool.not_eq_false'])

theorem essence_space : essence [0x20] = [] := by decide

theorem essence_quoteMark : essence [0x3e] = [] := by decide

theorem cellsText_append (p q : List Cell) : cellsText (p ++ q) = cellsText p ++ cellsText q := List.flatMap_append

theorem cellsText_cons (c : Cell) (cells : List Cell) : cellsText (c :: cells) = c.ch ++ cellsText cells := List.flatMap_cons

def SlightCells (cells : List Cell) : Prop := essence (cellsText cells) = []

theorem SlightCells.nil : SlightCells [] := rfl

theorem slightCells_append {p q : List Cell} : SlightCells (p ++ q) ↔ SlightCells p ∧ SlightCells q := by
  rw [SlightCells, cellsText_append, essence_append, List.append_eq_nil_iff]
  rfl

theorem slightCells_iff {cells : List Cell} : SlightCells cells ↔ ∀ c ∈ cells, ∀ u ∈ c.ch, isSlight u = true := by
  rw [SlightCells, essence_eq_nil_iff]
  exact ⟨fun h c hc u hu => h u (List.mem_flatMap.2 ⟨c, hc, hu⟩), fun h u hu => by
    obtain ⟨c, hc, huc⟩ := List.mem_flatMap.1 hu
    exact h c hc u huc⟩

theorem SlightCells.sub {p q : List Cell} (h : SlightCells q) (hpq : ∀ c ∈ p, c ∈ q) : SlightCells p :=
  slightCells_iff.2 (fun c hc => slightCells_iff.1 h c (hpq c hc))

theorem essence_cells_append (p q : List Cell) :
    essence (cellsText (p ++ q)) = essence (cellsText p) ++ essence (cellsText q) := by
  rw [cellsText_append, essence_append]

theorem essence_of_slight_left {p : List Cell} (h : SlightCells p) (q : List Cell) :
    essence (cellsText (p ++ q)) = essence (cellsText q) := by
  rw [essence_cells_append, h, List.nil_append]

theorem essence_of_slight_right {q : List Cell} (h : SlightCells q) (p : List Cell) :
    essence (cellsText (p ++ q)) = essence (cellsText p) := by
  rw [essence_cells_append, h, List.append_nil]

/-! ## Trails -/

theorem splitTrail_append (cells : List Cell) : (splitTrail cells).1 ++ (splitTrail cells).2 = cells := by
  have hinitial := List.prefix_iff_eq_append.1 (List.rdropWhile_prefix (fun c : Cell => isSpaces c.ch) cells)
  exact hinitial

theorem slight_splitTrail (cells : List Cell) : SlightCells (splitTrail cells).2 := by
  have hsplit := splitTrail_append cells
  have htail : (splitTrail cells).2 = cells.rtakeWhile (fun c => isSpaces c.ch) := by
    refine List.append_cancel_left (hsplit.trans ?_)
    exact List.rdropWhile_append_rtakeWhile.symm
  rw [htail, slightCells_iff]
  intro c hc u hu
  have hspaces : isSpaces c.ch = true := List.mem_rtakeWhile_imp (p := fun c : Cell => isSpaces c.ch) hc
  exact isSlight_of_space (List.all_eq_true.1 hspaces u hu)

theorem essence_splitTrail (cells : List Cell) : essence (cellsText (splitTrail cells).1) = essence (cellsText cells) := by
  conv => rhs; rw [← splitTrail_append cells]
  exact (essence_of_slight_right (slight_splitTrail cells) _).symm

/-! ## Cells of units -/

theorem cellsForChars_mono : ∀ (cells : List Cell) {m n : Nat}, m ≤ n → cellsForChars cells m ≤ cellsForChars cells n
  | [], _, _, _ => Nat.le_refl 0
  | c :: cells, m, n, h => by
    rw [cellsForChars, cellsForChars]
    split
    · rw [if_pos (by omega)]
      exact Nat.succ_le_succ (cellsForChars_mono cells (Nat.sub_le_sub_right h _))
    · exact Nat.zero_le _

theorem mem_drop_cellsForChars : ∀ (cells : List Cell) (n : Nat) {u : UInt16},
    u ∈ cellsText (cells.drop (cellsForChars cells n)) → u ∈ (cellsText cells).drop n
  | [], n, u, h => by
    rw [List.drop_nil] at h
    exact absurd h List.not_mem_nil
  | c :: cells, n, u, h => by
    rw [cellsForChars] at h
    rw [cellsText_cons]
    split at h
    · rw [List.drop_succ_cons] at h
      have ih := mem_drop_cellsForChars cells (n - c.ch.length) h
      rw [List.drop_append]
      exact List.mem_append_right _ ih
    · next hn =>
      obtain rfl : n = 0 := Nat.eq_zero_of_not_pos hn
      rwa [List.drop_zero, cellsText_cons] at h

def isGlyph (c : UInt16) : Bool := isBox c || isBullet c || c = 0x3e

def Plain (chars : JsString) : Prop := ∀ u ∈ chars, isGlyph u = true → chars = [u]

theorem isGlyph_of_mark {c : UInt16} (h : isQuoteMark c = true) : isGlyph c = true := by
  rw [isQuoteMark, Bool.or_eq_true, decide_eq_true_eq] at h
  rcases h with rfl | h
  · decide
  · rw [isGlyph, isBox_of_bar h, Bool.true_or, Bool.true_or]

theorem take_cellsForChars : ∀ {cells : List Cell} {n : Nat} {pre : JsString} {mark : UInt16}, (∀ c ∈ cells, Plain c.ch) →
    isGlyph mark = true → (cellsText cells).take n = pre ++ [mark] →
    cellsText (cells.take (cellsForChars cells n)) = pre ++ [mark]
  | [], n, pre, mark, _, _, h => by
    rw [cellsText, List.flatMap_nil, List.take_nil] at h
    exact absurd h.symm (List.append_ne_nil_of_right_ne_nil _ (List.cons_ne_nil _ _))
  | c :: cells, n, pre, mark, hplain, hmark, h => by
    have hn : 0 < n := by
      rcases Nat.eq_zero_or_pos n with rfl | hn
      · rw [List.take_zero] at h
        exact absurd h.symm (List.append_ne_nil_of_right_ne_nil _ (List.cons_ne_nil _ _))
      · exact hn
    rw [cellsForChars, if_pos hn, List.take_succ_cons, cellsText_cons]
    rw [cellsText_cons, List.take_append] at h
    have hlast : mark ∈ c.ch → c.ch = [mark] := fun hm => hplain c List.mem_cons_self mark hm hmark
    by_cases hrest : (cellsText cells).take (n - c.ch.length) = []
    · -- the glyph is in this cell, and what follows holds none of the units
      rw [hrest, List.append_nil] at h
      have hc : c.ch = [mark] := hlast (List.mem_of_mem_take (h ▸ List.mem_append_right pre (List.mem_singleton_self mark)))
      rw [hc, List.take_of_length_le (Nat.succ_le_of_lt hn)] at h
      rw [hc, ← h]
      have hnone : cellsText (cells.take (cellsForChars cells (n - [mark].length))) = [] := by
        rcases List.take_eq_nil_iff.1 hrest with hzero | hnil
        · rw [hc] at hzero
          rw [hzero]
          cases cells <;> rfl
        · rw [List.eq_nil_iff_forall_not_mem] at hnil ⊢
          intro u hu
          obtain ⟨d, hd, hud⟩ := List.mem_flatMap.1 hu
          exact hnil u (List.mem_flatMap.2 ⟨d, List.mem_of_mem_take hd, hud⟩)
      rw [hnone, List.append_nil]
    · have hlong : c.ch.length < n := by
        have := mt List.take_eq_nil_iff.2 hrest
        omega
      rw [List.take_of_length_le (Nat.le_of_lt hlong)] at h
      obtain ⟨pre', hpre'⟩ : ∃ pre', (cellsText cells).take (n - c.ch.length) = pre' ++ [mark] := by
        refine ⟨_, (List.dropLast_append_getLast hrest).symm.trans (congrArg _ (congrArg (fun x => [x]) ?_))⟩
        have := congrArg List.getLast? h
        rw [List.getLast?_append_of_ne_nil _ hrest, List.getLast?_append, List.getLast?_singleton,
          List.getLast?_eq_some_getLast hrest] at this
        exact Option.some.inj this
      have hpre : pre = c.ch ++ pre' := by
        rw [hpre', ← List.append_assoc] at h
        exact (List.append_inj_left' h rfl).symm
      rw [take_cellsForChars (fun d hd => hplain d (List.mem_cons_of_mem c hd)) hmark hpre', hpre, List.append_assoc]

theorem cellsForChars_le : ∀ (cells : List Cell) (n : Nat), cellsForChars cells n ≤ cells.length
  | [], _ => Nat.le_refl 0
  | c :: cells, n => by
    rw [cellsForChars]
    split
    · exact Nat.succ_le_succ (cellsForChars_le cells _)
    · exact Nat.zero_le _

/-! ## Decoration in cells -/

/-- A line's cells as they read without decoration, `n` cells before them. -/
def undecoratedFrom (s : CellSpans) (n : Nat) (cells : List Cell) : List Cell :=
  (cells.zipIdx n).map (fun c => undecorated s.from_ s.to_ s.qFrom s.qTo c.1 c.2)

theorem undecoratedFrom_append (s : CellSpans) (n : Nat) (p q : List Cell) :
    undecoratedFrom s n (p ++ q) = undecoratedFrom s n p ++ undecoratedFrom s (n + p.length) q := by
  rw [undecoratedFrom, List.zipIdx_append, List.map_append]
  rfl

theorem undecoratedFrom_cons (s : CellSpans) (n : Nat) (c : Cell) (cells : List Cell) :
    undecoratedFrom s n (c :: cells) = undecorated s.from_ s.to_ s.qFrom s.qTo c n :: undecoratedFrom s (n + 1) cells := rfl

theorem length_undecoratedFrom (s : CellSpans) (n : Nat) (cells : List Cell) :
    (undecoratedFrom s n cells).length = cells.length := by
  rw [undecoratedFrom, List.length_map, List.length_zipIdx]

theorem take_undecoratedFrom (s : CellSpans) (m n : Nat) (cells : List Cell) :
    (undecoratedFrom s m cells).take n = undecoratedFrom s m (cells.take n) := by
  rcases Nat.le_total n cells.length with hle | hle
  · conv => lhs; rw [← List.take_append_drop n cells]
    rw [undecoratedFrom_append]
    exact List.take_left' (by rw [length_undecoratedFrom, List.length_take_of_le hle])
  · rw [List.take_of_length_le hle, List.take_of_length_le (by rwa [length_undecoratedFrom])]

theorem essence_asQuoteMark (c : Cell) : essence (asQuoteMark c).ch = essence c.ch := by
  rw [asQuoteMark]
  split
  · next h =>
    rw [Bool.and_eq_true] at h
    have hbars : essence c.ch = [] := essence_eq_nil_iff.2 (fun u hu =>
      isSlight_of_box (isBox_of_bar (List.all_eq_true.1 h.2 u hu)))
    rw [hbars]
    exact essence_quoteMark
  · rfl

theorem essence_undecoratedFrom {s : CellSpans} : ∀ {cells : List Cell} {n : Nat},
    (∀ i, n ≤ i → i < n + cells.length → ¬(s.from_ ≤ i ∧ i < s.to_)) →
      essence (cellsText (undecoratedFrom s n cells)) = essence (cellsText cells)
  | [], n, _ => rfl
  | c :: cells, n, h => by
    have hself := h n (Nat.le_refl n) (by rw [List.length_cons]; omega)
    have ih := @essence_undecoratedFrom s cells (n + 1)
      (fun i hi hlt => h i (by omega) (by rw [List.length_cons]; omega))
    rw [undecoratedFrom_cons, cellsText_cons, cellsText_cons, essence_append, essence_append, ih, undecorated,
      if_neg (by rwa [Bool.and_eq_true, decide_eq_true_eq, decide_eq_true_eq])]
    split
    · rw [essence_asQuoteMark]
    · rfl

theorem slight_undecoratedFrom {s : CellSpans} : ∀ {cells : List Cell} {n : Nat}, s.from_ ≤ n → n + cells.length ≤ s.to_ →
    SlightCells (undecoratedFrom s n cells)
  | [], n, _, _ => SlightCells.nil
  | c :: cells, n, hn, hn' => by
    rw [List.length_cons] at hn'
    rw [undecoratedFrom_cons, undecorated, if_pos (by rw [Bool.and_eq_true, decide_eq_true_eq, decide_eq_true_eq]; omega)]
    have ih := @slight_undecoratedFrom s cells (n + 1) (by omega) (by omega)
    rw [SlightCells, cellsText_cons, essence_append, ih, List.append_nil]
    exact essence_space

theorem undecoratedFrom_eq {s : CellSpans} : ∀ {cells : List Cell} {n : Nat},
    (∀ i, n ≤ i → i < n + cells.length → ¬(s.from_ ≤ i ∧ i < s.to_) ∧ ¬(s.qFrom ≤ i ∧ i < s.qTo)) →
    undecoratedFrom s n cells = cells
  | [], n, _ => rfl
  | c :: cells, n, h => by
    obtain ⟨hmarker, hquote⟩ := h n (Nat.le_refl n) (by rw [List.length_cons]; omega)
    have ih := @undecoratedFrom_eq s cells (n + 1)
      (fun i hi hlt => h i (by omega) (by rw [List.length_cons]; omega))
    rw [undecoratedFrom_cons, ih, undecorated, if_neg (by rwa [Bool.and_eq_true, decide_eq_true_eq, decide_eq_true_eq]),
      if_neg (by rwa [Bool.and_eq_true, decide_eq_true_eq, decide_eq_true_eq])]

theorem slight_undecorated {s : CellSpans} {c : Cell} {i : Nat} (h : ∀ u ∈ c.ch, isSlight u = true) :
    ∀ u ∈ (undecorated s.from_ s.to_ s.qFrom s.qTo c i).ch, isSlight u = true := by
  rw [← essence_eq_nil_iff] at h ⊢
  rw [undecorated]
  split
  · exact essence_space
  split
  · rw [essence_asQuoteMark, h]
  · exact h

theorem keptCells_prefix (joined : List Cell) (s : CellSpans) : keptCells joined s <+: undecoratedFrom s 0 joined := by
  have htake : undecoratedFrom s 0 (joined.take s.keepTo) <+: undecoratedFrom s 0 joined := by
    conv => rhs; rw [← List.take_append_drop s.keepTo joined]
    rw [undecoratedFrom_append]
    exact List.prefix_append _ _
  unfold keptCells
  dsimp only
  split
  · exact List.IsPrefix.trans ⟨_, splitTrail_append _⟩ htake
  · exact htake

theorem decoration_le (text : JsString) : (decoration text).blankFrom ≤ (decoration text).blankTo ∧
    (decoration text).blankTo ≤ (decoration text).keepTo := by
  unfold decoration
  cases quoteAt text 0 with
  | some quote => exact ⟨Nat.le_refl 0, Nat.zero_le _⟩
  | none =>
    dsimp only
    cases hlead : leadMarker text with
    | none => exact ⟨Nat.le_refl 0, Nat.zero_le _⟩
    | some lead =>
      have hle : lead.1 ≤ lead.2 := by
        unfold leadMarker at hlead
        dsimp only at hlead
        split at hlead
        · obtain rfl := Option.some.inj hlead
          exact Nat.le_add_right _ _
        · cases hlead
      refine ⟨hle, Nat.le_trans ?_ (Nat.le_max_left _ _)⟩
      rw [Option.isSome_some, if_pos rfl]
      cases hq : quoteAt text lead.2 with
      | none => exact Nat.le_of_eq (congrArg (fun o => Option.getD (Option.map _ o) _) hq).symm
      | some quote =>
        have hto : lead.2 ≤ quote.2 := by
          unfold quoteAt at hq
          split at hq
          · cases hq
          · dsimp only at hq
            split at hq
            · cases hq
            · obtain rfl := Option.some.inj hq
              dsimp only
              omega
        exact Nat.le_trans hto (Nat.le_of_eq (congrArg (fun o => Option.getD (Option.map _ o) _) hq).symm)

def markerCells (joined : List Cell) : List Cell := (joined.take (cellSpans joined).to_).drop (cellSpans joined).from_

/-- **What is kept of a line is its essence but for the cells under its marker.** -/
theorem keptCells_essence (joined : List Cell) : ∃ P S,
    essence (cellsText joined) = P ++ essence (cellsText (markerCells joined)) ++ S ∧
      essence (cellsText (keptCells joined (cellSpans joined))) = P ++ S := by
  have hkept : essence (cellsText (keptCells joined (cellSpans joined))) =
      essence (cellsText (undecoratedFrom (cellSpans joined) 0 (joined.take (cellSpans joined).keepTo))) := by
    unfold keptCells
    dsimp only
    split
    · exact essence_splitTrail _
    · rfl
  have htrail : SlightCells (joined.drop (cellSpans joined).keepTo) := by
    rw [SlightCells, essence_eq_nil_iff]
    exact fun u hu => (decoration_sound (cellsText joined)).trail u (mem_drop_cellsForChars joined _ hu)
  have hF : (cellSpans joined).from_ ≤ (cellSpans joined).to_ := cellsForChars_mono joined (decoration_le _).1
  have hT : (cellSpans joined).to_ ≤ (cellSpans joined).keepTo := cellsForChars_mono joined (decoration_le _).2
  have hK : (cellSpans joined).keepTo ≤ joined.length := cellsForChars_le joined _
  unfold markerCells
  rw [hkept]
  generalize cellSpans joined = s at hF hT hK htrail
  have hmid : joined.take s.to_ = joined.take s.from_ ++ (joined.take s.to_).drop s.from_ := by
    conv => lhs; rw [← List.take_append_drop s.from_ (joined.take s.to_)]
    rw [List.take_take, Nat.min_eq_left hF]
  have htop : joined.take s.keepTo = joined.take s.to_ ++ (joined.take s.keepTo).drop s.to_ := by
    conv => lhs; rw [← List.take_append_drop s.to_ (joined.take s.keepTo)]
    rw [List.take_take, Nat.min_eq_left hT]
  have hlenF : (joined.take s.from_).length = s.from_ := List.length_take_of_le (by omega)
  have hlenT : (joined.take s.to_).length = s.to_ := List.length_take_of_le (by omega)
  refine ⟨essence (cellsText (joined.take s.from_)), essence (cellsText ((joined.take s.keepTo).drop s.to_)), ?_, ?_⟩
  · conv => lhs; rw [← List.take_append_drop s.keepTo joined]
    rw [essence_of_slight_right htrail, htop, essence_cells_append, ← htop, hmid, essence_cells_append, ← hmid]
  · rw [htop, undecoratedFrom_append, essence_cells_append, ← htop, hlenT, Nat.zero_add]
    congr 1
    · rw [hmid, undecoratedFrom_append, hlenF, Nat.zero_add, essence_of_slight_right]
      · exact essence_undecoratedFrom (fun i _ hi => by rw [hlenF] at hi; omega)
      · refine slight_undecoratedFrom (Nat.le_refl _) ?_
        rw [List.length_drop, hlenT]
        omega
    · exact essence_undecoratedFrom (fun i hi _ => by omega)

/-! ## Rows -/

/-- A row as it is read: blanks after its text, and no quote prefix yet. -/
structure RawLine (l : Line) : Prop where
  trail : SlightCells l.trail
  quote : l.quote = 0

structure LineSound (l : Line) : Prop where
  trail : SlightCells l.trail
  quote : SlightCells (l.cells.take l.quote)

theorem RawLine.sound {l : Line} (h : RawLine l) : LineSound l :=
  ⟨h.trail, by rw [h.quote, List.take_zero]; exact SlightCells.nil⟩

def lineEssence (lines : List Line) : JsString := essence (cellsText (lines.flatMap Line.cells))

theorem lineEssence_nil : lineEssence [] = [] := rfl

theorem lineEssence_cons (l : Line) (lines : List Line) : lineEssence (l :: lines) = essence (cellsText l.cells) ++
    lineEssence lines := by
  rw [lineEssence, List.flatMap_cons, essence_cells_append]
  rfl

theorem lineEssence_append (p q : List Line) : lineEssence (p ++ q) = lineEssence p ++ lineEssence q := by
  rw [lineEssence, List.flatMap_append, essence_cells_append]
  rfl

def Owns (row : Line × List Cell) : Prop := essence (cellsText row.2) = essence (cellsText row.1.cells)

/-- **Cut back into rows, what is kept of a line keeps its essence.** -/
theorem strippedRows_essence {s : CellSpans} {cut : Bool} {kept : List Cell} :
    ∀ {rows : List (Line × List Cell)} {isFirst : Bool}
    {pre : List Cell}, (∀ row ∈ rows, Owns row) → kept <+: undecoratedFrom s 0 (pre ++ rows.flatMap (·.2)) →
      lineEssence (strippedRows s cut kept isFirst pre.length rows) = essence (cellsText (kept.drop pre.length))
  | [], isFirst, pre, _, hkept => by
    have hlen := hkept.length_le
    rw [length_undecoratedFrom, List.flatMap_nil, List.append_nil] at hlen
    rw [strippedRows, List.drop_eq_nil_of_le hlen]
    rfl
  | (l, own) :: rows, isFirst, pre, hown, hkept => by
    rw [strippedRows]
    split
    · next hcut =>
      rw [Bool.and_eq_true, decide_eq_true_eq] at hcut
      rw [List.drop_eq_nil_of_le hcut.2]
      rfl
    have hend : (pre ++ own).length = pre.length + own.length := List.length_append
    have ih := @strippedRows_essence s cut kept rows false (pre ++ own)
      (fun row hrow => hown row (List.mem_cons_of_mem _ hrow)) (by rwa [List.flatMap_cons, ← List.append_assoc] at hkept)
    rw [hend] at ih
    have hdrop : kept.drop pre.length = (kept.take (pre.length + own.length)).drop pre.length ++
      kept.drop (pre.length + own.length) := by
      conv => lhs; rw [← List.take_append_drop (pre.length + own.length) kept]
      rcases Nat.le_total (pre.length + own.length) kept.length with hle | hle
      · rw [List.drop_append_of_le_length (by rw [List.length_take]; omega)]
      · rw [List.drop_eq_nil_of_le hle, List.append_nil, List.append_nil]
    dsimp only
    rw [lineEssence_cons, ih, hdrop, essence_cells_append]
    congr 1
    split
    · exact essence_splitTrail _
    · next htouched =>
      -- a row the decoration misses
      simp only [Bool.or_eq_true, Bool.and_eq_true, decide_eq_true_eq, not_or, not_and, Nat.not_lt] at htouched
      have hsame : undecoratedFrom s pre.length own = own := undecoratedFrom_eq (fun i hi hlt => by omega)
      have hslice : (kept.take (pre.length + own.length)).drop pre.length = own := by
        rw [List.prefix_iff_eq_take.1 hkept, List.take_take, Nat.min_eq_left htouched.1.1,
          undecoratedFrom_append, List.take_append,
          length_undecoratedFrom, List.take_of_length_le (by rw [length_undecoratedFrom]; omega), Nat.add_sub_cancel_left,
          List.drop_left' (length_undecoratedFrom s 0 pre), List.flatMap_cons, undecoratedFrom_append, Nat.zero_add, hsame,
          List.take_left]
      rw [hslice]
      exact (hown (l, own) List.mem_cons_self).symm

/-- **Stripped rows shed slight cells only**, where what is kept up to the quote's end is slight. -/
theorem strippedRows_sound {s : CellSpans} {cut : Bool} {kept : List Cell} (hquote : SlightCells (kept.take s.qTo)) :
    ∀ {rows : List (Line × List Cell)} {isFirst : Bool} {first : Nat}, (∀ row ∈ rows, RawLine row.1) →
    (isFirst = true → first = 0) →
      ∀ l ∈ strippedRows s cut kept isFirst first rows, LineSound l
  | [], _, _, _, _, l, hl => absurd hl List.not_mem_nil
  | (m, own) :: rows, isFirst, first, hraw, hfirst, l, hl => by
    rw [strippedRows] at hl
    split at hl
    · exact absurd hl List.not_mem_nil
    dsimp only at hl
    rcases List.mem_cons.1 hl with rfl | hl
    · split
      · refine ⟨slight_splitTrail _, ?_⟩
        dsimp only
        split
        · next hf =>
          obtain rfl := hfirst hf
          refine hquote.sub (fun c hc => ?_)
          have hpre : (splitTrail ((kept.take (0 + own.length)).drop 0)).1 <+: kept :=
            List.IsPrefix.trans ⟨_, splitTrail_append _⟩ (List.take_prefix _ _)
          have hc' := (List.IsPrefix.take hpre _).subset hc
          exact List.take_subset_take_left kept (Nat.min_le_left _ _) hc'
        · exact SlightCells.nil
      · exact (hraw (m, own) List.mem_cons_self).sound
    · exact strippedRows_sound hquote (fun row hrow => hraw row (List.mem_cons_of_mem _ hrow))
        (fun h => Bool.noConfusion h) l hl

theorem ownCells_owns : ∀ {rows : List Line}, (∀ l ∈ rows, RawLine l) → (rows.zip (ownCells rows)).length = rows.length ∧
    ∀ row ∈ rows.zip (ownCells rows), Owns row ∧ RawLine row.1
  | [], _ => ⟨rfl, fun _ h => absurd h List.not_mem_nil⟩
  | [l], h => ⟨rfl, fun row hrow => by
    obtain rfl := List.mem_singleton.1 hrow
    exact ⟨rfl, h l List.mem_cons_self⟩⟩
  | l :: m :: rows, h => by
    obtain ⟨hlen, hown⟩ := @ownCells_owns (m :: rows) (fun x hx => h x (List.mem_cons_of_mem l hx))
    refine ⟨congrArg (· + 1) hlen, fun row hrow => ?_⟩
    rcases List.mem_cons.1 hrow with rfl | hrow
    · exact ⟨essence_of_slight_right (h l List.mem_cons_self).trail _, h l List.mem_cons_self⟩
    · exact hown row hrow

theorem zip_ownCells : ∀ (rows : List Line), (rows.zip (ownCells rows)).flatMap (·.2) = (ownCells rows).flatten
  | [] => rfl
  | [l] => rfl
  | l :: m :: rows => by
    rw [ownCells, List.zip_cons_cons, List.flatMap_cons, List.flatten_cons, zip_ownCells (m :: rows)]

theorem essence_ownCells : ∀ {rows : List Line}, (∀ l ∈ rows, RawLine l) →
    essence (cellsText (ownCells rows).flatten) = lineEssence rows
  | [], _ => rfl
  | [l], _ => by
    rw [ownCells, List.flatten_singleton, lineEssence_cons, lineEssence_nil, List.append_nil]
  | l :: m :: rows, h => by
    rw [ownCells, List.flatten_cons, essence_cells_append, essence_of_slight_right (h l List.mem_cons_self).trail,
      @essence_ownCells (m :: rows) (fun x hx => h x (List.mem_cons_of_mem l hx)), lineEssence_cons l]

def joinedCells (rows : List Line) : List Cell := (ownCells rows).flatten

/-- **Stripping a line loses the essence of the cells under its marker, and none other.** -/
theorem stripDecoration_essence {rows : List Line} (hraw : ∀ l ∈ rows, RawLine l) : ∃ P S,
    lineEssence rows = P ++ essence (cellsText (markerCells (joinedCells rows))) ++ S ∧
      lineEssence ((stripDecoration rows).getD []) = P ++ S := by
  unfold stripDecoration
  dsimp only
  rw [← essence_ownCells hraw]
  split
  · next hframe =>
    have hslight : SlightCells (joinedCells rows) := by
      rw [SlightCells, essence_eq_nil_iff]
      intro u hu
      rw [isFrameOnly, Bool.and_eq_true, Bool.and_eq_true, Bool.and_eq_true] at hframe
      have := List.all_eq_true.1 hframe.1.1.2 u hu
      rw [Bool.or_eq_true] at this
      exact this.elim isSlight_of_box isSlight_of_space
    have hmarker : SlightCells (markerCells (joinedCells rows)) :=
      hslight.sub (fun c hc => List.mem_of_mem_take (List.mem_of_mem_drop hc))
    refine ⟨[], [], ?_, rfl⟩
    rw [hmarker]
    exact hslight
  · obtain ⟨P, S, hall, hkept⟩ := keptCells_essence (joinedCells rows)
    refine ⟨P, S, hall, ?_⟩
    have hown : ∀ row ∈ rows.zip (ownCells rows), Owns row := fun row hrow => ((ownCells_owns hraw).2 row hrow).1
    have hinitial : keptCells (joinedCells rows) (cellSpans (joinedCells rows)) <+:
        undecoratedFrom (cellSpans (joinedCells rows)) 0 ([] ++ (rows.zip (ownCells rows)).flatMap (·.2)) := by
      rw [List.nil_append, zip_ownCells]
      exact keptCells_prefix _ _
    exact (strippedRows_essence hown hinitial).trans (by rw [List.length_nil, List.drop_zero, hkept])

theorem mem_joinedCells : ∀ {rows : List Line} {c : Cell}, c ∈ joinedCells rows → ∃ l ∈ rows, c ∈ l.cells ++ l.trail
  | [], c, h => absurd h List.not_mem_nil
  | [l], c, h => by
    rw [joinedCells, ownCells, List.flatten_singleton] at h
    exact ⟨l, List.mem_cons_self, List.mem_append_left _ h⟩
  | l :: m :: rows, c, h => by
    rw [joinedCells, ownCells, List.flatten_cons] at h
    rcases List.mem_append.1 h with h | h
    · exact ⟨l, List.mem_cons_self, h⟩
    · obtain ⟨x, hx, hcx⟩ := @mem_joinedCells (m :: rows) c h
      exact ⟨x, List.mem_cons_of_mem l hx, hcx⟩

theorem slight_quote {joined : List Cell} (hplain : ∀ c ∈ joined, Plain c.ch) :
    SlightCells (joined.take (cellSpans joined).qTo) := by
  unfold cellSpans
  dsimp only
  cases hq : (decoration (cellsText joined)).quote with
  | none => exact SlightCells.nil
  | some quote =>
    obtain ⟨hslight, pre, mark, htake, hmark⟩ := (decoration_sound (cellsText joined)).quote quote hq
    rw [SlightCells, essence_eq_nil_iff]
    intro u hu
    rw [Option.elim_some, take_cellsForChars hplain (isGlyph_of_mark hmark) htake, ← htake] at hu
    exact hslight u hu

/-- **A stripped line's rows shed slight cells only**, where no cell joins a glyph with others. -/
theorem stripDecoration_sound {rows : List Line} (hraw : ∀ l ∈ rows, RawLine l)
    (hplain : ∀ l ∈ rows, ∀ c ∈ l.cells ++ l.trail, Plain c.ch) : ∀ l ∈ (stripDecoration rows).getD [], LineSound l := by
  unfold stripDecoration
  dsimp only
  split
  · exact fun l hl => absurd hl List.not_mem_nil
  · have hjoined : ∀ c ∈ joinedCells rows, Plain c.ch := fun c hc => by
      obtain ⟨l, hl, hcl⟩ := mem_joinedCells hc
      exact hplain l hl c hcl
    have hquote : SlightCells ((keptCells (joinedCells rows) (cellSpans (joinedCells rows))).take
      (cellSpans (joinedCells rows)).qTo) := by
      have hslight := slightCells_iff.1 (slight_quote hjoined)
      have hinitial := List.IsPrefix.take ( keptCells_prefix (joinedCells rows) (cellSpans (joinedCells rows)))
        (cellSpans (joinedCells rows)).qTo
      rw [take_undecoratedFrom, undecoratedFrom] at hinitial
      refine slightCells_iff.2 (fun c hc u hu => ?_)
      obtain ⟨d, hd, rfl⟩ := List.mem_map.1 (hinitial.subset hc)
      exact slight_undecorated (hslight d.1 (List.fst_mem_of_mem_zipIdx hd)) u hu
    exact strippedRows_sound hquote (fun row hrow => ((ownCells_owns hraw).2 row hrow).2) (fun _ => rfl)

end CopyText
end Dormouse

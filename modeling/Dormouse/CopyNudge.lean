import Dormouse.CopyBuffer
/-!
# CopyNudge — an edge moved a word at a time

`step` and `nudge` of `copy-text.ts`.  Each loop of `nudge` walks with `step`, and `step` goes to the next cell there is
(`step_first`); what a walk ends at is the first cell of a kind in the direction it goes (`First`).  `nudge_nearest` says which cell
the three of them end at together.
-/
namespace Dormouse
namespace CopyText

/-- `1` or `-1`. -/
inductive Direction where
  | forward
  | backward
  deriving DecidableEq

inductive Edge where
  | start
  | stop
  deriving DecidableEq

variable (buf : CopyBuffer)

def width (row : Nat) : Nat := (buf.row row).cells.length

/-! ## One cell -/

def stepRows (dir : Direction) (row : Nat) (col : Int) : Option GridPos :=
  if 0 ≤ col ∧ col < width buf row then some ⟨row, col.toNat⟩
  else
    match dir, row with
    | .forward,  row     => if row + 1 < buf.length then stepRows .forward (row + 1) 0 else none
    | .backward, 0       => none
    | .backward, row + 1 => stepRows .backward row ((width buf row : Int) - 1)
  termination_by match dir with
    | .forward  => buf.length - row
    | .backward => row

/-- The next cell in `dir`; an edge past its row's text is clamped to the text first. -/
def step (p : GridPos) : Direction → Option GridPos
  | .forward  => stepRows buf .forward p.row ((min p.col (width buf p.row) : Nat) + 1)
  | .backward => stepRows buf .backward p.row ((min p.col (width buf p.row) : Nat) - 1)

def IsCell (q : GridPos) : Prop := q.col < width buf q.row

def beyond : Direction → GridPos → GridPos → Prop
  | .forward,  p, q => before p q
  | .backward, p, q => before q p

/-- The first of the positions with `S` that are met in `dir`. -/
def First (dir : Direction) (S : GridPos → Prop) : Option GridPos → Prop
  | some q => S q ∧ ∀ r, S r → r = q ∨ beyond dir q r
  | none   => ∀ r, ¬S r

section

variable {buf}

theorem GridPos.eq_of {p q : GridPos} (hrow : p.row = q.row) (hcol : p.col = q.col) : p = q := by
  cases p
  cases q
  simp only at hrow hcol
  rw [hrow, hcol]

theorem IsCell.row_lt {q : GridPos} (h : IsCell buf q) : q.row < buf.length := by
  by_contra hout
  have hnone : buf.rows[q.row]? = none := List.getElem?_eq_none (Nat.not_lt.1 hout)
  rw [IsCell, width, CopyBuffer.row, hnone] at h
  exact Nat.not_lt_zero _ h

theorem beyond_trans {dir : Direction} {p q r : GridPos} (h : beyond dir p q) (h' : beyond dir q r) : beyond dir p r := by
  cases dir <;> simp only [beyond, before] at h h' ⊢ <;> omega

theorem beyond_irrefl (dir : Direction) (p : GridPos) : ¬beyond dir p p := by
  cases dir <;> simp only [beyond, before] <;> omega

theorem beyond_total (dir : Direction) (p q : GridPos) : p = q ∨ beyond dir p q ∨ beyond dir q p := by
  by_cases heq : p.row = q.row ∧ p.col = q.col
  · exact Or.inl (GridPos.eq_of heq.1 heq.2)
  · right
    cases dir <;> simp only [beyond, before] <;> omega

theorem First.congr {dir : Direction} {S T : GridPos → Prop} {r : Option GridPos} (h : First dir S r) (hST : ∀ q, S q ↔ T q) :
    First dir T r := by
  have : S = T := funext (fun q => propext (hST q))
  exact this ▸ h

theorem stepRows_forward (buf : CopyBuffer) (row col : Nat) : First .forward
    (fun q => IsCell buf q ∧ (row < q.row ∨ q.row = row ∧ col ≤ q.col)) (stepRows buf .forward row col) := by
  induction hn : buf.length - row generalizing row col with
  | zero =>
    have hout : ∀ q, ¬(IsCell buf q ∧ (row < q.row ∨ q.row = row ∧ col ≤ q.col)) := by
      rintro q ⟨hq, hfrom⟩
      have := hq.row_lt
      omega
    rw [stepRows]
    split
    · next hin => exact absurd ⟨by show col < width buf row; omega, Or.inr ⟨rfl, le_refl col⟩⟩ (hout ⟨row, col⟩)
    · rw [if_neg (by omega)]
      exact hout
  | succ n ih =>
    rw [stepRows]
    split
    · next hin =>
      refine ⟨⟨by show col < width buf row; omega, Or.inr ⟨rfl, by simp⟩⟩, ?_⟩
      rintro r ⟨hr, hfrom⟩
      by_cases hrow : r.row = row
      · by_cases hcol : r.col = col
        · exact Or.inl (GridPos.eq_of hrow (by simpa using hcol))
        · exact Or.inr (Or.inr ⟨hrow.symm, by simp only [Int.toNat_natCast]; omega⟩)
      · exact Or.inr (Or.inl (by simp only; omega))
    · next hout =>
      have hmiss : ∀ q, IsCell buf q → q.row = row → ¬col ≤ q.col := by
        rintro q hq rfl hle
        have : q.col < width buf q.row := hq
        omega
      by_cases hnext : row + 1 < buf.length
      · rw [if_pos hnext]
        refine (ih (row + 1) 0 (by omega)).congr (fun q => and_congr_right (fun hq => ?_))
        have := hmiss q hq
        omega
      · rw [if_neg hnext]
        rintro q ⟨hq, hfrom⟩
        have := hq.row_lt
        have := hmiss q hq
        omega

theorem stepRows_backward (row : Nat) (col : Int) (hcol : col < width buf row) : First .backward
    (fun q => IsCell buf q ∧ (q.row < row ∨ q.row = row ∧ (q.col : Int) ≤ col)) (stepRows buf .backward row col) := by
  induction row generalizing col with
  | zero =>
    rw [stepRows]
    split
    · next hin =>
      refine ⟨⟨by show col.toNat < width buf 0; omega, Or.inr ⟨rfl, by simp only; omega⟩⟩, ?_⟩
      rintro r ⟨hr, hfrom⟩
      by_cases hcol : r.col = col.toNat
      · exact Or.inl (GridPos.eq_of (by simp only; omega) hcol)
      · exact Or.inr (Or.inr ⟨by simp only; omega, by simp only; omega⟩)
    · next hout =>
      rintro q ⟨hq, hfrom⟩
      omega
  | succ row ih =>
    rw [stepRows]
    split
    · next hin =>
      refine ⟨⟨by show col.toNat < width buf (row + 1); omega, Or.inr ⟨rfl, by simp only; omega⟩⟩, ?_⟩
      rintro r ⟨hr, hfrom⟩
      by_cases hrow : r.row = row + 1
      · by_cases hcol : r.col = col.toNat
        · exact Or.inl (GridPos.eq_of hrow hcol)
        · exact Or.inr (Or.inr ⟨hrow, by simp only; omega⟩)
      · exact Or.inr (Or.inl (by simp only; omega))
    · next hout =>
      have hout : ¬(0 ≤ col ∧ col < width buf (row + 1)) := hout
      refine (ih ((width buf row : Int) - 1) (by omega)).congr (fun q => and_congr_right (fun hq => ?_))
      have hwidth : q.col < width buf q.row := hq
      constructor
      · rintro (hlt | ⟨heq, -⟩)
        · exact Or.inl (by omega)
        · exact Or.inl (by omega)
      · rintro (hlt | ⟨heq, hle⟩)
        · rcases Nat.lt_succ_iff_lt_or_eq.1 hlt with h | h
          · exact Or.inl h
          · refine Or.inr ⟨h, ?_⟩
            rw [h] at hwidth
            omega
        · have hin : col < width buf (row + 1) := hcol
          omega

/-- **`step` goes to the next cell.** -/
theorem step_first (buf : CopyBuffer) (p : GridPos) (dir : Direction) :
    First dir (fun q => IsCell buf q ∧ beyond dir p q) (step buf p dir) := by
  cases dir with
  | forward =>
    have h := stepRows_forward buf p.row (min p.col (width buf p.row) + 1)
    rw [Nat.cast_add, Nat.cast_one] at h
    refine h.congr (fun q => and_congr_right (fun hq => ?_))
    have hwidth : q.col < width buf q.row := hq
    constructor
    · rintro (hlt | ⟨heq, hle⟩)
      · exact Or.inl hlt
      · rw [heq] at hwidth
        exact Or.inr ⟨heq.symm, by omega⟩
    · rintro (hlt | ⟨heq, hle⟩)
      · exact Or.inl hlt
      · exact Or.inr ⟨heq.symm, by omega⟩
  | backward =>
    have hcol : ((min p.col (width buf p.row) : Nat) : Int) - 1 < width buf p.row := by omega
    refine (stepRows_backward p.row _ hcol).congr (fun q => and_congr_right (fun hq => ?_))
    have hwidth : q.col < width buf q.row := hq
    constructor
    · rintro (hlt | ⟨heq, hle⟩)
      · exact Or.inl hlt
      · exact Or.inr ⟨heq, by omega⟩
    · rintro (hlt | ⟨heq, hle⟩)
      · exact Or.inl hlt
      · rw [heq] at hwidth
        exact Or.inr ⟨heq, by omega⟩

def ahead (buf : CopyBuffer) : Direction → GridPos → Nat × Nat
  | .forward,  p => (buf.length - p.row, width buf p.row - p.col)
  | .backward, p => (p.row, p.col)

theorem step_ahead {dir : Direction} {p q : GridPos} (h : step buf p dir = some q) :
    Prod.Lex (· < ·) (· < ·) (ahead buf dir q) (ahead buf dir p) := by
  have hfirst := step_first buf p dir
  rw [h] at hfirst
  obtain ⟨⟨hcell, hbeyond⟩, -⟩ := hfirst
  have hrow := hcell.row_lt
  have hcol : q.col < width buf q.row := hcell
  cases dir with
  | forward =>
    rcases hbeyond with hlt | ⟨heq, hlt⟩
    · exact Prod.Lex.left _ _ (by omega)
    · rw [ahead, ahead, heq]
      exact Prod.Lex.right _ (by omega)
  | backward =>
    rcases hbeyond with hlt | ⟨heq, hlt⟩
    · exact Prod.Lex.left _ _ hlt
    · rw [ahead, ahead, heq]
      exact Prod.Lex.right _ hlt

end

/-! ## Words -/

/-- `while (q && cond(q)) q = step(q)`. -/
def skipWhile (dir : Direction) (cond : GridPos → Bool) (q : GridPos) : Option GridPos :=
  if cond q then
    match _h : step buf q dir with
    | none   => none
    | some n => skipWhile dir cond n
  else some q
  termination_by ahead buf dir q
  decreasing_by exact step_ahead _h

/-- The side, in `dir`, of the word `q` is in. -/
def toSide (dir : Direction) (q : GridPos) : GridPos :=
  match _h : step buf q dir with
  | none   => q
  | some n => if n.row ≠ q.row ∨ isBlankCell (cellAt buf n) then q else toSide dir n
  termination_by ahead buf dir q
  decreasing_by exact step_ahead _h

def Edge.outward : Edge → Direction
  | .start => .backward
  | .stop  => .forward

def leavingWord (p : GridPos) (dir : Direction) (edge : Edge) : Bool :=
  (dir == .forward) == (edge == .start) && !isBlankCell (cellAt buf p)

def nudge (p : GridPos) (dir : Direction) (edge : Edge) : GridPos :=
  let left := (step buf p dir).bind
    (skipWhile buf dir (fun q => leavingWord buf p dir edge && q.row == p.row && !isBlankCell (cellAt buf q)))
  match left.bind (skipWhile buf dir (fun q => isBlankCell (cellAt buf q))) with
  | none   => p
  | some q => toSide buf edge.outward q

/-! ## What a word is -/

structure IsWord (row first last : Nat) : Prop where
  ordered : first ≤ last
  text    : ∀ col, first ≤ col → col ≤ last → isBlankCell (cellAt buf ⟨row, col⟩) = false
  left    : first = 0 ∨ isBlankCell (cellAt buf ⟨row, first - 1⟩) = true
  right   : isBlankCell (cellAt buf ⟨row, last + 1⟩) = true

def Rests : Edge → GridPos → Prop
  | .start, p => ∃ last, IsWord buf p.row p.col last
  | .stop,  p => ∃ first, IsWord buf p.row first p.col

def Adjacent : Direction → GridPos → GridPos → Prop
  | .forward,  p, q => q.row = p.row ∧ q.col = p.col + 1
  | .backward, p, q => q.row = p.row ∧ q.col + 1 = p.col

def Direction.opposite : Direction → Direction
  | .forward  => .backward
  | .backward => .forward

section

variable {buf}

theorem isCell_of_text {q : GridPos} (h : isBlankCell (cellAt buf q) = false) : IsCell buf q := by
  by_contra hout
  have hnone : cellAt buf q = none := List.getElem?_eq_none (Nat.not_lt.1 hout)
  rw [hnone] at h
  exact Bool.noConfusion h

variable {dir : Direction}

theorem beyond_opposite {p q : GridPos} : beyond dir.opposite p q ↔ beyond dir q p := by
  cases dir <;> rfl

theorem adjacent_opposite {p q : GridPos} : Adjacent dir.opposite p q ↔ Adjacent dir q p := by
  cases dir <;> simp only [Direction.opposite, Adjacent] <;> omega

theorem Adjacent.beyond {dir : Direction} {p q : GridPos} (h : Adjacent dir p q) : beyond dir p q := by
  cases dir <;> simp only [Adjacent, CopyText.beyond, before] at h ⊢ <;> omega

theorem Adjacent.not_between {p q r : GridPos} (h : Adjacent dir p q) (hr : CopyText.beyond dir p r) :
    ¬CopyText.beyond dir r q := by
  cases dir <;> simp only [Adjacent, CopyText.beyond, before] at h hr ⊢ <;> omega

theorem exists_adjacent {p q : GridPos} (h : beyond dir p q) (hrow : q.row = p.row) :
    ∃ n, Adjacent dir p n ∧ (n = q ∨ beyond dir n q) := by
  cases dir with
  | forward =>
    refine ⟨⟨p.row, p.col + 1⟩, ⟨rfl, rfl⟩, ?_⟩
    rcases beyond_total .forward ⟨p.row, p.col + 1⟩ q with heq | hlt | hlt
    · exact Or.inl heq
    · exact Or.inr hlt
    · simp only [beyond, before] at h hlt
      omega
  | backward =>
    have hpos : p.col - 1 + 1 = p.col := by
      simp only [beyond, before] at h
      omega
    refine ⟨⟨p.row, p.col - 1⟩, ⟨rfl, hpos⟩, ?_⟩
    rcases beyond_total .backward ⟨p.row, p.col - 1⟩ q with heq | hlt | hlt
    · exact Or.inl heq
    · exact Or.inr hlt
    · simp only [beyond, before] at h hlt
      omega

theorem between_isCell {p q r : GridPos} (hp : IsCell buf p) (hr : IsCell buf r) (hrow : p.row = r.row)
    (hpq : beyond dir p q) (hqr : beyond dir q r) : q.row = p.row ∧ IsCell buf q := by
  have hp' : p.col < width buf p.row := hp
  have hr' : r.col < width buf r.row := hr
  have hq : q.row = p.row := by
    cases dir <;> simp only [beyond, before] at hpq hqr <;> omega
  refine ⟨hq, ?_⟩
  show q.col < width buf q.row
  rw [hq]
  rw [← hrow] at hr'
  cases dir <;> simp only [beyond, before] at hpq hqr <;> omega

/-- **A loop that walks on ends at the first cell it does not walk past.** -/
theorem skipWhile_first {cond : GridPos → Bool} {p : GridPos} (hp : IsCell buf p) : First dir
    (fun q => IsCell buf q ∧ (q = p ∨ beyond dir p q) ∧ cond q = false) (skipWhile buf dir cond p) := by
  induction p using skipWhile.induct buf dir cond with
  | case1 p hcond hnone =>
    rw [skipWhile, if_pos hcond]
    have hfirst := step_first buf p dir
    rw [hnone] at hfirst
    split
    · rintro q ⟨hq, rfl | hbeyond, hstop⟩
      · rw [hcond] at hstop
        exact Bool.noConfusion hstop
      · exact hfirst q ⟨hq, hbeyond⟩
    · next n hn => rw [hnone] at hn; cases hn
  | case2 p hcond n hn ih =>
    rw [skipWhile, if_pos hcond]
    have hfirst := step_first buf p dir
    rw [hn] at hfirst
    obtain ⟨⟨hcell, hbeyond⟩, hnext⟩ := hfirst
    split
    · next hnone => rw [hnone] at hn; cases hn
    · next n' hn' =>
      obtain rfl : n = n' := Option.some.inj (hn.symm.trans hn')
      refine (ih hcell).congr (fun q => and_congr_right (fun hq => and_congr_left (fun hstop => ?_)))
      constructor
      · rintro (rfl | hafter)
        · exact Or.inr hbeyond
        · exact Or.inr (beyond_trans hbeyond hafter)
      · rintro (rfl | hafter)
        · rw [hcond] at hstop
          exact Bool.noConfusion hstop
        · exact hnext q ⟨hq, hafter⟩
  | case3 p hcond =>
    rw [skipWhile, if_neg hcond]
    exact ⟨⟨hp, Or.inl rfl, Bool.eq_false_iff.2 hcond⟩, fun r hr => hr.2.1⟩

theorem First.skipWhile {dir : Direction} (cond : GridPos → Bool) {T : GridPos → Prop} {o : Option GridPos} (h : First dir T o)
    (hcell : ∀ q, T q → IsCell buf q) (hup : ∀ q r, T q → IsCell buf r → beyond dir q r → T r) :
    First dir (fun q => T q ∧ cond q = false) (o.bind (CopyText.skipWhile buf dir cond)) := by
  cases o with
  | none => exact fun q hq => h q hq.1
  | some p =>
    obtain ⟨hp, hnext⟩ := h
    refine (skipWhile_first (hcell p hp)).congr (fun q => ?_)
    constructor
    · rintro ⟨hq, rfl | hbeyond, hstop⟩
      · exact ⟨hp, hstop⟩
      · exact ⟨hup p q hp hq hbeyond, hstop⟩
    · rintro ⟨hq, hstop⟩
      exact ⟨hcell q hq, hnext q hq, hstop⟩

/-- **The last loop ends at the side of the word it starts in.** -/
theorem toSide_spec (dir : Direction) {q : GridPos} (hq : isBlankCell (cellAt buf q) = false) :
    isBlankCell (cellAt buf (toSide buf dir q)) = false ∧ (toSide buf dir q = q ∨ beyond dir q (toSide buf dir q)) ∧
      (toSide buf dir q).row = q.row ∧ (∀ n, Adjacent dir (toSide buf dir q) n → isBlankCell (cellAt buf n) = true) ∧
      ∀ r, r.row = q.row → (r = q ∨ beyond dir q r) → (r = toSide buf dir q ∨ beyond dir r (toSide buf dir q)) →
        isBlankCell (cellAt buf r) = false := by
  have hend : ∀ p, (∀ m, step buf p dir = some m → m.row ≠ p.row ∨ isBlankCell (cellAt buf m) = true) →
      ∀ n, Adjacent dir p n → isBlankCell (cellAt buf n) = true := by
    intro p hstep n hn
    by_contra htext
    have htext := Bool.eq_false_iff.2 htext
    have hfirst := step_first buf p dir
    cases hm : step buf p dir with
    | none =>
      rw [hm] at hfirst
      exact hfirst n ⟨isCell_of_text htext, hn.beyond⟩
    | some m =>
      rw [hm] at hfirst
      rcases hfirst.2 n ⟨isCell_of_text htext, hn.beyond⟩ with rfl | hafter
      · rcases hstep n hm with hrow | hblank
        · cases dir <;> exact hrow hn.1
        · rw [htext] at hblank
          exact Bool.noConfusion hblank
      · exact hn.not_between hfirst.1.2 hafter
  have hself : ∀ p, isBlankCell (cellAt buf p) = false → ∀ r, r.row = p.row → (r = p ∨ beyond dir p r) →
      (r = p ∨ beyond dir r p) → isBlankCell (cellAt buf r) = false := by
    rintro p hp r - (rfl | hfrom) hto
    · exact hp
    rcases hto with rfl | hto
    · exact hp
    · exact absurd (beyond_trans hfrom hto) (beyond_irrefl dir p)
  induction q using toSide.induct buf dir with
  | case1 q hnone =>
    have heq : toSide buf dir q = q := by
      rw [toSide]
      split
      · rfl
      · next n hn => rw [hnone] at hn; cases hn
    rw [heq]
    exact ⟨hq, Or.inl rfl, rfl, hend q (fun m hm => by rw [hnone] at hm; cases hm), hself q hq⟩
  | case2 q n hn hstop =>
    have heq : toSide buf dir q = q := by
      rw [toSide]
      split
      · rfl
      · next n' hn' =>
        obtain rfl : n = n' := Option.some.inj (hn.symm.trans hn')
        rw [if_pos hstop]
    rw [heq]
    refine ⟨hq, Or.inl rfl, rfl, hend q (fun m hm => ?_), hself q hq⟩
    obtain rfl : n = m := Option.some.inj (hn.symm.trans hm)
    exact hstop
  | case3 q n hn hgo ih =>
    have heq : toSide buf dir q = toSide buf dir n := by
      rw [toSide]
      split
      · next hnone => rw [hnone] at hn; cases hn
      · next n' hn' =>
        obtain rfl : n = n' := Option.some.inj (hn.symm.trans hn')
        rw [if_neg hgo]
    obtain ⟨hrow, htext⟩ := not_or.1 hgo
    have hrow := not_not.1 hrow
    have hfirst := step_first buf q dir
    rw [hn] at hfirst
    obtain ⟨⟨hcell, hbeyond⟩, hnext⟩ := hfirst
    obtain ⟨hside, hfrom, hrows, hadj, hrun⟩ := ih (Bool.eq_false_iff.2 htext)
    rw [heq]
    refine ⟨hside, ?_, hrows.trans hrow, hadj, fun r hr hfromr hto => ?_⟩
    · rcases hfrom with hfrom | hfrom
      · rw [hfrom]
        exact Or.inr hbeyond
      · exact Or.inr (beyond_trans hbeyond hfrom)
    · rcases hfromr with rfl | hafter
      · exact hq
      · have hrcell : IsCell buf r := by
          rcases hto with rfl | hto
          · exact isCell_of_text hside
          · exact (between_isCell (isCell_of_text hq) (isCell_of_text hside) (by rw [hrows, hrow]) hafter hto).2
        exact hrun r (hr.trans hrow.symm) (hnext r ⟨hrcell, hafter⟩) hto

theorem rests_iff {edge : Edge} {p : GridPos} : Rests buf edge p ↔ isBlankCell (cellAt buf p) = false ∧
    ∀ n, Adjacent edge.outward p n → isBlankCell (cellAt buf n) = true := by
  cases edge with
  | start =>
    constructor
    · rintro ⟨last, hword⟩
      refine ⟨hword.text p.col (le_refl _) hword.ordered, ?_⟩
      rintro ⟨row, col⟩ ⟨hrow, hcol⟩
      simp only at hrow hcol
      rcases hword.left with h | h
      · omega
      · rw [hrow, show col = p.col - 1 by omega]
        exact h
    · rintro ⟨htext, hside⟩
      obtain ⟨-, hfrom, hrow, hadj, hrun⟩ := toSide_spec .forward htext
      have hle : p.col ≤ (toSide buf .forward p).col := by
        rcases hfrom with hfrom | hfrom
        · rw [hfrom]
        · simp only [beyond, before] at hfrom
          omega
      refine ⟨(toSide buf .forward p).col, hle, fun col hfirst hlast => hrun ⟨p.row, col⟩ rfl ?_ ?_, ?_, ?_⟩
      · rcases Nat.eq_or_lt_of_le hfirst with heq | hlt
        · exact Or.inl (GridPos.eq_of rfl heq.symm)
        · exact Or.inr (Or.inr ⟨rfl, hlt⟩)
      · rcases Nat.eq_or_lt_of_le hlast with heq | hlt
        · exact Or.inl (GridPos.eq_of hrow.symm heq)
        · exact Or.inr (Or.inr ⟨hrow.symm, hlt⟩)
      · rcases Nat.eq_zero_or_pos p.col with h | h
        · exact Or.inl h
        · exact Or.inr (hside ⟨p.row, p.col - 1⟩ ⟨rfl, by simp only; omega⟩)
      · exact hadj ⟨p.row, (toSide buf .forward p).col + 1⟩ ⟨hrow.symm, rfl⟩
  | stop =>
    constructor
    · rintro ⟨first, hword⟩
      refine ⟨hword.text p.col hword.ordered (le_refl _), ?_⟩
      rintro ⟨row, col⟩ ⟨hrow, hcol⟩
      simp only at hrow hcol
      rw [hrow, hcol]
      exact hword.right
    · rintro ⟨htext, hside⟩
      obtain ⟨-, hfrom, hrow, hadj, hrun⟩ := toSide_spec .backward htext
      have hle : (toSide buf .backward p).col ≤ p.col := by
        rcases hfrom with hfrom | hfrom
        · rw [hfrom]
        · simp only [beyond, before] at hfrom
          omega
      refine ⟨(toSide buf .backward p).col, hle, fun col hfirst hlast => hrun ⟨p.row, col⟩ rfl ?_ ?_, ?_, ?_⟩
      · rcases Nat.eq_or_lt_of_le hlast with heq | hlt
        · exact Or.inl (GridPos.eq_of rfl heq)
        · exact Or.inr (Or.inr ⟨rfl, hlt⟩)
      · rcases Nat.eq_or_lt_of_le hfirst with heq | hlt
        · exact Or.inl (GridPos.eq_of hrow.symm heq.symm)
        · exact Or.inr (Or.inr ⟨hrow, hlt⟩)
      · rcases Nat.eq_zero_or_pos (toSide buf .backward p).col with h | h
        · exact Or.inl h
        · exact Or.inr (hadj ⟨p.row, (toSide buf .backward p).col - 1⟩ ⟨hrow.symm, by simp only; omega⟩)
      · exact hside ⟨p.row, p.col + 1⟩ ⟨rfl, rfl⟩

theorem leavingWord_iff {p : GridPos} {edge : Edge} : leavingWord buf p dir edge = true ↔
    edge.outward = dir.opposite ∧ isBlankCell (cellAt buf p) = false := by
  cases dir <;> cases edge <;> simp [leavingWord, Edge.outward, Direction.opposite]

/-- What `nudge` takes for the word it leaves: the text of the position's row, when it is in a word and is to go past it. -/
def inWord (buf : CopyBuffer) (p : GridPos) (dir : Direction) (edge : Edge) (q : GridPos) : Bool :=
  leavingWord buf p dir edge && q.row == p.row && !isBlankCell (cellAt buf q)

/-- The cells from the first one on that is not in the word left. -/
def Past (buf : CopyBuffer) (p : GridPos) (dir : Direction) (edge : Edge) (r : GridPos) : Prop :=
  IsCell buf r ∧ ∃ s, (IsCell buf s ∧ beyond dir p s ∧ inWord buf p dir edge s = false) ∧ (r = s ∨ beyond dir s r)

section

variable {p : GridPos} {dir : Direction} {edge : Edge}

theorem inWord_iff {q : GridPos} : inWord buf p dir edge q = true ↔ (edge.outward = dir.opposite ∧
    isBlankCell (cellAt buf p) = false) ∧ q.row = p.row ∧ isBlankCell (cellAt buf q) = false := by
  rw [inWord, Bool.and_eq_true, Bool.and_eq_true, leavingWord_iff, beq_iff_eq, Bool.not_eq_true', and_assoc]

theorem Past.beyond {r : GridPos} (h : Past buf p dir edge r) : beyond dir p r := by
  obtain ⟨-, s, ⟨-, hps, -⟩, rfl | hsr⟩ := h
  · exact hps
  · exact beyond_trans hps hsr

theorem Past.up {q r : GridPos} (h : Past buf p dir edge q) (hr : IsCell buf r) (hqr : CopyText.beyond dir q r) :
    Past buf p dir edge r := by
  obtain ⟨-, s, hs, rfl | hsq⟩ := h
  · exact ⟨hr, q, hs, Or.inr hqr⟩
  · exact ⟨hr, s, hs, Or.inr (beyond_trans hsq hqr)⟩

theorem past_first (buf : CopyBuffer) (p : GridPos) (dir : Direction) (edge : Edge) :
    First dir (fun q => Past buf p dir edge q ∧ isBlankCell (cellAt buf q) = false)
    (((step buf p dir).bind (skipWhile buf dir (inWord buf p dir edge))).bind
      (skipWhile buf dir (fun q => isBlankCell (cellAt buf q)))) := by
  have hleft := First.skipWhile (inWord buf p dir edge) (step_first buf p dir) (fun q hq => hq.1)
    (fun q r hq hr hqr => ⟨hr, beyond_trans hq.2 hqr⟩)
  have hpast : First dir (Past buf p dir edge) ((step buf p dir).bind (skipWhile buf dir (inWord buf p dir edge))) := by
    cases ho : (step buf p dir).bind (skipWhile buf dir (inWord buf p dir edge)) with
    | none =>
      rw [ho] at hleft
      rintro r ⟨-, s, ⟨hs, hps, hstop⟩, -⟩
      exact hleft s ⟨⟨hs, hps⟩, hstop⟩
    | some q =>
      rw [ho] at hleft
      obtain ⟨⟨⟨hq, hpq⟩, hstop⟩, hnext⟩ := hleft
      refine ⟨⟨hq, q, ⟨hq, hpq, hstop⟩, Or.inl rfl⟩, ?_⟩
      rintro r ⟨-, s, ⟨hs, hps, hstop'⟩, hsr⟩
      rcases hnext s ⟨⟨hs, hps⟩, hstop'⟩ with rfl | hqs
      · exact hsr
      · rcases hsr with rfl | hsr
        · exact Or.inr hqs
        · exact Or.inr (beyond_trans hqs hsr)
  exact hpast.skipWhile _ (fun q hq => hq.1) (fun q r hq hr hqr => hq.up hr hqr)

theorem past_of_rests {g : GridPos} (hg : beyond dir p g) (hside : Rests buf edge g) : Past buf p dir edge g := by
  obtain ⟨htext, hadj⟩ := rests_iff.1 hside
  have hcell := isCell_of_text htext
  by_contra hnot
  have hin : inWord buf p dir edge g = true := by
    by_contra hstop
    exact hnot ⟨hcell, g, ⟨hcell, hg, Bool.eq_false_iff.2 hstop⟩, Or.inl rfl⟩
  obtain ⟨⟨hout, hp⟩, hrow, -⟩ := inWord_iff.1 hin
  -- the cell before it in its row is blank, and it is the position or past it
  obtain ⟨n, hn, hnp⟩ := exists_adjacent (beyond_opposite.2 hg) hrow.symm
  have hblank := hadj n (hout ▸ hn)
  rcases hnp with rfl | hnp
  · rw [hp] at hblank
    exact Bool.noConfusion hblank
  · have hpn : beyond dir p n := beyond_opposite.1 hnp
    have hng : beyond dir n g := beyond_opposite.1 hn.beyond
    refine hnot ⟨hcell, n, ⟨(between_isCell (isCell_of_text hp) hcell hrow.symm hpn hng).2, hpn, ?_⟩, Or.inr hng⟩
    rw [inWord, hblank, Bool.not_true, Bool.and_false]

theorem not_text_before {q n : GridPos} (hq : Past buf p dir edge q) (htext : isBlankCell (cellAt buf q) = false)
    (hfirst : ∀ r, Past buf p dir edge r ∧ isBlankCell (cellAt buf r) = false → r = q ∨ beyond dir q r)
    (hout : edge.outward = dir.opposite) (hadj : Adjacent dir n q) : isBlankCell (cellAt buf n) = true := by
  by_contra hn
  have hn := Bool.eq_false_iff.2 hn
  have hrow : n.row = q.row := by
    cases dir <;> exact hadj.1.symm
  have hnq := hadj.beyond
  have hnotPast : ¬Past buf p dir edge n := by
    intro hpast
    rcases hfirst n ⟨hpast, hn⟩ with rfl | h
    · exact beyond_irrefl dir n hnq
    · exact beyond_irrefl dir n (beyond_trans hnq h)
  obtain ⟨hcell, s, ⟨hs, hps, hstop⟩, hsq⟩ := hq
  -- the first cell that is not in the word left is the text itself
  have hsq : q = s ∨ beyond dir s n := by
    rcases hsq with rfl | hsq
    · exact Or.inl rfl
    · rcases beyond_total dir s n with rfl | h | h
      · exact absurd ⟨hs, s, ⟨hs, hps, hstop⟩, Or.inl rfl⟩ hnotPast
      · exact Or.inr h
      · exact absurd hsq (hadj.not_between h)
  rcases hsq with rfl | hsn
  · have hnotIn : ¬(isBlankCell (cellAt buf p) = false ∧ q.row = p.row) := by
      rintro ⟨hp, hqp⟩
      rw [inWord_iff.2 ⟨⟨hout, hp⟩, hqp, htext⟩] at hstop
      exact Bool.noConfusion hstop
    rcases beyond_total dir n p with rfl | h | h
    · exact hnotIn ⟨hn, hrow.symm⟩
    · exact hadj.not_between h hps
    · by_cases hin : inWord buf p dir edge n = true
      · obtain ⟨⟨-, hp⟩, hnp, -⟩ := inWord_iff.1 hin
        exact hnotIn ⟨hp, hrow.symm.trans hnp⟩
      · exact hnotPast ⟨isCell_of_text hn, n, ⟨isCell_of_text hn, h, Bool.eq_false_iff.2 hin⟩, Or.inl rfl⟩
  · exact hnotPast ⟨isCell_of_text hn, s, ⟨hs, hps, hstop⟩, Or.inr hsn⟩

end

theorem outward_cases (edge : Edge) (dir : Direction) : edge.outward = dir ∨ edge.outward = dir.opposite := by
  cases edge <;> cases dir <;> simp [Edge.outward, Direction.opposite]

/-- **`nudge` ends at the nearest side of a word beyond the position.** -/
theorem nudge_first (buf : CopyBuffer) (p : GridPos) (dir : Direction) (edge : Edge) :
    ∃ o, First dir (fun q => beyond dir p q ∧ Rests buf edge q) o ∧ nudge buf p dir edge = o.getD p := by
  have hpast := past_first buf p dir edge
  have hnudge : nudge buf p dir edge = ((((step buf p dir).bind (skipWhile buf dir (inWord buf p dir edge))).bind
      (skipWhile buf dir (fun q => isBlankCell (cellAt buf q)))).map (toSide buf edge.outward)).getD p := by
    show (match ((step buf p dir).bind (skipWhile buf dir (inWord buf p dir edge))).bind
      (skipWhile buf dir (fun q => isBlankCell (cellAt buf q))) with | none => p | some q => toSide buf edge.outward q) = _
    split
    · next h => rw [h]; rfl
    · next q h => rw [h]; rfl
  refine ⟨_, ?_, hnudge⟩
  cases ho : ((step buf p dir).bind (skipWhile buf dir (inWord buf p dir edge))).bind
      (skipWhile buf dir (fun q => isBlankCell (cellAt buf q))) with
  | none =>
    rw [ho] at hpast
    rintro g ⟨hg, hside⟩
    exact hpast g ⟨past_of_rests hg hside, (rests_iff.1 hside).1⟩
  | some q =>
    rw [ho] at hpast
    obtain ⟨⟨hq, htext⟩, hfirst⟩ := hpast
    obtain ⟨hend, hfrom, hrow, hadj, hrun⟩ := toSide_spec edge.outward htext
    have hrests := rests_iff.2 ⟨hend, hadj⟩
    have hall : ∀ g, beyond dir p g ∧ Rests buf edge g → g = q ∨ beyond dir q g :=
      fun g hg => hfirst g ⟨past_of_rests hg.1 hg.2, (rests_iff.1 hg.2).1⟩
    rcases outward_cases edge dir with hout | hout
    · -- the far side of the word that the text starts
      rw [hout] at hend hfrom hrow hadj hrun hrests ⊢
      have hpr : beyond dir p (toSide buf dir q) := by
        rcases hfrom with hfrom | hfrom
        · rw [hfrom]
          exact hq.beyond
        · exact beyond_trans hq.beyond hfrom
      refine ⟨⟨hpr, hrests⟩, fun g hg => ?_⟩
      rcases beyond_total dir g (toSide buf dir q) with h | h | h
      · exact Or.inl h
      · -- text goes on after it
        obtain ⟨htextg, hadjg⟩ := rests_iff.1 hg.2
        have hgrow : g.row = (toSide buf dir q).row := by
          rcases hall g hg with rfl | hqg
          · exact hrow.symm
          · rw [(between_isCell (isCell_of_text htext) (isCell_of_text hend) hrow.symm hqg h).1, hrow]
        obtain ⟨n, hn, hnr⟩ := exists_adjacent h hgrow.symm
        have hqn : n = q ∨ beyond dir q n := by
          rcases hall g hg with rfl | hqg
          · exact Or.inr hn.beyond
          · exact Or.inr (beyond_trans hqg hn.beyond)
        have hnrow : n.row = q.row := by
          rw [← hrow, ← hgrow]
          cases dir <;> exact hn.1
        have hblank := hadjg n (hout ▸ hn)
        rw [hrun n hnrow hqn hnr] at hblank
        exact Bool.noConfusion hblank
      · exact Or.inr h
    · -- the near side is where the text starts
      rw [hout] at hend hfrom hrow hadj hrun hrests ⊢
      have hself : toSide buf dir.opposite q = q := by
        rcases hfrom with hfrom | hfrom
        · exact hfrom
        · obtain ⟨n, hn, hnr⟩ := exists_adjacent hfrom hrow
          have hnrow : n.row = q.row := by
            cases dir <;> exact hn.1
          have hblank := not_text_before hq htext hfirst hout (adjacent_opposite.1 hn)
          rw [hrun n hnrow (Or.inr hn.beyond) hnr] at hblank
          exact Bool.noConfusion hblank
      rw [hself] at hrests
      rw [Option.map_some, hself]
      exact ⟨⟨hq.beyond, hrests⟩, hall⟩

end

/-- **An edge goes to the nearest side of a word beyond it**, and stays only where there is none. -/
theorem nudge_nearest (p : GridPos) (dir : Direction) (edge : Edge) :
    (nudge buf p dir edge = p ↔ ∀ q, beyond dir p q → ¬Rests buf edge q) ∧
      (nudge buf p dir edge ≠ p → beyond dir p (nudge buf p dir edge) ∧ Rests buf edge (nudge buf p dir edge) ∧
        ∀ q, beyond dir p q → Rests buf edge q → q = nudge buf p dir edge ∨ beyond dir (nudge buf p dir edge) q) := by
  obtain ⟨o, hfirst, hnudge⟩ := nudge_first buf p dir edge
  cases o with
  | none =>
    rw [Option.getD_none] at hnudge
    rw [hnudge]
    exact ⟨iff_of_true rfl (fun q hq hside => hfirst q ⟨hq, hside⟩), fun h => absurd rfl h⟩
  | some q =>
    obtain ⟨⟨hbeyond, hside⟩, hnext⟩ := hfirst
    rw [Option.getD_some] at hnudge
    rw [hnudge]
    refine ⟨iff_of_false ?_ (fun hnone => hnone q hbeyond hside), fun _ => ⟨hbeyond, hside, fun r hr hrs => hnext r ⟨hr, hrs⟩⟩⟩
    rintro rfl
    exact beyond_irrefl dir q hbeyond

end CopyText
end Dormouse

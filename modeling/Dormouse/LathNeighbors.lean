import Dormouse.LathBounds
import Dormouse.LathRoundTrip
/-!
# LathNeighbors — the leaf next to a leaf

`neighbors` of `lib/src/lib/lath/layout.ts`: a search over the laid-out rects that never looks at the tree.  What it finds is decided
by the tree all the same: a leaf's rect reaches the rect's own side, or across a gap there is a leaf that it overlaps
(`Filled.next`); and no leaf beyond it is nearer (`Filled.gap_between`).
-/
namespace Dormouse
namespace Lath

inductive Direction where
  | left
  | right
  | up
  | down
  deriving DecidableEq

def Direction.isHorizontal : Direction → Bool
  | .left | .right => true
  | .up | .down => false

def Direction.skips (direction : Direction) (c r : Rect) : Bool :=
  match direction with
  | .left  => decide (r.x + r.width > c.x)
  | .right => decide (r.x < c.x + c.width)
  | .up    => decide (r.y + r.height > c.y)
  | .down  => decide (r.y < c.y + c.height)

def Direction.overlaps (direction : Direction) (c r : Rect) : Bool :=
  if direction.isHorizontal then decide (r.y < c.y + c.height) && decide (r.y + r.height > c.y)
  else decide (r.x < c.x + c.width) && decide (r.x + r.width > c.x)

def Direction.dist (direction : Direction) (c r : Rect) : ℚ :=
  match direction with
  | .left  => c.x - (r.x + r.width)
  | .right => r.x - (c.x + c.width)
  | .up    => c.y - (r.y + r.height)
  | .down  => r.y - (c.y + c.height)

structure Cand where
  id       : LeafId
  dist     : ℚ
  overlaps : Bool
  r        : Rect

def candOf (id : LeafId) (direction : Direction) (c : Rect) (e : LeafId × Rect) : Option Cand :=
  if e.1 = id then none
  else if direction.skips c e.2 then none
  else some ⟨e.1, direction.dist c e.2, direction.overlaps c e.2, e.2⟩

/-- The comparator of the sort: nearest first, then the smaller `(y, x)`, then the id. -/
def compareCands (a b : Cand) : ℚ :=
  if a.dist - b.dist ≠ 0 then a.dist - b.dist
  else if a.r.y - b.r.y ≠ 0 then a.r.y - b.r.y
  else if a.r.x - b.r.x ≠ 0 then a.r.x - b.r.x
  else if a.id < b.id then -1
  else if b.id < a.id then 1
  else 0

/-- The candidates the nearest is taken from: those that overlap, where any do. -/
def pool (cands : List Cand) : List Cand :=
  let overlapping := cands.filter (·.overlaps)
  if overlapping.length > 0 then overlapping else cands

def neighbors (tree : LathTree) (rect : Rect) (id : LeafId) (direction : Direction) (opts : LayoutOpts) : Option LeafId :=
  match (layout tree rect opts).lookup id with
  | none   => none
  | some c =>
    let cands := (layout tree rect opts).filterMap (candOf id direction c)
    ((pool cands).mergeSort (fun a b => decide (compareCands a b ≤ 0))).head?.map (·.id)

/-! ## The nearest candidate -/

theorem ite_sub_le {p q e : ℚ} : (if p - q ≠ 0 then p - q else e) ≤ 0 ↔ p < q ∨ p = q ∧ e ≤ 0 := by
  by_cases h : p - q = 0
  · rw [if_neg (not_not.2 h)]
    have : p = q := by linarith
    simp [this]
  · rw [if_pos h]
    have : p ≠ q := fun he => h (by rw [he, sub_self])
    constructor
    · exact fun hle => .inl (lt_of_le_of_ne (by linarith) this)
    · rintro (hlt | ⟨he, -⟩)
      · linarith
      · exact absurd he this

theorem compareCands_le {a b : Cand} : compareCands a b ≤ 0 ↔ a.dist < b.dist ∨ a.dist = b.dist ∧
    (a.r.y < b.r.y ∨ a.r.y = b.r.y ∧
    (a.r.x < b.r.x ∨ a.r.x = b.r.x ∧ ¬ b.id < a.id)) := by
  have hid : (if a.id < b.id then (-1 : ℚ) else if b.id < a.id then 1 else 0) ≤ 0 ↔ ¬ b.id < a.id := by
    by_cases h : a.id < b.id
    · simp [h, List.lt_asymm h]
    · by_cases h' : b.id < a.id <;> simp [h, h']
  rw [compareCands, ite_sub_le, ite_sub_le, ite_sub_le, hid]

theorem lex_trans {p q r : ℚ} {A B C : Prop} (hABC : A → B → C) (h : p < q ∨ p = q ∧ A) (h' : q < r ∨ q = r ∧ B) :
    p < r ∨ p = r ∧ C := by
  rcases h with h | ⟨rfl, hA⟩
  · rcases h' with h' | ⟨rfl, -⟩
    · exact .inl (h.trans h')
    · exact .inl h
  · exact h'.imp_right (fun ⟨he, hB⟩ => ⟨he, hABC hA hB⟩)

theorem lex_total {p q : ℚ} {A B : Prop} (hAB : A ∨ B) : (p < q ∨ p = q ∧ A) ∨ (q < p ∨ q = p ∧ B) := by
  rcases lt_trichotomy p q with h | rfl | h
  · exact .inl (.inl h)
  · exact hAB.imp (fun hA => .inr ⟨rfl, hA⟩) (fun hB => .inr ⟨rfl, hB⟩)
  · exact .inr (.inl h)

theorem compareCands_trans {a b c : Cand} (h : compareCands a b ≤ 0) (h' : compareCands b c ≤ 0) : compareCands a c ≤ 0 := by
  rw [compareCands_le] at h h' ⊢
  refine lex_trans (fun h h' => ?_) h h'
  refine lex_trans (fun h h' => ?_) h h'
  exact lex_trans (fun h h' => List.le_trans h h') h h'

theorem compareCands_total (a b : Cand) : compareCands a b ≤ 0 ∨ compareCands b a ≤ 0 := by
  rw [compareCands_le, compareCands_le]
  exact lex_total (lex_total (lex_total (List.le_total a.id b.id)))

theorem head_mergeSort {cands : List Cand} {best : Cand}
    (h : (cands.mergeSort (fun a b => decide (compareCands a b ≤ 0))).head? = some best) :
    best ∈ cands ∧ ∀ c ∈ cands, best.dist ≤ c.dist := by
  have hsorted : (cands.mergeSort (fun a b => decide (compareCands a b ≤ 0))).Pairwise
      (fun a b => decide (compareCands a b ≤ 0) = true) := by
    refine List.pairwise_mergeSort (fun a b c hab hbc => ?_) (fun a b => ?_) cands
    · simp only [decide_eq_true_eq] at hab hbc ⊢
      exact compareCands_trans hab hbc
    · simp only [Bool.or_eq_true, decide_eq_true_eq]
      exact compareCands_total a b
  have hmem : ∀ c, c ∈ cands.mergeSort (fun a b => decide (compareCands a b ≤ 0)) ↔ c ∈ cands := fun c => List.mem_mergeSort
  obtain ⟨rest, hrest⟩ := List.head?_eq_some_iff.1 h
  rw [hrest] at hsorted hmem
  refine ⟨(hmem best).1 (List.mem_cons_self ..), fun c hc => ?_⟩
  rcases List.mem_cons.1 ((hmem c).2 hc) with rfl | hc
  · exact le_refl _
  · have := (List.pairwise_cons.1 hsorted).1 c hc
    rw [decide_eq_true_eq, compareCands_le] at this
    exact this.elim le_of_lt (fun h => h.1.le)

/-! ## Rects next to each other -/

def Direction.axis : Direction → Dir
  | .left | .right => .row
  | .up | .down => .col

def Direction.forward : Direction → Bool
  | .right | .down => true
  | .left | .up => false

def Rect.side (r : Rect) (d : Dir) (forward : Bool) : ℚ := if forward then r.stop d else r.start d

def Direction.Touches (direction : Direction) (c wall : Rect) : Prop :=
  match direction with
  | .left  => c.x = wall.x
  | .right => c.x + c.width = wall.x + wall.width
  | .up    => c.y = wall.y
  | .down  => c.y + c.height = wall.y + wall.height

def Rect.Meets (r c : Rect) (d : Dir) : Prop := r.start d < c.stop d ∧ c.start d < r.stop d

/-- A rect lies exactly `gap` ahead of another, and overlaps it on the other axis. -/
def Direction.Adjoins (direction : Direction) (gap : ℚ) (c r : Rect) : Prop :=
  direction.dist c r = gap ∧ r.Meets c direction.axis.other

section
variable {direction : Direction} {c r wall : Rect}

theorem touches_iff : direction.Touches c wall ↔
    c.side direction.axis direction.forward = wall.side direction.axis direction.forward := by
  cases direction <;> exact Iff.rfl

theorem overlaps_iff : direction.overlaps c r = true ↔ r.Meets c direction.axis.other := by
  cases direction <;> simp [Direction.overlaps, Direction.isHorizontal, Rect.Meets, Direction.axis, Dir.other,
    Rect.stop, Rect.start,
    Rect.span]

theorem not_skips_iff : direction.skips c r = false ↔ 0 ≤ direction.dist c r := by
  cases direction <;> simp [Direction.skips, Direction.dist]

theorem dist_eq : direction.dist c r = if direction.forward then r.start direction.axis - c.stop direction.axis
    else c.start direction.axis - r.stop direction.axis := by
  cases direction <;> rfl

end

/-! ## Children next to each other -/

section
variable {opts : LayoutOpts} {d : Dir} {r : Rect}
variable {cs : List LathChild} {ss : List Rect} {a b : ℚ}

theorem FilledRun.head {s : Rect} (h : FilledRun opts d r a b cs ss) (hs : ss[0]? = some s) : s.start d = a := by
  cases cs with
  | nil => exact absurd h not_filledRun_nil
  | cons c cs =>
    cases ss with
    | nil => simp at hs
    | cons t ss =>
      cases hs
      obtain ⟨⟨hslice, -⟩, -⟩ := filledRun_cons.1 h
      rw [hslice, start_slice]

theorem FilledRun.last : ∀ {cs : List LathChild} {ss : List Rect} {a b : ℚ} {i : Nat} {s : Rect}, FilledRun opts d r a b cs ss →
    ss[i]? = some s → i + 1 = ss.length → s.stop d = b
  | [], _, _, _, _, _, h, _, _ => absurd h not_filledRun_nil
  | _ :: _, [], _, _, _, _, _, hs, _ => by simp at hs
  | c :: cs, t :: ss, a, b, i, s, h, hs, hlen => by
    have hl := h.length
    obtain ⟨-, h⟩ := filledRun_cons.1 h
    cases i with
    | zero =>
      cases hs
      have hss : ss = [] := by simpa using hlen
      have hcs : cs = [] := by simpa [hss] using hl
      rw [if_pos hcs] at h
      exact h.1
    | succ i =>
      rw [List.getElem?_cons_succ] at hs
      have hcs : cs ≠ [] := by
        rintro rfl
        have hss : ss = [] := by simpa using hl
        simp [hss] at hs
      rw [if_neg hcs] at h
      exact h.last hs (by simpa using hlen)

theorem FilledRun.next : ∀ {cs : List LathChild} {ss : List Rect} {a b : ℚ} {i : Nat} {s t : Rect},
    FilledRun opts d r a b cs ss →
    ss[i]? = some s → ss[i + 1]? = some t → s.stop d + opts.gap = t.start d
  | [], _, _, _, _, _, _, h, _, _ => absurd h not_filledRun_nil
  | _ :: _, [], _, _, _, _, _, _, hs, _ => by simp at hs
  | c :: cs, u :: ss, a, b, i, s, t, h, hs, ht => by
    have hl := h.length
    obtain ⟨-, h⟩ := filledRun_cons.1 h
    rw [List.getElem?_cons_succ] at ht
    have hcs : cs ≠ [] := by
      rintro rfl
      have hss : ss = [] := by simpa using hl
      simp [hss] at ht
    rw [if_neg hcs] at h
    cases i with
    | zero =>
      cases hs
      exact (h.head ht).symm
    | succ i => exact h.next hs ht

theorem FilledRun.exists_side (h : FilledRun opts d r a b cs ss) (forward : Bool) :
    ∃ (i : Nat) (c : LathChild) (s : Rect), cs[i]? = some c ∧ ss[i]? = some s ∧
    s.side d forward = if forward then b else a := by
  have hlen := h.length
  have hpos : 0 < cs.length := List.length_pos_of_ne_nil (fun hcs => not_filledRun_nil (hcs ▸ h))
  cases forward with
  | true =>
    have hi := List.getElem?_eq_getElem (show cs.length - 1 < ss.length by omega)
    exact ⟨_, _, _, List.getElem?_eq_getElem (by omega), hi, h.last hi (by omega)⟩
  | false =>
    have hi := List.getElem?_eq_getElem (show 0 < ss.length by omega)
    exact ⟨0, _, _, List.getElem?_eq_getElem hpos, hi, h.head hi⟩

theorem FilledRun.side_or_next (h : FilledRun opts d r a b cs ss) {i : Nat} {s : Rect} (hs : ss[i]? = some s)
    (forward : Bool) : (s.side d forward = if forward then b else a) ∨
      ∃ (j : Nat) (c : LathChild) (t : Rect), cs[j]? = some c ∧ ss[j]? = some t ∧
        if forward then s.stop d + opts.gap = t.start d else t.stop d + opts.gap = s.start d := by
  have hlen := h.length
  have hi := (List.getElem?_eq_some_iff.1 hs).1
  cases forward with
  | true =>
    by_cases hlast : i + 1 = ss.length
    · exact .inl (h.last hs hlast)
    · have ht := List.getElem?_eq_getElem (show i + 1 < ss.length by omega)
      exact .inr ⟨i + 1, _, _, List.getElem?_eq_getElem (by omega), ht, h.next hs ht⟩
  | false =>
    cases i with
    | zero => exact .inl (h.head hs)
    | succ j =>
      have ht := List.getElem?_eq_getElem (show j < ss.length by omega)
      exact .inr ⟨j, _, _, List.getElem?_eq_getElem (by omega), ht, h.next ht hs⟩

theorem FilledRun.exists_meets : ∀ {cs : List LathChild} {ss : List Rect} {a b lo hi : ℚ}, FilledRun opts d r a b cs ss →
    lo < b → a < hi → lo + opts.gap < hi →
    ∃ (i : Nat) (c : LathChild) (s : Rect), cs[i]? = some c ∧ ss[i]? = some s ∧ s.start d < hi ∧ lo < s.stop d
  | [], _, _, _, _, _, h, _, _, _ => absurd h not_filledRun_nil
  | _ :: _, [], _, _, _, _, h, _, _, _ => by simp [FilledRun] at h
  | c :: cs, s :: ss, a, b, lo, hi, h, hb, ha, hgap => by
    have hstart := h.head (List.getElem?_cons_zero ..)
    obtain ⟨-, h⟩ := filledRun_cons.1 h
    by_cases hlo : lo < s.stop d
    · exact ⟨0, c, s, rfl, rfl, hstart ▸ ha, hlo⟩
    · split at h
      · exact absurd hb (h.1 ▸ hlo)
      · obtain ⟨i, c', t, hc, ht, hmeet⟩ := h.exists_meets hb (by linarith) hgap
        exact ⟨i + 1, c', t, hc, ht, hmeet⟩

theorem exists_child_rect : ∀ {cs : List LathChild} {ss : List Rect} {e : LeafId × Rect}, e ∈ childLeafRects opts cs ss →
    ∃ (i : Nat) (c : LathChild) (s : Rect), cs[i]? = some c ∧ ss[i]? = some s ∧ e ∈ leafRects opts s c.node
  | [], _, _, h => by simp at h
  | ⟨_, _⟩ :: _, [], _, h => by simp [childLeafRects] at h
  | ⟨n, w⟩ :: cs, s :: ss, e, h => by
    rw [childLeafRects, List.mem_append] at h
    rcases h with h | h
    · exact ⟨0, ⟨n, w⟩, s, rfl, rfl, h⟩
    · obtain ⟨i, c, t, hc, ht, he⟩ := exists_child_rect h
      exact ⟨i + 1, c, t, hc, ht, he⟩

theorem FilledRun.side_other (h : FilledRun opts d r a b cs ss) {i : Nat} {c : LathChild} {s : Rect} (hc : cs[i]? = some c)
    (hs : ss[i]? = some s) {e : Dir} (he : e ≠ d) :
    s.start e = r.start e ∧ s.stop e = r.stop e := by
  obtain ⟨-, p, hslice⟩ := h.child hc hs
  rw [hslice, (slice_other r he _ _).1, stop_slice_other r he]
  exact ⟨rfl, rfl⟩

end

/-! ## What lies ahead of a leaf -/

section
variable {opts : LayoutOpts}

theorem Dir.eq_other {d e : Dir} (h : e ≠ d) : e = d.other := by
  cases d <;> cases e <;> first | exact absurd rfl h | rfl

/-- **On each side of a filled rect, an interval longer than a gap meets a leaf.** -/
theorem Filled.reaches {n : LathNode} {r : Rect} (h : Filled opts r n) (d : Dir) (forward : Bool) {lo hi : ℚ}
    (h1 : lo < r.stop d.other) (h2 : r.start d.other < hi) (hgap : lo + opts.gap < hi) :
    ∃ e ∈ leafRects opts r n, e.2.side d forward = r.side d forward ∧ e.2.start d.other < hi ∧ lo < e.2.stop d.other := by
  induction n using LathNode.ind generalizing r with
  | leaf id => exact ⟨(id, r), by simp [leafRects], rfl, h2, h1⟩
  | split f cs ih =>
    rw [Filled] at h
    rw [leafRects]
    -- the child to look in: the one on that side, or the one that is met
    obtain ⟨i, c, s, hc, hs, hside, hlo, hhi⟩ : ∃ (i : Nat) (c : LathChild) (s : Rect), cs[i]? = some c ∧
        (childRects f cs r opts)[i]? = some s ∧ s.side d forward = r.side d forward ∧ s.start d.other < hi ∧
        lo < s.stop d.other := by
      by_cases hf : d = f
      · subst hf
        obtain ⟨i, c, s, hc, hs, hside⟩ := h.exists_side forward
        obtain ⟨hstart, hstop⟩ := h.side_other hc hs (Dir.other_ne d)
        exact ⟨i, c, s, hc, hs, hside, hstart ▸ h2, hstop ▸ h1⟩
      · obtain rfl : f = d.other := Dir.eq_other (fun he => hf he.symm)
        obtain ⟨i, c, s, hc, hs, hlo, hhi⟩ := h.exists_meets h1 h2 hgap
        obtain ⟨hstart, hstop⟩ := h.side_other hc hs hf
        exact ⟨i, c, s, hc, hs, by rw [Rect.side, Rect.side, hstart, hstop], hlo, hhi⟩
    obtain ⟨e, he, hboth⟩ := ih c (List.mem_of_getElem? hc) (h.child hc hs).1 hhi hlo
    exact ⟨e, mem_childLeafRects hc hs he, hboth.1.trans hside, hboth.2⟩

/-- **A leaf's rect reaches the side ahead, or a leaf adjoins it there.** -/
theorem Filled.next {n : LathNode} {r : Rect} (hg : 0 ≤ opts.gap) (h : Filled opts r n)
    (hsize : ∀ e ∈ leafRects opts r n, ∀ d, opts.gap < e.2.span d) (direction : Direction) {x : LeafId × Rect}
    (hx : x ∈ leafRects opts r n) : direction.Touches x.2 r ∨ ∃ y ∈ leafRects opts r n, direction.Adjoins opts.gap x.2 y.2 := by
  rw [touches_iff]
  induction n using LathNode.ind generalizing r with
  | leaf id =>
    rw [leafRects, List.mem_singleton] at hx
    exact .inl (by rw [hx])
  | split f cs ih =>
    rw [Filled] at h
    rw [leafRects] at hx hsize ⊢
    obtain ⟨i, c, s, hc, hs, hxs⟩ := exists_child_rect hx
    have hup : ∀ {j : Nat} {c' : LathChild} {s' : Rect} {e : LeafId × Rect}, cs[j]? = some c' →
        (childRects f cs r opts)[j]? = some s' → e ∈ leafRects opts s' c'.node →
        e ∈ childLeafRects opts cs (childRects f cs r opts) := fun hc' hs' he => mem_childLeafRects hc' hs' he
    rcases ih c (List.mem_of_getElem? hc) (h.child hc hs).1 (fun e he => hsize e (hup hc hs he)) hxs with htouch | ⟨y, hy, hadj⟩
    · by_cases hf : direction.axis = f
      · subst hf
        rcases h.side_or_next hs direction.forward with hside | ⟨j, c', t, hc', ht, hgap⟩
        · exact .inl (htouch.trans hside)
        · -- the child ahead of the leaf's has a leaf that adjoins it
          obtain ⟨hstart, hstop⟩ := h.side_other hc' ht (Dir.other_ne direction.axis)
          have hin := (h.within hg x hx).2 direction.axis.other (Dir.other_ne _)
          have hspan := hsize x hx direction.axis.other
          have hstopx := Rect.stop_def x.2 direction.axis.other
          have hlo : x.2.start direction.axis.other < t.stop direction.axis.other := by linarith
          have hhi : t.start direction.axis.other < x.2.stop direction.axis.other := by linarith
          obtain ⟨y, hy, hyside, hmeet⟩ := (h.child hc' ht).1.reaches direction.axis (!direction.forward) hlo hhi (by linarith)
          refine .inr ⟨y, hup hc' ht hy, ?_, hmeet⟩
          rw [dist_eq]
          unfold Rect.side at htouch hyside
          cases hfw : direction.forward with
          | true =>
            simp only [hfw, if_true, Bool.not_true, Bool.false_eq_true, if_false] at htouch hyside hgap ⊢
            linarith
          | false =>
            simp only [hfw, if_true, Bool.not_false, Bool.false_eq_true, if_false] at htouch hyside hgap ⊢
            linarith
      · obtain ⟨hstart, hstop⟩ := h.side_other hc hs hf
        left
        rw [htouch, Rect.side, Rect.side, hstart, hstop]
    · exact .inr ⟨y, hup hc hs hy, hadj⟩

end

/-! ## `neighbors` -/

section
variable {rects : List (LeafId × Rect)} {id : LeafId} {direction : Direction} {c : Rect}

theorem mem_cands {cand : Cand} : cand ∈ rects.filterMap (candOf id direction c) ↔ ∃ e ∈ rects, e.1 ≠ id ∧
    0 ≤ direction.dist c e.2 ∧ cand = ⟨e.1, direction.dist c e.2, direction.overlaps c e.2, e.2⟩ := by
  rw [List.mem_filterMap]
  refine exists_congr (fun e => and_congr_right (fun _ => ?_))
  unfold candOf
  by_cases hid : e.1 = id
  · simp [hid]
  · by_cases hskip : direction.skips c e.2 = true
    · have := not_skips_iff.not.1 (by rw [hskip]; decide)
      simp [hid, hskip, this]
    · have := not_skips_iff.1 (Bool.eq_false_iff.2 hskip)
      simp [hid, hskip, this, eq_comm]

theorem pool_eq_nil {cands : List Cand} : pool cands = [] ↔ cands = [] := by
  unfold pool
  dsimp only
  split
  · rename_i h
    constructor
    · exact fun hnil => by simp [hnil] at h
    · exact fun hnil => by simp [hnil]
  · exact Iff.rfl

theorem mem_pool {cands : List Cand} {cand : Cand} (h : ∃ a ∈ cands, a.overlaps = true) :
    cand ∈ pool cands ↔ cand ∈ cands ∧ cand.overlaps = true := by
  obtain ⟨a, ha, hover⟩ := h
  have : (cands.filter (·.overlaps)).length > 0 := List.length_pos_of_mem (List.mem_filter.2 ⟨ha, hover⟩)
  unfold pool
  rw [if_pos this, List.mem_filter]

end

section
variable {opts : LayoutOpts} {n : LathNode} {r : Rect} {direction : Direction} {x y : LeafId × Rect}

theorem Filled.gap_le_dist (hg : 0 ≤ opts.gap) (h : Filled opts r n) (hn : (nodeLeaves n).Nodup)
    (hsize : ∀ e ∈ leafRects opts r n, ∀ d, opts.gap < e.2.span d) (hx : x ∈ leafRects opts r n) (hy : y ∈ leafRects opts r n)
    (hxy : y.1 ≠ x.1) (hahead : 0 ≤ direction.dist x.2 y.2) (hmeet : y.2.Meets x.2 direction.axis.other) :
    opts.gap ≤ direction.dist x.2 y.2 := by
  have hspan := fun e he => (hsize e he direction.axis)
  have hx' := hspan x hx
  have hy' := hspan y hy
  have hsx := Rect.stop_def x.2 direction.axis
  have hsy := Rect.stop_def y.2 direction.axis
  rw [dist_eq] at hahead ⊢
  obtain ⟨e, hp⟩ := precedes_total (mem_of_leafRects hy) (mem_of_leafRects hx) hxy
  obtain ⟨hm1, hm2⟩ := hmeet
  -- they are parted along the direction's axis, for across it they overlap
  have he : e = direction.axis := by
    by_contra he
    rw [Dir.eq_other he] at hp
    rcases hp with hp | hp
    · have := h.gap_between hg hn hy hx hp
      linarith
    · have := h.gap_between hg hn hx hy hp
      linarith
  rw [he] at hp
  rcases hp with hp | hp
  · have := h.gap_between hg hn hy hx hp
    split at hahead
    · linarith
    · rw [if_neg ‹_›]
      linarith
  · have := h.gap_between hg hn hx hy hp
    split at hahead
    · rw [if_pos ‹_›]
      linarith
    · linarith

theorem Filled.not_ahead (hg : 0 ≤ opts.gap) (h : Filled opts r n)
    (hsize : ∀ e ∈ leafRects opts r n, ∀ d, opts.gap < e.2.span d) (hy : y ∈ leafRects opts r n)
    {c : Rect} (htouch : direction.Touches c r) : ¬ 0 ≤ direction.dist c y.2 := by
  have hspan := hsize y hy direction.axis
  have hin := h.within hg y hy direction.axis
  have hsy := Rect.stop_def y.2 direction.axis
  rw [touches_iff] at htouch
  unfold Rect.side at htouch
  rw [dist_eq]
  split at htouch
  · rw [if_pos ‹_›]
    linarith
  · rw [if_neg ‹_›]
    linarith

end

/-- **`neighbors` answers nothing exactly where the leaf reaches the Wall's edge, and else a leaf that adjoins it**: one that overlaps
it on the other axis, a gap from its edge. -/
theorem neighbors_adjoins (t : LathTree) (h : validate t = []) (rect : Rect) (hr : rect.IsInt) (opts : LayoutOpts) (g : Int)
    (hgap : opts.gap = g) (hg : 0 ≤ g)
    (hsize : ∀ e ∈ layout t rect opts, opts.gap < e.2.width ∧ opts.gap < e.2.height) (id : LeafId) (hid : id ∈ leaves t)
    (direction : Direction) : ∃ c, (layout t rect opts).lookup id = some c ∧
      (neighbors t rect id direction opts = none ↔ direction.Touches c rect) ∧
      ∀ other, neighbors t rect id direction opts = some other →
        ∃ r, (layout t rect opts).lookup other = some r ∧ direction.Adjoins opts.gap c r := by
  have hv := (validate_eq_nil t).1 h
  rcases t with ⟨_ | n⟩
  · simp at hid
  have hn : (nodeLeaves n).Nodup := hv.nodup
  have hg' : 0 ≤ opts.gap := by
    rw [hgap]
    exact_mod_cast hg
  have hlayout := layout_eq hn rect opts
  rw [hlayout] at hsize ⊢
  have hsize' : ∀ e ∈ leafRects opts (nonnegativeRect rect) n, ∀ d, opts.gap < e.2.span d := fun e he d => by
    cases d
    · exact (hsize e he).1
    · exact (hsize e he).2
  obtain ⟨hfill, hpos⟩ := filled_of_positive hgap hg (hv.canon n rfl) hr.nonnegativeRect.isInt
    (fun e he d => hg'.trans_lt (hsize' e he d))
  -- the Wall's rect has extent, so it is laid out as it is
  have hrect : nonnegativeRect rect = rect := by
    have hw : 0 < max 0 rect.width := hpos .row
    have hh : 0 < max 0 rect.height := hpos .col
    rw [lt_max_iff] at hw hh
    unfold nonnegativeRect
    rw [max_eq_right (by simpa using hw : 0 < rect.width).le, max_eq_right (by simpa using hh : 0 < rect.height).le]
  rw [hrect] at hlayout hfill hsize' ⊢
  have hkeys := keys_leafRects opts n rect
  have hnk : ((leafRects opts rect n).map (·.1)).Nodup := by
    rw [hkeys]
    exact hn
  obtain ⟨c, hx⟩ : ∃ c, (id, c) ∈ leafRects opts rect n := by
    obtain ⟨⟨_, c⟩, hx, rfl⟩ := List.mem_map.1 (hkeys.symm ▸ hid : id ∈ (leafRects opts rect n).map (·.1))
    exact ⟨c, hx⟩
  have hlookup := lookup_of_mem hnk hx
  refine ⟨c, hlookup, ?_⟩
  unfold neighbors
  rw [hlayout, hlookup]
  dsimp only
  rcases hfill.next hg' hsize' direction hx with htouch | ⟨y, hy, hdist, hmeet⟩
  · have hcands : (leafRects opts rect n).filterMap (candOf id direction c) = [] := by
      refine List.eq_nil_iff_forall_not_mem.2 (fun cand hcand => ?_)
      obtain ⟨e, he, -, hahead, -⟩ := mem_cands.1 hcand
      exact hfill.not_ahead hg' hsize' he htouch hahead
    rw [hcands, pool_eq_nil.2 rfl, List.mergeSort_nil]
    exact ⟨⟨fun _ => htouch, fun _ => rfl⟩, fun other hother => by simp at hother⟩
  · have hy0 : 0 ≤ direction.dist c y.2 := by
      rw [hdist]
      exact hg'
    have hyid : y.1 ≠ id := by
      intro he
      -- a rect is not ahead of itself
      have hyc : y.2 = c := by
        have := lookup_of_mem hnk (show (id, y.2) ∈ leafRects opts rect n from he ▸ hy)
        rw [hlookup, Option.some.injEq] at this
        exact this.symm
      have hspan := hsize' y hy direction.axis
      have hstop := Rect.stop_def y.2 direction.axis
      rw [← hyc, dist_eq] at hdist
      split at hdist <;> linarith
    have hcand := mem_cands.2 ⟨y, hy, hyid, hy0, rfl⟩
    have hover : ∃ a ∈ (leafRects opts rect n).filterMap (candOf id direction c), a.overlaps = true :=
      ⟨_, hcand, overlaps_iff.2 hmeet⟩
    have hypool := (mem_pool hover).2 ⟨hcand, overlaps_iff.2 hmeet⟩
    cases hbest : ((pool ((leafRects opts rect n).filterMap (candOf id direction c))).mergeSort
        (fun a b => decide (compareCands a b ≤ 0))).head? with
    | none =>
      have hnil := List.head?_eq_none_iff.1 hbest
      have := (List.mergeSort_perm (pool ((leafRects opts rect n).filterMap (candOf id direction c)))
        (fun a b => decide (compareCands a b ≤ 0))).mem_iff.2 hypool
      rw [hnil] at this
      exact absurd this List.not_mem_nil
    | some best =>
      obtain ⟨hmem, hmin⟩ := head_mergeSort hbest
      obtain ⟨hmem, hbestover⟩ := (mem_pool hover).1 hmem
      obtain ⟨e, he, heid, hahead, rfl⟩ := mem_cands.1 hmem
      have hmeet' := overlaps_iff.1 hbestover
      have hle : direction.dist c e.2 ≤ opts.gap := hdist ▸ hmin _ hypool
      have hge := hfill.gap_le_dist hg' hn hsize' hx he heid hahead hmeet'
      refine ⟨⟨fun hnone => by simp at hnone, fun htouch => absurd hy0 (hfill.not_ahead hg' hsize' hy htouch)⟩,
        fun other hother => ?_⟩
      rw [Option.map_some, Option.some.injEq] at hother
      subst hother
      exact ⟨e.2, lookup_of_mem hnk he, le_antisymm hle hge, hmeet'⟩

theorem neighbors_adjoins_cornerTree : validate cornerTree = [] ∧
    (∀ e ∈ layout cornerTree sampleRect sampleOpts, 6 < e.2.width ∧ 6 < e.2.height) ∧
    neighbors cornerTree sampleRect (units "a") .left sampleOpts = none := by
  have hv : validate cornerTree = [] := (validate_eq_nil _).2 (cornerTree_valid.imp (fun _ => near_of_exact))
  have hsize : ∀ e ∈ layout cornerTree sampleRect sampleOpts, 6 < e.2.width ∧ 6 < e.2.height := by decide +kernel
  obtain ⟨c, hc, hnone, -⟩ := neighbors_adjoins cornerTree hv sampleRect sampleRect_integral.isInt sampleOpts 6
    (by norm_num [sampleOpts]) (by norm_num) hsize (units "a") (by decide) .left
  have hc' : (layout cornerTree sampleRect sampleOpts).lookup (units "a") = some ⟨0, 0, 30, 80⟩ := by decide +kernel
  rw [hc', Option.some.injEq] at hc
  subst hc
  exact ⟨hv, hsize, hnone.2 rfl⟩

def evenRow : LathTree := ⟨some (.split .row [⟨.leaf (units "a"), 1 / 2⟩, ⟨.leaf (units "b"), 1 / 2⟩])⟩

/-- **Under a negative gap neighbours overlap, and are passed over**: the right half reaches back over the left one, which so has
nothing to its right without reaching the Wall's edge. -/
theorem negative_gap_hides : validate evenRow = [] ∧
    (∀ e ∈ layout evenRow ⟨0, 0, 10, 10⟩ ⟨-1, ⟨0, 0⟩⟩, (-1 < e.2.width ∧ -1 < e.2.height) ∧ 0 < e.2.width ∧ 0 < e.2.height) ∧
    neighbors evenRow ⟨0, 0, 10, 10⟩ (units "a") .right ⟨-1, ⟨0, 0⟩⟩ = none ∧
    ∃ c, (layout evenRow ⟨0, 0, 10, 10⟩ ⟨-1, ⟨0, 0⟩⟩).lookup (units "a") = some c ∧
      ¬ Direction.right.Touches c ⟨0, 0, 10, 10⟩ := by
  refine ⟨by decide +kernel, by decide +kernel, by decide +kernel, ⟨0, 0, 6, 10⟩, by decide +kernel, ?_⟩
  norm_num [Direction.Touches]

end Lath
end Dormouse

import Dormouse.LathSides
import Dormouse.LathTiling
/-!
# LathBounds — what borders on what, in the laid-out rects

`Filled`: in every split the children's rects, a gap between each and the next, run from one side of the split's rect to the other.
A layout is so where no split's gaps exceed its span (`filled_of_fits`), and where every leaf has extent (`filled_of_positive`).  The
rects under a node then bound the node's rect (`boundingBox_node`), those of consecutive children the slice they take up
(`FilledRun.boundingBox`), and a leaf that comes before another along a direction ends a gap before it at the latest
(`Filled.gap_between`).
-/
namespace Dormouse
namespace Lath

def Rect.stop (r : Rect) (d : Dir) : ℚ := r.start d + r.span d

theorem Rect.stop_def (r : Rect) (d : Dir) : r.stop d = r.start d + r.span d := rfl

@[simp] theorem stop_slice (r : Rect) (d : Dir) (pos len : ℚ) : (r.slice d pos len).stop d = pos + len := by
  rw [Rect.stop, start_slice, span_slice]

theorem stop_slice_other (r : Rect) {d e : Dir} (h : e ≠ d) (pos len : ℚ) : (r.slice d pos len).stop e = r.stop e := by
  rw [Rect.stop, (slice_other r h pos len).1, (slice_other r h pos len).2, Rect.stop]

theorem Dir.other_ne (d : Dir) : d.other ≠ d := by cases d <;> decide

theorem slice_self (r : Rect) (d : Dir) : r.slice d (r.start d) (r.span d) = r := by cases d <;> rfl

theorem stop_of_slice {r s : Rect} {d : Dir} {a : ℚ} (h : s = r.slice d a (s.span d)) : s.stop d = a + s.span d := by
  conv => lhs; rw [h]
  exact stop_slice r d a (s.span d)

def Rect.IsInt (r : Rect) : Prop := ∃ x y w h : Int, r = ⟨x, y, w, h⟩

theorem Rect.IsInt.nonnegativeRect {r : Rect} (h : r.IsInt) : (nonnegativeRect r).Integral := by
  obtain ⟨x, y, w, k, rfl⟩ := h
  exact ⟨x, y, max 0 w, max 0 k, by simp [Lath.nonnegativeRect], le_max_left _ _, le_max_left _ _⟩

theorem Rect.IsInt.slice {r : Rect} (h : r.IsInt) (d : Dir) (pos len : Int) : (r.slice d pos len).IsInt := by
  obtain ⟨x, y, w, k, rfl⟩ := h
  cases d
  · exact ⟨pos, y, len, k, rfl⟩
  · exact ⟨x, pos, w, len, rfl⟩

variable {r : Rect}

theorem Rect.IsInt.start_span (h : r.IsInt) (d : Dir) : ∃ a b : Int, r.start d = a ∧ r.span d = b := by
  obtain ⟨x, y, w, k, rfl⟩ := h
  cases d
  · exact ⟨x, w, rfl, rfl⟩
  · exact ⟨y, k, rfl, rfl⟩

theorem Rect.Integral.isInt (h : r.Integral) : r.IsInt := by
  obtain ⟨x, y, w, k, hr, -⟩ := h
  exact ⟨x, y, w, k, hr⟩

/-! ## Filled trees -/

mutual
/-- No leaf's rect is negative, and every split's children with their gaps take up its rect. -/
def Filled (opts : LayoutOpts) (r : Rect) : LathNode → Prop
  | .leaf _     => ∀ d, 0 ≤ r.span d
  | .split d cs => FilledRun opts d r (r.start d) (r.stop d) cs (childRects d cs r opts)
/-- The children's rects run from `a` to `b` across `r`, a gap between each and the next. -/
def FilledRun (opts : LayoutOpts) (d : Dir) (r : Rect) (a b : ℚ) : List LathChild → List Rect → Prop
  | ⟨n, _⟩ :: cs, s :: ss =>
    (s = r.slice d a (s.span d) ∧ Filled opts s n) ∧
      if cs = [] then s.stop d = b ∧ ss = [] else FilledRun opts d r (s.stop d + opts.gap) b cs ss
  | _,            _       => False
end

section
variable {opts : LayoutOpts} {d : Dir} {r : Rect}

theorem filledRun_cons {a b : ℚ} {c : LathChild} {cs : List LathChild} {s : Rect} {ss : List Rect} :
    FilledRun opts d r a b (c :: cs) (s :: ss) ↔ (s = r.slice d a (s.span d) ∧ Filled opts s c.node) ∧
      if cs = [] then s.stop d = b ∧ ss = [] else FilledRun opts d r (s.stop d + opts.gap) b cs ss := by
  obtain ⟨n, w⟩ := c
  rw [FilledRun]

theorem not_filledRun_nil {a b : ℚ} {ss : List Rect} : ¬ FilledRun opts d r a b [] ss := by simp [FilledRun]

theorem FilledRun.length : ∀ {cs : List LathChild} {ss : List Rect} {a b : ℚ}, FilledRun opts d r a b cs ss →
    ss.length = cs.length
  | [], _, _, _, h => absurd h not_filledRun_nil
  | _ :: _, [], _, _, h => by simp [FilledRun] at h
  | c :: cs, s :: ss, a, b, h => by
    obtain ⟨-, h⟩ := filledRun_cons.1 h
    split at h
    · rename_i hcs
      rw [hcs, h.2]
      rfl
    · rw [List.length_cons, List.length_cons, h.length]

theorem FilledRun.child : ∀ {cs : List LathChild} {ss : List Rect} {a b : ℚ}, FilledRun opts d r a b cs ss →
    ∀ {i : Nat} {c : LathChild} {s : Rect}, cs[i]? = some c → ss[i]? = some s →
      Filled opts s c.node ∧ ∃ p, s = r.slice d p (s.span d)
  | [], _, _, _, h, _, _, _, _, _ => absurd h not_filledRun_nil
  | _ :: _, [], _, _, h, _, _, _, _, _ => by simp [FilledRun] at h
  | c :: cs, s :: ss, a, b, h, i, c', s', hi, hs' => by
    obtain ⟨⟨hs, hc⟩, h⟩ := filledRun_cons.1 h
    cases i with
    | zero =>
      cases hi
      cases hs'
      exact ⟨hc, a, hs⟩
    | succ i =>
      rw [List.getElem?_cons_succ] at hi hs'
      split at h
      · rename_i hcs
        simp [hcs] at hi
      · exact h.child hi hs'

theorem FilledRun.append : ∀ {as bs : List LathChild} {ss : List Rect} {a b : ℚ}, as ≠ [] → bs ≠ [] →
    FilledRun opts d r a b (as ++ bs) ss → ∃ ts us m, ss = ts ++ us ∧ FilledRun opts d r a m as ts ∧
      FilledRun opts d r (m + opts.gap) b bs us
  | [], _, _, _, _, ha, _, _ => absurd rfl ha
  | _ :: _, _, [], _, _, _, _, h => by simp [FilledRun] at h
  | c :: as, bs, s :: ss, a, b, _, hb, h => by
    rw [List.cons_append] at h
    obtain ⟨hs, h⟩ := filledRun_cons.1 h
    rw [if_neg (by simp [hb])] at h
    by_cases has : as = []
    · subst has
      exact ⟨[s], ss, s.stop d, rfl, filledRun_cons.2 ⟨hs, by simp⟩, h⟩
    · obtain ⟨ts, us, m, rfl, ht, hu⟩ := FilledRun.append has hb h
      exact ⟨s :: ts, us, m, rfl, filledRun_cons.2 ⟨hs, by rwa [if_neg has]⟩, hu⟩

end

variable {opts : LayoutOpts}

theorem FilledRun.middle {d : Dir} {as bs cs : List LathChild} {ss : List Rect} {a b : ℚ} (hne : bs ≠ [])
    (h : FilledRun opts d r a b (as ++ bs ++ cs) ss) : ∃ a' b' ts pre post, FilledRun opts d r a' b' bs ts ∧
      childLeafRects opts (as ++ bs ++ cs) ss = pre ++ childLeafRects opts bs ts ++ post := by
  have hfront : ∃ b' us post, FilledRun opts d r a b' (as ++ bs) us ∧
      childLeafRects opts (as ++ bs ++ cs) ss = childLeafRects opts (as ++ bs) us ++ post := by
    by_cases hcs : cs = []
    · subst hcs
      rw [List.append_nil] at h ⊢
      exact ⟨b, ss, [], h, by rw [List.append_nil]⟩
    · obtain ⟨us, vs, m, rfl, hu, -⟩ := h.append (by simp [hne]) hcs
      exact ⟨m, us, _, hu, childLeafRects_runs hu.length⟩
  obtain ⟨b', us, post, hu, he⟩ := hfront
  by_cases has : as = []
  · subst has
    rw [List.nil_append] at hu he ⊢
    exact ⟨a, b', us, [], post, hu, by rw [he, List.nil_append]⟩
  · obtain ⟨ts, vs, m, rfl, ht, hv⟩ := hu.append has hne
    exact ⟨_, b', vs, _, post, hv, by rw [he, childLeafRects_runs ht.length]⟩

/-! ## Rects have no negative extent -/

mutual
theorem Filled.nonneg {opts : LayoutOpts} (hg : 0 ≤ opts.gap) : ∀ {n : LathNode} {r : Rect}, Filled opts r n → ∀ d, 0 ≤ r.span d
  | .leaf _, _, h => h
  | .split d cs, r, h => by
    rw [Filled] at h
    have hrun := FilledRun.nonneg hg h
    intro e
    by_cases he : e = d
    · subst he
      rw [Rect.stop] at hrun
      linarith [hrun.1]
    · exact hrun.2 e he
theorem FilledRun.nonneg {opts : LayoutOpts} (hg : 0 ≤ opts.gap) {d : Dir} {r : Rect} :
    ∀ {cs : List LathChild} {ss : List Rect} {a b : ℚ},
    FilledRun opts d r a b cs ss → a ≤ b ∧ ∀ e, e ≠ d → 0 ≤ r.span e
  | [], _, _, _, h => absurd h not_filledRun_nil
  | ⟨_, _⟩ :: _, [], _, _, h => by simp [FilledRun] at h
  | ⟨n, w⟩ :: cs, s :: ss, a, b, h => by
    obtain ⟨⟨hs, hn⟩, h⟩ := filledRun_cons.1 h
    have hspan := Filled.nonneg hg hn
    have hstart : s.start d = a := by rw [hs, start_slice]
    have hd := hspan d
    refine ⟨?_, fun e he => ?_⟩
    · rw [Rect.stop, hstart] at h
      split at h
      · linarith [h.1]
      · linarith [(FilledRun.nonneg hg h).1]
    · have := hspan e
      rwa [hs, (slice_other r he _ _).2] at this
end

/-! ## Layouts that fill their rect -/

theorem filledRun_placeRects {opts : LayoutOpts} {d : Dir} {r : Rect} {g : Int} (hgap : opts.gap = g) :
    ∀ (cs : List LathChild) (spans : List Int) (a : ℚ), spans.length = cs.length → cs ≠ [] →
      (∀ (i : Nat) (c : LathChild) (s : Rect), cs[i]? = some c → (placeRects d r g a spans)[i]? = some s →
        Filled opts s c.node) →
      FilledRun opts d r a (a + (extent g spans : Int)) cs (placeRects d r g a spans)
  | [], _, _, _, hne, _ => absurd rfl hne
  | _ :: _, [], _, h, _, _ => by simp at h
  | c :: cs, s :: spans, a, h, _, hc => by
    rw [placeRects]
    refine filledRun_cons.2 ⟨⟨by rw [span_slice], hc 0 c _ rfl rfl⟩, ?_⟩
    rw [stop_slice, hgap]
    cases cs with
    | nil =>
      have hs : spans = [] := by simpa using h
      rw [if_pos rfl, hs]
      exact ⟨by rw [extent], rfl⟩
    | cons c' cs =>
      rw [if_neg (List.cons_ne_nil _ _)]
      have hrest := filledRun_placeRects hgap (c' :: cs) spans (a + (s + g)) (by simpa using h) (List.cons_ne_nil _ _)
        (fun i k t hi ht => hc (i + 1) k t hi ht)
      obtain ⟨t, u, rfl⟩ := List.exists_cons_of_length_pos (l := spans) (by simp at h; omega)
      have hext : a + (s + g) + ((extent g (t :: u) : Int) : ℚ) = a + ((extent g (s :: t :: u) : Int) : ℚ) := by
        rw [extent]
        push_cast
        ring
      rw [hext] at hrest
      rw [add_assoc]
      exact hrest

section
variable {opts : LayoutOpts} {g : Int} (hgap : opts.gap = g)
include hgap

/-- A split is filled where its children are, and their spans with the gaps make up its own. -/
theorem filled_split {d : Dir} {cs : List LathChild} {r : Rect} (hne : cs ≠ [])
    (hext : ((extent g (allocateChildSpans cs (r.span d) opts d) : Int) : ℚ) = r.span d)
    (hc : ∀ (i : Nat) (c : LathChild) (s : Rect), cs[i]? = some c → (childRects d cs r opts)[i]? = some s →
      Filled opts s c.node) :
    Filled opts r (.split d cs) := by
  rw [Filled, Rect.stop, ← hext]
  unfold childRects at hc ⊢
  rw [hgap] at hc ⊢
  exact filledRun_placeRects hgap cs _ _ (length_allocateChildSpans cs (r.span d) opts d) hne hc

end

variable {n : LathNode}

/-- **Where no split's gaps exceed its span, the layout fills the rect.** -/
theorem filled_of_fits {S : ℚ → Prop} (ho : opts.Integral) (hc : Canon S n) :
    ∀ {r : Rect}, r.Integral → FitsAt opts n r → Filled opts r n := by
  induction hc with
  | leaf id =>
    intro r hr _
    rw [Filled]
    exact hr.span_nonneg
  | @split d cs count pos sum alt child ih =>
    intro r hr hfit
    have hcan : Canon S (.split d cs) := .split count pos sum alt child
    obtain ⟨-, hext, -⟩ := extent_childSpans hcan ho hr
    obtain ⟨hrects, -⟩ := childRects_spec hcan ho hr
    obtain ⟨g, w, h, hopts, -⟩ := id ho
    have hgap : opts.gap = g := by rw [hopts]
    have hroot := hfit [] d cs r (by simp) (by simp [nodeRectAt])
    refine filled_split hgap (by rintro rfl; simp at count) (hext hroot g hgap) (fun i c s hi hs => ?_)
    refine ih c (List.mem_of_getElem? hi) (hrects s (List.mem_of_getElem? hs)).1 (fun p e es t hp ht => ?_)
    refine hfit (i :: p) e es t ?_ ?_
    · simpa [nodeAt_split_cons, hi] using hp
    · simpa [nodeRectAt, hi, hs] using ht

theorem sum_cumulativeRoundFrom (target : Int) : ∀ (fs : List ℚ) (cum : ℚ) (prev : Int), fs ≠ [] →
    (cumulativeRoundFrom target cum prev fs).sum = target - prev
  | [], _, _, h => absurd rfl h
  | [_], _, _, _ => by rw [cumulativeRoundFrom, List.sum_singleton]
  | f :: g :: t, cum, prev, _ => by
    rw [cumulativeRoundFrom, List.sum_cons, sum_cumulativeRoundFrom target (g :: t) _ _ (List.cons_ne_nil _ _)]
    omega

theorem sum_allocateChildSpans {cs : List LathChild} (hne : cs ≠ []) (span : ℚ) (opts : LayoutOpts) (d : Dir) :
    (allocateChildSpans cs span opts d).sum = round (availableSpan cs.length span opts) := by
  unfold allocateChildSpans cumulativeRound
  rw [sum_cumulativeRoundFrom _ _ _ _ (fun h => ?_), sub_zero]
  have := length_allocateFracs cs (availableSpan cs.length span opts) opts d
  rw [h] at this
  exact hne (List.length_eq_zero_iff.1 this.symm)

theorem getElem?_placeRects (d : Dir) (r : Rect) (g : Int) : ∀ {spans : List Int} (pos : Int) {i : Nat} {s : Int},
    spans[i]? = some s → ∃ p : Int, (placeRects d r g pos spans)[i]? = some (r.slice d p s)
  | [], _, _, _, h => by simp at h
  | t :: ts, pos, 0, s, h => by
    rw [List.getElem?_cons_zero, Option.some.injEq] at h
    exact ⟨pos, by rw [placeRects, List.getElem?_cons_zero, h]⟩
  | t :: ts, pos, i + 1, s, h => by
    rw [List.getElem?_cons_succ] at h
    obtain ⟨p, hp⟩ := getElem?_placeRects d r g (pos + (t + g)) h
    refine ⟨p, ?_⟩
    rw [placeRects, List.getElem?_cons_succ]
    push_cast at hp
    exact hp

/-- **Where every leaf has extent, the layout fills the rect**, whatever the minimum leaf. -/
theorem filled_of_positive {S : ℚ → Prop} {g : Int} (hgap : opts.gap = g) (hg : 0 ≤ g) (hc : Canon S n) :
    ∀ {r : Rect}, r.IsInt → (∀ e ∈ leafRects opts r n, ∀ d, 0 < e.2.span d) →
      Filled opts r n ∧ ∀ d, 0 < r.span d := by
  induction hc with
  | leaf id =>
    intro r _ hpos
    have hspan := hpos (id, r) (by simp [leafRects])
    rw [Filled]
    exact ⟨fun d => (hspan d).le, hspan⟩
  | @split d cs count pos sum alt child ih =>
    intro r hr hpos
    have hne : cs ≠ [] := by rintro rfl; simp at count
    have hlen := length_allocateChildSpans cs (r.span d) opts d
    obtain ⟨a, b, ha, hb⟩ := hr.start_span d
    have hplace : childRects d cs r opts = placeRects d r g a (allocateChildSpans cs (r.span d) opts d) := by
      rw [childRects, hgap, ha]
    -- each child's rect is a slice of the split's, with leaves of extent
    have hchild : ∀ (i : Nat) (c : LathChild), cs[i]? = some c → ∃ p s : Int,
        (allocateChildSpans cs (r.span d) opts d)[i]? = some s ∧ (childRects d cs r opts)[i]? = some (r.slice d p s) ∧
        Filled opts (r.slice d p s) c.node ∧ ∀ e, 0 < (r.slice d p s).span e := by
      intro i c hi
      have hil := (List.getElem?_eq_some_iff.1 hi).1
      have hs := List.getElem?_eq_getElem (hlen ▸ hil)
      obtain ⟨p, hp⟩ := getElem?_placeRects d r g a hs
      rw [← hplace] at hp
      refine ⟨p, _, hs, hp, ih c (List.mem_of_getElem? hi) (hr.slice d p _) (fun e he => hpos e ?_)⟩
      rw [leafRects]
      exact mem_childLeafRects hi hp he
    have hspans : ∀ s ∈ allocateChildSpans cs (r.span d) opts d, 0 < s := by
      intro s hs
      obtain ⟨i, hi⟩ := List.mem_iff_getElem?.1 hs
      have hil : i < cs.length := hlen ▸ (List.getElem?_eq_some_iff.1 hi).1
      obtain ⟨p, s', hs', -, -, hspan⟩ := hchild i _ (List.getElem?_eq_getElem hil)
      rw [hi] at hs'
      cases hs'
      have := hspan d
      rw [span_slice] at this
      exact_mod_cast this
    have hsne : allocateChildSpans cs (r.span d) opts d ≠ [] := fun h =>
      hne (List.length_eq_zero_iff.1 (by rw [← hlen, h]; rfl))
    have hsum := sum_allocateChildSpans hne (r.span d) opts d
    have hsumpos := List.sum_pos _ hspans hsne
    have havail : availableSpan cs.length (r.span d) opts = ((max 0 (b - g * ((cs.length : Int) - 1)) : Int) : ℚ) := by
      rw [availableSpan, hb, hgap]
      push_cast
      rfl
    rw [havail, round_int] at hsum
    have hb' : (allocateChildSpans cs (r.span d) opts d).sum = b - g * ((cs.length : Int) - 1) := by omega
    have hext : ((extent g (allocateChildSpans cs (r.span d) opts d) : Int) : ℚ) = r.span d := by
      rw [extent_eq g hsne, hlen, hb', hb]
      push_cast
      ring
    refine ⟨filled_split hgap hne hext (fun i c s hi hs => ?_), fun e => ?_⟩
    · obtain ⟨p, s', -, hs', hfill, -⟩ := hchild i c hi
      rw [hs] at hs'
      cases hs'
      exact hfill
    · by_cases he : e = d
      · have hcount : (2 : Int) ≤ cs.length := by exact_mod_cast count
        have hgaps : 0 ≤ g * ((cs.length : Int) - 1) := mul_nonneg hg (by omega)
        rw [he, hb]
        exact_mod_cast (by omega : 0 < b)
      · obtain ⟨p, s, -, -, -, hspan⟩ := hchild 0 _ (List.getElem?_eq_getElem (show 0 < cs.length by omega))
        have := hspan e
        rwa [(slice_other r he _ _).2] at this

/-! ## Bounding boxes -/

def Rect.join (r s : Rect) : Rect :=
  ⟨min r.x s.x, min r.y s.y, max (r.x + r.width) (s.x + s.width) - min r.x s.x,
    max (r.y + r.height) (s.y + s.height) - min r.y s.y⟩

def boundingBox : List Rect → Option Rect
  | []      => none
  | r :: rs => some ((boundingBox rs).elim r r.join)

theorem join_assoc (r s t : Rect) : (r.join s).join t = r.join (s.join t) := by
  unfold Rect.join
  simp only [add_sub_cancel, min_assoc, max_assoc]

theorem boundingBox_append {as bs : List Rect} {a b : Rect} (ha : boundingBox as = some a) (hb : boundingBox bs = some b) :
    boundingBox (as ++ bs) = some (a.join b) := by
  induction as generalizing a with
  | nil => cases ha
  | cons r as ih =>
    rw [boundingBox, Option.some.injEq] at ha
    rw [List.cons_append, boundingBox]
    cases has : boundingBox as with
    | none =>
      have hnil : as = [] := by
        cases as with
        | nil => rfl
        | cons => simp [boundingBox] at has
      rw [has, Option.elim_none] at ha
      rw [hnil, List.nil_append, hb, Option.elim_some, ha]
    | some a' =>
      rw [has, Option.elim_some] at ha
      rw [ih has, Option.elim_some, ← ha, join_assoc]

theorem join_slice (r : Rect) (d : Dir) {a m m' b : ℚ} (h1 : a ≤ m) (h2 : m ≤ m') (h3 : m' ≤ b) :
    (r.slice d a (m - a)).join (r.slice d m' (b - m')) = r.slice d a (b - a) := by
  have hmin : min a m' = a := min_eq_left (h1.trans h2)
  have hmax : max (a + (m - a)) (m' + (b - m')) = b := by
    rw [add_sub_cancel, add_sub_cancel]
    exact max_eq_right (h2.trans h3)
  cases d <;> simp only [Rect.join, Rect.slice, hmin, hmax, min_self, max_self, add_sub_cancel_left]

mutual
/-- **The leaf rects under a node bound the node's rect.** -/
theorem boundingBox_node {opts : LayoutOpts} (hg : 0 ≤ opts.gap) : ∀ {n : LathNode} {r : Rect}, Filled opts r n →
    boundingBox ((leafRects opts r n).map (·.2)) = some r
  | .leaf _, _, _ => by simp [leafRects, boundingBox]
  | .split d cs, r, h => by
    rw [Filled] at h
    rw [leafRects, FilledRun.boundingBox hg h, Rect.stop, add_sub_cancel_left, slice_self]
theorem FilledRun.boundingBox {opts : LayoutOpts} (hg : 0 ≤ opts.gap) {d : Dir} {r : Rect} : ∀ {cs : List LathChild}
    {ss : List Rect} {a b : ℚ}, FilledRun opts d r a b cs ss →
      Lath.boundingBox ((childLeafRects opts cs ss).map (·.2)) = some (r.slice d a (b - a))
  | [], _, _, _, h => absurd h not_filledRun_nil
  | ⟨_, _⟩ :: _, [], _, _, h => by simp [FilledRun] at h
  | ⟨n, w⟩ :: cs, s :: ss, a, b, h => by
    obtain ⟨⟨hs, hn⟩, h⟩ := filledRun_cons.1 h
    have hnode := boundingBox_node hg hn
    have hspan := Filled.nonneg hg hn d
    have hstop := stop_of_slice hs
    rw [childLeafRects, List.map_append]
    split at h
    · rename_i hcs
      rw [hcs, childLeafRects_nil, List.map_nil, List.append_nil, hnode, hs, ← h.1, hstop, add_sub_cancel_left]
    · have hrest := FilledRun.boundingBox hg h
      have hle := (FilledRun.nonneg hg h).1
      have hs' : s = r.slice d a (s.stop d - a) := by
        rw [hstop, add_sub_cancel_left]
        exact hs
      rw [boundingBox_append hnode hrest, hs', stop_slice, add_sub_cancel]
      exact congrArg some (join_slice r d (by linarith) (by linarith) hle)
end

/-! ## Where the leaf rects lie -/

mutual
theorem Filled.within {opts : LayoutOpts} (hg : 0 ≤ opts.gap) : ∀ {n : LathNode} {r : Rect}, Filled opts r n →
    ∀ e ∈ leafRects opts r n, ∀ d, r.start d ≤ e.2.start d ∧ e.2.stop d ≤ r.stop d
  | .leaf id, r, _, e, he, _ => by
    rw [leafRects, List.mem_singleton] at he
    rw [he]
    exact ⟨le_refl _, le_refl _⟩
  | .split d cs, r, h, e, he, f => by
    rw [Filled] at h
    rw [leafRects] at he
    obtain ⟨hd, hother⟩ := FilledRun.within hg h e he
    by_cases hf : f = d
    · rw [hf]
      exact hd
    · exact hother f hf
theorem FilledRun.within {opts : LayoutOpts} (hg : 0 ≤ opts.gap) {d : Dir} {r : Rect} : ∀ {cs : List LathChild}
    {ss : List Rect} {a b : ℚ}, FilledRun opts d r a b cs ss → ∀ e ∈ childLeafRects opts cs ss,
      (a ≤ e.2.start d ∧ e.2.stop d ≤ b) ∧ ∀ f, f ≠ d → r.start f ≤ e.2.start f ∧ e.2.stop f ≤ r.stop f
  | [], _, _, _, h, _, _ => absurd h not_filledRun_nil
  | ⟨_, _⟩ :: _, [], _, _, h, _, _ => by simp [FilledRun] at h
  | ⟨n, w⟩ :: cs, s :: ss, a, b, h, e, he => by
    obtain ⟨⟨hs, hn⟩, h⟩ := filledRun_cons.1 h
    have hspan := Filled.nonneg hg hn d
    have hstart : s.start d = a := by rw [hs, start_slice]
    rw [childLeafRects] at he
    rcases List.mem_append.1 he with he | he
    · have hin := Filled.within hg hn e he
      refine ⟨⟨hstart ▸ (hin d).1, (hin d).2.trans ?_⟩, fun f hf => ?_⟩
      · split at h
        · exact h.1.le
        · linarith [(FilledRun.nonneg hg h).1]
      · have := hin f
        rwa [hs, (slice_other r hf _ _).1, stop_slice_other r hf] at this
    · split at h
      · rename_i hcs
        simp [hcs] at he
      · obtain ⟨⟨hlo, hhi⟩, hother⟩ := FilledRun.within hg h e he
        rw [Rect.stop, hstart] at hlo
        exact ⟨⟨by linarith, hhi⟩, hother⟩
end

theorem mem_of_leafRects {e : LeafId × Rect} (h : e ∈ leafRects opts r n) :
    e.1 ∈ nodeLeaves n := by
  rw [← keys_leafRects opts n r]
  exact List.mem_map_of_mem h

theorem mem_child {d : Dir} {cs : List LathChild} (hn : (nodeLeaves (.split d cs)).Nodup) {i : Nat} {c : LathChild}
    {s : Rect} (hc : cs[i]? = some c) (hs : (childRects d cs r opts)[i]? = some s) {x : LeafId × Rect}
    (hx : x ∈ childLeafRects opts cs (childRects d cs r opts)) (hxc : x.1 ∈ nodeLeaves c.node) :
    x ∈ leafRects opts s c.node := by
  have hlen := length_childRects d cs r opts
  have hi := (List.getElem?_eq_some_iff.1 hc).1
  rw [nodeLeaves_split, (split_at_getElem? hc).1, List.flatMap_append, List.flatMap_cons] at hn
  rw [childLeafRects_at hlen hc hs, List.mem_append, List.mem_append] at hx
  obtain ⟨-, hn, hpre⟩ := List.nodup_append.1 hn
  obtain ⟨-, -, hpost⟩ := List.nodup_append.1 hn
  rcases hx with hx | hx | hx
  · have := List.mem_map_of_mem (f := Prod.fst) hx
    rw [keys_childLeafRects opts _ _ (by simp; omega)] at this
    exact absurd rfl (hpre _ this _ (List.mem_append_left _ hxc))
  · exact hx
  · have := List.mem_map_of_mem (f := Prod.fst) hx
    rw [keys_childLeafRects opts _ _ (by simp; omega)] at this
    exact absurd rfl (hpost _ hxc _ this)

theorem FilledRun.gap_between {opts : LayoutOpts} (hg : 0 ≤ opts.gap) {d : Dir} {r : Rect} {x y : LeafId × Rect} :
    ∀ {cs : List LathChild} {ss : List Rect} {a b : ℚ}, FilledRun opts d r a b cs ss → (leavesOf cs).Nodup →
      x ∈ childLeafRects opts cs ss → y ∈ childLeafRects opts cs ss → Earlier x.1 y.1 cs → x.2.stop d + opts.gap ≤ y.2.start d
  | [], _, _, _, h, _, _, _, _ => absurd h not_filledRun_nil
  | ⟨_, _⟩ :: _, [], _, _, h, _, _, _, _ => by simp [FilledRun] at h
  | ⟨n, w⟩ :: cs, s :: ss, a, b, h, hn, hx, hy, hxy => by
    have hlen := h.length
    obtain ⟨⟨hs, hfill⟩, h⟩ := filledRun_cons.1 h
    have hkeys : ∀ e ∈ childLeafRects opts cs ss, e.1 ∈ leavesOf cs := fun e he => by
      rw [← keys_childLeafRects opts cs ss (by simpa using hlen)]
      exact List.mem_map_of_mem he
    obtain ⟨-, hncs, hdisj⟩ := List.nodup_append.1 (show (nodeLeaves n ++ leavesOf cs).Nodup from hn)
    rw [childLeafRects, List.mem_append] at hx hy
    split at h
    · rename_i hcs
      rw [hcs] at hxy
      simp [leavesOf] at hxy
    · rcases hxy with ⟨hxn, hycs⟩ | hxy
      · have hx := hx.resolve_right (fun hx => hdisj _ hxn _ (hkeys x hx) rfl)
        have hy := hy.resolve_left (fun hy => hdisj _ (mem_of_leafRects hy) _ hycs rfl)
        have h1 := (Filled.within hg hfill x hx d).2
        have h2 := (h.within hg y hy).1.1
        linarith
      · have hmem := hxy.mem
        have hx := hx.resolve_left (fun hx => hdisj _ (mem_of_leafRects hx) _ hmem.1 rfl)
        have hy := hy.resolve_left (fun hy => hdisj _ (mem_of_leafRects hy) _ hmem.2 rfl)
        exact h.gap_between hg hncs hx hy hxy

/-- **A leaf that comes before another ends a gap before it at the latest.** -/
theorem Filled.gap_between {opts : LayoutOpts} (hg : 0 ≤ opts.gap) {d : Dir} {x y : LeafId × Rect} {n : LathNode} {r : Rect}
    (h : Filled opts r n) (hn : (nodeLeaves n).Nodup) (hx : x ∈ leafRects opts r n) (hy : y ∈ leafRects opts r n)
    (hxy : Precedes d x.1 y.1 n) : x.2.stop d + opts.gap ≤ y.2.start d := by
  induction n using LathNode.ind generalizing r with
  | leaf id => exact absurd hxy (not_precedes_leaf id)
  | split e cs ih =>
    rw [Filled] at h
    rw [leafRects] at hx hy
    rcases (precedes_split e cs).1 hxy with ⟨rfl, hearlier⟩ | ⟨c, hc, hxy⟩
    · rw [nodeLeaves_split] at hn
      exact h.gap_between hg hn hx hy hearlier
    · obtain ⟨i, hi⟩ := List.mem_iff_getElem?.1 hc
      have hs := List.getElem?_eq_getElem (show i < (childRects e cs r opts).length by
        rw [h.length]
        exact (List.getElem?_eq_some_iff.1 hi).1)
      have hmem := hxy.mem
      exact ih c hc (h.child hi hs).1 (nodup_child hn hc) (mem_child hn hi hs hx hmem.1) (mem_child hn hi hs hy hmem.2) hxy

/-! ## Under a path -/

theorem layout_eq (hn : (nodeLeaves n).Nodup) (rect : Rect) (opts : LayoutOpts) :
    layout ⟨some n⟩ rect opts = leafRects opts (nonnegativeRect rect) n := by
  unfold layout
  dsimp only
  rw [layoutNode_eq opts n (nonnegativeRect rect) [] (by simpa using hn), List.nil_append]

theorem Filled.nodeAt {opts : LayoutOpts} : ∀ (p : List Nat) {n m : LathNode} {r : Rect}, Filled opts r n →
    nodeAt n p = some m → ∃ s pre post, Filled opts s m ∧ leafRects opts r n = pre ++ leafRects opts s m ++ post
  | [], n, m, r, h, hm => by
    rw [nodeAt_nil, Option.some.injEq] at hm
    exact ⟨r, [], [], hm ▸ h, by rw [hm, List.nil_append, List.append_nil]⟩
  | i :: p, .leaf _, m, r, h, hm => by simp at hm
  | i :: p, .split d cs, m, r, h, hm => by
    rw [nodeAt_split_cons] at hm
    obtain ⟨c, hc, hm⟩ := Option.bind_eq_some_iff.1 hm
    rw [Filled] at h
    have hs := List.getElem?_eq_getElem (show i < (childRects d cs r opts).length by
      rw [h.length]
      exact (List.getElem?_eq_some_iff.1 hc).1)
    obtain ⟨s, pre, post, hfill, hrects⟩ := Filled.nodeAt p (h.child hc hs).1 hm
    refine ⟨s, childLeafRects opts (cs.take i) ((childRects d cs r opts).take i) ++ pre,
      post ++ childLeafRects opts (cs.drop (i + 1)) ((childRects d cs r opts).drop (i + 1)), hfill, ?_⟩
    rw [leafRects, childLeafRects_at h.length hc hs, hrects]
    simp only [List.append_assoc]

end Lath
end Dormouse

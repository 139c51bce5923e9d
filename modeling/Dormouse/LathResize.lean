import Dormouse.LathRescale
/-!
# LathResize — a sash moves one boundary

`resize` rebases a split on the spans it is seen with, and moves one boundary between two of them.  Where every child has its
minimum, the new weights are the new spans, and the layout gives each back exactly: the waterfill pins none of them, and rounding
finds them whole (`allocateChildSpans_self`).
-/
namespace Dormouse
namespace Lath

/-! ## Whole spans are given back -/

theorem cast_sum : ∀ zs : List Int, (zs.map (fun (z : Int) => (z : ℚ))).sum = (zs.sum : Int)
  | [] => by simp
  | z :: zs => by rw [List.map_cons, List.sum_cons, List.sum_cons, cast_sum zs, Int.cast_add]

theorem cumulativeRoundFrom_ints : ∀ (zs : List Int) (cum : Int),
    cumulativeRoundFrom (cum + zs.sum) cum cum (zs.map (fun (z : Int) => (z : ℚ))) = zs
  | [], _ => rfl
  | [z], cum => by
    rw [List.map_singleton, cumulativeRoundFrom, List.sum_singleton]
    congr 1
    omega
  | z :: y :: t, cum => by
    have hround : round ((cum : ℚ) + (z : ℚ)) = cum + z := by
      rw [← Int.cast_add, round_int]
    have ih := cumulativeRoundFrom_ints (y :: t) (cum + z)
    rw [List.map_cons, Int.cast_add] at ih
    rw [List.map_cons, List.map_cons, cumulativeRoundFrom, hround, List.sum_cons, ← add_assoc, ih]
    congr 1
    omega

variable {cs : List LathChild} {opts : LayoutOpts}

/-- **Children that weigh their spans are given their spans**, where each has its minimum. -/
theorem allocateChildSpans_self {zs : List Int} {d : Dir} {span : ℚ}
    (hweights : cs.map (·.weight) = zs.map (fun (z : Int) => (z : ℚ)))
    (hspan : availableSpan cs.length span opts = (zs.sum : Int)) (hpos : ∀ c ∈ cs, 0 < c.weight)
    (hmin : ∀ c ∈ cs, minSpan d opts c.node ≤ c.weight) (hne : cs ≠ []) :
    allocateChildSpans cs span opts d = zs := by
  have hsum : (cs.map (·.weight)).sum = availableSpan cs.length span opts := by
    rw [hweights, hspan, cast_sum]
  have hactive : activeSlots (cs.map (slotOf d opts)) = cs.map (slotOf d opts) := by
    refine List.filter_eq_self.2 (fun s hs => ?_)
    obtain ⟨c, -, rfl⟩ := List.mem_map.1 hs
    rfl
  have hweight : activeWeight (cs.map (slotOf d opts)) = availableSpan cs.length span opts := by
    rw [activeWeight, hactive, List.map_map]
    exact hsum
  have havail : 0 < availableSpan cs.length span opts := by
    rw [← hsum]
    exact weightSum_pos hne hpos
  have hshare : ∀ s, share (cs.map (slotOf d opts)) (availableSpan cs.length span opts) s = s.weight := by
    intro s
    rw [share, hweight, if_pos havail, div_mul_cancel₀ _ (ne_of_gt havail)]
  have hpins : (cs.map (slotOf d opts)).filter (pinned (cs.map (slotOf d opts)) (availableSpan cs.length span opts)) = [] := by
    refine List.filter_eq_nil_iff.2 (fun s hs => ?_)
    obtain ⟨c, hc, rfl⟩ := List.mem_map.1 hs
    have hle : minSpan d opts c.node ≤ c.weight := hmin c hc
    have hnot : ¬(slotOf d opts c).weight < (slotOf d opts c).min - 1 / 1000000000 := by
      simp only [slotOf, not_lt]
      linarith
    rw [pinned, hshare, decide_eq_false hnot, Bool.and_false]
    exact Bool.false_ne_true
  have hfits : (cs.map (fun c => minSpan d opts c.node)).sum ≤ availableSpan cs.length span opts := by
    rw [← hsum]
    exact List.sum_le_sum hmin
  have hfill : waterfill (cs.length + 1) (availableSpan cs.length span opts) (cs.map (slotOf d opts)) =
      some (zs.map (fun (z : Int) => (z : ℚ))) := by
    rw [waterfill, hactive, List.length_map, if_neg (by simpa using hne), hpins, List.map_map, ← hweights]
    refine congrArg some (List.map_congr_left (fun c _ => ?_))
    exact hshare (slotOf d opts c)
  have hfracs : allocateFracs cs (availableSpan cs.length span opts) opts d = zs.map (fun (z : Int) => (z : ℚ)) := by
    unfold allocateFracs
    dsimp only
    rw [if_neg (not_lt.2 hfits)]
    show (waterfill (cs.length + 1) _ (cs.map (slotOf d opts))).getD _ = _
    rw [hfill]
    rfl
  have hround := cumulativeRoundFrom_ints zs 0
  rw [zero_add] at hround
  rw [allocateChildSpans, hfracs, cumulativeRound, hspan, round_int]
  exact hround

theorem span_placeRects (d : Dir) (rect : Rect) (gap : ℚ) : ∀ (spans : List Int) (pos : ℚ),
    (placeRects d rect gap pos spans).map (fun r => r.span d) = spans.map (fun (s : Int) => (s : ℚ))
  | [], _ => rfl
  | s :: ss, pos => by
    rw [placeRects, List.map_cons, List.map_cons, span_slice, span_placeRects d rect gap ss]

/-! ## Minima of whole options -/

structure LayoutOpts.Whole (opts : LayoutOpts) : Prop where
  gap    : ∃ g : Int, opts.gap = g ∧ 0 ≤ g
  width  : ∃ w : Int, opts.minLeaf.width = w ∧ 1 ≤ w
  height : ∃ h : Int, opts.minLeaf.height = h ∧ 1 ≤ h

section

variable {opts : LayoutOpts} (ho : opts.Whole)
include ho

theorem LayoutOpts.Whole.integral : opts.Integral := by
  obtain ⟨⟨g, hg, hg0⟩, ⟨w, hw, hw1⟩, ⟨h, hh, hh1⟩⟩ := ho
  obtain ⟨gap, ⟨mw, mh⟩⟩ := opts
  exact ⟨g, w, h, by simp only at hg hw hh; rw [hg, hw, hh], hg0, by omega, by omega⟩

theorem minSpan_whole {S : ℚ → Prop} (axis : Dir) {n : LathNode} (h : Canon S n) :
    ∃ z : Int, minSpan axis opts n = z ∧ 1 ≤ z := by
  induction h with
  | leaf id =>
    cases axis with
    | row => exact ho.width
    | col => exact ho.height
  | @split d cs count pos sum alt child ih =>
    have hfold : ∀ ds : List LathChild, (∀ c ∈ ds, ∃ z : Int, minSpan axis opts c.node = z ∧ 1 ≤ z) →
        (∃ z : Int, minSpanSum axis opts ds = z ∧ (ds.length : Int) ≤ z) ∧
          ∃ z : Int, minSpanMax axis opts ds = z ∧ (ds ≠ [] → 1 ≤ z) := by
      intro ds
      induction ds with
      | nil => exact fun _ => ⟨⟨0, by simp [minSpanSum], by simp⟩, 0, by simp [minSpanMax], fun h => absurd rfl h⟩
      | cons c ds ihs =>
        intro hall
        obtain ⟨z, hz, hz1⟩ := hall c List.mem_cons_self
        obtain ⟨⟨s, hs, hs1⟩, m, hm, -⟩ := ihs (fun x hx => hall x (List.mem_cons_of_mem c hx))
        refine ⟨⟨z + s, ?_, ?_⟩, max z m, ?_, fun _ => le_max_of_le_left hz1⟩
        · rw [minSpanSum, hz, hs, Int.cast_add]
        · rw [List.length_cons]
          push_cast
          omega
        · rw [minSpanMax, hz, hm, Int.cast_max]
    obtain ⟨⟨s, hs, hs1⟩, m, hm, hm1⟩ := hfold cs ih
    obtain ⟨g, hg, hg0⟩ := ho.gap
    rw [minSpan]
    split
    · have hcount : (2 : Int) ≤ cs.length := by exact_mod_cast count
      refine ⟨s + g * ((cs.length : Int) - 1), ?_, ?_⟩
      · rw [hs, hg]
        push_cast
        ring
      · nlinarith
    · exact ⟨m, hm, hm1 (by rintro rfl; simp at count)⟩

end

/-! ## Rects at paths -/

theorem nodeRectAt_append (opts : LayoutOpts) : ∀ (p q : List Nat) {n m : LathNode} {r s : Rect}, nodeAt n p = some m →
    nodeRectAt opts n r p = some s → nodeRectAt opts n r (p ++ q) = nodeRectAt opts m s q
  | [], q, n, m, r, s, hm, hs => by
    rw [nodeAt_nil, Option.some.injEq] at hm
    have : some r = some s := by rw [← hs]; cases n <;> rfl
    rw [List.nil_append, hm, Option.some.inj this]
  | i :: p, q, .leaf id, m, r, s, hm, _ => nomatch hm
  | i :: p, q, .split d cs, m, r, s, hm, hs => by
    rw [nodeAt_split_cons] at hm
    obtain ⟨c, hc, hp⟩ := Option.bind_eq_some_iff.1 hm
    rw [List.cons_append]
    simp only [nodeRectAt, hc] at hs ⊢
    cases hcr : (childRects d cs r opts)[i]? with
    | none => rw [hcr] at hs; cases hs
    | some cr =>
      rw [hcr] at hs
      exact nodeRectAt_append opts p q hp hs

theorem nodeRectAt_integral {S : ℚ → Prop} {opts : LayoutOpts} (ho : opts.Integral) :
    ∀ (p : List Nat) {n : LathNode} {r s : Rect},
    Canon S n → r.Integral → nodeRectAt opts n r p = some s → s.Integral
  | [], n, r, s, _, hr, h => by
    have : some r = some s := by rw [← h]; cases n <;> rfl
    exact Option.some.inj this ▸ hr
  | i :: p, .leaf id, r, s, _, _, h => nomatch h
  | i :: p, .split d cs, r, s, hn, hr, h => by
    simp only [nodeRectAt] at h
    cases hc : cs[i]? with
    | none => rw [hc] at h; cases h
    | some c =>
      cases hcr : (childRects d cs r opts)[i]? with
      | none => rw [hc, hcr] at h; cases h
      | some cr =>
        rw [hc, hcr] at h
        obtain ⟨hinside, -⟩ := childRects_spec hn ho hr
        exact nodeRectAt_integral ho p (hn.split_inv.2.2.2.2 c (List.mem_of_getElem? hc))
          (hinside cr (List.mem_of_getElem? hcr)).1 h

theorem nonnegativeRect_whole (x y w h : Int) : (nonnegativeRect ⟨x, y, w, h⟩).Integral :=
  ⟨x, y, max 0 w, max 0 h, by simp [nonnegativeRect], le_max_left _ _, le_max_left _ _⟩

theorem nodeRectAt_child {d : Dir} {rect : Rect} {spans : List Int}
    (hspans : allocateChildSpans cs (rect.span d) opts d = spans) {i : Nat} {s : Int} (hs : spans[i]? = some s) :
    ∃ r, nodeRectAt opts (.split d cs) rect [i] = some r ∧ r.span d = s := by
  have hspan := span_placeRects d rect opts.gap spans (rect.start d)
  have hi : (placeRects d rect opts.gap (rect.start d) spans)[i]?.map (fun r => r.span d) = some (s : ℚ) := by
    rw [← List.getElem?_map, hspan, List.getElem?_map, hs, Option.map_some]
  obtain ⟨r, hr, hrs⟩ := Option.map_eq_some_iff.1 hi
  refine ⟨r, ?_, hrs⟩
  have hlt : i < cs.length := by
    have := (List.getElem?_eq_some_iff.1 hs).1
    rwa [← hspans, length_allocateChildSpans] at this
  simp only [nodeRectAt, List.getElem?_eq_getElem hlt, childRects, hspans, hr]

/-! ## The move -/

def movedSpan (opts : LayoutOpts) (d : Dir) (a b : LathChild) (spanA spanB delta : Int) : ℚ :=
  min (max ((spanA : ℚ) + delta) (minSpan d opts a.node)) ((spanA : ℚ) + spanB - minSpan d opts b.node)

def movedSpans (spans : List Int) (boundary : Nat) (moved pair : Int) : List Int :=
  (spans.set boundary moved).set (boundary + 1) (pair - moved)

theorem sum_set : ∀ {l : List Int} {i : Nat} {a : Int} (b : Int), l[i]? = some a → (l.set i b).sum = l.sum - a + b
  | [], _, _, _, h => nomatch h
  | x :: l, 0, a, b, h => by
    obtain rfl : x = a := Option.some.inj h
    rw [List.set_cons_zero, List.sum_cons, List.sum_cons]
    omega
  | x :: l, i + 1, a, b, h => by
    have := sum_set b (l := l) (i := i) h
    rw [List.set_cons_succ, List.sum_cons, List.sum_cons, this]
    omega

theorem movedSpans_getElem? {spans : List Int} {boundary : Nat} {moved pair : Int} (hb : boundary + 1 < spans.length) {i : Nat}
    {s : Int} (h : spans[i]? = some s) : (movedSpans spans boundary moved pair)[i]? =
      some (if i = boundary then moved else if i = boundary + 1 then pair - moved else s) := by
  rw [movedSpans, List.getElem?_set, List.getElem?_set, List.length_set]
  by_cases hfirst : i = boundary
  · subst hfirst
    rw [if_neg (by omega), if_pos rfl, if_pos (by omega), if_pos rfl]
  · by_cases hsecond : i = boundary + 1
    · subst hsecond
      rw [if_pos rfl, if_pos hb, if_neg (by omega), if_pos rfl]
    · rw [if_neg (Ne.symm hsecond), if_neg (Ne.symm hfirst), if_neg hfirst, if_neg hsecond, h]

def rebased (cs : List LathChild) (zs : List Int) : List LathChild :=
  cs.zipWith (fun (c : LathChild) (z : Int) => (⟨c.node, z⟩ : LathChild)) zs

theorem zipWith_weights : ∀ {cs : List LathChild} {zs : List Int}, zs.length = cs.length → (∀ z ∈ zs, 1 ≤ z) →
    cs.zipWith (fun (c : LathChild) s => (⟨c.node, max s (1 / 1000000)⟩ : LathChild)) (zs.map (fun (z : Int) => (z : ℚ))) =
      rebased cs zs
  | [], _, _, _ => by simp [rebased]
  | c :: cs, [], _, _ => by simp [rebased]
  | c :: cs, z :: zs, h, hpos => by
    have hz : (1 : ℚ) ≤ z := by exact_mod_cast hpos z List.mem_cons_self
    rw [List.map_cons, List.zipWith_cons_cons, rebased, List.zipWith_cons_cons, max_eq_left (by linarith), ← rebased,
      zipWith_weights (by simpa using h) (fun y hy => hpos y (List.mem_cons_of_mem z hy))]

section

variable {cs : List LathChild} {zs : List Int} (hlen : zs.length = cs.length)
include hlen

theorem weights_rebased : (rebased cs zs).map (·.weight) =
    zs.map (fun (z : Int) => (z : ℚ)) := by
  rw [rebased, List.map_zipWith]
  induction cs generalizing zs with
  | nil => simp [List.length_eq_zero_iff.1 hlen]
  | cons c cs ih =>
    cases zs with
    | nil => simp at hlen
    | cons z zs => simpa [rebased, List.map_zipWith] using ih (by simpa using hlen : zs.length = cs.length)

theorem nodes_rebased : (rebased cs zs).map (·.node) = cs.map (·.node) := by
  rw [rebased, List.map_zipWith]
  induction cs generalizing zs with
  | nil => simp
  | cons c cs ih =>
    cases zs with
    | nil => simp at hlen
    | cons z zs => simpa [rebased, List.map_zipWith] using ih (by simpa using hlen : zs.length = cs.length)

end

theorem mem_rebased {x : LathChild} (h : x ∈ rebased cs zs) :
    ∃ (i : Nat) (c : LathChild) (z : Int), cs[i]? = some c ∧ zs[i]? = some z ∧ x = ⟨c.node, z⟩ := by
  obtain ⟨i, hi⟩ := List.getElem?_of_mem h
  rw [rebased, List.getElem?_zipWith] at hi
  cases hc : cs[i]? with
  | none => rw [hc] at hi; cases hi
  | some c =>
    cases hz : zs[i]? with
    | none => rw [hc, hz] at hi; cases hi
    | some z =>
      rw [hc, hz] at hi
      exact ⟨i, c, z, hc, hz, (Option.some.inj hi).symm⟩

/-- What a split is laid out as, rebased on whole spans that are enough for its children and fill it. -/
theorem allocateChildSpans_rebased {S : ℚ → Prop} {zs : List Int} {d : Dir} (ho : opts.Whole) (hc : Canon S (.split d cs))
    (hlen : zs.length = cs.length) {span : ℚ} (hspan : availableSpan cs.length span opts = (zs.sum : Int))
    (hmin : ∀ (i : Nat) (c : LathChild) (z : Int), cs[i]? = some c → zs[i]? = some z → minSpan d opts c.node ≤ (z : ℚ)) :
    allocateChildSpans (normalizeWeights (rebased cs zs)) span opts d = zs ∧
      Canon (fun _ => True) (.split d (normalizeWeights (rebased cs zs))) := by
  obtain ⟨count, -, -, alt, child⟩ := hc.split_inv
  have hcount : (rebased cs zs).length = cs.length := by
    have := congrArg List.length (nodes_rebased hlen)
    simpa using this
  have hnode : ∀ x ∈ rebased cs zs, 0 < x.weight ∧ minSpan d opts x.node ≤ x.weight ∧ ∃ c ∈ cs, x.node = c.node := by
    intro x hx
    obtain ⟨i, c, z, hi, hz, rfl⟩ := mem_rebased hx
    have hmem := List.mem_of_getElem? hi
    obtain ⟨m, hm, hm1⟩ := minSpan_whole ho d (child c hmem)
    have hle := hmin i c z hi hz
    refine ⟨?_, hle, c, hmem, rfl⟩
    have : (1 : ℚ) ≤ m := by exact_mod_cast hm1
    show (0 : ℚ) < z
    rw [hm] at hle
    linarith
  have hne : rebased cs zs ≠ [] := by
    intro hnil
    rw [hnil, List.length_nil] at hcount
    omega
  have hself : allocateChildSpans (rebased cs zs) span opts d = zs :=
    allocateChildSpans_self (weights_rebased hlen) (by rw [hcount]; exact hspan) (fun x hx => (hnode x hx).1)
      (fun x hx => (hnode x hx).2.1) hne
  have hsum : 0 < weightSum (rebased cs zs) := weightSum_pos hne (fun x hx => (hnode x hx).1)
  constructor
  · refine (allocateChildSpans_scale (k := 1 / weightSum (rebased cs zs)) (by positivity) span ?_).trans hself
    rw [normalizeWeights_of_pos hsum, List.map_map, List.map_map]
    refine List.map_congr_left (fun c _ => ?_)
    simp only [Function.comp, slotOf, scaleSlot, mul_one_div]
  · obtain ⟨hpos, -⟩ := normalizeWeights_spec hne (fun x hx => (hnode x hx).1)
    refine .split (by rw [length_normalizeWeights, hcount]; exact count) hpos trivial
      (forall_node_normalizeWeights (P := fun n => n.dir? ≠ some d) (fun x hx => ?_))
      (forall_node_normalizeWeights (P := Canon (fun _ => True)) (fun x hx => ?_))
    · obtain ⟨c, hmem, heq⟩ := (hnode x hx).2.2
      rw [heq]
      exact alt c hmem
    · obtain ⟨c, hmem, heq⟩ := (hnode x hx).2.2
      rw [heq]
      exact (child c hmem).imp (fun _ _ => trivial)

theorem lookup_middle {pre mid mid' post : List (LeafId × Rect)} {id : LeafId} (h : id ∉ mid.map (·.1))
    (h' : id ∉ mid'.map (·.1)) : (pre ++ mid ++ post).lookup id = (pre ++ mid' ++ post).lookup id := by
  have hnone : ∀ {l : List (LeafId × Rect)}, id ∉ l.map (·.1) → l.lookup id = none := by
    intro l hl
    rw [List.lookup_eq_none_iff]
    intro e he
    exact bne_iff_ne.2 (fun heq => hl (List.mem_map.2 ⟨e, he, heq.symm⟩))
  rw [List.lookup_append, List.lookup_append, List.lookup_append, List.lookup_append, hnone h, hnone h']

/-- **A part of the tree that changes its weights is laid out in the rect it had**, and every leaf outside it keeps its own. -/
theorem relayout_replaceAtPath {root m m' : LathNode} {path : List Nat} (hroot : Canon near root)
    (hnodup : (nodeLeaves root).Nodup) (hat : nodeAt root path = some m) (hstrip : strip m' = strip m)
    (hdir : m'.dir? = m.dir?) (hcanon : Canon (fun _ => True) m') {r s : Rect} (hs : nodeRectAt opts root r path = some s) :
    ∃ root', normalize (replaceAtPath root path m') = some root' ∧
      (∀ q, nodeRectAt opts root' r (path ++ q) = nodeRectAt opts m' s q) ∧
      ∀ id, id ∉ nodeLeaves m → (layoutNode opts r [] root').lookup id = (layoutNode opts r [] root).lookup id := by
  obtain ⟨hcanon', -⟩ := canon_replaceAtPath hstrip hcanon hdir path (hroot.imp (fun _ _ => trivial)) hat
  refine ⟨_, normalize_eq_renorm hcanon', fun q => ?_, fun id hid => ?_⟩
  · obtain ⟨-, -, s', hs', hnew, -, -⟩ := leafRects_replaceAtPath hstrip opts path r hat
    obtain rfl : s' = s := Option.some.inj (hs'.symm.trans hs)
    rw [nodeRectAt_renorm opts _ r hcanon', nodeRectAt_append opts path q (nodeAt_replaceAtPath_self path m' hat) hnew]
  · obtain ⟨pre, post, s', -, -, hold, hnew⟩ := leafRects_replaceAtPath hstrip opts path r hat
    have hleaves : nodeLeaves (renorm (replaceAtPath root path m')) = nodeLeaves root :=
      nodeLeaves_congr ((strip_renorm _).trans (strip_replaceAtPath hstrip path hat))
    rw [layoutNode_eq opts _ r [] (by simpa [hleaves] using hnodup), layoutNode_eq opts _ r [] (by simpa using hnodup),
      List.nil_append, List.nil_append, leafRects_renorm hcanon', hold, hnew]
    exact (lookup_middle (by rwa [keys_leafRects]) (by rwa [keys_leafRects, nodeLeaves_congr hstrip])).symm

end Lath
end Dormouse

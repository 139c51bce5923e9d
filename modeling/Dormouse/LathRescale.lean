import Dormouse.LathShape
import Dormouse.LathWaterfill
/-!
# LathRescale — weights in proportion lay a tree out alike

The waterfill reads the weights of a split's children only against their sum (`waterfill_scale`).  So `normalize`, which makes the
weights of every split of a canonical node sum to 1 and changes nothing else (`normalize_eq_renorm`), leaves its layout as it was
(`leafRects_renorm`, `nodeRectAt_renorm`); and a subtree that is replaced by one of its structure leaves the layout of all the rest
(`leafRects_replaceAtPath`).
-/
namespace Dormouse
namespace Lath

/-! ## The waterfill -/

def scaleSlot (k : ℚ) (s : Slot) : Slot := { s with weight := s.weight * k }

section

variable {k : ℚ} (hk : 0 < k)
include hk

theorem share_scale (slots : List Slot) (remaining : ℚ) (s : Slot) :
    share (slots.map (scaleSlot k)) remaining (scaleSlot k s) = share slots remaining s := by
  have hactive : activeSlots (slots.map (scaleSlot k)) = (activeSlots slots).map (scaleSlot k) := List.filter_map ..
  have hweight : activeWeight (slots.map (scaleSlot k)) = activeWeight slots * k := by
    rw [activeWeight, activeWeight, hactive, List.map_map]
    exact List.sum_map_mul_right ..
  have hpos : 0 < activeWeight slots * k ↔ 0 < activeWeight slots := mul_pos_iff_of_pos_right hk
  unfold share
  rw [hweight, hactive, List.length_map]
  by_cases h : 0 < activeWeight slots
  · rw [if_pos (hpos.2 h), if_pos h, scaleSlot, mul_div_mul_right _ _ (ne_of_gt hk)]
  · rw [if_neg (fun h' => h (hpos.1 h')), if_neg h]

theorem pinned_scale (slots : List Slot) (remaining : ℚ) (s : Slot) :
    pinned (slots.map (scaleSlot k)) remaining (scaleSlot k s) = pinned slots remaining s := by
  rw [pinned, share_scale hk]
  rfl

/-- **Weights in proportion are filled alike.** -/
theorem waterfill_scale : ∀ (fuel : Nat) (remaining : ℚ) (slots : List Slot),
    waterfill fuel remaining (slots.map (scaleSlot k)) = waterfill fuel remaining slots
  | 0, _, _ => rfl
  | fuel + 1, remaining, slots => by
    have hactive : activeSlots (slots.map (scaleSlot k)) = (activeSlots slots).map (scaleSlot k) := List.filter_map ..
    have hpins : (slots.map (scaleSlot k)).filter (pinned (slots.map (scaleSlot k)) remaining) =
        (slots.filter (pinned slots remaining)).map (scaleSlot k) := by
      rw [List.filter_map]
      exact congrArg (List.map (scaleSlot k)) (List.filter_congr (fun s _ => pinned_scale hk slots remaining s))
    have hnext : (slots.map (scaleSlot k)).map (pinSlot (slots.map (scaleSlot k)) remaining) =
        (slots.map (pinSlot slots remaining)).map (scaleSlot k) := by
      rw [List.map_map, List.map_map]
      refine List.map_congr_left (fun s _ => ?_)
      dsimp only [Function.comp]
      unfold pinSlot
      rw [pinned_scale hk]
      split <;> rfl
    rw [waterfill, waterfill, hactive, List.length_map, hpins, hnext]
    by_cases hnone : (activeSlots slots).length = 0
    · rw [if_pos hnone, if_pos hnone, List.map_map]
      rfl
    · rw [if_neg hnone, if_neg hnone]
      cases slots.filter (pinned slots remaining) with
      | nil =>
        rw [List.map_nil, List.map_map]
        refine congrArg some (List.map_congr_left (fun s _ => ?_))
        dsimp only [Function.comp]
        rw [share_scale hk]
        rfl
      | cons s pins =>
        have hsum : ((scaleSlot k s :: pins.map (scaleSlot k)).map (·.min)).sum = ((s :: pins).map (·.min)).sum := by
          rw [← List.map_cons, List.map_map]
          rfl
        rw [List.map_cons]
        dsimp only
        rw [hsum]
        exact waterfill_scale fuel _ _

/-- **Children with weights in proportion and the same minima are given the same spans.** -/
theorem allocateChildSpans_scale {cs cs' : List LathChild} {d : Dir} {opts : LayoutOpts} (span : ℚ)
    (hslots : cs'.map (slotOf d opts) = (cs.map (slotOf d opts)).map (scaleSlot k)) :
    allocateChildSpans cs' span opts d = allocateChildSpans cs span opts d := by
  have hlen : cs'.length = cs.length := by simpa using congrArg List.length hslots
  have hmins : cs'.map (fun c => minSpan d opts c.node) = cs.map (fun c => minSpan d opts c.node) := by
    have := congrArg (List.map Slot.min) hslots
    rwa [List.map_map, List.map_map, List.map_map] at this
  have hfill : waterfill (cs'.length + 1) (availableSpan cs.length span opts)
      (cs'.map (fun c => ⟨c.weight, minSpan d opts c.node, false, 0⟩)) =
        waterfill (cs.length + 1) (availableSpan cs.length span opts)
          (cs.map (fun c => ⟨c.weight, minSpan d opts c.node, false, 0⟩)) := by
    show waterfill _ _ (cs'.map (slotOf d opts)) = waterfill _ _ (cs.map (slotOf d opts))
    rw [hslots, hlen, waterfill_scale hk]
  have hzeros : cs'.map (fun _ => (0 : ℚ)) = cs.map (fun _ => 0) := by
    rw [List.map_const', List.map_const', hlen]
  rw [allocateChildSpans, allocateChildSpans, hlen]
  congr 1
  unfold allocateFracs
  dsimp only
  rw [hmins, hfill, hlen, hzeros]

end

/-! ## Minima -/

theorem minSpan_congr {n n' : LathNode} (h : strip n = strip n') (axis : Dir) (opts : LayoutOpts) :
    minSpan axis opts n = minSpan axis opts n' := by
  refine strip_ind (fun _ => rfl) (fun d cs cs' hs ih => ?_) n n' h
  have hsum : minSpanSum axis opts cs = minSpanSum axis opts cs' ∧ minSpanMax axis opts cs = minSpanMax axis opts cs' := by
    clear hs
    induction ih with
    | nil => exact ⟨rfl, rfl⟩
    | cons hc _ ih =>
      obtain ⟨hsum, hmax⟩ := ih
      constructor
      · rw [minSpanSum, minSpanSum, hc, hsum]
      · rw [minSpanMax, minSpanMax, hc, hmax]
  rw [minSpan, minSpan, hsum.1, hsum.2, hs.length_eq]

/-! ## `normalize` -/

mutual
/-- A node with the weights of each of its splits made to sum to 1. -/
def renorm : LathNode → LathNode
  | .leaf id    => .leaf id
  | .split d cs => .split d (normalizeWeights (renormAll cs))
def renormAll : List LathChild → List LathChild
  | []           => []
  | ⟨n, w⟩ :: cs => ⟨renorm n, w⟩ :: renormAll cs
end

theorem renormAll_eq (cs : List LathChild) : renormAll cs = cs.map (fun c => ⟨renorm c.node, c.weight⟩) := by
  induction cs with
  | nil => rw [renormAll, List.map_nil]
  | cons c cs ih => rw [renormAll, ih, List.map_cons]

theorem dir?_renorm (n : LathNode) : (renorm n).dir? = n.dir? := by
  cases n with
  | leaf id => rw [renorm]
  | split d cs => rw [renorm]; rfl

theorem strip_renorm (n : LathNode) : strip (renorm n) = strip n := by
  induction n using LathNode.ind with
  | leaf id => rw [renorm]
  | split d cs ih =>
    have hnodes : (normalizeWeights (renormAll cs)).map (fun c => strip c.node) = cs.map (fun c => strip c.node) := by
      have := congrArg (List.map strip) (map_node_normalizeWeights (renormAll cs))
      rw [List.map_map, renormAll_eq, List.map_map, List.map_map] at this
      rw [renormAll_eq]
      exact this.trans (List.map_congr_left ih)
    rw [renorm, strip_split, strip_split, hnodes]

theorem weightSum_renormAll (cs : List LathChild) : weightSum (renormAll cs) = weightSum cs := by
  rw [renormAll_eq, weightSum, weightSum, List.map_map]
  rfl

section

variable {S : ℚ → Prop}

/-- **What `normalize` does to a canonical node.** -/
theorem normalize_eq_renorm {n : LathNode} (h : Canon S n) : normalize n = some (renorm n) := by
  induction h with
  | leaf id => rw [renorm]; rfl
  | @split d cs count pos sum alt child ih =>
    have hcollect : collect d cs = renormAll cs := by
      rw [collect_eq, renormAll_eq]
      have : ∀ c ∈ cs, flattenInto d c.weight (normalize c.node) = [⟨renorm c.node, c.weight⟩] := by
        intro c hc
        rw [ih c hc, flattenInto_self (by rw [dir?_renorm]; exact alt c hc)]
      rw [List.flatMap_congr this, List.map_eq_flatMap]
    rw [normalize_split_of_collect hcollect (by rw [renormAll_eq, List.length_map]; exact count), renorm]

/-- The children of a canonical split, their weights made to sum to 1, are placed where they were. -/
theorem childRects_renorm {d : Dir} {cs : List LathChild} (h : Canon S (.split d cs)) (r : Rect) (opts : LayoutOpts) :
    childRects d (normalizeWeights (renormAll cs)) r opts = childRects d cs r opts := by
  obtain ⟨count, pos, -, -, -⟩ := h.split_inv
  have hsum : 0 < weightSum cs := weightSum_pos (by rintro rfl; simp at count) pos
  rw [childRects, childRects]
  congr 1
  refine allocateChildSpans_scale (k := 1 / weightSum cs) (by positivity) _ ?_
  rw [normalizeWeights_of_pos (by rw [weightSum_renormAll]; exact hsum), weightSum_renormAll, renormAll_eq, List.map_map,
    List.map_map, List.map_map]
  refine List.map_congr_left (fun c _ => ?_)
  simp only [Function.comp, slotOf, scaleSlot, minSpan_congr (strip_renorm c.node), mul_one_div]

theorem childLeafRects_congr (opts : LayoutOpts) : ∀ {cs cs' : List LathChild} (rs : List Rect),
    List.Forall₂ (fun c c' => ∀ r, leafRects opts r c.node = leafRects opts r c'.node) cs cs' →
    childLeafRects opts cs rs = childLeafRects opts cs' rs
  | [], _, _, .nil => rfl
  | _ :: _, _, [], .cons _ _ => by rw [childLeafRects, childLeafRects] <;> simp
  | ⟨n, w⟩ :: cs, ⟨n', w'⟩ :: cs', r :: rs, .cons hc hcs => by
    rw [childLeafRects, childLeafRects, hc r, childLeafRects_congr opts rs hcs]

theorem forall₂_renorm {cs : List LathChild} {P : LathNode → LathNode → Prop} (h : ∀ c ∈ cs, P (renorm c.node) c.node) :
    List.Forall₂ (fun c c' => P c.node c'.node) (normalizeWeights (renormAll cs)) cs := by
  have hnodes : (normalizeWeights (renormAll cs)).map (·.node) = cs.map (fun c => renorm c.node) := by
    rw [map_node_normalizeWeights, renormAll_eq, List.map_map]
    rfl
  rw [List.forall₂_iff_get]
  have hlen : (normalizeWeights (renormAll cs)).length = cs.length := by simpa using congrArg List.length hnodes
  refine ⟨hlen, fun i h₁ h₂ => ?_⟩
  have hi := congrArg (fun l => l[i]?) hnodes
  simp only [List.getElem?_map, List.getElem?_eq_getElem h₁, List.getElem?_eq_getElem h₂, Option.map_some,
    Option.some.injEq] at hi
  simp only [List.get_eq_getElem, hi]
  exact h _ (List.getElem_mem h₂)

/-- **`normalize` leaves the layout of a canonical node.** -/
theorem leafRects_renorm {n : LathNode} (h : Canon S n) (opts : LayoutOpts) (r : Rect) :
    leafRects opts r (renorm n) = leafRects opts r n := by
  induction h generalizing r with
  | leaf id => rw [renorm]
  | @split d cs count pos sum alt child ih =>
    rw [renorm, leafRects, leafRects, childRects_renorm (.split count pos sum alt child)]
    exact childLeafRects_congr opts _ (forall₂_renorm (P := fun m m' => ∀ r, leafRects opts r m = leafRects opts r m')
      (fun c hc r => ih c hc r))

theorem nodeRectAt_renorm (opts : LayoutOpts) : ∀ (p : List Nat) {n : LathNode} (r : Rect), Canon S n →
    nodeRectAt opts (renorm n) r p = nodeRectAt opts n r p
  | [], n, r, _ => by
    cases n <;> rfl
  | i :: p, .leaf id, r, _ => by simp [nodeRectAt, renorm]
  | i :: p, .split d cs, r, h => by
    have hchild := h.split_inv.2.2.2.2
    have hnode : (normalizeWeights (renormAll cs))[i]?.map (·.node) = cs[i]?.map (fun c => renorm c.node) := by
      rw [← List.getElem?_map, map_node_normalizeWeights, renormAll_eq, List.map_map, List.getElem?_map]
      rfl
    rw [renorm, nodeRectAt, nodeRectAt, childRects_renorm h]
    cases hc : cs[i]? with
    | none =>
      rw [hc, Option.map_none, Option.map_eq_none_iff] at hnode
      rw [hnode]
    | some c =>
      rw [hc, Option.map_some, Option.map_eq_some_iff] at hnode
      obtain ⟨c', hc', hn⟩ := hnode
      rw [hc']
      cases (childRects d cs r opts)[i]? with
      | none => rfl
      | some cr =>
        dsimp only
        rw [hn]
        exact nodeRectAt_renorm opts p cr (hchild c (List.mem_of_getElem? hc))

end

/-! ## A subtree replaced by one of its structure -/

section

variable {m m' : LathNode} (hm : strip m' = strip m)
include hm

theorem strip_replaceAtPath : ∀ (p : List Nat) {n : LathNode}, nodeAt n p = some m → strip (replaceAtPath n p m') = strip n
  | [], n, h => by
    rw [nodeAt_nil, Option.some.injEq] at h
    rw [replaceAtPath_nil, h, hm]
  | i :: p, .leaf id, h => nomatch h
  | i :: p, .split d cs, h => by
    rw [nodeAt_split_cons] at h
    obtain ⟨c, hc, hp⟩ := Option.bind_eq_some_iff.1 h
    obtain ⟨hcs, hset⟩ := split_at_getElem? hc
    rw [replaceAtPath_cons hc, strip_split, strip_split, hset]
    conv => rhs; rw [hcs]
    rw [List.map_append, List.map_append, List.map_cons, List.map_cons, strip_replaceAtPath p hp]

theorem childRects_replaceAtPath {d : Dir} {cs : List LathChild} {i : Nat} {c : LathChild} (hc : cs[i]? = some c) {p : List Nat}
    (hp : nodeAt c.node p = some m) (r : Rect) (opts : LayoutOpts) :
    childRects d (cs.set i ⟨replaceAtPath c.node p m', c.weight⟩) r opts = childRects d cs r opts := by
  rw [childRects, childRects]
  congr 1
  refine allocateChildSpans_scale (k := 1) one_pos _ ?_
  obtain ⟨hcs, hset⟩ := split_at_getElem? hc
  have hslot : slotOf d opts ⟨replaceAtPath c.node p m', c.weight⟩ = slotOf d opts c := by
    rw [slotOf, slotOf, minSpan_congr (strip_replaceAtPath hm p hp)]
  have hone : ∀ ds : List LathChild, (ds.map (slotOf d opts)).map (scaleSlot 1) = ds.map (slotOf d opts) := by
    intro ds
    rw [List.map_map]
    refine List.map_congr_left (fun x _ => ?_)
    simp only [Function.comp, scaleSlot, slotOf, mul_one]
  rw [hone, hset]
  conv => rhs; rw [hcs]
  rw [List.map_append, List.map_append, List.map_cons, List.map_cons, hslot]

/-- **The layout around what is replaced stays**, and it is laid out in the same rect. -/
theorem leafRects_replaceAtPath (opts : LayoutOpts) : ∀ (p : List Nat) {n : LathNode} (r : Rect), nodeAt n p = some m →
    ∃ pre post s, nodeRectAt opts n r p = some s ∧ nodeRectAt opts (replaceAtPath n p m') r p = some s ∧
      leafRects opts r n = pre ++ leafRects opts s m ++ post ∧
      leafRects opts r (replaceAtPath n p m') = pre ++ leafRects opts s m' ++ post
  | [], n, r, h => by
    rw [nodeAt_nil, Option.some.injEq] at h
    subst h
    refine ⟨[], [], r, ?_, ?_, by simp, by simp⟩
    · cases n <;> rfl
    · rw [replaceAtPath_nil]
      cases m' <;> rfl
  | i :: p, .leaf id, r, h => nomatch h
  | i :: p, .split d cs, r, h => by
    rw [nodeAt_split_cons] at h
    obtain ⟨c, hc, hp⟩ := Option.bind_eq_some_iff.1 h
    obtain ⟨hi, -⟩ := List.getElem?_eq_some_iff.1 hc
    have hin : i < (childRects d cs r opts).length := by rwa [length_childRects]
    obtain ⟨cr, hcr⟩ : ∃ cr, (childRects d cs r opts)[i]? = some cr := ⟨_, List.getElem?_eq_getElem hin⟩
    obtain ⟨pre, post, s, hs, hs', hold, hnew⟩ := leafRects_replaceAtPath opts p cr hp
    have hrects := childRects_replaceAtPath hm (d := d) hc hp r opts
    have hget : (cs.set i ⟨replaceAtPath c.node p m', c.weight⟩)[i]? = some ⟨replaceAtPath c.node p m', c.weight⟩ :=
      List.getElem?_set_self hi
    refine ⟨childLeafRects opts (cs.take i) ((childRects d cs r opts).take i) ++ pre,
      post ++ childLeafRects opts (cs.drop (i + 1)) ((childRects d cs r opts).drop (i + 1)), s, ?_, ?_, ?_, ?_⟩
    · simp only [nodeRectAt, hc, hcr, hs]
    · rw [replaceAtPath_cons hc, nodeRectAt, hrects, List.getElem?_set_self hi, hcr]
      exact hs'
    · rw [leafRects, childLeafRects_at (length_childRects d cs r opts) hc hcr, hold]
      simp only [List.append_assoc]
    · rw [replaceAtPath_cons hc, leafRects, hrects, childLeafRects_at (by rw [length_childRects, List.length_set]) hget hcr,
        List.take_set_of_le (Nat.le_refl i), List.drop_set_of_lt (Nat.lt_succ_self i)]
      dsimp only
      rw [hnew]
      simp only [List.append_assoc]

theorem canon_replaceAtPath {S : ℚ → Prop} (hcanon : Canon S m') (hdir : m'.dir? = m.dir?) : ∀ (p : List Nat) {n : LathNode},
    Canon S n → nodeAt n p = some m → Canon S (replaceAtPath n p m') ∧ (replaceAtPath n p m').dir? = n.dir?
  | [], n, _, h => by
    rw [nodeAt_nil, Option.some.injEq] at h
    subst h
    rw [replaceAtPath_nil]
    exact ⟨hcanon, hdir⟩
  | i :: p, .leaf id, _, h => nomatch h
  | i :: p, .split d cs, hn, h => by
    obtain ⟨count, pos, sum, alt, child⟩ := hn.split_inv
    rw [nodeAt_split_cons] at h
    obtain ⟨c, hc, hp⟩ := Option.bind_eq_some_iff.1 h
    have hmem := List.mem_of_getElem? hc
    obtain ⟨hcanon', hdir'⟩ := canon_replaceAtPath hcanon hdir p (child c hmem) hp
    have hweights : weightSum (cs.set i ⟨replaceAtPath c.node p m', c.weight⟩) = weightSum cs := by
      obtain ⟨hcs, hset⟩ := split_at_getElem? hc
      rw [hset]
      conv => rhs; rw [hcs]
      simp only [weightSum_append, weightSum_cons]
    rw [replaceAtPath_cons hc]
    refine ⟨.split (by rw [List.length_set]; exact count) (fun x hx => ?_) (by rw [hweights]; exact sum) (fun x hx => ?_)
      (fun x hx => ?_), rfl⟩
    · rcases List.mem_or_eq_of_mem_set hx with hx | rfl
      · exact pos x hx
      · exact pos c hmem
    · rcases List.mem_or_eq_of_mem_set hx with hx | rfl
      · exact alt x hx
      · rw [hdir']
        exact alt c hmem
    · rcases List.mem_or_eq_of_mem_set hx with hx | rfl
      · exact child x hx
      · exact hcanon'

end

end Lath
end Dormouse

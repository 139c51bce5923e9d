import Dormouse.LathBounds
import Dormouse.LathMoves
/-!
# LathBeside — where an insert and a move put the leaf

A leaf put beside the leaves `L` stands, as a child of its own, directly before or after the children of one split that hold `L`
(`Joined.adjacent`): whether it joined its target's split or a new one, and whatever `normalize` flattened.  So where the splits fit,
its rect is one gap from the bounding box of theirs, and as long across (`placed_beside`).
-/
namespace Dormouse
namespace Lath

section
variable {n n' m : LathNode} {id : LeafId} {edge : Edge} {L : List LeafId} {d : Dir} {x y : LeafId}

theorem precedes_nodeAt {p : List Nat} (hn : (nodeLeaves n).Nodup) (hm : nodeAt n p = some m) (hx : x ∈ nodeLeaves m)
    (hy : y ∈ nodeLeaves m) : Precedes d x y n ↔ Precedes d x y m := by
  obtain ⟨s, hs⟩ := exists_surroundings p hm
  have hdisj := hs.disjoint hm hn
  have h1 : ¬ s.far d x y := fun h => hdisj x (s.far_mem h).1 hx
  have h2 : ¬ s.fore d x := fun h => hdisj x (s.fore_mem h) hx
  have h3 : ¬ s.aft d y := fun h => hdisj y (s.aft_mem h) hy
  rw [hs.self_precedes hm]
  simp [h1, h2, h3]

theorem Joined.together (hj : Joined n id edge L n') (hid : id ∉ nodeLeaves n) (hL : Together n L) : Together n' (id :: L) := by
  have hne : ∀ x ∈ L, x ≠ id := fun x hx he => hid (he ▸ hL.sub x hx)
  refine ⟨fun x hx => (hj.leaves x).2 ?_, fun x hx y hy z hz d => ?_⟩
  · exact (List.mem_cons.1 hx).imp_right (hL.sub x)
  · obtain ⟨hzid, hzL⟩ : z ≠ id ∧ z ∉ L := by simpa using hz
    -- seen from `z`, each of `id :: L` stands where any of `L` stood
    have hstand : ∀ u ∈ id :: L, ∀ l ∈ L, ∀ e, (Precedes e z u n' ↔ Precedes e z l n) ∧
      (Precedes e u z n' ↔ Precedes e l z n) := by
      intro u hu l hl e
      rcases List.mem_cons.1 hu with rfl | hu
      · exact hj.outside l hl z hzL hzid e
      · rw [hj.old e z u hzid (hne u hu), hj.old e u z (hne u hu) hzid]
        exact ⟨⟨(hL.alike u hu l hl z hzL e).1, (hL.alike l hl u hu z hzL e).1⟩,
          ⟨(hL.alike u hu l hl z hzL e).2, (hL.alike l hl u hu z hzL e).2⟩⟩
    by_cases hLnil : L = []
    · subst hLnil
      rw [List.mem_singleton] at hx hy
      rw [hx, hy]
      exact ⟨fun h => h, fun h => h⟩
    · obtain ⟨l, hl⟩ := List.exists_mem_of_ne_nil L hLnil
      exact ⟨fun h => (hstand y hy l hl d).1.2 ((hstand x hx l hl d).1.1 h),
        fun h => (hstand y hy l hl d).2.2 ((hstand x hx l hl d).2.1 h)⟩

theorem Together.children {S : ℚ → Prop} (hc : Canon S n) (hn : (nodeLeaves n).Nodup) (hL : Together n (id :: L)) (hid : id ∉ L)
    (hne : L ≠ []) : ∃ p d A B C, nodeAt n p = some (.split d (A ++ B ++ C)) ∧ 2 ≤ B.length ∧ ∀ x,
    x ∈ id :: L ↔ x ∈ leavesOf B := by
  cases hL.block hc hn (List.cons_ne_nil _ _) with
  | @run p d A B C hp two proper leaves => exact ⟨p, d, A, B, C, hp, two, leaves⟩
  | @node p m hp leaves =>
    cases m with
    | leaf id' =>
      obtain ⟨l, hl⟩ := List.exists_mem_of_ne_nil L hne
      have h1 := (leaves id).1 (List.mem_cons_self ..)
      have h2 := (leaves l).1 (List.mem_cons_of_mem _ hl)
      rw [nodeLeaves_leaf, List.mem_singleton] at h1 h2
      exact absurd ((h1.trans h2.symm) ▸ hl) hid
    | split d cs =>
      refine ⟨p, d, [], cs, [], by rw [List.nil_append, List.append_nil]; exact hp, ?_, fun x => ?_⟩
      · exact (nodeAt_canon p hc hp).split_inv.1
      · rw [leaves, nodeLeaves_split]

theorem precedes_order {cs : List LathChild} (hn : (nodeLeaves (.split d cs)).Nodup) {i j : Nat} {a b : LathChild}
    (hi : cs[i]? = some a) (hj : cs[j]? = some b) (hij : i ≠ j) (hx : x ∈ nodeLeaves a.node)
    (hy : y ∈ nodeLeaves b.node) {e : Dir}
    (h : Precedes e x y (.split d cs)) : d = e ∧ i < j := by
  rcases Nat.lt_or_gt_of_ne hij with hlt | hlt
  · exact ⟨((earlier_getElem hlt hi hj hx hy).precedes_iff hn).1.1 h, hlt⟩
  · exact absurd h ((earlier_getElem hlt hj hi hy hx).precedes_iff hn).2

/-- A child whose leaves are parted from one of them along the split's own direction is that leaf. -/
theorem child_eq_leaf {S : ℚ → Prop} {cs : List LathChild} (hc : Canon S (.split d cs)) (hn : (nodeLeaves (.split d cs)).Nodup)
    {c : LathChild} (hcs : c ∈ cs) (hid : id ∈ nodeLeaves c.node) (hrel : ∀ y ∈ nodeLeaves c.node, y ≠ id →
      Precedes d id y (.split d cs) ∨ Precedes d y id (.split d cs)) : c.node = .leaf id := by
  obtain ⟨-, -, -, alt, child⟩ := hc.split_inv
  have hcc := child c hcs
  have halt := alt c hcs
  have hnc := nodup_child hn hcs
  cases hnode : c.node with
  | leaf id' =>
    rw [hnode, nodeLeaves_leaf, List.mem_singleton] at hid
    rw [hid]
  | split e gs =>
    rw [hnode] at hcc halt hnc hid
    -- the child's own direction parts it from another of its leaves
    obtain ⟨y, hy⟩ := exists_earlier hcc hid
    have hyid : y ≠ id := fun he => by
      rw [he] at hy
      exact hy.elim (fun h => h.asymm hnc h) (fun h => h.asymm hnc h)
    have hyc : y ∈ nodeLeaves c.node := by
      rw [hnode, nodeLeaves_split]
      exact hy.elim (fun h => h.mem.2) (fun h => h.mem.1)
    have hin : ∀ {u v : LeafId}, Earlier u v gs → Precedes e u v (.split d cs) := fun h =>
      (precedes_split d cs).2 (.inr ⟨c, hcs, by rw [hnode]; exact (precedes_split e gs).2 (.inl ⟨rfl, h⟩)⟩)
    have he : e = d := by
      rcases hy with hy | hy
      · have hu := (hin hy).unique hn
        exact (hrel y hyc hyid).elim (hu.1 d) (fun h => absurd h (hu.2 d))
      · have hu := (hin hy).unique hn
        exact (hrel y hyc hyid).elim (fun h => absurd h (hu.2 d)) (hu.1 d)
    exact absurd (by rw [he]; rfl) halt

/-- **A placed leaf is a child of its own, next to those that hold the leaves it stands beside.** -/
theorem Joined.adjacent {S : ℚ → Prop} (hj : Joined n id edge L n') (hc : Canon S n') (hn : (nodeLeaves n').Nodup)
    (hid : id ∉ nodeLeaves n) (hL : Together n L) (hne : L ≠ []) : ∃ p A B C w, B ≠ [] ∧ (∀ x, x ∈ L ↔ x ∈ leavesOf B) ∧
      nodeAt n' p = some (.split (edgeAxis edge)
        (A ++ (if edgeIsBefore edge then ⟨.leaf id, w⟩ :: B else B ++ [⟨.leaf id, w⟩]) ++ C)) := by
  have hidL : id ∉ L := fun h => hid (hL.sub id h)
  obtain ⟨p, d, A, B, C, hp, two, hleaves⟩ := (hj.together hid hL).children hc hn hidL hne
  have hcm := nodeAt_canon p hc hp
  have hnm := nodup_nodeAt hn hp
  have hat : ∀ i c, B[i]? = some c → (A ++ B ++ C)[A.length + i]? = some c := fun i c h => by
    rw [List.append_assoc, List.getElem?_append_right (by omega), Nat.add_sub_cancel_left]
    exact (List.getElem?_append_left (List.getElem?_eq_some_iff.1 h).1).trans h
  have hmem : ∀ {x}, x ∈ leavesOf B → x ∈ nodeLeaves (.split d (A ++ B ++ C)) := fun h => by
    rw [nodeLeaves_split, List.flatMap_append, List.flatMap_append]
    exact List.mem_append_left _ (List.mem_append_right _ h)
  have hidB : id ∈ leavesOf B := (hleaves id).1 (List.mem_cons_self ..)
  -- what a leaf of the run, other than the placed one, is to it
  have hrel : ∀ y ∈ leavesOf B, y ≠ id → if edgeIsBefore edge then Precedes (edgeAxis edge) id y (.split d (A ++ B ++ C))
      else Precedes (edgeAxis edge) y id (.split d (A ++ B ++ C)) := by
    intro y hy hyid
    have := hj.beside y ((List.mem_cons.1 ((hleaves y).2 hy)).resolve_left hyid)
    rwa [precedes_nodeAt hn hp (hmem hidB) (hmem hy), precedes_nodeAt hn hp (hmem hy) (hmem hidB)] at this
  obtain ⟨c, hcB, hidc⟩ := mem_leavesOf.1 hidB
  obtain ⟨i, hi⟩ := List.mem_iff_getElem?.1 hcB
  -- the other children of the run all stand on one side of its own
  have hother : ∀ j, j < B.length → j ≠ i → d = edgeAxis edge ∧ if edgeIsBefore edge then i < j else j < i := by
    intro j hjB hji
    have hjc := List.getElem?_eq_getElem hjB
    obtain ⟨y, hy⟩ := List.exists_mem_of_ne_nil _
      (hcm.split_inv.2.2.2.2 _ (List.mem_of_getElem? (hat j _ hjc))).nodeLeaves_ne_nil
    have hyB : y ∈ leavesOf B := mem_leavesOf.2 ⟨_, List.getElem_mem hjB, hy⟩
    have hyid : y ≠ id := fun he => hji (by
      have := nodup_children hnm (hat j _ hjc) (hat i _ hi) hy (he ▸ hidc)
      omega)
    have hr := hrel y hyB hyid
    split at hr
    · have := precedes_order hnm (hat i _ hi) (hat j _ hjc) (by omega) hidc hy hr
      exact ⟨this.1, by rw [if_pos ‹_›]; omega⟩
    · have := precedes_order hnm (hat j _ hjc) (hat i _ hi) (by omega) hy hidc hr
      exact ⟨this.1, by rw [if_neg ‹_›]; omega⟩
  obtain ⟨j, hjB, hji⟩ : ∃ j, j < B.length ∧ j ≠ i := by
    by_cases h0 : i = 0
    · exact ⟨1, by omega, by omega⟩
    · exact ⟨0, by omega, fun h => h0 h.symm⟩
  obtain rfl : d = edgeAxis edge := (hother j hjB hji).1
  have hleaf : c.node = .leaf id := by
    refine child_eq_leaf hcm hnm (List.mem_of_getElem? (hat i c hi)) hidc (fun y hy hyid => ?_)
    have hr := hrel y (mem_leavesOf.2 ⟨c, hcB, hy⟩) hyid
    split at hr
    · exact .inl hr
    · exact .inr hr
  obtain ⟨k, w⟩ := c
  cases hleaf
  -- so it is the run's first child, or its last
  obtain ⟨B', hB'⟩ : ∃ B', B = if edgeIsBefore edge then ⟨.leaf id, w⟩ :: B' else B' ++ [⟨.leaf id, w⟩] := by
    have hsplit := (split_at_getElem? hi).1
    have hiB := (List.getElem?_eq_some_iff.1 hi).1
    split
    · refine ⟨B.drop (i + 1), ?_⟩
      obtain rfl : i = 0 := by
        by_contra h0
        have := (hother 0 (by omega) (fun h => h0 h.symm)).2
        rw [if_pos ‹_›] at this
        omega
      exact hsplit
    · refine ⟨B.take i, ?_⟩
      have hlast : i + 1 = B.length := by
        by_contra h0
        have := (hother (i + 1) (by omega) (by omega)).2
        rw [if_neg ‹_›] at this
        omega
      rw [hlast, List.drop_length] at hsplit
      exact hsplit
  have hsplit : ∀ x, x ∈ leavesOf B ↔ x = id ∨ x ∈ leavesOf B' := fun x => by
    rw [hB']
    split <;> simp [leavesOf, or_comm]
  have hidB' : id ∉ leavesOf B' := by
    intro h
    rw [nodeLeaves_split, List.flatMap_append, List.flatMap_append] at hnm
    have hnB := (List.nodup_append.1 (List.nodup_append.1 hnm).1).2.1
    rw [hB'] at hnB
    split at hnB
    · exact (List.nodup_cons.1 hnB).1 h
    · rw [List.flatMap_append] at hnB
      exact (List.nodup_append.1 hnB).2.2 id h id (by simp) rfl
  refine ⟨p, A, B', C, w, ?_, fun x => ⟨fun hx => ?_, fun hx => ?_⟩, by rw [← hB']; exact hp⟩
  · rintro rfl
    rw [hB'] at two
    split at two <;> simp at two
  · have := (hsplit x).1 ((hleaves x).1 (List.mem_cons_of_mem _ hx))
    exact this.resolve_left (fun he => hidL (he ▸ hx))
  · have := (hleaves x).2 ((hsplit x).2 (.inr hx))
    exact (List.mem_cons.1 this).resolve_left (fun he => hidB' (he ▸ hx))

end

/-! ## The rects -/

/-- A rect on the side `edge` of a box, a gap from it, and as long across. -/
def Rect.Beside (own box : Rect) (edge : Edge) (gap : ℚ) : Prop :=
  (if edgeIsBefore edge then own.stop (edgeAxis edge) + gap = box.start (edgeAxis edge)
    else box.stop (edgeAxis edge) + gap = own.start (edgeAxis edge)) ∧
  own.start (edgeAxis edge).other = box.start (edgeAxis edge).other ∧
  own.span (edgeAxis edge).other = box.span (edgeAxis edge).other

def rectsOf (t : LathTree) (rect : Rect) (opts : LayoutOpts) (L : List LeafId) : List Rect :=
  ((layout t rect opts).filter (fun e => decide (e.1 ∈ L))).map (·.2)

/-- A leaf is laid out on the side `edge` of the leaves `L`. -/
def StandsBeside (t : LathTree) (rect : Rect) (opts : LayoutOpts) (id : LeafId) (edge : Edge) (L : List LeafId) : Prop :=
  ∃ own box, (layout t rect opts).lookup id = some own ∧ boundingBox (rectsOf t rect opts L) = some box ∧
    own.Beside box edge opts.gap

section
variable {opts : LayoutOpts} {r : Rect}

theorem beside_slices (edge : Edge) (gap : ℚ) {a l a' l' : ℚ}
    (h : if edgeIsBefore edge then a + l + gap = a' else a' + l' + gap = a) :
    (r.slice (edgeAxis edge) a l).Beside (r.slice (edgeAxis edge) a' l') edge gap := by
  have hne := Dir.other_ne (edgeAxis edge)
  refine ⟨?_, ?_, ?_⟩
  · rw [stop_slice, stop_slice, start_slice, start_slice]
    exact h
  · rw [(slice_other r hne _ _).1, (slice_other r hne _ _).1]
  · rw [(slice_other r hne _ _).2, (slice_other r hne _ _).2]

theorem FilledRun.leaf {d : Dir} {a b : ℚ} {id : LeafId} {w : ℚ} {ss : List Rect}
    (h : FilledRun opts d r a b [⟨.leaf id, w⟩] ss) : childLeafRects opts [⟨.leaf id, w⟩] ss = [(id, r.slice d a (b - a))] := by
  cases ss with
  | nil => simp [FilledRun] at h
  | cons s ss =>
    obtain ⟨⟨hs, -⟩, hb, rfl⟩ := filledRun_cons.1 h
    rw [childLeafRects, childLeafRects_nil, leafRects, List.append_nil, ← hb, stop_of_slice hs, add_sub_cancel_left, ← hs]

/-- **A leaf's rect and the box of the children next to it.** -/
theorem FilledRun.beside (hg : 0 ≤ opts.gap) {edge : Edge} {A B C : List LathChild} {id : LeafId} {w a b : ℚ} {ss : List Rect}
    (hB : B ≠ []) (h : FilledRun opts (edgeAxis edge) r a b
      (A ++ (if edgeIsBefore edge then ⟨.leaf id, w⟩ :: B else B ++ [⟨.leaf id, w⟩]) ++ C) ss) :
    ∃ own box mid pre post, (id, own) ∈ pre ++ mid ++ post ∧ mid.map (·.1) = leavesOf B ∧
    Lath.boundingBox (mid.map (·.2)) = some box ∧
      own.Beside box edge opts.gap ∧ childLeafRects opts
        (A ++ (if edgeIsBefore edge then ⟨.leaf id, w⟩ :: B else B ++ [⟨.leaf id, w⟩]) ++ C) ss = pre ++ mid ++ post := by
  have hne : (if edgeIsBefore edge then ⟨.leaf id, w⟩ :: B else B ++ [⟨.leaf id, w⟩] : List LathChild) ≠ [] := by
    split <;> simp
  obtain ⟨a', b', ts, pre, post, hrun, hrects⟩ := h.middle hne
  rw [hrects]
  cases hb : edgeIsBefore edge with
  | true =>
    rw [hb, if_pos rfl] at hrun
    obtain ⟨us, vs, m, rfl, hu, hv⟩ := FilledRun.append (List.cons_ne_nil (⟨.leaf id, w⟩ : LathChild) []) hB hrun
    refine ⟨r.slice (edgeAxis edge) a' (m - a'), r.slice (edgeAxis edge) (m + opts.gap) (b' - (m + opts.gap)),
      childLeafRects opts B vs, pre ++ [(id, r.slice (edgeAxis edge) a' (m - a'))], post, by simp,
      keys_childLeafRects opts B vs hv.length, hv.boundingBox hg, beside_slices edge _ ?_, ?_⟩
    · rw [hb, if_pos rfl]
      ring
    · rw [if_pos rfl, show (⟨.leaf id, w⟩ :: B : List LathChild) = [⟨.leaf id, w⟩] ++ B from rfl,
        childLeafRects_runs hu.length, hu.leaf]
      simp
  | false =>
    rw [hb, if_neg (by simp)] at hrun
    obtain ⟨us, vs, m, rfl, hu, hv⟩ := FilledRun.append hB (List.cons_ne_nil _ _) hrun
    refine ⟨r.slice (edgeAxis edge) (m + opts.gap) (b' - (m + opts.gap)), r.slice (edgeAxis edge) a' (m - a'),
      childLeafRects opts B us, pre, (id, r.slice (edgeAxis edge) (m + opts.gap) (b' - (m + opts.gap))) :: post, by simp,
      keys_childLeafRects opts B us hu.length, hu.boundingBox hg, beside_slices edge _ ?_, ?_⟩
    · rw [hb, if_neg (by simp)]
      ring
    · rw [if_neg (by simp), childLeafRects_runs hu.length, hv.leaf]
      simp

end

theorem filter_piece {pre mid post : List (LeafId × Rect)} (hn : ((pre ++ mid ++ post).map (·.1)).Nodup) {K : List LeafId}
    (hK : ∀ x, x ∈ K ↔ x ∈ mid.map (·.1)) : (pre ++ mid ++ post).filter (fun e => decide (e.1 ∈ K)) = mid := by
  rw [List.map_append, List.map_append] at hn
  obtain ⟨hn, -, hpost⟩ := List.nodup_append.1 hn
  obtain ⟨-, -, hpre⟩ := List.nodup_append.1 hn
  have h1 : pre.filter (fun e => decide (e.1 ∈ K)) = [] := List.filter_eq_nil_iff.2 (fun e he h => by
    rw [decide_eq_true_eq, hK] at h
    exact hpre _ (List.mem_map_of_mem he) _ h rfl)
  have h2 : mid.filter (fun e => decide (e.1 ∈ K)) = mid := List.filter_eq_self.2 (fun e he => by
    rw [decide_eq_true_eq, hK]
    exact List.mem_map_of_mem he)
  have h3 : post.filter (fun e => decide (e.1 ∈ K)) = [] := List.filter_eq_nil_iff.2 (fun e he h => by
    rw [decide_eq_true_eq, hK] at h
    exact hpost _ (List.mem_append_right _ h) _ (List.mem_map_of_mem he) rfl)
  rw [List.filter_append, List.filter_append, h1, h2, h3, List.nil_append, List.append_nil]

/-- **A placed leaf is laid out beside the leaves it stands beside.** -/
theorem Joined.standsBeside {S : ℚ → Prop} {n n' : LathNode} {id : LeafId} {edge : Edge} {L : List LeafId}
    (hj : Joined n id edge L n') (hv : Valid S ⟨some n'⟩) (hid : id ∉ nodeLeaves n) (hL : Together n L) (hne : L ≠ [])
    {rect : Rect} (hr : rect.IsInt) {opts : LayoutOpts} (ho : opts.Integral) (hfit : Fits ⟨some n'⟩ rect opts) {K : List LeafId}
    (hK : ∀ x, x ∈ K ↔ x ∈ L) : StandsBeside ⟨some n'⟩ rect opts id edge K := by
  have hcan := hv.canon n' rfl
  have hn : (nodeLeaves n').Nodup := hv.nodup
  have hg := ho.nonneg.gap
  obtain ⟨p, A, B, C, w, hB, hLB, hp⟩ := hj.adjacent hcan hn hid hL hne
  have hfill : Filled opts (nonnegativeRect rect) n' := filled_of_fits ho hcan hr.nonnegativeRect hfit
  obtain ⟨s, pre, post, hs, hrects⟩ := hfill.nodeAt p hp
  rw [Filled] at hs
  rw [leafRects] at hrects
  obtain ⟨own, box, mid, pre', post', hown, hkeys, hbox, hbeside, hmid⟩ := hs.beside hg hB
  rw [hmid] at hrects
  have hpiece : leafRects opts (nonnegativeRect rect) n' = (pre ++ pre') ++ mid ++ (post' ++ post) := by
    rw [hrects]
    simp only [List.append_assoc]
  have hnk : ((leafRects opts (nonnegativeRect rect) n').map (·.1)).Nodup := by rwa [keys_leafRects]
  refine ⟨own, box, ?_, ?_, hbeside⟩
  · rw [layout_eq hn]
    refine lookup_of_mem hnk ?_
    rw [hrects]
    simp only [List.mem_append] at hown ⊢
    tauto
  · unfold rectsOf
    rw [layout_eq hn]
    rw [hpiece] at hnk ⊢
    rw [filter_piece hnk (fun x => by rw [hK, hLB, hkeys])]
    exact hbox

theorem sameSides_of_strip {n n' : LathNode} (h : strip n = strip n') : SameSides n n' :=
  ⟨fun x => by rw [nodeLeaves_congr h], fun _ _ _ => precedes_congr h⟩

theorem materializeTarget_together {S : ℚ → Prop} {n g m : LathNode} (h : Valid S ⟨some n⟩) {target : EdgeDropTarget}
    {path : List Nat} (hmat : materializeTarget ⟨some n⟩ target = some (⟨some g⟩, path)) (hm : nodeAt g path = some m) :
    Together n (nodeLeaves m) ∧ nodeLeaves m ≠ [] := by
  obtain ⟨g', -, hg, -, hgl, -⟩ := materializeTarget_spec (h.positive rfl) hmat
  cases hg
  have hn : (nodeLeaves g).Nodup := by
    rw [hgl]
    exact h.nodup
  exact ⟨(together_nodeAt hn hm).of_sides (materializeTarget_sides hmat), materializeTarget_leaf (h.canon n rfl) hmat hm⟩

/-- **An inserted or moved leaf is laid out beside its target**: on the target's edge, exactly a gap from the bounding box of the
target's other leaves, and exactly as long across, in every integer rect where the result's splits fit. -/
theorem placed_beside (t : LathTree) (h : validate t = []) (rect : Rect) (hr : rect.IsInt) (opts : LayoutOpts)
    (ho : opts.Integral) (id : LeafId) (target : EdgeDropTarget) (group : LathTree) (path : List Nat)
    (hmat : materializeTarget t target = some (group, path)) :
    (∀ size t', insert t id (.edge target) size = ⟨t', true⟩ → Fits t' rect opts →
      StandsBeside t' rect opts id target.edge ((leaves ⟨nodeAtPath group path⟩).filter (· ≠ id))) ∧
    ∀ t', move t id (.edge target) = ⟨t', true⟩ → Fits t' rect opts →
      StandsBeside t' rect opts id target.edge ((leaves ⟨nodeAtPath group path⟩).filter (· ≠ id)) := by
  have hv := (validate_eq_nil t).1 h
  rcases t with ⟨_ | n⟩
  · exact ⟨fun size t' hins => by simp [insert, insertImpl] at hins, fun t' hmove => by simp [move] at hmove⟩
  obtain ⟨g, m, rfl, hm, hl⟩ := materializeTarget_root hv hmat
  rw [hl]
  refine ⟨fun size t' hins hfit => ?_, fun t' hmove hfit => ?_⟩
  · -- the target's leaves are all the tree's own
    obtain ⟨htog, hne⟩ := materializeTarget_together hv hmat hm
    have hok : size.isNaN = false ∧ id ∉ nodeLeaves n := by
      unfold insert insertImpl at hins
      dsimp only at hins
      split at hins
      · cases hins
      · rename_i hno
        simp only [Bool.or_eq_true, not_or, Bool.not_eq_true, Option.isSome_eq_false_iff, Option.isNone_iff_eq_none] at hno
        exact ⟨hno.1.1, findLeafPath_eq_none.1 hno.2⟩
    obtain ⟨n', hins', hv', hj⟩ := insertImpl_sides hv hok.2 hok.1 false hmat hm
    obtain rfl : t' = ⟨some n'⟩ := by
      unfold insert at hins
      rw [hins'] at hins
      cases hins
      rfl
    refine hj.standsBeside hv' hok.2 htog hne hr ho hfit (fun x => ?_)
    rw [List.mem_filter, decide_eq_true_eq]
    exact ⟨And.left, fun hx => ⟨hx, fun he => hok.2 (he ▸ htog.sub x hx)⟩⟩
  · have hchecks : id ∈ nodeLeaves n ∧ nodeLeaves m ≠ [id] := by
      by_contra hno
      rw [not_and_or, not_not] at hno
      have : (move ⟨some n⟩ id (.edge target)).ok = false := move_refused
        (hno.imp_right (fun he => .inr ⟨_, _, hmat, hl.trans he⟩))
      rw [hmove] at this
      cases this
    obtain ⟨n₂, destination, g₂, path₂, m₂, size, n', -, hv₂, hres, -, ⟨hmat₂, hm₂⟩, hleaves, -, -, hv', hj, hresult⟩ :=
      move_accepted hv hchecks.1 hmat hm hchecks.2
    have hid₂ : id ∉ nodeLeaves n₂ := fun hx => ((hres.leaves id).1 hx).2 rfl
    obtain ⟨htog, hne⟩ := materializeTarget_together hv₂ hmat₂ hm₂
    have hK : ∀ x, x ∈ (nodeLeaves m).filter (· ≠ id) ↔ x ∈ nodeLeaves m₂ := fun x => by
      rw [List.mem_filter, decide_eq_true_eq, hleaves]
    rw [hmove] at hresult
    rcases hresult with he | ⟨hstrip, he⟩
    · cases he
      exact hj.standsBeside hv' hid₂ htog hne hr ho hfit hK
    · -- the tree is answered as it was: its leaf stood there already
      cases he
      exact (hj.congr (SameSides.refl _) (sameSides_of_strip hstrip.symm)).standsBeside hv hid₂ htog hne hr ho hfit hK

mutual
def fitsNode (opts : LayoutOpts) (r : Rect) : LathNode → Bool
  | .leaf _     => true
  | .split d cs => decide (opts.gap * ((cs.length : ℚ) - 1) ≤ r.span d) && fitsChildren opts cs (childRects d cs r opts)
def fitsChildren (opts : LayoutOpts) : List LathChild → List Rect → Bool
  | ⟨n, _⟩ :: cs, s :: ss => fitsNode opts s n && fitsChildren opts cs ss
  | _,            _       => true
end

theorem fitsChildren_getElem {opts : LayoutOpts} : ∀ {cs : List LathChild} {ss : List Rect} {i : Nat}
    {c : LathChild} {s : Rect},
    fitsChildren opts cs ss = true → cs[i]? = some c → ss[i]? = some s → fitsNode opts s c.node = true
  | [], _, _, _, _, _, hc, _ => by simp at hc
  | _ :: _, [], _, _, _, _, _, hs => by simp at hs
  | ⟨n, w⟩ :: cs, t :: ss, i, c, s, h, hc, hs => by
    rw [fitsChildren, Bool.and_eq_true] at h
    cases i with
    | zero =>
      cases hc
      cases hs
      exact h.1
    | succ i => exact fitsChildren_getElem h.2 hc hs

theorem fitsAt_of_fitsNode {opts : LayoutOpts} : ∀ (p : List Nat) {n : LathNode} {r : Rect} {d : Dir} {cs : List LathChild}
    {s : Rect}, fitsNode opts r n = true → nodeAt n p = some (.split d cs) → nodeRectAt opts n r p = some s →
      opts.gap * ((cs.length : ℚ) - 1) ≤ s.span d
  | [], n, r, d, cs, s, h, hn, hs => by
    rw [nodeAt_nil, Option.some.injEq] at hn
    rw [nodeRectAt, Option.some.injEq] at hs
    rw [hn, fitsNode, Bool.and_eq_true, decide_eq_true_eq, hs] at h
    exact h.1
  | i :: p, .leaf _, r, d, cs, s, _, hn, _ => by simp at hn
  | i :: p, .split e gs, r, d, cs, s, h, hn, hs => by
    rw [nodeAt_split_cons] at hn
    obtain ⟨c, hc, hn⟩ := Option.bind_eq_some_iff.1 hn
    rw [fitsNode, Bool.and_eq_true] at h
    simp only [nodeRectAt, hc] at hs
    split at hs
    · rename_i c' cr hc' hcr
      cases hc'
      exact fitsAt_of_fitsNode p (fitsChildren_getElem h.2 hc hcr) hn hs
    · cases hs

def fits (t : LathTree) (rect : Rect) (opts : LayoutOpts) : Bool := t.root.elim true (fitsNode opts (nonnegativeRect rect))

theorem fits_sound {t : LathTree} {rect : Rect} {opts : LayoutOpts} (h : fits t rect opts = true) : Fits t rect opts := by
  rcases t with ⟨_ | n⟩
  · intro p d cs s hp
    simp [nodeAtPath] at hp
  · exact fun p _ _ _ hn hs => fitsAt_of_fitsNode p h hn hs

theorem placed_beside_cornerTree : validate cornerTree = [] ∧
    (insert cornerTree (units "z") (.edge ⟨[.ofNat 1], .left, none⟩) .half).ok = true ∧
    StandsBeside (insert cornerTree (units "z") (.edge ⟨[.ofNat 1], .left, none⟩) .half).tree sampleRect sampleOpts
    (units "z") .left
      [units "b", units "c"] := by
  have hv : validate cornerTree = [] := (validate_eq_nil _).2 (cornerTree_valid.imp (fun _ => near_of_exact))
  have hok : (insert cornerTree (units "z") (.edge ⟨[.ofNat 1], .left, none⟩) .half).ok = true := by decide +kernel
  obtain ⟨hinsert, -⟩ := placed_beside cornerTree hv sampleRect sampleRect_integral.isInt sampleOpts sampleOpts_integral
    (units "z") ⟨[.ofNat 1], .left, none⟩ cornerTree [1] rfl
  exact ⟨hv, hok, hinsert .half _ (by rw [← hok]) (fits_sound (by decide +kernel))⟩

def tenthTree : LathTree := ⟨some (.split .row [⟨.leaf (units "a"), 1 / 10⟩, ⟨.leaf (units "b"), 9 / 10⟩])⟩

def evenColumn (a b : LeafId) : LathNode := .split .col [⟨.leaf a, 1 / 2⟩, ⟨.leaf b, 1 / 2⟩]

def nestedTree : LathTree :=
  ⟨some (.split .row [⟨.leaf (units "a"), 8 / 10⟩, ⟨.leaf (units "b"), 1 / 10⟩,
    ⟨.split .col [⟨.leaf (units "c"), 1 / 2⟩, ⟨.split .row [⟨evenColumn (units "d") (units "e"), 1 / 3⟩,
      ⟨evenColumn (units "f") (units "g"), 1 / 3⟩, ⟨evenColumn (units "h") (units "i"), 1 / 3⟩], 1 / 2⟩], 1 / 10⟩])⟩

theorem not_standsBeside {t : LathTree} {rect : Rect} {opts : LayoutOpts} {id : LeafId} {edge : Edge} {L : List LeafId}
    (own box : Rect) (hown : (layout t rect opts).lookup id = some own) (hbox : boundingBox (rectsOf t rect opts L) = some box)
    (hne : ¬ own.Beside box edge opts.gap) : ¬ StandsBeside t rect opts id edge L := by
  rintro ⟨own', box', h1, h2, h⟩
  rw [hown, Option.some.injEq] at h1
  rw [hbox, Option.some.injEq] at h2
  subst h1 h2
  exact hne h

/-- **Under a negative gap or a negative minimum leaf the rects cross**: a leaf put left of two others is laid out beside the first
of them, past which the second reaches back. -/
theorem negative_options_cross :
    (validate tenthTree = [] ∧
      materializeTarget tenthTree ⟨[], .left, none⟩ = some (tenthTree, []) ∧
      (insert tenthTree (units "z") (.edge ⟨[], .left, none⟩) .half).ok = true ∧
      Fits (insert tenthTree (units "z") (.edge ⟨[], .left, none⟩) .half).tree ⟨0, 0, 10, 10⟩ ⟨-50, ⟨0, 0⟩⟩ ∧
      ¬ StandsBeside (insert tenthTree (units "z") (.edge ⟨[], .left, none⟩) .half).tree ⟨0, 0, 10, 10⟩ ⟨-50, ⟨0, 0⟩⟩
        (units "z") .left [units "a", units "b"]) ∧
    (validate nestedTree = [] ∧
      (∃ group, materializeTarget nestedTree ⟨[], .left, some ⟨.ofNat 0, .ofNat 2⟩⟩ = some (group, [0]) ∧
        leaves ⟨nodeAtPath group [0]⟩ = [units "a", units "b"]) ∧
      (insert nestedTree (units "z") (.edge ⟨[], .left, some ⟨.ofNat 0, .ofNat 2⟩⟩) (.weight (.fin (1 / 10)))).ok = true ∧
      Fits (insert nestedTree (units "z") (.edge ⟨[], .left, some ⟨.ofNat 0, .ofNat 2⟩⟩) (.weight (.fin (1 / 10)))).tree
        ⟨0, 0, 300, 1000⟩ ⟨100, ⟨-150, 0⟩⟩ ∧
      ¬ StandsBeside (insert nestedTree (units "z") (.edge ⟨[], .left, some ⟨.ofNat 0, .ofNat 2⟩⟩)
        (.weight (.fin (1 / 10)))).tree
        ⟨0, 0, 300, 1000⟩ ⟨100, ⟨-150, 0⟩⟩ (units "z") .left [units "a", units "b"]) := by
  refine ⟨⟨by decide +kernel, rfl, by decide +kernel, fits_sound (by decide +kernel), ?_⟩,
    by decide +kernel, ⟨_, rfl, by decide +kernel⟩, by decide +kernel, fits_sound (by decide +kernel), ?_⟩
  · exact not_standsBeside ⟨0, 0, 55, 10⟩ ⟨-39, 0, 50, 10⟩ (by decide +kernel) (by decide +kernel)
      (fun h => absurd h.1 (by decide +kernel))
  · exact not_standsBeside ⟨0, 0, -25, 1000⟩ ⟨25, 0, -25, 1000⟩ (by decide +kernel) (by decide +kernel)
      (fun h => absurd h.1 (by decide +kernel))

end Lath
end Dormouse

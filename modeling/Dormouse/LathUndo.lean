import Dormouse.LathMoves
import Dormouse.LathRun
/-!
# LathUndo — a removal takes an insert back

By the sides alone the tree is the one before the insert, weights apart (`Joined.undone`), and so for a move and the removal it began
with.  With exact sums the weights come back too: an insert of a given size puts the leaf into a split and scales the others by one
factor, or pairs it with a node or a run of children, and each of the forms normalizes back once the leaf is erased (`Undoable`).
-/
namespace Dormouse
namespace Lath

/-! ## The shape -/

section
variable {S S' : ℚ → Prop} {n n' : LathNode} {id : LeafId} {edge : Edge} {L : List LeafId}

/-- **A leaf set beside others and removed again leaves the shape it was set into.** -/
theorem Joined.undone (h : Valid S ⟨some n⟩) (h' : Valid S' ⟨some n'⟩) (hid : id ∉ nodeLeaves n) (hj : Joined n id edge L n') :
    treeShape (remove ⟨some n'⟩ id).tree = treeShape ⟨some n⟩ := by
  have hres := remove_sides h' id
  have hleaves : ∀ x, x ∈ Lath.leaves (remove ⟨some n'⟩ id).tree ↔ x ∈ nodeLeaves n := fun x => by
    rw [hres.leaves, leaves_mk_some, hj.leaves]
    exact ⟨fun ⟨hx, hxid⟩ => hx.resolve_left hxid, fun hx => ⟨.inr hx, fun he => hid (he ▸ hx)⟩⟩
  have hprec : ∀ d x y, TreePrecedes d x y (remove ⟨some n'⟩ id).tree ↔ Precedes d x y n := fun d x y => by
    rw [hres.precedes, treePrecedes_some]
    constructor
    · exact fun ⟨hp, hx, hy⟩ => (hj.old d x y hx hy).1 hp
    · intro hp
      have hx : x ≠ id := fun he => hid (he ▸ hp.mem.1)
      have hy : y ≠ id := fun he => hid (he ▸ hp.mem.2)
      exact ⟨(hj.old d x y hx hy).2 hp, hx, hy⟩
  have hne := (h.canon n rfl).nodeLeaves_ne_nil
  obtain ⟨x, hx⟩ := List.exists_mem_of_ne_nil _ hne
  rcases remove_spec h' id with hr | ⟨-, -, hv, -⟩
  · -- the leaf is there, and so it is removed
    have hmem : id ∈ Lath.leaves (remove ⟨some n'⟩ id).tree := by
      rw [hr]
      exact (hj.leaves id).2 (.inl rfl)
    exact absurd rfl ((hres.leaves id).1 hmem).2
  · generalize (remove ⟨some n'⟩ id).tree = t at *
    rcases t with ⟨_ | k⟩
    · simpa using (hleaves x).2 hx
    · have hside : SameSides k n := ⟨hleaves, fun d x y => by rw [← treePrecedes_some, hprec]⟩
      exact congrArg some (strip_eq_of_precedes (hv.canon k rfl) (h.canon n rfl) hv.nodup h.nodup hside)

end

/-! ## The weights -/

theorem nodeAt_replaceAtPath_append (q r : List Nat) {n m k : LathNode} (h : nodeAt n q = some m) :
    nodeAt (replaceAtPath n q k) (q ++ r) = nodeAt k r := by
  rw [nodeAt_append, nodeAt_replaceAtPath_self q k h, Option.bind_some]

theorem replaceAtPath_within : ∀ (q r : List Nat) {n m k : LathNode} (b : LathNode), nodeAt n q = some m →
    replaceAtPath (replaceAtPath n q k) (q ++ r) b = replaceAtPath n q (replaceAtPath k r b)
  | [], r, n, m, k, b, _ => by simp
  | i :: q, r, .leaf id, m, k, b, h => by simp at h
  | i :: q, r, .split d cs, m, k, b, h => by
    simp only [nodeAt_split_cons] at h
    obtain ⟨c, hc, hm⟩ := Option.bind_eq_some_iff.1 h
    have hi : i < cs.length := (List.getElem?_eq_some_iff.1 hc).1
    rw [replaceAtPath_cons hc, List.cons_append, replaceAtPath_cons (List.getElem?_set_self hi), replaceAtPath_cons hc,
      replaceAtPath_within q r b hm, List.set_set]

variable {d : Dir}

theorem remove_at {S : ℚ → Prop} {n : LathNode} (h : Valid S ⟨some n⟩) {p : List Nat} {cs : List LathChild}
    (hp : nodeAt n p = some (.split d cs)) {j : Nat} {id : LeafId} {w : ℚ} (hc : cs[j]? = some ⟨.leaf id, w⟩) :
    (remove ⟨some n⟩ id).tree = ⟨normalize (replaceAtPath n p (.split d (cs.eraseIdx j)))⟩ := by
  have hat : nodeAt n (p ++ [j]) = some (.leaf id) := by rw [nodeAt_append, hp]; simp [hc]
  rcases remove_cases h id with ⟨hid, -⟩ | ⟨hleaf, -⟩ | ⟨n', p', d', cs', j', w', sib, hroot, -, hp', hc', -, hr⟩
  · exact absurd (mem_leaves_of_nodeAt _ hat id (by simp)) hid
  · cases hleaf
    cases p <;> simp at hat
  · cases hroot
    have hat' : nodeAt n (p' ++ [j']) = some (.leaf id) := by rw [nodeAt_append, hp']; simp [hc']
    obtain ⟨rfl, hj⟩ := List.append_inj' (nodeAt_unique _ _ (h.canon n rfl) h.nodup hat hat' (fun x => Iff.rfl)) rfl
    obtain ⟨rfl⟩ := hj
    rw [hp] at hp'
    cases hp'
    rw [hr]

/-- Published for `m`, `k` holds a leaf whose removal brings `m` back. -/
def Undoable (id : LeafId) (m k : LathNode) : Prop :=
  ∃ r d cs j w, nodeAt k r = some (.split d cs) ∧ cs[j]? = some ⟨.leaf id, w⟩ ∧
    normalize (replaceAtPath k r (.split d (cs.eraseIdx j))) = some m

theorem Undoable.remove {n m k : LathNode} (hc : Canon exact n) {q : List Nat} (hm : nodeAt n q = some m)
    (h : Valid exact ⟨some (replaceAtPath n q k)⟩) {id : LeafId} (hk : Undoable id m k) :
    (remove ⟨some (replaceAtPath n q k)⟩ id).tree = ⟨some n⟩ := by
  obtain ⟨r, d, cs, j, w, hr, hj, hnorm⟩ := hk
  have hmc := nodeAt_canon q hc hm
  rw [remove_at h ((nodeAt_replaceAtPath_append q r hm).trans hr) hj, replaceAtPath_within q r _ hm,
    normalize_replaceAtPath_eq q n (hnorm.trans (normalize_of_canon hmc).symm), replaceAtPath_self q hm, normalize_of_canon hc]

section
variable {d : Dir} {cs : List LathChild} (hc : Canon exact (.split d cs))
include hc

theorem normalize_scaled {k : ℚ} (hk : 0 < k) :
    normalize (.split d (cs.map (fun c => ⟨c.node, c.weight * k⟩))) = some (.split d cs) := by
  obtain ⟨count, pos, sum, alt, child⟩ := hc.split_inv
  rw [normalize_split_of_collect (collect_self ?_ ?_) (by rw [List.length_map]; exact count), (normalizeWeights_scale sum hk).1]
  · intro c hcc
    obtain ⟨a, ha, rfl⟩ := List.mem_map.1 hcc
    exact normalize_of_canon (child a ha)
  · intro c hcc
    obtain ⟨a, ha, rfl⟩ := List.mem_map.1 hcc
    exact alt a ha

theorem undoable_among {k : ℚ} (hk : 0 < k) (A B : List LathChild) (hAB : A ++ B = cs.map (fun c => ⟨c.node, c.weight * k⟩))
    (id : LeafId) (u : ℚ) : Undoable id (.split d cs) (.split d (A ++ ⟨.leaf id, u⟩ :: B)) := by
  refine ⟨[], d, _, A.length, u, nodeAt_nil _, by simp, ?_⟩
  rw [replaceAtPath_nil, List.eraseIdx_append_of_length_le (Nat.le_refl _), Nat.sub_self, List.eraseIdx_cons_zero, hAB]
  exact normalize_scaled hc hk

end

theorem besideNode_canon {m : LathNode} (hc : Canon exact m) {edge : Edge} (hd : m.dir? ≠ some (edgeAxis edge)) (id : LeafId)
    {w : ℚ} (h0 : 0 < w) (h1 : w < 1) : Canon exact (besideNode edge (mkLeaf id) w m (1 - w)) := by
  have hleaf : (LathNode.leaf id).dir? ≠ some (edgeAxis edge) := nofun
  unfold besideNode mkLeaf
  cases edgeIsBefore edge <;>
    refine .split (by simp) ?_ (by simp [exact, weightSum]) ?_ ?_ <;> simp [hc, hd, h0, h1, hleaf, Canon.leaf]

theorem undoable_beside {m : LathNode} (hc : Canon exact m) {edge : Edge} (hd : m.dir? ≠ some (edgeAxis edge)) (id : LeafId)
    (w v : ℚ) : Undoable id m (besideNode edge (mkLeaf id) w m v) := by
  unfold besideNode mkLeaf
  cases edgeIsBefore edge with
  | true => exact ⟨[], _, _, 0, w, nodeAt_nil _, rfl, by simpa using @normalize_single _ ⟨m, v⟩ hc hd⟩
  | false => exact ⟨[], _, _, 1, w, nodeAt_nil _, rfl, by simpa using @normalize_single _ ⟨m, v⟩ hc hd⟩

variable {A B C : List LathChild}

theorem collect_ungroup (hc : Canon exact (.split d (A ++ B ++ C))) (hB : B ≠ []) {g : LathNode}
    (hg : normalize g = some (.split d (normalizeWeights B))) :
    collect d (A ++ ⟨g, weightSum B⟩ :: C) = A ++ B ++ C := by
  obtain ⟨-, pos, -, alt, child⟩ := hc.split_inv
  have hself : ∀ l : List LathChild, (∀ c ∈ l, c ∈ A ++ B ++ C) → collect d l = l := fun l hl =>
    collect_self (fun c hcc => normalize_of_canon (child c (hl c hcc))) (fun c hcc => alt c (hl c hcc))
  have hBs : 0 < weightSum B := weightSum_pos hB (fun c hcB => pos c (by simp [hcB]))
  have hscale : (normalizeWeights B).map (fun c => (⟨c.node, c.weight * weightSum B⟩ : LathChild)) = B := by
    rw [normalizeWeights_of_pos hBs, List.map_map]
    conv => rhs; rw [← List.map_id B]
    refine List.map_congr_left (fun c _ => ?_)
    simp only [Function.comp_apply, div_mul_cancel₀ _ hBs.ne', id_eq]
  have hA := hself A (fun c h => by simp [h])
  have hC := hself C (fun c h => by simp [h])
  rw [collect_eq] at hA hC
  rw [collect_eq, List.flatMap_append, List.flatMap_cons, hA, hC, hg, flattenInto_split, if_pos rfl, hscale, List.append_assoc]

theorem canon_group (hc : Canon exact (.split d (A ++ B ++ C))) (hB : 2 ≤ B.length) :
    Canon exact (.split d (normalizeWeights B)) := by
  obtain ⟨-, pos, -, alt, child⟩ := hc.split_inv
  have hBmem : ∀ c ∈ B, c ∈ A ++ B ++ C := fun c h => by simp [h]
  obtain ⟨hpos, hsum⟩ := normalizeWeights_spec (List.ne_nil_of_length_pos (by omega)) (fun c h => pos c (hBmem c h))
  refine .split (by simpa using hB) hpos hsum ?_ ?_
  · exact forall_node_normalizeWeights (P := fun m => m.dir? ≠ some d) (fun c h => alt c (hBmem c h))
  · exact forall_node_normalizeWeights (P := Canon exact) (fun c h => child c (hBmem c h))

theorem undoable_group (hc : Canon exact (.split d (A ++ B ++ C))) (hB : 2 ≤ B.length) {edge : Edge}
    (hd : d ≠ edgeAxis edge) (id : LeafId) (w v : ℚ) : Undoable id (.split d (A ++ B ++ C))
      (.split d (A ++ ⟨besideNode edge (mkLeaf id) w (.split d (normalizeWeights B)) v, weightSum B⟩ :: C)) := by
  have hBne : B ≠ [] := List.ne_nil_of_length_pos (by omega)
  obtain ⟨count, -, sum, -, -⟩ := hc.split_inv
  obtain ⟨r, e, cs, j, u, hr, hj, hnorm⟩ :=
    @undoable_beside _ (canon_group hc hB) edge (fun he => hd (Option.some.inj he)) id w v
  refine ⟨A.length :: r, e, cs, j, u, ?_, hj, ?_⟩
  · simp only [nodeAt_split_cons]
    rw [List.getElem?_append_right (Nat.le_refl _), Nat.sub_self, List.getElem?_cons_zero, Option.bind_some]
    exact hr
  · rw [replaceAtPath_cons (c := ⟨besideNode edge (mkLeaf id) w (.split d (normalizeWeights B)) v, weightSum B⟩) (by simp)]
    have hset : ∀ x : LathChild, (A ++ ⟨besideNode edge (mkLeaf id) w (.split d (normalizeWeights B)) v, weightSum B⟩ :: C).set
        A.length x = A ++ x :: C := fun x => by simp
    rw [hset]
    rw [normalize_split_of_collect (collect_ungroup hc hBne hnorm) count, normalizeWeights_of_sum_one sum]

/-! ## `insert` -/

/-- What an insert publishes: one node of the tree, replaced by one the leaf can be taken from again. -/
def Inserted (n : LathNode) (id : LeafId) (t : LathTree) : Prop :=
  ∃ q m k, nodeAt n q = some m ∧ t = ⟨some (replaceAtPath n q k)⟩ ∧ Undoable id m k

theorem Inserted.remove {n : LathNode} (hc : Canon exact n) {id : LeafId} {t : LathTree} (ht : Valid exact t)
    (h : Inserted n id t) : (remove t id).tree = ⟨some n⟩ := by
  obtain ⟨q, m, k, hm, rfl, hk⟩ := h
  exact hk.remove hc hm ht

/-- A node published in place of another is normalized within a tree as it is alone, where its parent does not take it up. -/
theorem normalize_published {n m r k : LathNode} (hc : Canon exact n) {q : List Nat} (hm : nodeAt n q = some m)
    (hr : normalize r = some k) (hk : Canon exact k)
    (hd : k.dir? = m.dir? ∨ ∀ p i d cs, q = p ++ [i] → nodeAt n p = some (.split d cs) → k.dir? ≠ some d) :
    normalize (replaceAtPath n q r) = some (replaceAtPath n q k) := by
  rcases hd with hd | hd
  · exact normalize_replaceAtPath hc hm hr hk (.inl hd)
  · rw [normalize_replaceAtPath_eq q n (hr.trans (normalize_of_canon hk).symm)]
    refine normalize_of_canon ?_
    cases hlast : q.getLast? with
    | none =>
      rw [List.getLast?_eq_none_iff.1 hlast, replaceAtPath_nil]
      exact hk
    | some i =>
      have hq : q = q.dropLast ++ [i] := (List.dropLast_append_getLast? i hlast).symm
      obtain ⟨d, cs, w, hpar, hi⟩ := nodeAt_parent (hq ▸ hm)
      obtain ⟨count, pos, sum, alt, child⟩ := (nodeAt_canon _ hc hpar).split_inv
      rw [hq, replaceAtPath_append _ _ hpar hi]
      refine Canon.replaceAtPath _ hc hpar (.split (by simpa using count) ?_ ?_ ?_ ?_) (.inl rfl)
      · intro c hcs
        rcases List.mem_or_eq_of_mem_set hcs with h | rfl
        · exact pos c h
        · exact pos ⟨m, w⟩ (List.mem_of_getElem? hi)
      · rw [show weightSum (cs.set i ⟨k, w⟩) = weightSum cs from weightSum_set hi k]
        exact sum
      · intro c hcs
        rcases List.mem_or_eq_of_mem_set hcs with h | rfl
        · exact alt c h
        · exact hd _ i d cs hq hpar
      · intro c hcs
        rcases List.mem_or_eq_of_mem_set hcs with h | rfl
        · exact child c h
        · exact hk

theorem collect_scale (d : Dir) (k : ℚ) (cs : List LathChild) :
    collect d (cs.map (fun c => ⟨c.node, c.weight * k⟩)) = (collect d cs).map (fun c => ⟨c.node, c.weight * k⟩) := by
  rw [collect_eq, collect_eq, List.flatMap_map, List.map_flatMap]
  refine List.flatMap_congr (fun c _ => ?_)
  cases normalize c.node with
  | none => rfl
  | some m =>
    cases m with
    | leaf id => rfl
    | split d' gcs =>
      rw [flattenInto_split, flattenInto_split]
      split
      · simp [mul_assoc]
      · rfl

/-- A leaf put among children that are collected into a canonical split's, scaled, and the whole normalized. -/
theorem normalize_among {P Q cs : List LathChild} {s : ℚ} (hs : 0 < s)
    (hcol : collect d (P ++ Q) = cs.map (fun c => ⟨c.node, c.weight * s⟩)) (hsum : weightSum (P ++ Q) = s)
    (hc : Canon exact (.split d cs)) (id : LeafId) {w : ℚ} (hw : 0 < w) :
    ∃ k, normalize (.split d (normalizeWeights (P ++ ⟨.leaf id, w⟩ :: Q))) = some (.split d k) ∧
      Undoable id (.split d cs) (.split d k) := by
  obtain ⟨count, -, sum, -, -⟩ := hc.split_inv
  have htotal : weightSum (P ++ ⟨.leaf id, w⟩ :: Q) = s + w := by
    rw [weightSum_append] at hsum
    rw [weightSum_append, weightSum_cons]
    linarith
  have hpos : 0 < s + w := by linarith
  have hk : 0 < 1 / (s + w) := by positivity
  have hsplice : collect d (P ++ ⟨.leaf id, w⟩ :: Q) = collect d P ++ ⟨.leaf id, w⟩ :: collect d Q := by
    simp [collect_eq, flattenInto]
  have happ : collect d P ++ collect d Q = cs.map (fun c => ⟨c.node, c.weight * s⟩) := by
    rw [← hcol, collect_eq, collect_eq, collect_eq, List.flatMap_append]
  have hnw : normalizeWeights (P ++ ⟨.leaf id, w⟩ :: Q) =
      (P ++ ⟨.leaf id, w⟩ :: Q).map (fun c => ⟨c.node, c.weight * (1 / (s + w))⟩) := by
    rw [normalizeWeights_of_pos (by rw [htotal]; exact hpos), htotal]
    refine List.map_congr_left (fun c _ => ?_)
    rw [mul_one_div]
  have hcoll := collect_scale d (1 / (s + w)) (P ++ ⟨.leaf id, w⟩ :: Q)
  rw [hsplice] at hcoll
  have hlen : 2 ≤ ((collect d P ++ ⟨.leaf id, w⟩ :: collect d Q).map
      (fun c => (⟨c.node, c.weight * (1 / (s + w))⟩ : LathChild))).length := by
    have := congrArg List.length happ
    rw [List.length_append, List.length_map] at this
    rw [List.length_map, List.length_append, List.length_cons]
    omega
  have hone : weightSum ((collect d P ++ ⟨.leaf id, w⟩ :: collect d Q).map
      (fun c => (⟨c.node, c.weight * (1 / (s + w))⟩ : LathChild))) = 1 := by
    have hcs : weightSum (collect d P) + weightSum (collect d Q) = s := by
      rw [← weightSum_append, happ, weightSum_scale, show weightSum cs = 1 from sum, one_mul]
    rw [weightSum_scale, weightSum_append, weightSum_cons, mul_one_div]
    refine (div_eq_one_iff_eq hpos.ne').2 ?_
    linarith
  refine ⟨_, by rw [hnw, normalize_split_of_collect hcoll hlen, normalizeWeights_of_sum_one hone], ?_⟩
  rw [List.map_append, List.map_cons]
  refine undoable_among hc (mul_pos hs hk) _ _ ?_ id _
  rw [← List.map_append, happ, List.map_map]
  exact List.map_congr_left (fun c _ => by rw [Function.comp_apply, mul_assoc])

theorem map_scale_one (cs : List LathChild) : cs.map (fun c => (⟨c.node, c.weight * 1⟩ : LathChild)) = cs := by simp

section
variable {n : LathNode} (hc : Canon exact n) {id : LeafId} {edge : Edge} {w : ℚ} (h0 : 0 < w) (h1 : w < 1)
include hc h0 h1

theorem inserted_beside {q : List Nat} {m : LathNode} (hm : nodeAt n q = some m)
    (hpar : ∀ p i d cs, q = p ++ [i] → nodeAt n p = some (.split d cs) → d ≠ edgeAxis edge) :
    Inserted n id ⟨normalize (replaceAtPath n q (besideNode edge (mkLeaf id) w m (1 - w)))⟩ := by
  have hv : 0 < 1 - w := by linarith
  have hmc := nodeAt_canon q hc hm
  have hpos : Positive (besideNode edge (mkLeaf id) w m (1 - w)) := positive_besideNode (.leaf id) hmc.positive h0 hv
  by_cases hd : m.dir? = some (edgeAxis edge)
  · -- the node runs along the edge's axis: the leaf joins its children
    cases m with
    | leaf i => cases hd
    | split d ms =>
      obtain rfl : d = edgeAxis edge := Option.some.inj hd
      have hcol : collect (edgeAxis edge) [⟨.split (edgeAxis edge) ms, 1 - w⟩] =
          ms.map (fun c => ⟨c.node, c.weight * (1 - w)⟩) := by
        rw [collect_eq, List.flatMap_singleton, normalize_of_canon hmc, flattenInto_split, if_pos rfl]
      obtain ⟨k, hk, hund⟩ : ∃ k, normalize (besideNode edge (mkLeaf id) w (.split (edgeAxis edge) ms) (1 - w)) =
          some (.split (edgeAxis edge) k) ∧ Undoable id (.split (edgeAxis edge) ms) (.split (edgeAxis edge) k) := by
        unfold besideNode mkLeaf
        cases edgeIsBefore edge with
        | true =>
          have := normalize_among (P := []) hv hcol (by simp) hmc id h0
          rwa [normalizeWeights_of_sum_one (by simp)] at this
        | false =>
          have := normalize_among (Q := []) hv (by rw [List.append_nil]; exact hcol) (by simp) hmc id h0
          rwa [normalizeWeights_of_sum_one (by simp)] at this
      exact ⟨q, _, _, hm, congrArg LathTree.mk (normalize_published hc hm hk (normalize_canon hpos _ hk) (.inl rfl)), hund⟩
  · have hk := besideNode_canon hmc hd id h0 h1
    exact ⟨q, m, _, hm, congrArg LathTree.mk (normalize_published hc hm (normalize_of_canon hk) hk
      (.inr (fun p i d cs hq hp he => hpar p i d cs hq hp (Option.some.inj he).symm))), undoable_beside hmc hd id w (1 - w)⟩

theorem inserted_splice {q : List Nat} {d : Dir} {cs cs' : List LathChild} (hm : nodeAt n q = some (.split d cs))
    (hcol : collect d cs' = cs) (hsum : weightSum cs' = 1) (hpos : ∀ c ∈ cs', 0 < c.weight ∧ Positive c.node) (idx : Nat)
    (before : Bool) : Inserted n id ⟨normalize (replaceAtPath n q
      (.split d (normalizeWeights (spliceLeaf cs' idx before (mkLeaf id) w .renormalize))))⟩ := by
  have hmc := nodeAt_canon q hc hm
  have hsplice : spliceLeaf cs' idx before (mkLeaf id) w .renormalize =
      cs'.take (if before then idx else idx + 1) ++ ⟨.leaf id, w⟩ :: cs'.drop (if before then idx else idx + 1) := by
    simp [spliceLeaf, mkLeaf]
  have htd := List.take_append_drop (if before then idx else idx + 1) cs'
  obtain ⟨k, hk, hund⟩ := normalize_among one_pos (by rw [htd, map_scale_one]; exact hcol) (by rw [htd]; exact hsum) hmc id h0
  rw [← hsplice] at hk
  have hp := (spliceLeaf_spec idx before id .renormalize h0 h1 hpos).1
  have hne : spliceLeaf cs' idx before (mkLeaf id) w .renormalize ≠ [] := by
    rw [hsplice]
    simp
  exact ⟨q, _, _, hm, congrArg LathTree.mk (normalize_published hc hm hk
    (normalize_canon (positive_normalized hne hp) _ hk) (.inl rfl)), hund⟩

theorem insertBesideNode_node {path : List Nat} {m : LathNode} (hm : nodeAt n path = some m) :
    Inserted n id (insertBesideNode ⟨some n⟩ path edge id w .renormalize) := by
  unfold insertBesideNode
  dsimp only
  cases hlast : path.getLast? with
  | none =>
    have hnil : path = [] := List.getLast?_eq_none_iff.1 hlast
    subst hnil
    simp only [nodeAt_nil, Option.some.injEq] at hm
    subst hm
    have := @inserted_beside n hc id edge w h0 h1 [] n (nodeAt_nil n) (fun p i d cs hq => by simp at hq)
    rwa [replaceAtPath_nil] at this
  | some idx =>
    dsimp only
    have hpath : path = path.dropLast ++ [idx] := (List.dropLast_append_getLast? idx hlast).symm
    obtain ⟨d, cs, v, hpar, hcs⟩ := nodeAt_parent (hpath ▸ hm)
    obtain ⟨-, -, sum, alt, child⟩ := (nodeAt_canon _ hc hpar).split_inv
    rw [hpar]
    dsimp only
    split
    · exact inserted_splice hc h0 h1 hpar (collect_self (fun c h => normalize_of_canon (child c h)) alt) sum
        (positive_children (nodeAt_canon _ hc hpar).positive) idx _
    · rename_i hd
      rw [hm]
      refine inserted_beside hc h0 h1 hm (fun p i d' cs' hq hp' => ?_)
      obtain ⟨rfl, -⟩ := List.append_inj' (hpath.symm.trans hq) rfl
      rw [hpar] at hp'
      cases hp'
      exact hd

theorem insertBesideNode_group {p : List Nat} {d : Dir} {A B C : List LathChild}
    (hp : nodeAt n p = some (.split d (A ++ B ++ C))) (hB : 2 ≤ B.length) (hAC : A ++ C ≠ []) :
    Inserted n id (insertBesideNode
      ⟨some (replaceAtPath n p (.split d (A ++ ⟨.split d (normalizeWeights B), weightSum B⟩ :: C)))⟩ (p ++ [A.length]) edge id w
      .renormalize) := by
  have hv : 0 < 1 - w := by linarith
  have hmc := nodeAt_canon p hc hp
  obtain ⟨-, pos, sum, alt, child⟩ := hmc.split_inv
  have hG := canon_group hmc hB
  have hBs : 0 < weightSum B := weightSum_pos (List.ne_nil_of_length_pos (by omega)) (fun c h => pos c (by simp [h]))
  have hsum : ∀ m : LathNode, weightSum (A ++ ⟨m, weightSum B⟩ :: C) = 1 := fun m => by
    rw [← show weightSum (A ++ B ++ C) = 1 from sum, weightSum_append, weightSum_append, weightSum_append, weightSum_cons]
    ring
  unfold insertBesideNode
  simp only [List.getLast?_concat, List.dropLast_concat, nodeAt_replaceAtPath_self p _ hp]
  split
  · rw [replaceAtPath_twice p _ _ hp]
    refine inserted_splice hc h0 h1 hp
      (collect_ungroup hmc (List.ne_nil_of_length_pos (by omega)) (normalize_of_canon hG)) (hsum _) (fun c hcc => ?_) _ _
    rcases List.mem_append.1 hcc with h | h
    · exact ⟨pos c (by simp [h]), (child c (by simp [h])).positive⟩
    rcases List.mem_cons.1 h with rfl | h
    · exact ⟨hBs, hG.positive⟩
    · exact ⟨pos c (by simp [h]), (child c (by simp [h])).positive⟩
  · rename_i hd
    have hGd : (LathNode.split d (normalizeWeights B)).dir? ≠ some (edgeAxis edge) := fun he => hd (Option.some.inj he)
    rw [nodeAt_group hp]
    dsimp only
    rw [replaceAtPath_append (c := ⟨.split d (normalizeWeights B), weightSum B⟩)
      _ _ (nodeAt_replaceAtPath_self p _ hp) (by simp),
      replaceAtPath_twice p _ _ hp]
    have hset : ∀ x : LathChild, (A ++ ⟨.split d (normalizeWeights B), weightSum B⟩ :: C).set A.length x = A ++ x :: C :=
      fun x => by simp
    rw [hset]
    have hpair := besideNode_canon hG hGd id h0 h1
    have hk : Canon exact (.split d (A ++ ⟨besideNode edge (mkLeaf id) w (.split d (normalizeWeights B)) (1 - w),
      weightSum B⟩ :: C)) := by
      have hlen : 0 < A.length + C.length := by
        rw [← List.length_append]
        exact List.length_pos_of_ne_nil hAC
      refine .split (by simp only [List.length_append, List.length_cons]; omega) ?_ (hsum _) ?_ ?_ <;> intro c hcc <;>
        rcases List.mem_append.1 hcc with h | h
      · exact pos c (by simp [h])
      · rcases List.mem_cons.1 h with rfl | h
        · exact hBs
        · exact pos c (by simp [h])
      · exact alt c (by simp [h])
      · rcases List.mem_cons.1 h with rfl | h
        · exact fun he => hd (Option.some.inj he).symm
        · exact alt c (by simp [h])
      · exact child c (by simp [h])
      · rcases List.mem_cons.1 h with rfl | h
        · exact hpair
        · exact child c (by simp [h])
    exact ⟨p, _, _, hp, congrArg LathTree.mk (normalize_published hc hp (normalize_of_canon hk) hk (.inl rfl)),
      undoable_group hmc hB hd id w (1 - w)⟩

end

/-! ## The round trips -/

theorem structureFingerprint_treeShape {t t' : LathTree} (h : treeShape t = treeShape t') :
    t.root.map structureFingerprint = t'.root.map structureFingerprint := by
  have := congrArg (Option.map Shape.stringify) h
  rwa [treeShape, treeShape, Option.map_map, Option.map_map] at this

theorem remove_absent {S : ℚ → Prop} {t : LathTree} (h : Valid S t) {id : LeafId} (hid : id ∉ leaves t) :
    (remove t id).tree = t := by
  rcases remove_spec h id with hr | ⟨-, hmem, -⟩
  · rw [hr]
  · exact absurd hmem hid

theorem insertImpl_inserted {n g : LathNode} (h : Valid exact ⟨some n⟩) {id : LeafId} (hid : id ∉ nodeLeaves n) {x : JsNum}
    (hx : x ≠ .nan) {target : EdgeDropTarget} {path : List Nat}
    (hmat : materializeTarget ⟨some n⟩ target = some (⟨some g⟩, path)) :
    Inserted n id (insert ⟨some n⟩ id (.edge target) (.weight x)).tree := by
  have hfind : findLeafPath ⟨some n⟩ id = none := findLeafPath_eq_none.2 hid
  have hnan : (InsertSize.weight x).isNaN = false := by cases x <;> first | rfl | exact absurd rfl hx
  have hins : (insert ⟨some n⟩ id (.edge target) (.weight x)).tree =
      insertBesideNode ⟨some g⟩ path target.edge id (clampWeight x) .renormalize := by
    unfold insert insertImpl
    dsimp only
    rw [hfind, hnan, if_neg (by simp), hmat]
    rfl
  have hc := h.canon n rfl
  obtain ⟨h0, h1⟩ := clampWeight_mem x
  rw [hins]
  rcases materializeTarget_cases hmat with ⟨rfl, m, hm⟩ | ⟨p, d, A, B, C, hp, two, proper, rfl, rfl⟩
  · exact insertBesideNode_node hc h0 h1 hm
  · exact insertBesideNode_group hc h0 h1 hp two proper

/-- **A removal takes back an insert, and what it took back of a move is what it takes from the tree.**  The structure comes back of
every valid tree; the weights too, for a numeric size, exactly where each split's sum to 1. -/
theorem remove_insert (t : LathTree) (h : validate t = []) (id : LeafId) (target : EdgeDropTarget) :
    (id ∉ leaves t → materializeTarget t target ≠ none → ∀ size,
      (remove (insert t id (.edge target) size).tree id).tree.root.map structureFingerprint =
        t.root.map structureFingerprint ∧
      ∀ x, size = .weight x →
        (Valid exact t → (remove (insert t id (.edge target) size).tree id).tree = t) ∧
        (x ≠ .nan → (remove (insert t id (.edge target) size).tree id).tree = t → Valid exact t)) ∧
    (id ∈ leaves t → (move t id (.edge target)).ok = true →
      (remove (move t id (.edge target)).tree id).tree.root.map structureFingerprint =
        (remove t id).tree.root.map structureFingerprint) := by
  have hvalid := (validate_eq_nil t).1 h
  rcases t with ⟨_ | n⟩
  · refine ⟨fun _ hmat => absurd ?_ hmat, fun hid => absurd hid (by simp)⟩
    unfold materializeTarget
    cases indexPath target.path <;> rfl
  refine ⟨fun hid hmat size => ?_, fun hid hok => ?_⟩
  · obtain ⟨⟨group, path⟩, hmat⟩ := Option.ne_none_iff_exists'.1 hmat
    obtain ⟨g, m, rfl, hm, -⟩ := materializeTarget_root hvalid hmat
    cases hnan : size.isNaN with
    | true =>
      -- an insert of `NaN` is refused
      have hsame : (insert ⟨some n⟩ id (.edge target) size).tree = ⟨some n⟩ := by
        unfold insert insertImpl
        simp only [hnan, Bool.true_or, if_true]
      rw [hsame, remove_absent hvalid hid]
      refine ⟨rfl, fun x hx => ⟨fun _ => rfl, fun hne => absurd ?_ hne⟩⟩
      subst hx
      cases x <;> first | rfl | cases hnan
    | false =>
      obtain ⟨n', hins, hv', hj⟩ := insertImpl_sides hvalid hid hnan false hmat hm
      have hins : insert ⟨some n⟩ id (.edge target) size = ⟨⟨some n'⟩, true⟩ := hins
      refine ⟨structureFingerprint_treeShape ?_, fun x hx => ⟨fun hexact => ?_, fun _ hback => ?_⟩⟩
      · rw [hins]
        exact hj.undone hvalid hv' hid
      · subst hx
        have hx : x ≠ .nan := fun hx => by rw [hx] at hnan; cases hnan
        exact (insertImpl_inserted hexact hid hx hmat).remove (hexact.canon n rfl) (by rw [hins]; exact hv')
      · rw [hins] at hback
        rcases remove_spec hv' id with hr | ⟨-, -, hv, -⟩
        · rw [hr] at hback
          exact hback ▸ hv'
        · exact hback ▸ hv
  · have hargs : ¬ _ := fun hbad => Bool.false_ne_true ((move_refused hbad).symm.trans hok)
    have hmat : materializeTarget ⟨some n⟩ target ≠ none := fun hnone => hargs (.inr (.inl hnone))
    obtain ⟨⟨group, path⟩, hmat⟩ := Option.ne_none_iff_exists'.1 hmat
    have hone := fun he => hargs (.inr (.inr ⟨group, path, hmat, he⟩))
    obtain ⟨g, m, rfl, hm, hl⟩ := materializeTarget_root hvalid hmat
    rw [hl] at hone
    obtain ⟨n₂, -, -, -, m₂, -, n', hn₂, hv₂, hres, -, -, -, -, -, hv', hj, hmove⟩ := move_accepted hvalid hid hmat hm hone
    rcases hmove with hmove | ⟨-, hmove⟩
    · rw [hmove, hn₂]
      exact structureFingerprint_treeShape (hj.undone hv₂ hv' (fun hx => ((hres.leaves id).1 hx).2 rfl))
    · rw [hmove]

/-- **Weights that do not sum to 1 do not come back**: both operations publish sums of exactly 1. -/
theorem near_weights_lost : validate nearPair = [] ∧ units "c" ∉ leaves nearPair ∧
    materializeTarget nearPair ⟨[.ofNat 0], .left, none⟩ ≠ none ∧
    (remove (insert nearPair (units "c") (.edge ⟨[.ofNat 0], .left, none⟩) (.weight (.fin (1 / 2)))).tree (units "c")).tree ≠
      nearPair := by
  have hval : validate nearPair = [] := (validate_eq_nil _).2 nearPair_valid
  refine ⟨hval, by decide, by decide, fun h => ?_⟩
  rcases insertImpl_spec nearPair_valid (units "c") (.edge ⟨[.ofNat 0], .left, none⟩) (.weight (.fin (1 / 2))) false with
    hins | ⟨-, -, hv, -⟩
  · exact absurd (congrArg OpResult.ok hins) (by decide)
  · have hexact : Valid exact nearPair := by
      rcases remove_spec hv (units "c") with hr | ⟨-, -, hv', -⟩
      · exact (congrArg RemoveResult.tree hr).symm.trans h ▸ hv
      · exact h ▸ hv'
    have hsum := (hexact.canon _ rfl).split_inv.2.2.1
    unfold exact weightSum at hsum
    norm_num at hsum

theorem remove_insert_cornerTree : validate cornerTree = [] ∧
    (remove (insert cornerTree (units "d") (.edge ⟨[.ofNat 1], .left, none⟩) (.weight (.fin (1 / 2)))).tree (units "d")).tree =
      cornerTree := by
  have hv : validate cornerTree = [] := (validate_eq_nil _).2 (cornerTree_valid.imp (fun _ => near_of_exact))
  refine ⟨hv, ?_⟩
  obtain ⟨-, hw⟩ := (remove_insert cornerTree hv (units "d") ⟨[.ofNat 1], .left, none⟩).1 (by decide) (by decide)
    (.weight (.fin (1 / 2)))
  exact (hw _ rfl).1 cornerTree_valid

end Lath
end Dormouse

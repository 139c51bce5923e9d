import Dormouse.LathCanon
import Dormouse.LathOps
/-!
# LathKeep — one operation keeps the invariant

Each operation publishes one of three trees: the input itself, a relabelling of one or two of its leaves (`replace`,
`swap`), or `normalize` of a tree of positive weights whose leaves are known.  The three cases are `Canon.replaceAtPath`,
`publish` and nothing; the rest of the module says which leaves each operation hands to `normalize`.
-/
namespace Dormouse
namespace Lath

/-! ## What is published -/

/-- **A tree of positive weights and distinct leaves is published canonical, with the same leaves.** -/
theorem publish {n : LathNode} (hp : Positive n) (hn : (nodeLeaves n).Nodup) :
    Valid exact ⟨normalize n⟩ ∧ leaves ⟨normalize n⟩ = nodeLeaves n := by
  have hl : leaves ⟨normalize n⟩ = nodeLeaves n := nodeLeaves_normalize n
  exact ⟨⟨normalize_canon hp, hl ▸ hn⟩, hl⟩

variable {cs : List LathChild}

theorem weightSum_set {i : Nat} {c : LathChild} (h : cs[i]? = some c) (n : LathNode) :
    weightSum (cs.set i ⟨n, c.weight⟩) = weightSum cs := by
  obtain ⟨hcs, hset⟩ := split_at_getElem? h
  rw [hset]
  conv => rhs; rw [hcs]
  simp

theorem dir?_replaceAtPath_cons (n : LathNode) (i : Nat) (p : List Nat) (r : LathNode) :
    (replaceAtPath n (i :: p) r).dir? = n.dir? := by
  cases n with
  | leaf id => rfl
  | split d cs =>
    unfold replaceAtPath
    split <;> rfl

/-- A canonical node with a subtree replaced by one that is canonical too, and of the same direction or a leaf. -/
theorem Canon.replaceAtPath {S : ℚ → Prop} : ∀ (p : List Nat) {n m r : LathNode}, Canon S n → nodeAt n p = some m →
    Canon S r → (r.dir? = m.dir? ∨ r.dir? = none) → Canon S (replaceAtPath n p r)
  | [], n, m, r, _, _, hr, _ => by simpa using hr
  | i :: p, .leaf id, m, r, _, h, _, _ => by simp at h
  | i :: p, .split d cs, m, r, hn, h, hr, hd => by
    obtain ⟨count, pos, sum, alt, child⟩ := hn.split_inv
    simp only [nodeAt_split_cons] at h
    obtain ⟨c, hc, hm⟩ := Option.bind_eq_some_iff.1 h
    have hcm := List.mem_of_getElem? hc
    rw [replaceAtPath_cons hc]
    have hrec := Canon.replaceAtPath p (child c hcm) hm hr hd
    have hdir : (Lath.replaceAtPath c.node p r).dir? ≠ some d := by
      cases p with
      | nil =>
        simp only [nodeAt_nil, Option.some.injEq] at hm
        subst hm
        simp only [replaceAtPath_nil]
        rcases hd with hd | hd
        · rw [hd]; exact alt c hcm
        · simp [hd]
      | cons j q => rw [dir?_replaceAtPath_cons]; exact alt c hcm
    refine .split (by simpa using count) ?_ (by rw [weightSum_set hc]; exact sum) ?_ ?_
    · intro x hx
      rcases List.mem_or_eq_of_mem_set hx with hx | rfl
      · exact pos x hx
      · exact pos c hcm
    · intro x hx
      rcases List.mem_or_eq_of_mem_set hx with hx | rfl
      · exact alt x hx
      · exact hdir
    · intro x hx
      rcases List.mem_or_eq_of_mem_set hx with hx | rfl
      · exact child x hx
      · exact hrec

theorem nodeAt_replaceAtPath_self : ∀ (p : List Nat) {n m : LathNode} (r : LathNode), nodeAt n p = some m →
    nodeAt (replaceAtPath n p r) p = some r
  | [], n, m, r, _ => by simp
  | i :: p, .leaf id, m, r, h => by simp at h
  | i :: p, .split d cs, m, r, h => by
    simp only [nodeAt_split_cons] at h
    obtain ⟨c, hc, hm⟩ := Option.bind_eq_some_iff.1 h
    have hi : i < cs.length := (List.getElem?_eq_some_iff.1 hc).1
    rw [replaceAtPath_cons hc, nodeAt_split_cons, List.getElem?_set_self hi]
    exact nodeAt_replaceAtPath_self p r hm

theorem nodeAt_replaceAtPath_leaf : ∀ (p q : List Nat) {n : LathNode} {a b : LeafId} (r : LathNode), a ≠ b →
    nodeAt n p = some (.leaf a) → nodeAt n q = some (.leaf b) → nodeAt (replaceAtPath n p r) q = some (.leaf b)
  | [], q, n, a, b, r, hab, hp, hq => by
    simp only [nodeAt_nil, Option.some.injEq] at hp
    subst hp
    cases q with
    | nil => simp only [nodeAt_nil, Option.some.injEq, LathNode.leaf.injEq] at hq; exact absurd hq hab
    | cons j q => simp at hq
  | i :: p, [], n, a, b, r, hab, hp, hq => by
    simp only [nodeAt_nil, Option.some.injEq] at hq
    subst hq
    simp at hp
  | i :: p, j :: q, .leaf id, a, b, r, hab, hp, hq => by simp at hp
  | i :: p, j :: q, .split d cs, a, b, r, hab, hp, hq => by
    simp only [nodeAt_split_cons] at hp hq
    obtain ⟨c, hc, hcp⟩ := Option.bind_eq_some_iff.1 hp
    rw [replaceAtPath_cons hc, nodeAt_split_cons]
    by_cases hij : i = j
    · subst hij
      have hi : i < cs.length := (List.getElem?_eq_some_iff.1 hc).1
      rw [hc] at hq
      rw [List.getElem?_set_self hi]
      exact nodeAt_replaceAtPath_leaf p q r hab hcp hq
    · rw [List.getElem?_set_ne hij]
      exact hq

/-! ## Leaves in a split's child list -/

abbrev leavesOf (cs : List LathChild) : List LeafId := cs.flatMap (fun c => nodeLeaves c.node)

theorem perm_middle_leaf (pre post ids : List LeafId) (id : LeafId) {mid : List LeafId}
    (h : mid.Perm (id :: ids)) : (pre ++ mid ++ post).Perm (id :: (pre ++ ids ++ post)) := by
  refine (((h.append_left pre).append_right post)).trans ?_
  simp only [List.append_assoc, List.cons_append]
  exact List.perm_middle

theorem leaves_besideNode (edge : Edge) (id : LeafId) (w : ℚ) (n : LathNode) (v : ℚ) :
    (nodeLeaves (besideNode edge (mkLeaf id) w n v)).Perm (id :: nodeLeaves n) := by
  unfold besideNode mkLeaf
  split
  · simp
  · simp

theorem positive_besideNode {edge : Edge} {a b : LathNode} {w v : ℚ} (ha : Positive a) (hb : Positive b) (hw : 0 < w)
    (hv : 0 < v) : Positive (besideNode edge a w b v) := by
  unfold besideNode
  split <;> refine .split (fun c hc => ?_) (fun c hc => ?_) <;>
    simp only [List.mem_cons, List.not_mem_nil, or_false] at hc <;> rcases hc with rfl | rfl <;> assumption

theorem leaves_insertAt (cs : List LathChild) (k : Nat) (id : LeafId) (w : ℚ) :
    (leavesOf (cs.take k ++ ⟨mkLeaf id, w⟩ :: cs.drop k)).Perm (id :: leavesOf cs) := by
  have h : leavesOf (cs.take k ++ ⟨mkLeaf id, w⟩ :: cs.drop k) = leavesOf (cs.take k) ++ id :: leavesOf (cs.drop k) := by
    simp [leavesOf, mkLeaf]
  have hcs : leavesOf cs = leavesOf (cs.take k) ++ leavesOf (cs.drop k) := by
    rw [← List.flatMap_append, List.take_append_drop]
  rw [h, hcs]
  exact List.perm_middle

theorem forall_insertAt {P : LathChild → Prop} {k : Nat} {c : LathChild} (h : ∀ x ∈ cs, P x) (hc : P c) :
    ∀ x ∈ cs.take k ++ c :: cs.drop k, P x := by
  intro x hx
  simp only [List.mem_append, List.mem_cons] at hx
  rcases hx with hx | rfl | hx
  · exact h x (List.mem_of_mem_take hx)
  · exact hc
  · exact h x (List.mem_of_mem_drop hx)

theorem map_node_scale (cs : List LathChild) (k : ℚ) :
    (cs.map (fun c => (⟨c.node, c.weight * k⟩ : LathChild))).map (·.node) = cs.map (·.node) := by
  simp [Function.comp_def]

theorem positive_scale {k : ℚ} (hk : 0 < k) (pos : ∀ c ∈ cs, 0 < c.weight ∧ Positive c.node) :
    ∀ c ∈ cs.map (fun c => (⟨c.node, c.weight * k⟩ : LathChild)), 0 < c.weight ∧ Positive c.node := by
  intro c hc
  obtain ⟨x, hx, rfl⟩ := List.mem_map.1 hc
  exact ⟨mul_pos (pos x hx).1 hk, (pos x hx).2⟩

theorem positive_normalized {d : Dir} (hne : cs ≠ []) (pos : ∀ c ∈ cs, 0 < c.weight ∧ Positive c.node) :
    Positive (.split d (normalizeWeights cs)) :=
  .split (normalizeWeights_spec hne (fun c hc => (pos c hc).1)).1
    (forall_node_normalizeWeights (P := Positive) (fun c hc => (pos c hc).2))

theorem positive_children {d : Dir} (h : Positive (.split d cs)) :
    ∀ c ∈ cs, 0 < c.weight ∧ Positive c.node :=
  fun c hc => ⟨h.split_inv.1 c hc, h.split_inv.2 c hc⟩

theorem nodeAt_positive : ∀ (p : List Nat) {n m : LathNode}, Positive n → nodeAt n p = some m → Positive m
  | [], n, m, hn, h => by simp at h; exact h ▸ hn
  | i :: p, .leaf id, m, _, h => by simp at h
  | i :: p, .split d cs, m, hn, h => by
    simp only [nodeAt_split_cons] at h
    obtain ⟨c, hc, hm⟩ := Option.bind_eq_some_iff.1 h
    exact nodeAt_positive p (hn.split_inv.2 c (List.mem_of_getElem? hc)) hm

theorem perm_replaceAtPath_add {n m r : LathNode} {p : List Nat} {id : LeafId} (h : nodeAt n p = some m)
    (hr : (nodeLeaves r).Perm (id :: nodeLeaves m)) :
    (nodeLeaves (replaceAtPath n p r)).Perm (id :: nodeLeaves n) := by
  obtain ⟨pre, post, he, hrep⟩ := nodeLeaves_replaceAtPath p h
  rw [hrep r, he]
  exact perm_middle_leaf pre post _ id hr

/-! ## `materializeTarget` -/

theorem split_range (cs : List LathChild) {s e : Nat} (h : s ≤ e) :
    cs = cs.take s ++ (cs.take e).drop s ++ cs.drop e := by
  conv => lhs; rw [← List.take_append_drop e cs, ← List.take_append_drop s (cs.take e)]
  rw [List.take_take, Nat.min_eq_left h]

theorem groupRange_spec {d : Dir} {s e : Nat} (hse : s + 2 ≤ e) (he : e ≤ cs.length)
    (pos : ∀ c ∈ cs, 0 < c.weight ∧ Positive c.node) :
    Positive (groupRange d cs s e) ∧ nodeLeaves (groupRange d cs s e) = leavesOf cs ∧
      nodeAt (groupRange d cs s e) [s] = some (.split d (normalizeWeights ((cs.take e).drop s))) := by
  have hsel : ∀ c ∈ (cs.take e).drop s, 0 < c.weight ∧ Positive c.node := fun c hc =>
    pos c (List.mem_of_mem_take (List.mem_of_mem_drop hc))
  have hne : (cs.take e).drop s ≠ [] := by
    intro h
    have := congrArg List.length h
    simp at this
    omega
  refine ⟨?_, ?_, ?_⟩
  · have hall : ∀ c ∈ cs.take s ++ (⟨.split d (normalizeWeights ((cs.take e).drop s)),
        weightSum ((cs.take e).drop s)⟩ : LathChild) :: cs.drop e, 0 < c.weight ∧ Positive c.node := by
      intro c hc
      simp only [List.mem_append, List.mem_cons] at hc
      rcases hc with hc | rfl | hc
      · exact pos c (List.mem_of_mem_take hc)
      · exact ⟨weightSum_pos hne (fun c hc => (hsel c hc).1), positive_normalized hne hsel⟩
      · exact pos c (List.mem_of_mem_drop hc)
    exact .split (fun c hc => (hall c hc).1) (fun c hc => (hall c hc).2)
  · conv => rhs; rw [split_range cs (show s ≤ e by omega)]
    simp only [groupRange, nodeLeaves_split, leavesOf, List.flatMap_append, List.flatMap_cons, List.append_assoc,
      flatMap_leaves_congr (map_node_normalizeWeights _)]
  · have hs : (cs.take s).length = s := by simp; omega
    simp [groupRange, nodeAt_split_cons, hs]

/-- **A materialized target is a tree of the same leaves, and its path leads to a node.** -/
theorem materializeTarget_spec {n : LathNode} (hn : Positive n) {target : EdgeDropTarget} {group : LathTree}
    {path : List Nat} (h : materializeTarget ⟨some n⟩ target = some (group, path)) :
    ∃ g m, group.root = some g ∧ Positive g ∧ nodeLeaves g = nodeLeaves n ∧ nodeAt g path = some m := by
  unfold materializeTarget at h
  split at h
  · cases h
  rename_i p hp
  split at h
  · cases h
  · rename_i m hnode _
    cases h
    exact ⟨n, m, rfl, hn, rfl, hnode⟩
  · cases h
  rename_i d cs range hnode _
  split at h
  · rename_i start stop _ _
    split at h
    · cases h
    rename_i hb
    split at h
    · cases h
      exact ⟨n, _, rfl, hn, rfl, hnode⟩
    · cases h
      have hnode : nodeAt n p = some (.split d cs) := hnode
      obtain ⟨hpos, hleaves, hat⟩ := groupRange_spec (d := d) (s := start.toNat) (e := stop.toNat) (by omega)
        (by omega) (positive_children (nodeAt_positive p hn hnode))
      refine ⟨replaceAtPath n p (groupRange d cs start.toNat stop.toNat),
        .split d (normalizeWeights ((cs.take stop.toNat).drop start.toNat)), rfl,
        replaceAtPath_positive p hn hpos, ?_, ?_⟩
      · obtain ⟨pre, post, he, hrep⟩ := nodeLeaves_replaceAtPath p hnode
        rw [hrep, he, hleaves, nodeLeaves_split]
      · rw [nodeAt_append, nodeAt_replaceAtPath_self p _ hnode]
        exact hat
  · cases h

/-! ## `insertBesideNode` -/

theorem halfWeight_pos (pos : ∀ c ∈ cs, 0 < c.weight) (idx : Nat) {w : ℚ} (hw : 0 < w) :
    0 < halfWeight cs idx w := by
  unfold halfWeight
  cases h : cs[idx]? with
  | none => exact hw
  | some c => exact half_pos (pos c (List.mem_of_getElem? h))

theorem map_node_modify (cs : List LathChild) (idx : Nat) (v : ℚ) :
    (cs.modify idx (fun c => ⟨c.node, v⟩)).map (·.node) = cs.map (·.node) := by
  apply List.ext_getElem?
  intro j
  rw [List.getElem?_map, List.getElem?_modify, List.getElem?_map]
  cases cs[j]? with
  | none => rfl
  | some c =>
    show some _ = some _
    split <;> rfl

theorem modify_weight_spec (pos : ∀ c ∈ cs, 0 < c.weight ∧ Positive c.node) (idx : Nat) {v : ℚ} (hv : 0 < v) :
    (∀ c ∈ cs.modify idx (fun c => ⟨c.node, v⟩), 0 < c.weight ∧ Positive c.node) ∧
      (cs.modify idx (fun c => ⟨c.node, v⟩)).map (·.node) = cs.map (·.node) := by
  refine ⟨fun c hc => ?_, map_node_modify cs idx v⟩
  obtain ⟨j, hj⟩ := List.mem_iff_getElem?.1 hc
  rw [List.getElem?_modify] at hj
  obtain ⟨x, hx, rfl⟩ := Option.map_eq_some_iff.1 hj
  have := pos x (List.mem_of_getElem? hx)
  split
  · exact ⟨hv, this.2⟩
  · exact this

theorem spliceLeaf_spec (idx : Nat) (before : Bool) (id : LeafId) {w : ℚ} (share : Share) (hw0 : 0 < w) (hw1 : w < 1)
    (pos : ∀ c ∈ cs, 0 < c.weight ∧ Positive c.node) :
    (∀ c ∈ spliceLeaf cs idx before (mkLeaf id) w share, 0 < c.weight ∧ Positive c.node) ∧
      (leavesOf (spliceLeaf cs idx before (mkLeaf id) w share)).Perm (id :: leavesOf cs) := by
  have hk : 0 < (if share = Share.keepSiblings then 1 - w else 1) := by split <;> linarith
  unfold spliceLeaf
  generalize (if share = Share.keepSiblings then 1 - w else 1) = k at hk
  have hscaled := positive_scale hk pos
  have hnodes := map_node_scale cs k
  generalize cs.map (fun c => (⟨c.node, c.weight * k⟩ : LathChild)) = scaled at hscaled hnodes
  dsimp only
  have hhalf := halfWeight_pos (fun c hc => (hscaled c hc).1) idx hw0
  obtain ⟨hmod, hmodn⟩ := modify_weight_spec hscaled idx hhalf
  generalize (if before = true then idx else idx + 1) = at'
  by_cases hs : share = .halve
  · simp only [hs, if_true]
    refine ⟨forall_insertAt hmod ⟨hhalf, .leaf id⟩, (leaves_insertAt _ _ id _).trans ?_⟩
    rw [leavesOf, flatMap_leaves_congr (hmodn.trans hnodes)]
  · simp only [hs, if_false]
    refine ⟨forall_insertAt hscaled ⟨hw0, .leaf id⟩, (leaves_insertAt _ _ id _).trans ?_⟩
    rw [leavesOf, flatMap_leaves_congr hnodes]

/-- **A leaf inserted beside a node is published with the tree's leaves and itself.** -/
theorem insertBesideNode_spec {n m : LathNode} {path : List Nat} (hn : Positive n) (hm : nodeAt n path = some m)
    (edge : Edge) (id : LeafId) {w : ℚ} (share : Share) (hw0 : 0 < w) (hw1 : w < 1) :
    ∃ r, insertBesideNode ⟨some n⟩ path edge id w share = ⟨normalize r⟩ ∧ Positive r ∧
      (nodeLeaves r).Perm (id :: nodeLeaves n) := by
  have hv : 0 < 1 - w := by linarith
  unfold insertBesideNode
  dsimp only
  cases hlast : path.getLast? with
  | none =>
    exact ⟨_, rfl, positive_besideNode (.leaf id) hn hw0 hv, leaves_besideNode edge id w n (1 - w)⟩
  | some idx =>
    dsimp only
    have hpath : path = path.dropLast ++ [idx] := (List.dropLast_append_getLast? idx hlast).symm
    obtain ⟨d, cs, v, hpar, hcs⟩ := nodeAt_parent (hpath ▸ hm)
    rw [hpar]
    dsimp only
    split
    · obtain ⟨hpos, hperm⟩ := spliceLeaf_spec idx (edgeIsBefore edge) id share hw0 hw1
        (positive_children (nodeAt_positive _ hn hpar))
      have hne : spliceLeaf cs idx (edgeIsBefore edge) (mkLeaf id) w share ≠ [] := by
        intro h
        rw [h] at hperm
        simp at hperm
      refine ⟨_, rfl, replaceAtPath_positive _ hn (positive_normalized hne hpos), perm_replaceAtPath_add hpar ?_⟩
      rw [nodeLeaves_split, nodeLeaves_split, flatMap_leaves_congr (map_node_normalizeWeights _)]
      exact hperm
    · rw [hm]
      exact ⟨_, rfl, replaceAtPath_positive _ hn (positive_besideNode (.leaf id) (nodeAt_positive _ hn hm) hw0 hv),
        perm_replaceAtPath_add hm (leaves_besideNode edge id w m (1 - w))⟩

theorem clampWeight_mem (x : JsNum) : 0 < clampWeight x ∧ clampWeight x < 1 := by
  unfold clampWeight
  split
  · rename_i q
    refine ⟨lt_min (lt_of_lt_of_le (by norm_num) (le_max_right _ _)) (by norm_num),
      lt_of_le_of_lt (min_le_right _ _) (by norm_num)⟩
  · norm_num
  · norm_num

theorem InsertSize.clamped_mem (size : InsertSize) : 0 < size.clamped ∧ size.clamped < 1 := by
  cases size with
  | half => unfold InsertSize.clamped; norm_num
  | weight x => exact clampWeight_mem x

/-! ## The operations -/

/-- A tree over `t` with one leaf more, published canonical. -/
def Adds (t : LathTree) (id : LeafId) (t' : LathTree) : Prop :=
  id ∉ leaves t ∧ Valid exact t' ∧ (leaves t').Perm (id :: leaves t)

theorem adds_publish {t : LathTree} {id : LeafId} {r : LathNode} (hid : id ∉ leaves t) (ht : (leaves t).Nodup)
    (hp : Positive r) (hr : (nodeLeaves r).Perm (id :: leaves t)) : Adds t id ⟨normalize r⟩ := by
  have hnd : (nodeLeaves r).Nodup := hr.nodup_iff.2 (List.nodup_cons.2 ⟨hid, ht⟩)
  obtain ⟨hv, hl⟩ := publish hp hnd
  exact ⟨hid, hv, hl ▸ hr⟩

section
variable {S : ℚ → Prop} {t : LathTree}

theorem Valid.positive {n : LathNode} (h : Valid S t) (hn : t.root = some n) : Positive n := (h.canon n hn).positive

theorem split_spec (h : Valid S t) (at' : LeafId) (edge : Edge) (newId : LeafId) :
    (split t at' edge newId = ⟨t, false⟩) ∨
      ((split t at' edge newId).ok = true ∧ Adds t newId (split t at' edge newId).tree) := by
  unfold split
  rcases t with ⟨_ | n⟩
  · exact .inl rfl
  dsimp only
  cases hp : findLeafPath ⟨some n⟩ at' with
  | none => exact .inl rfl
  | some p =>
    dsimp only
    split
    · exact .inl rfl
    · rename_i hnew
      obtain ⟨n', hroot, hat, _⟩ := findLeafPath_spec hp
      cases hroot
      have hpos := h.positive rfl
      refine .inr ⟨rfl, adds_publish (findLeafPath_eq_none.1 (by simpa using hnew)) h.nodup
        (replaceAtPath_positive p hpos (positive_besideNode (.leaf _) (.leaf _) (by norm_num) (by norm_num)))
        (perm_replaceAtPath_add hat (leaves_besideNode edge newId _ (mkLeaf at') _))⟩

theorem insertImpl_spec (h : Valid S t) (id : LeafId) (target : DropTarget) (size : InsertSize) (keep : Bool) :
    (insertImpl t id target size keep = ⟨t, false⟩) ∨
      ((insertImpl t id target size keep).ok = true ∧ Adds t id (insertImpl t id target size keep).tree) := by
  unfold insertImpl
  cases target with
  | swap leaf => exact .inl rfl
  | edge target =>
    dsimp only
    split
    · exact .inl rfl
    rename_i hguard
    rcases t with ⟨_ | n⟩
    · simp at hguard
    have hid : id ∉ leaves ⟨some n⟩ := by
      simp only [Option.isNone_some, Bool.or_false, Bool.or_eq_true, not_or, Bool.not_eq_true,
        Option.isSome_eq_false_iff, Option.isNone_iff_eq_none] at hguard
      exact findLeafPath_eq_none.1 hguard.2
    cases hmat : materializeTarget ⟨some n⟩ target with
    | none => exact .inl rfl
    | some gp =>
      obtain ⟨group, path⟩ := gp
      obtain ⟨g, m, hg, hgpos, hgl, hm⟩ := materializeTarget_spec (h.positive rfl) hmat
      rcases group with ⟨_ | g'⟩
      · cases hg
      cases hg
      obtain ⟨hw0, hw1⟩ := size.clamped_mem
      obtain ⟨r, hr, hrpos, hperm⟩ := insertBesideNode_spec hgpos hm target.edge id
        (shareFor size (nodeAtPath ⟨some g⟩ path) keep) hw0 hw1
      dsimp only
      rw [hr]
      exact .inr ⟨rfl, adds_publish hid h.nodup hrpos (by rw [hgl] at hperm; exact hperm)⟩

variable {cs : List LathChild}

theorem leaves_eraseIdx {idx : Nat} {id : LeafId} {w : ℚ} (hc : cs[idx]? = some ⟨.leaf id, w⟩) :
    (leavesOf cs).Perm (id :: leavesOf (cs.eraseIdx idx)) := by
  obtain ⟨hcs, _⟩ := split_at_getElem? hc
  rw [List.eraseIdx_eq_take_drop_succ]
  conv => lhs; rw [hcs]
  simp only [leavesOf, List.flatMap_append, List.flatMap_cons, nodeLeaves_leaf, List.singleton_append]
  exact List.perm_middle

/-- The sibling `remove` names is there: a canonical split has at least two children. -/
theorem sibling_isSome {idx : Nat} (h2 : 2 ≤ cs.length) (hi : idx < cs.length) :
    ∃ sib, cs[if 0 < idx then idx - 1 else idx + 1]? = some sib := by
  refine ⟨_, List.getElem?_eq_getElem ?_⟩
  split <;> omega

/-- **What `remove` does to a canonical tree**: nothing where the id is absent, and otherwise it empties a one-leaf
tree or publishes the tree with the leaf erased from its split. -/
theorem remove_cases (h : Valid S t) (id : LeafId) :
    (id ∉ leaves t ∧ remove t id = ⟨t, false, none⟩) ∨
    (t = leafTree id ∧ remove t id = ⟨⟨none⟩, true, some ⟨id, 1, none, none, none, .right, 0, none⟩⟩) ∨
    ∃ n p d cs idx w sib, t.root = some n ∧ findLeafPath t id = some (p ++ [idx]) ∧
      nodeAt n p = some (.split d cs) ∧ cs[idx]? = some ⟨.leaf id, w⟩ ∧
      cs[if 0 < idx then idx - 1 else idx + 1]? = some sib ∧
      remove t id = ⟨⟨normalize (replaceAtPath n p (.split d (cs.eraseIdx idx)))⟩, true,
        some (removeToken id d cs idx ⟨.leaf id, w⟩ sib)⟩ := by
  unfold remove
  cases hp : findLeafPath t id with
  | none =>
    refine .inl ⟨findLeafPath_eq_none.1 hp, ?_⟩
    cases t.root <;> rfl
  | some path =>
    obtain ⟨n, hroot, hat, _⟩ := findLeafPath_spec hp
    rw [hroot]
    dsimp only
    cases hlast : path.getLast? with
    | none =>
      have hnil : path = [] := List.getLast?_eq_none_iff.1 hlast
      subst hnil
      simp only [nodeAt_nil, Option.some.injEq] at hat
      subst hat
      refine .inr (.inl ⟨?_, rfl⟩)
      rcases t with ⟨r⟩
      cases hroot
      rfl
    | some idx =>
      have hpath : path = path.dropLast ++ [idx] := (List.dropLast_append_getLast? idx hlast).symm
      obtain ⟨d, cs, w, hpar, hc⟩ := nodeAt_parent (hpath ▸ hat)
      have hcan := nodeAt_canon _ (h.canon n hroot) hpar
      obtain ⟨sib, hsib⟩ := sibling_isSome hcan.split_inv.1 (List.getElem?_eq_some_iff.1 hc).1
      refine .inr (.inr ⟨n, path.dropLast, d, cs, idx, w, sib, rfl, by rw [← hpath], hpar, hc, hsib, ?_⟩)
      rw [hpar]
      dsimp only
      rw [hc, hsib]

/-- A tree over `t` with one leaf fewer, published canonical. -/
def Drops (t : LathTree) (id : LeafId) (t' : LathTree) : Prop :=
  id ∈ leaves t ∧ Valid exact t' ∧ (leaves t).Perm (id :: leaves t')

theorem remove_spec (h : Valid S t) (id : LeafId) :
    (remove t id = ⟨t, false, none⟩) ∨ ((remove t id).ok = true ∧ Drops t id (remove t id).tree) := by
  rcases remove_cases h id with ⟨_, hr⟩ | ⟨rfl, hr⟩ | ⟨n, p, d, cs, idx, w, sib, hroot, hfind, hpar, hc, _, hr⟩
  · exact .inl hr
  · rw [hr]
    exact .inr ⟨rfl, by simp [leafTree], ⟨by simp, by simp⟩, by simp [leafTree]⟩
  · rw [hr]
    rcases t with ⟨r⟩
    cases hroot
    obtain ⟨pre, post, he, hrep⟩ := nodeLeaves_replaceAtPath p hpar
    have hposn := h.positive (n := n) rfl
    have hpar_pos := positive_children (nodeAt_positive p hposn hpar)
    have hsub : ∀ c ∈ cs.eraseIdx idx, c ∈ cs := fun c hc => List.mem_of_mem_eraseIdx hc
    have hposr : Positive (replaceAtPath n p (.split d (cs.eraseIdx idx))) :=
      replaceAtPath_positive p hposn
        (.split (fun c hc => (hpar_pos c (hsub c hc)).1) (fun c hc => (hpar_pos c (hsub c hc)).2))
    have hperm : (nodeLeaves n).Perm (id :: nodeLeaves (replaceAtPath n p (.split d (cs.eraseIdx idx)))) := by
      rw [he, hrep]
      simp only [nodeLeaves_split]
      exact perm_middle_leaf pre post _ id (leaves_eraseIdx hc)
    have hnd : (nodeLeaves (replaceAtPath n p (.split d (cs.eraseIdx idx)))).Nodup :=
      (List.nodup_cons.1 (hperm.nodup_iff.1 h.nodup)).2
    obtain ⟨hv, hl⟩ := publish hposr hnd
    exact .inr ⟨rfl, hperm.mem_iff.2 (by simp), hv, hl ▸ hperm⟩

theorem replace_spec (h : Valid S t) (oldId newId : LeafId) :
    (replace t oldId newId = ⟨t, false⟩) ∨
      ((replace t oldId newId).ok = true ∧ Valid S (replace t oldId newId).tree ∧
        ∃ rest, (leaves t).Perm (oldId :: rest) ∧ newId ∉ leaves t ∧
          (leaves (replace t oldId newId).tree).Perm (newId :: rest)) := by
  unfold replace
  cases hp : findLeafPath t oldId with
  | none => cases t.root <;> exact .inl rfl
  | some p =>
    obtain ⟨n, hroot, hat, _⟩ := findLeafPath_spec hp
    rcases t with ⟨r⟩
    cases hroot
    dsimp only
    split
    · exact .inl rfl
    · rename_i hnew
      have hnew : newId ∉ nodeLeaves n := findLeafPath_eq_none.1 (by simpa using hnew)
      obtain ⟨pre, post, he, hrep⟩ := nodeLeaves_replaceAtPath p hat
      have hperm : (nodeLeaves n).Perm (oldId :: (pre ++ post)) := by rw [he]; simp
      have hperm' : (nodeLeaves (replaceAtPath n p (mkLeaf newId))).Perm (newId :: (pre ++ post)) := by
        rw [hrep]; simp [mkLeaf]
      refine .inr ⟨rfl, ⟨fun m hm => ?_, ?_⟩, pre ++ post, hperm, hnew, hperm'⟩
      · cases hm
        exact Canon.replaceAtPath p (h.canon n rfl) hat (.leaf _) (.inl rfl)
      · refine hperm'.nodup_iff.2 (List.nodup_cons.2 ⟨fun hmem => hnew ?_, ?_⟩)
        · rw [he]; simp only [List.mem_append] at hmem ⊢; tauto
        · exact (List.nodup_cons.1 (hperm.nodup_iff.1 h.nodup)).2

theorem swap_spec (h : Valid S t) (a b : LeafId) :
    (swap t a b = ⟨t, false⟩) ∨
      ((swap t a b).ok = true ∧ Valid S (swap t a b).tree ∧ (leaves (swap t a b).tree).Perm (leaves t)) := by
  unfold swap
  split
  · exact .inl rfl
  rename_i hab
  cases hpa : findLeafPath t a with
  | none => cases t.root <;> exact .inl rfl
  | some pa =>
    cases hpb : findLeafPath t b with
    | none => cases t.root <;> exact .inl rfl
    | some pb =>
      obtain ⟨n, hroot, hata, _⟩ := findLeafPath_spec hpa
      obtain ⟨n', hroot', hatb, _⟩ := findLeafPath_spec hpb
      rcases t with ⟨r⟩
      cases hroot
      cases hroot'
      dsimp only
      have hat1 : nodeAt (replaceAtPath n pa (mkLeaf b)) pb = some (.leaf b) :=
        nodeAt_replaceAtPath_leaf pa pb _ hab hata hatb
      obtain ⟨pre, post, he, hrep⟩ := nodeLeaves_replaceAtPath pa hata
      obtain ⟨pre', post', he', hrep'⟩ := nodeLeaves_replaceAtPath pb hat1
      have h1 : (pre' ++ post').Perm (pre ++ post) := by
        have hb1 : (nodeLeaves (replaceAtPath n pa (mkLeaf b))).Perm (b :: (pre ++ post)) := by
          rw [hrep]; simp [mkLeaf]
        have hb2 : (nodeLeaves (replaceAtPath n pa (mkLeaf b))).Perm (b :: (pre' ++ post')) := by
          rw [he']; simp
        exact (hb2.symm.trans hb1).cons_inv
      have hperm : (nodeLeaves (replaceAtPath (replaceAtPath n pa (mkLeaf b)) pb (mkLeaf a))).Perm (nodeLeaves n) := by
        have ha1 : (nodeLeaves (replaceAtPath (replaceAtPath n pa (mkLeaf b)) pb (mkLeaf a))).Perm
            (a :: (pre' ++ post')) := by
          rw [hrep']; simp [mkLeaf]
        have ha2 : (nodeLeaves n).Perm (a :: (pre ++ post)) := by rw [he]; simp
        exact ha1.trans ((h1.cons a).trans ha2.symm)
      refine .inr ⟨rfl, ⟨fun m hm => ?_, hperm.nodup_iff.2 h.nodup⟩, hperm⟩
      cases hm
      exact Canon.replaceAtPath pb (Canon.replaceAtPath pa (h.canon n rfl) hata (.leaf _) (.inl rfl)) hat1 (.leaf _)
        (.inl rfl)

theorem move_spec (h : Valid S t) (id : LeafId) (target : DropTarget) :
    (move t id target = ⟨t, false⟩) ∨
      ((move t id target).ok = true ∧
        ((move t id target).tree = t ∨ Valid exact (move t id target).tree ∨ Valid S (move t id target).tree) ∧
        (leaves (move t id target).tree).Perm (leaves t)) := by
  unfold move
  cases target with
  | swap leaf =>
    rcases swap_spec h id leaf with hs | ⟨hok, hv, hl⟩
    · exact .inl hs
    · exact .inr ⟨hok, .inr (.inr hv), hl⟩
  | edge target =>
    dsimp only
    split
    · rename_i root idPath group path hroot hfind hmat
      split
      · exact .inl rfl
      split
      · rename_i size destination _ _
        rcases remove_spec h id with hr | ⟨_, hmem, hv2, hperm⟩
        · -- `remove` answers `ok: false` only where the leaf is absent, and it was found
          obtain ⟨_, _, _, hin⟩ := findLeafPath_spec hfind
          rcases remove_cases h id with ⟨hnot, _⟩ | ⟨_, hr'⟩ | ⟨_, _, _, _, _, _, _, _, _, _, _, _, hr'⟩
          · exact absurd hin hnot
          · rw [hr'] at hr; simp at hr
          · rw [hr'] at hr; simp at hr
        · rcases insertImpl_spec hv2 id (.edge destination) size
            (isOwnSplit root id idPath (materializeTarget (remove t id).tree destination)) with hi | ⟨hok, _, hvi, hpi⟩
          · rw [hi]; exact .inl rfl
          · rw [hok]
            simp only [Bool.not_true, Bool.false_eq_true, if_false]
            split
            · exact .inr ⟨rfl, .inl rfl, List.Perm.refl _⟩
            · exact .inr ⟨hok, .inr (.inl hvi), hpi.trans hperm.symm⟩
      · exact .inl rfl
    · exact .inl rfl

variable {token : RestoreToken}

theorem reinsertLeaf_spec (h0 : 0 < token.weight) (h1 : token.weight < 1) (pos : ∀ c ∈ cs, 0 < c.weight ∧ Positive c.node) :
    (∀ c ∈ reinsertLeaf cs token, 0 < c.weight ∧ Positive c.node) ∧
      (leavesOf (reinsertLeaf cs token)).Perm (token.leafId :: leavesOf cs) := by
  have hscaled := positive_scale (show 0 < 1 - token.weight by linarith) pos
  refine ⟨forall_insertAt hscaled ⟨h0, .leaf _⟩, ?_⟩
  refine (leaves_insertAt _ _ token.leafId _).trans ?_
  rw [leavesOf, flatMap_leaves_congr (map_node_scale cs _)]

/-- What `isRestoreToken` has checked of a token's weight. -/
def RestoreToken.WeightOk (token : RestoreToken) : Prop :=
  0 < token.weight ∧ (token.weight < 1 ∨ token.weight = 1 ∧ token.siblingId = none ∧ token.fingerprint = none)

theorem readRestoreToken_weightOk {j : Json} (h : readRestoreToken j = some token) :
    token.WeightOk ∧ j.field (units "leafId") = some (.str token.leafId) := by
  unfold readRestoreToken at h
  simp only [Option.bind_eq_bind, Option.bind_eq_some_iff] at h
  obtain ⟨leafId, hid, weight, _, siblingId, _, fingerprint, _, index, _, edge, _, ids, _, sfp, _, h⟩ := h
  split at h
  · rename_i hw
    cases h
    refine ⟨hw, ?_⟩
    unfold readString at hid
    split at hid
    · rename_i s hs
      cases hid
      exact hs
    · cases hid
  · cases h

variable {t' : LathTree}

theorem restoreParent_spec (h : Valid S t) (hw : 0 < token.weight ∧ token.weight < 1) (hid : token.leafId ∉ leaves t)
    {fingerprint : JsString} (hr : restoreParent t token fingerprint = some t') : Adds t token.leafId t' := by
  unfold restoreParent at hr
  split at hr
  · rename_i root parentPath hroot _
    split at hr
    · rename_i d cs hpar
      cases hr
      have hpos := h.positive hroot
      obtain ⟨hpos', hperm⟩ := reinsertLeaf_spec hw.1 hw.2 (positive_children (nodeAt_positive _ hpos hpar))
      have hne : reinsertLeaf cs token ≠ [] := by simp [reinsertLeaf]
      rcases t with ⟨r⟩
      cases hroot
      refine adds_publish hid h.nodup (replaceAtPath_positive _ hpos (positive_normalized hne hpos'))
        (perm_replaceAtPath_add hpar ?_)
      rw [nodeLeaves_split, nodeLeaves_split, flatMap_leaves_congr (map_node_normalizeWeights _)]
      exact hperm
    · cases hr
  · cases hr

theorem restoreSibling_spec (h : Valid S t) (hr : restoreSibling t token = some t') : Adds t token.leafId t' := by
  unfold restoreSibling at hr
  split at hr
  · split at hr
    · split at hr
      · cases hr
      rename_i target _
      split at hr
      · cases hr
      split at hr
      · dsimp only at hr
        rcases insertImpl_spec h token.leafId (.edge target) (.weight (.fin token.weight)) false with hi | ⟨hok, hadd⟩
        · simp [insert, hi] at hr
        · unfold insert at hr
          rw [hok, if_pos rfl] at hr
          cases hr
          exact hadd
      · cases hr
    · cases hr
  · cases hr

theorem restore_split_spec (h : Valid S t) {at' newId : LeafId} {edge : Edge} (hok : (split t at' edge newId).ok = true)
    (ht : (split t at' edge newId).tree = t') : Adds t newId t' := by
  rcases split_spec h at' edge newId with hs | ⟨_, hadd⟩
  · simp [hs] at hok
  · exact ht ▸ hadd

theorem restoreExact_spec (h : Valid S t) (hw : token.WeightOk) (hid : token.leafId ∉ leaves t)
    (hr : restoreExact t token = some t') : Adds t token.leafId t' := by
  unfold restoreExact at hr
  split at hr
  · rename_i sid fp hsid hfp
    have hw1 : token.weight < 1 := by
      rcases hw.2 with h1 | ⟨_, h1, _⟩
      · exact h1
      · rw [hsid] at h1; cases h1
    split at hr
    · rename_i t'' hpar
      cases hr
      exact restoreParent_spec h ⟨hw.1, hw1⟩ hid hpar
    · exact restoreSibling_spec h hr
  · cases hr

theorem restoreNeighbor_spec (h : Valid S t) (hr : restoreNeighbor t token = some t') : Adds t token.leafId t' := by
  unfold restoreNeighbor at hr
  split at hr
  · dsimp only at hr
    split at hr
    · rename_i hc
      simp only [Bool.and_eq_true] at hc
      exact restore_split_spec h hc.2 (Option.some.inj hr)
    · cases hr
  · cases hr

theorem restoreFallback_spec (h : Valid S t) {opts : RestoreOpts} (hr : restoreFallback t token opts = some t') :
    Adds t token.leafId t' := by
  unfold restoreFallback at hr
  split at hr
  · cases hr
  · dsimp only at hr
    split at hr
    · rename_i hc
      exact restore_split_spec h hc.2.2 (Option.some.inj hr)
    · cases hr

theorem restoreRead_spec (h : Valid S t) (hw : token.WeightOk) (opts : RestoreOpts) :
    (restoreRead t token opts = ⟨t, false, none⟩) ∨
      ((restoreRead t token opts).ok = true ∧ Adds t token.leafId (restoreRead t token opts).tree) := by
  unfold restoreRead
  split
  · exact .inl rfl
  rename_i hid
  have hid : token.leafId ∉ leaves t := findLeafPath_eq_none.1 (by simpa using hid)
  split
  · rename_i hnone
    rcases t with ⟨_ | n⟩
    · refine .inr ⟨rfl, hid, ⟨fun m hm => ?_, by simp [leafTree]⟩, by simp [leafTree]⟩
      cases hm
      exact .leaf _
    · simp at hnone
  cases he : restoreExact t token with
  | some t' => exact .inr ⟨rfl, restoreExact_spec h hw hid he⟩
  | none =>
    cases hn : restoreNeighbor t token with
    | some t' => exact .inr ⟨rfl, restoreNeighbor_spec h hn⟩
    | none =>
      cases hf : restoreFallback t token opts with
      | some t' => exact .inr ⟨rfl, restoreFallback_spec h hf⟩
      | none => exact .inl rfl

/-! `resize` keeps the nodes of its split and gives every one a positive weight. -/

theorem length_cumulativeRoundFrom (target : Int) : ∀ (fs : List ℚ) (cum : ℚ) (prev : Int),
    (cumulativeRoundFrom target cum prev fs).length = fs.length
  | [], _, _ => rfl
  | [_], _, _ => rfl
  | f :: g :: fs, cum, prev => by
    simp only [cumulativeRoundFrom, List.length_cons, length_cumulativeRoundFrom target (g :: fs)]

theorem length_waterfill : ∀ (fuel : Nat) (remaining : ℚ) (slots : List Slot) (fs : List ℚ),
    waterfill fuel remaining slots = some fs → fs.length = slots.length
  | 0, _, _, _, h => by simp [waterfill] at h
  | fuel + 1, remaining, slots, fs, h => by
    unfold waterfill at h
    split at h
    · cases h; simp
    · split at h
      · cases h; simp
      · simpa using length_waterfill fuel _ _ fs h

theorem length_allocateFracs (cs : List LathChild) (available : ℚ) (opts : LayoutOpts) (d : Dir) :
    (allocateFracs cs available opts d).length = cs.length := by
  unfold allocateFracs
  dsimp only
  split
  · split <;> simp
  · cases hw : waterfill (cs.length + 1) available (cs.map (fun c => ⟨c.weight, minSpan d opts c.node, false, 0⟩)) with
    | none => simp
    | some fs => simpa using length_waterfill _ _ _ fs hw

theorem length_allocateChildSpans (cs : List LathChild) (span : ℚ) (opts : LayoutOpts) (d : Dir) :
    (allocateChildSpans cs span opts d).length = cs.length := by
  unfold allocateChildSpans cumulativeRound
  rw [length_cumulativeRoundFrom, length_allocateFracs]

theorem length_draggedSpans {d : Dir} {opts : LayoutOpts} {spans : List Int} {boundary : Nat} {delta : ℚ} {spans' : List ℚ}
    (h : draggedSpans cs d opts spans boundary delta = some spans') :
    spans'.length = spans.length := by
  unfold draggedSpans at h
  split at h
  · dsimp only at h
    split at h
    · cases h
    · cases h; simp
  · cases h

theorem map_node_zipWith (f : ℚ → ℚ) : ∀ (cs : List LathChild) (ss : List ℚ), ss.length = cs.length →
    (cs.zipWith (fun c s => (⟨c.node, f s⟩ : LathChild)) ss).map (·.node) = cs.map (·.node)
  | [], _, _ => by simp
  | c :: cs, [], h => by simp at h
  | c :: cs, s :: ss, h => by
    simp only [List.zipWith_cons_cons, List.map_cons]
    rw [map_node_zipWith f cs ss (by simpa using h)]

theorem mem_zipWith_weight (f : ℚ → ℚ) : ∀ (cs : List LathChild) (ss : List ℚ) (x : LathChild),
    x ∈ cs.zipWith (fun c s => (⟨c.node, f s⟩ : LathChild)) ss → ∃ c ∈ cs, ∃ s, x = ⟨c.node, f s⟩
  | [], _, _, h => by simp at h
  | c :: cs, [], _, h => by simp at h
  | c :: cs, s :: ss, x, h => by
    simp only [List.zipWith_cons_cons, List.mem_cons] at h
    rcases h with rfl | h
    · exact ⟨c, by simp, s, rfl⟩
    · obtain ⟨c', hc', s', hx⟩ := mem_zipWith_weight f cs ss x h
      exact ⟨c', by simp [hc'], s', hx⟩

theorem resize_spec (h : Valid S t) (splitPath : List JsNum) (boundary deltaPx : JsNum) (rect : Rect)
    (opts : LayoutOpts) :
    (resize t splitPath boundary deltaPx rect opts = ⟨t, false⟩) ∨
      ((resize t splitPath boundary deltaPx rect opts).ok = true ∧
        ((resize t splitPath boundary deltaPx rect opts).tree = t ∨
          Valid exact (resize t splitPath boundary deltaPx rect opts).tree) ∧
        leaves (resize t splitPath boundary deltaPx rect opts).tree = leaves t) := by
  unfold resize
  split
  · rename_i root path b delta hroot _ _
    split
    · rename_i d cs splitRect hpar _
      split
      · exact .inl rfl
      rename_i hguard
      cases hdrag : draggedSpans cs d opts (allocateChildSpans cs (splitRect.span d) opts d) b delta with
      | none => exact .inr ⟨rfl, .inl rfl, rfl⟩
      | some spans =>
        rcases t with ⟨r⟩
        cases hroot
        dsimp only
        have hlen : spans.length = cs.length := by rw [length_draggedSpans hdrag, length_allocateChildSpans]
        have hpos := h.positive (n := root) rfl
        have hchild := positive_children (nodeAt_positive path hpos hpar)
        have hnodes := map_node_zipWith (fun s => max s (1 / 1000000)) cs spans hlen
        have hall : ∀ c ∈ cs.zipWith (fun c s => (⟨c.node, max s (1 / 1000000)⟩ : LathChild)) spans,
            0 < c.weight ∧ Positive c.node := by
          intro x hx
          obtain ⟨c, hc, s, rfl⟩ := mem_zipWith_weight (fun s => max s (1 / 1000000)) cs spans x hx
          exact ⟨lt_of_lt_of_le (by norm_num) (le_max_right _ _), (hchild c hc).2⟩
        have hne : cs.zipWith (fun c s => (⟨c.node, max s (1 / 1000000)⟩ : LathChild)) spans ≠ [] := by
          intro he
          have := congrArg List.length he
          simp only [List.length_zipWith, hlen, Nat.min_self, List.length_nil] at this
          omega
        have hleaves : nodeLeaves (replaceAtPath root path (.split d (normalizeWeights
            (cs.zipWith (fun c s => (⟨c.node, max s (1 / 1000000)⟩ : LathChild)) spans)))) = nodeLeaves root := by
          obtain ⟨pre, post, he, hrep⟩ := nodeLeaves_replaceAtPath path hpar
          rw [hrep, he, nodeLeaves_split, nodeLeaves_split, flatMap_leaves_congr (map_node_normalizeWeights _),
            flatMap_leaves_congr hnodes]
        obtain ⟨hv, hl⟩ := publish (replaceAtPath_positive path hpos (positive_normalized (d := d) hne hall))
          (by rw [hleaves]; exact h.nodup)
        exact .inr ⟨rfl, .inr hv, hl.trans hleaves⟩
    · exact .inl rfl
  · exact .inl rfl

end

end Lath
end Dormouse

import Dormouse.LathRoundTrip
import Dormouse.LathSides
/-!
# LathMoves — what a removal, an insert and a move do to the sides

Seen from the rest of the tree a subtree is its leaves (`Surroundings`).  So a removal restricts `Precedes` to the leaves that stay
(`remove_sides`), and an insert beside a target leaves it as it was between the old leaves, whichever of its shapes it takes
(`insertImpl_sides`).  What the leaves of a move's target are to the rest they still are once the moved leaf is gone: they are found
again (`targetByLeafSet_together`), and a move is refused for no other reason than its arguments (`move_rejects_iff`).
-/
namespace Dormouse
namespace Lath

/-! ## Around a node -/

/-- The relation around one node of a tree: among the leaves elsewhere, and of those that come before or after all of the node's. -/
structure Surroundings where
  rest     : List LeafId
  far      : Dir → LeafId → LeafId → Prop
  fore     : Dir → LeafId → Prop
  aft      : Dir → LeafId → Prop
  far_mem  : ∀ {d x y}, far d x y → x ∈ rest ∧ y ∈ rest
  fore_mem : ∀ {d x}, fore d x → x ∈ rest
  aft_mem  : ∀ {d x}, aft d x → x ∈ rest

/-- Whatever stands at `p` in `n` stands in these surroundings. -/
structure Surroundings.Around (s : Surroundings) (n : LathNode) (p : List Nat) : Prop where
  leaves   : ∀ r, (nodeLeaves (replaceAtPath n p r)).Perm (s.rest ++ nodeLeaves r)
  precedes : ∀ r d x y, Precedes d x y (replaceAtPath n p r) ↔
    s.far d x y ∨ (s.fore d x ∧ y ∈ nodeLeaves r) ∨ (x ∈ nodeLeaves r ∧ s.aft d y) ∨ Precedes d x y r

def Surroundings.within (s : Surroundings) (e : Dir) (A C : List LathChild) : Surroundings where
  rest := leavesOf A ++ s.rest ++ leavesOf C
  far d x y := (e = d ∧ (Earlier x y (A ++ C) ∨ (x ∈ leavesOf A ∧ y ∈ s.rest) ∨ (x ∈ s.rest ∧ y ∈ leavesOf C))) ∨
    (∃ c ∈ A ++ C, Precedes d x y c.node) ∨ s.far d x y
  fore d x := (e = d ∧ x ∈ leavesOf A) ∨ s.fore d x
  aft d y := (e = d ∧ y ∈ leavesOf C) ∨ s.aft d y
  far_mem {d x y} h := by
    have hAC : ∀ {z}, z ∈ leavesOf (A ++ C) → z ∈ leavesOf A ++ s.rest ++ leavesOf C := fun h => by
      rw [leavesOf_append, List.mem_append] at h
      simp only [List.mem_append]
      tauto
    rcases h with ⟨-, h | ⟨hx, hy⟩ | ⟨hx, hy⟩⟩ | ⟨c, hc, h⟩ | h
    · exact ⟨hAC h.mem.1, hAC h.mem.2⟩
    · simp [hx, hy]
    · simp [hx, hy]
    · exact ⟨hAC (mem_leavesOf.2 ⟨c, hc, h.mem.1⟩), hAC (mem_leavesOf.2 ⟨c, hc, h.mem.2⟩)⟩
    · simp [s.far_mem h]
  fore_mem h := by
    rcases h with ⟨-, h⟩ | h
    · simp [h]
    · simp [s.fore_mem h]
  aft_mem h := by
    rcases h with ⟨-, h⟩ | h
    · simp [h]
    · simp [s.aft_mem h]

theorem Surroundings.Around.within {s : Surroundings} {c : LathNode} {p : List Nat} (h : s.Around c p) (e : Dir)
    (A C : List LathChild) (w : ℚ) : (s.within e A C).Around (.split e (A ++ ⟨c, w⟩ :: C)) (A.length :: p) := by
  have hat : ∀ r, replaceAtPath (.split e (A ++ ⟨c, w⟩ :: C)) (A.length :: p) r =
      .split e (A ++ ⟨replaceAtPath c p r, w⟩ :: C) := fun r => by
    rw [replaceAtPath_cons (c := ⟨c, w⟩) (by simp)]
    simp
  refine ⟨fun r => ?_, fun r d x y => ?_⟩
  · rw [hat, nodeLeaves_split, List.flatMap_append, List.flatMap_cons]
    refine (List.Perm.append_left _ (List.Perm.append_right _ (h.leaves r))).trans ?_
    simp only [Surroundings.within, List.append_assoc]
    exact List.Perm.append_left _ (List.Perm.append_left _ (List.perm_append_comm))
  · have hm : ∀ z, z ∈ nodeLeaves (replaceAtPath c p r) ↔ z ∈ s.rest ∨ z ∈ nodeLeaves r := fun z => by
      rw [(h.leaves r).mem_iff, List.mem_append]
    have hcc : ∀ (P : LathChild → Prop) (b : LathChild), (∃ a ∈ A ++ b :: C, P a) ↔ (∃ a ∈ A, P a) ∨ P b ∨ ∃ a ∈ C, P a :=
      fun P b => by simp only [List.mem_append, List.mem_cons, or_and_right, exists_or, exists_eq_left]
    rw [hat, precedes_split, hcc, earlier_append, earlier_cons, h.precedes]
    simp only [Surroundings.within, earlier_append, leavesOf, List.flatMap_cons, List.mem_append, or_and_right, exists_or, hm]
    by_cases he : e = d
    · simp only [he, true_and]
      grind
    · simp only [he, false_and, false_or]
      grind

/-- **A node has surroundings.** -/
theorem exists_surroundings : ∀ (p : List Nat) {n m : LathNode}, nodeAt n p = some m → ∃ s : Surroundings, s.Around n p
  | [], n, m, _ =>
    ⟨⟨[], fun _ _ _ => False, fun _ _ => False, fun _ _ => False, False.elim, False.elim, False.elim⟩,
      fun r => by simp, fun r d x y => by simp⟩
  | i :: p, .leaf id, m, h => by simp at h
  | i :: p, .split e cs, m, h => by
    simp only [nodeAt_split_cons] at h
    obtain ⟨c, hc, hm⟩ := Option.bind_eq_some_iff.1 h
    obtain ⟨s, hs⟩ := exists_surroundings p hm
    have hi := (List.getElem?_eq_some_iff.1 hc).1
    have hw := hs.within e (cs.take i) (cs.drop (i + 1)) c.weight
    rw [← (split_at_getElem? hc).1, List.length_take, Nat.min_eq_left (by omega)] at hw
    exact ⟨_, hw⟩

section
variable {s : Surroundings} {n m : LathNode} {p : List Nat} (h : s.Around n p) (hm : nodeAt n p = some m)
include h hm

theorem Surroundings.Around.self_leaves : (nodeLeaves n).Perm (s.rest ++ nodeLeaves m) := by
  have := h.leaves m
  rwa [replaceAtPath_self p hm] at this

theorem Surroundings.Around.disjoint (hn : (nodeLeaves n).Nodup) : ∀ x ∈ s.rest, x ∉ nodeLeaves m := by
  intro x hx hxm
  exact (List.nodup_append.1 ((h.self_leaves hm).nodup_iff.1 hn)).2.2 x hx x hxm rfl

theorem Surroundings.Around.self_precedes (d : Dir) (x y : LeafId) : Precedes d x y n ↔
    s.far d x y ∨ (s.fore d x ∧ y ∈ nodeLeaves m) ∨ (x ∈ nodeLeaves m ∧ s.aft d y) ∨ Precedes d x y m := by
  have := h.precedes m d x y
  rwa [replaceAtPath_self p hm] at this

end

variable {n m : LathNode} {p : List Nat}

theorem nodup_nodeAt (hn : (nodeLeaves n).Nodup) (hm : nodeAt n p = some m) :
    (nodeLeaves m).Nodup := by
  obtain ⟨s, hs⟩ := exists_surroundings p hm
  exact (List.nodup_append.1 ((hs.self_leaves hm).nodup_iff.1 hn)).2.1

theorem together_nodeAt (hn : (nodeLeaves n).Nodup) (hm : nodeAt n p = some m) :
    Together n (nodeLeaves m) := by
  obtain ⟨s, hs⟩ := exists_surroundings p hm
  have hdisj := hs.disjoint hm hn
  refine ⟨fun x hx => mem_leaves_of_nodeAt p hm x hx, fun x hx y hy z hz d => ⟨fun h => ?_, fun h => ?_⟩⟩
  · rw [hs.self_precedes hm] at h ⊢
    rcases h with h | ⟨h, -⟩ | ⟨h, -⟩ | h
    · exact absurd hx (hdisj x (s.far_mem h).2)
    · exact .inr (.inl ⟨h, hy⟩)
    · exact absurd h hz
    · exact absurd h.mem.1 hz
  · rw [hs.self_precedes hm] at h ⊢
    rcases h with h | ⟨-, h⟩ | ⟨-, h⟩ | h
    · exact absurd hx (hdisj x (s.far_mem h).1)
    · exact absurd h hz
    · exact .inr (.inr (.inl ⟨hy, h⟩))
    · exact absurd h.mem.2 hz

theorem SameSides.replaceAtPath {n m r r' : LathNode} {p : List Nat} (hm : nodeAt n p = some m) (h : SameSides r r') :
    SameSides (replaceAtPath n p r) (replaceAtPath n p r') := by
  obtain ⟨s, hs⟩ := exists_surroundings p hm
  refine ⟨fun x => ?_, fun d x y => ?_⟩
  · rw [(hs.leaves r).mem_iff, (hs.leaves r').mem_iff, List.mem_append, List.mem_append, h.leaves]
  · rw [hs.precedes, hs.precedes, h.leaves, h.leaves, h.precedes]

theorem SameSides.refl (n : LathNode) : SameSides n n := ⟨fun _ => Iff.rfl, fun _ _ _ => Iff.rfl⟩

theorem SameSides.trans {a b c : LathNode} (h : SameSides a b) (h' : SameSides b c) : SameSides a c :=
  ⟨fun x => (h.leaves x).trans (h'.leaves x), fun d x y => (h.precedes d x y).trans (h'.precedes d x y)⟩

theorem sameSides_normalize (h : normalize n = some m) : SameSides m n := by
  refine ⟨fun x => ?_, fun d x y => precedes_normalize h⟩
  rw [← nodeLeaves_normalize n, h, optLeaves_some]

theorem sameSides_nodes {d : Dir} {cs cs' : List LathChild} (h : cs.map (·.node) = cs'.map (·.node)) :
    SameSides (.split d cs) (.split d cs') := by
  refine ⟨fun x => ?_, fun e x y => precedes_split_congr h⟩
  rw [nodeLeaves_split, nodeLeaves_split, flatMap_leaves_congr h]

theorem sameSides_group (d : Dir) (A C : List LathChild) {B B' : List LathChild} (w : ℚ)
    (hB : B'.map (·.node) = B.map (·.node)) :
    SameSides (.split d (A ++ ⟨.split d B', w⟩ :: C)) (.split d (A ++ B ++ C)) := by
  have hs : SameSides (.split d B') (.split d B) := sameSides_nodes hB
  have hleaves : ∀ z, z ∈ nodeLeaves (.split d B') ↔ z ∈ leavesOf B := fun z => by rw [hs.leaves, nodeLeaves_split]
  refine ⟨fun z => ?_, fun e x y => ?_⟩
  · rw [nodeLeaves_split, nodeLeaves_split]
    simp only [List.flatMap_append, List.flatMap_cons, List.mem_append, hleaves]
    tauto
  · rw [precedes_split, precedes_split, earlier_append, earlier_cons, earlier_append, earlier_append, leavesOf_append,
      show leavesOf (⟨.split d B', w⟩ :: C) = nodeLeaves (.split d B') ++ leavesOf C from List.flatMap_cons]
    simp only [List.mem_append, List.mem_cons, or_and_right, exists_or, exists_eq_left, hleaves, hs.precedes, precedes_split]
    by_cases he : d = e
    · simp only [he, true_and]
      grind
    · simp only [he, false_and, false_or]
      grind

/-! ## `materializeTarget` -/

variable {target : EdgeDropTarget} {path : List Nat}

/-- **What a materialized target names**: a node of the tree, or a run of a split's children under a split of their own. -/
theorem materializeTarget_cases {n g : LathNode} (h : materializeTarget ⟨some n⟩ target = some (⟨some g⟩, path)) :
    (g = n ∧ ∃ m, nodeAt n path = some m) ∨
    ∃ p d A B C, nodeAt n p = some (.split d (A ++ B ++ C)) ∧ 2 ≤ B.length ∧ A ++ C ≠ [] ∧ path = p ++ [A.length] ∧
      g = replaceAtPath n p (.split d (A ++ ⟨.split d (normalizeWeights B), weightSum B⟩ :: C)) := by
  unfold materializeTarget at h
  split at h
  · cases h
  rename_i p hp
  split at h
  · cases h
  · rename_i m hnode _
    cases h
    exact .inl ⟨rfl, m, hnode⟩
  · cases h
  rename_i d cs range hnode _
  have hnode : nodeAt n p = some (.split d cs) := hnode
  split at h
  · rename_i start stop _ _
    split at h
    · cases h
    rename_i hb
    split at h
    · cases h
      exact .inl ⟨rfl, _, hnode⟩
    · cases h
      refine .inr ⟨p, d, cs.take start.toNat, (cs.take stop.toNat).drop start.toNat, cs.drop stop.toNat, ?_, ?_, ?_, ?_, rfl⟩
      · rw [← split_range cs (show start.toNat ≤ stop.toNat by omega)]
        exact hnode
      · rw [List.length_drop, List.length_take]
        omega
      · intro hAC
        have := congrArg List.length hAC
        rw [List.length_append, List.length_take, List.length_drop, List.length_nil] at this
        omega
      · rw [List.length_take, Nat.min_eq_left (by omega)]
  · cases h

theorem materializeTarget_sides {n g : LathNode} (h : materializeTarget ⟨some n⟩ target = some (⟨some g⟩, path)) :
    SameSides g n := by
  rcases materializeTarget_cases h with ⟨rfl, -⟩ | ⟨p, d, A, B, C, hp, -, -, -, rfl⟩
  · exact SameSides.refl _
  · have := (sameSides_group d A C (weightSum B) (map_node_normalizeWeights B)).replaceAtPath hp
    rwa [replaceAtPath_self p hp] at this

theorem nodeAt_group {n : LathNode} {d : Dir} {A B C : List LathChild} (hp : nodeAt n p = some (.split d (A ++ B ++ C)))
    (m : LathNode) (w : ℚ) :
    nodeAt (replaceAtPath n p (.split d (A ++ ⟨m, w⟩ :: C))) (p ++ [A.length]) = some m := by
  rw [nodeAt_append, nodeAt_replaceAtPath_self p _ hp]
  simp

/-! ## `insert` -/

theorem map_node_spliceLeaf (cs : List LathChild) (idx : Nat) (before : Bool) (new : LathNode) (w : ℚ) (share : Share) :
    (spliceLeaf cs idx before new w share).map (·.node) =
      (cs.map (·.node)).take (if before then idx else idx + 1) ++ new ::
        (cs.map (·.node)).drop (if before then idx else idx + 1) := by
  unfold spliceLeaf
  have hnodes := map_node_scale cs (if share = .keepSiblings then 1 - w else 1)
  generalize cs.map (fun c => (⟨c.node, c.weight * (if share = .keepSiblings then 1 - w else 1)⟩ : LathChild)) = scaled at *
  dsimp only
  have hmod : ∀ v : ℚ, (if share = .halve then scaled.modify idx (fun c => ⟨c.node, v⟩) else scaled).map (·.node) =
      cs.map (·.node) := by
    intro v
    split
    · exact (map_node_modify scaled idx v).trans hnodes
    · exact hnodes
  rw [List.map_append, List.map_cons, List.map_take, List.map_drop, hmod]

theorem sameSides_spliceLeaf {d : Dir} {cs : List LathChild} {idx : Nat} {m : LathNode} {v : ℚ}
    (hc : cs[idx]? = some ⟨m, v⟩) (edge : Edge) (hd : d = edgeAxis edge) (new : LathNode) (w u : ℚ) (share : Share) :
    SameSides (.split d (normalizeWeights (spliceLeaf cs idx (edgeIsBefore edge) new w share)))
      (.split d (cs.set idx ⟨besideNode edge new w m u, v⟩)) := by
  obtain ⟨hcs, hset⟩ := split_at_getElem? hc
  have hi := (List.getElem?_eq_some_iff.1 hc).1
  rw [hset]
  unfold besideNode
  rw [← hd]
  refine SameSides.trans (sameSides_nodes ?_) (sameSides_group d (cs.take idx) (cs.drop (idx + 1)) v rfl).symm
  have htake : cs.take (idx + 1) = cs.take idx ++ [⟨m, v⟩] := by rw [List.take_add_one, hc, Option.toList_some]
  have hdrop : cs.drop idx = ⟨m, v⟩ :: cs.drop (idx + 1) := by
    rw [List.drop_eq_getElem_cons hi]
    exact congrArg (· :: _) (List.getElem_eq_iff hi |>.2 hc)
  rw [map_node_normalizeWeights, map_node_spliceLeaf, ← List.map_take, ← List.map_drop]
  cases edgeIsBefore edge with
  | true => simp [hdrop]
  | false => simp [htake]

theorem insertBesideNode_sides (hm : nodeAt n path = some m) (edge : Edge) (id : LeafId) (w : ℚ) (share : Share) :
    ∃ r, insertBesideNode ⟨some n⟩ path edge id w share = ⟨normalize r⟩ ∧
      SameSides r (replaceAtPath n path (besideNode edge (mkLeaf id) w m (1 - w))) := by
  unfold insertBesideNode
  dsimp only
  cases hlast : path.getLast? with
  | none =>
    have hnil : path = [] := List.getLast?_eq_none_iff.1 hlast
    subst hnil
    simp only [nodeAt_nil, Option.some.injEq] at hm
    subst hm
    exact ⟨_, rfl, by rw [replaceAtPath_nil]; exact SameSides.refl _⟩
  | some idx =>
    dsimp only
    have hpath : path = path.dropLast ++ [idx] := (List.dropLast_append_getLast? idx hlast).symm
    obtain ⟨d, cs, v, hpar, hcs⟩ := nodeAt_parent (hpath ▸ hm)
    rw [hpar]
    dsimp only
    split
    · rename_i hd
      refine ⟨_, rfl, ?_⟩
      conv => rhs; rw [hpath]
      rw [replaceAtPath_append _ _ hpar hcs]
      exact (sameSides_spliceLeaf hcs edge hd (mkLeaf id) w (1 - w) share).replaceAtPath hpar
    · rw [hm]
      exact ⟨_, rfl, SameSides.refl _⟩

/-- A leaf set beside the leaves `L` of a node, on their side `edge`. -/
structure Joined (n : LathNode) (id : LeafId) (edge : Edge) (L : List LeafId) (n' : LathNode) : Prop where
  leaves  : ∀ x, x ∈ nodeLeaves n' ↔ x = id ∨ x ∈ nodeLeaves n
  old     : ∀ d x y, x ≠ id → y ≠ id → (Precedes d x y n' ↔ Precedes d x y n)
  beside  : ∀ l ∈ L, if edgeIsBefore edge then Precedes (edgeAxis edge) id l n' else Precedes (edgeAxis edge) l id n'
  outside : ∀ l ∈ L, ∀ z, z ∉ L → z ≠ id → ∀ d,
    (Precedes d z id n' ↔ Precedes d z l n) ∧ (Precedes d id z n' ↔ Precedes d l z n)

variable {id : LeafId} {L : List LeafId}

theorem Joined.congr {n₀ n n' n'' : LathNode} {edge : Edge} (h : Joined n id edge L n') (h₀ : SameSides n n₀)
    (h' : SameSides n'' n') : Joined n₀ id edge L n'' where
  leaves x := by rw [h'.leaves, h.leaves, h₀.leaves]
  old d x y hx hy := by rw [h'.precedes, h.old d x y hx hy, h₀.precedes]
  beside l hl := by
    rw [h'.precedes, h'.precedes]
    exact h.beside l hl
  outside l hl z hz hid d := by
    rw [h'.precedes, h'.precedes, ← h₀.precedes, ← h₀.precedes]
    exact h.outside l hl z hz hid d

theorem precedes_besideNode {d : Dir} {x y id : LeafId} (edge : Edge) (w : ℚ) (m : LathNode) (v : ℚ) :
    Precedes d x y (besideNode edge (mkLeaf id) w m v) ↔
      (edgeAxis edge = d ∧ if edgeIsBefore edge then x = id ∧ y ∈ nodeLeaves m else x ∈ nodeLeaves m ∧ y = id) ∨
        Precedes d x y m := by
  unfold besideNode mkLeaf
  cases edgeIsBefore edge <;> simp [leavesOf]

theorem joined_besideNode (hm : nodeAt n p = some m) (hn : (nodeLeaves n).Nodup) (hid : id ∉ nodeLeaves n) (edge : Edge)
    (w v : ℚ) :
    Joined n id edge (nodeLeaves m) (replaceAtPath n p (besideNode edge (mkLeaf id) w m v)) := by
  obtain ⟨s, hs⟩ := exists_surroundings p hm
  have hdisj := hs.disjoint hm hn
  have hmem : ∀ x, x ∈ nodeLeaves n ↔ x ∈ s.rest ∨ x ∈ nodeLeaves m := fun x => by
    rw [(hs.self_leaves hm).mem_iff, List.mem_append]
  have hbeside : ∀ x, x ∈ nodeLeaves (besideNode edge (mkLeaf id) w m v) ↔ x = id ∨ x ∈ nodeLeaves m := fun x => by
    rw [(leaves_besideNode edge id w m v).mem_iff, List.mem_cons]
  have hrest : id ∉ s.rest := fun h => hid ((hmem id).2 (.inl h))
  have hidm : id ∉ nodeLeaves m := fun h => hid ((hmem id).2 (.inr h))
  refine ⟨fun x => ?_, fun d x y hx hy => ?_, fun l hl => ?_, fun l hl z hz hzid d => ⟨?_, ?_⟩⟩
  · rw [(hs.leaves _).mem_iff, List.mem_append, hbeside, hmem]
    tauto
  · rw [hs.precedes, hs.self_precedes hm, hbeside, hbeside, precedes_besideNode]
    simp [hx, hy]
  · cases hb : edgeIsBefore edge <;> simp [hs.precedes, precedes_besideNode, hb, hl]
  · rw [hs.precedes, hs.self_precedes hm, hbeside, hbeside, precedes_besideNode]
    have h1 : ¬ s.far d z id := fun h => hrest (s.far_mem h).2
    have h2 : ¬ s.aft d id := fun h => hrest (s.aft_mem h)
    have h3 : ¬ Precedes d z id m := fun h => hidm h.mem.2
    have h4 : ¬ s.far d z l := fun h => hdisj l (s.far_mem h).2 hl
    have h5 : ¬ Precedes d z l m := fun h => hz h.mem.1
    simp [h1, h2, h3, h4, h5, hl, hz, hzid]
  · rw [hs.precedes, hs.self_precedes hm, hbeside, hbeside, precedes_besideNode]
    have h1 : ¬ s.far d id z := fun h => hrest (s.far_mem h).1
    have h2 : ¬ s.fore d id := fun h => hrest (s.fore_mem h)
    have h3 : ¬ Precedes d id z m := fun h => hidm h.mem.1
    have h4 : ¬ s.far d l z := fun h => hdisj l (s.far_mem h).1 hl
    have h5 : ¬ Precedes d l z m := fun h => hz h.mem.2
    simp [h1, h2, h3, h4, h5, hl, hz, hzid]

def TreePrecedes (d : Dir) (x y : LeafId) (t : LathTree) : Prop := ∃ n ∈ t.root, Precedes d x y n

@[simp] theorem treePrecedes_some (d : Dir) (x y : LeafId) (n : LathNode) :
    TreePrecedes d x y ⟨some n⟩ ↔ Precedes d x y n := by
  simp [TreePrecedes]

section
variable {S : ℚ → Prop} {t : LathTree}

/-- **What an accepted insert did**: the leaf stands beside the target's leaves, and the old leaves as they stood. -/
theorem insertImpl_sides {n : LathNode} (h : Valid S ⟨some n⟩) {id : LeafId} (hid : id ∉ nodeLeaves n) {size : InsertSize}
    (hsize : size.isNaN = false) (keep : Bool) {target : EdgeDropTarget} {g m : LathNode} {path : List Nat}
    (hmat : materializeTarget ⟨some n⟩ target = some (⟨some g⟩, path)) (hm : nodeAt g path = some m) :
    ∃ n', insertImpl ⟨some n⟩ id (.edge target) size keep = ⟨⟨some n'⟩, true⟩ ∧ Valid exact ⟨some n'⟩ ∧
      Joined n id target.edge (nodeLeaves m) n' := by
  obtain ⟨g', m', hg, hgpos, hgl, -⟩ := materializeTarget_spec (h.positive rfl) hmat
  cases hg
  have hside := materializeTarget_sides hmat
  have hfind : findLeafPath ⟨some n⟩ id = none := findLeafPath_eq_none.2 hid
  obtain ⟨r, hr, hrside⟩ := insertBesideNode_sides hm target.edge id size.clamped
    (shareFor size (nodeAtPath ⟨some g⟩ path) keep)
  have hins : insertImpl ⟨some n⟩ id (.edge target) size keep = ⟨⟨normalize r⟩, true⟩ := by
    unfold insertImpl
    dsimp only
    rw [hfind, hsize, if_neg (by simp), hmat]
    dsimp only
    rw [hr]
  have hadds := insertImpl_spec h id (.edge target) size keep
  rw [hins] at hadds
  obtain ⟨-, -, hvalid, hperm⟩ := hadds.resolve_left (fun he => by simp at he)
  cases hnorm : normalize r with
  | none =>
    rw [hnorm] at hperm
    simpa using hperm.length_eq
  | some n' =>
    rw [hnorm] at hins hvalid
    have hj := joined_besideNode hm (hgl ▸ h.nodup) (hgl ▸ hid) target.edge size.clamped (1 - size.clamped)
    exact ⟨n', hins, hvalid, hj.congr hside ((sameSides_normalize hnorm).trans hrside)⟩

/-! ## `remove` -/

structure Restricted (t : LathTree) (id : LeafId) (t' : LathTree) : Prop where
  leaves   : ∀ x, x ∈ leaves t' ↔ x ∈ leaves t ∧ x ≠ id
  precedes : ∀ d x y, TreePrecedes d x y t' ↔ TreePrecedes d x y t ∧ x ≠ id ∧ y ≠ id

theorem precedes_eraseIdx {d e : Dir} {cs : List LathChild} (hn : (nodeLeaves (.split d cs)).Nodup) {idx : Nat} {id : LeafId}
    {w : ℚ} (hc : cs[idx]? = some ⟨.leaf id, w⟩) {x y : LeafId} :
    Precedes e x y (.split d (cs.eraseIdx idx)) ↔ Precedes e x y (.split d cs) ∧ x ≠ id ∧ y ≠ id := by
  have hid : id ∉ leavesOf (cs.eraseIdx idx) := by
    rw [nodeLeaves_split] at hn
    exact (List.nodup_cons.1 ((leaves_eraseIdx hc).nodup_iff.1 hn)).1
  have hcs := (split_at_getElem? hc).1
  rw [List.eraseIdx_eq_take_drop_succ] at hid ⊢
  generalize cs.take idx = A at *
  generalize cs.drop (idx + 1) = C at *
  subst hcs
  have hne : ∀ z, z ∈ nodeLeaves (.split d (A ++ C)) → z ≠ id := fun z hz h => hid (by rw [← h]; rwa [nodeLeaves_split] at hz)
  have hall : Precedes e x y (.split d (A ++ ⟨.leaf id, w⟩ :: C)) ↔ Precedes e x y (.split d (A ++ C)) ∨
      (d = e ∧ ((x ∈ leavesOf A ∧ y = id) ∨ (x = id ∧ y ∈ leavesOf C))) := by
    rw [precedes_split, precedes_split, earlier_append, earlier_append, earlier_cons,
      show leavesOf (⟨.leaf id, w⟩ :: C) = nodeLeaves (.leaf id) ++ leavesOf C from List.flatMap_cons]
    simp only [List.mem_append, List.mem_cons, or_and_right, exists_or, exists_eq_left, not_precedes_leaf, false_or,
      nodeLeaves_leaf]
    by_cases he : d = e
    · simp only [he, true_and]
      grind
    · simp only [he, false_and, false_or, or_false]
  rw [hall]
  constructor
  · exact fun h => ⟨.inl h, hne x h.mem.1, hne y h.mem.2⟩
  · rintro ⟨h | ⟨-, ⟨-, h⟩ | ⟨h, -⟩⟩, hx, hy⟩
    · exact h
    · exact absurd h hy
    · exact absurd h hx

theorem precedes_erased {n : LathNode} (hn : (nodeLeaves n).Nodup) {p : List Nat} {d e : Dir} {cs : List LathChild}
    (hpar : nodeAt n p = some (.split d cs)) {idx : Nat} {id : LeafId} {w : ℚ} (hc : cs[idx]? = some ⟨.leaf id, w⟩)
    {x y : LeafId} : Precedes e x y (replaceAtPath n p (.split d (cs.eraseIdx idx))) ↔ Precedes e x y n ∧ x ≠ id ∧ y ≠ id := by
  obtain ⟨s, hs⟩ := exists_surroundings p hpar
  have hdisj := hs.disjoint hpar hn
  have hnc := nodup_nodeAt hn hpar
  have hperm := leaves_eraseIdx hc
  have hidc : id ∈ nodeLeaves (.split d cs) := by
    rw [nodeLeaves_split]
    exact hperm.mem_iff.2 (List.mem_cons_self ..)
  have hmem : ∀ z, z ∈ nodeLeaves (.split d (cs.eraseIdx idx)) ↔ z ∈ nodeLeaves (.split d cs) ∧ z ≠ id := fun z => by
    have hnid := (List.nodup_cons.1 (hperm.nodup_iff.1 (by rwa [nodeLeaves_split] at hnc))).1
    rw [nodeLeaves_split, nodeLeaves_split]
    change z ∈ leavesOf _ ↔ z ∈ leavesOf _ ∧ z ≠ id
    rw [hperm.mem_iff, List.mem_cons]
    exact ⟨fun h => ⟨.inr h, fun he => hnid (he ▸ h)⟩, fun ⟨h, hz⟩ => h.resolve_left hz⟩
  have hrest : ∀ z, z ∈ s.rest → z ≠ id := fun z hz he => hdisj z hz (he ▸ hidc)
  rw [hs.precedes, hs.self_precedes hpar, hmem, hmem, precedes_eraseIdx hnc hc]
  constructor
  · rintro (h | ⟨h, hy, hyid⟩ | ⟨⟨hx, hxid⟩, h⟩ | ⟨h, hxid, hyid⟩)
    · exact ⟨.inl h, hrest x (s.far_mem h).1, hrest y (s.far_mem h).2⟩
    · exact ⟨.inr (.inl ⟨h, hy⟩), hrest x (s.fore_mem h), hyid⟩
    · exact ⟨.inr (.inr (.inl ⟨hx, h⟩)), hxid, hrest y (s.aft_mem h)⟩
    · exact ⟨.inr (.inr (.inr h)), hxid, hyid⟩
  · rintro ⟨h | ⟨h, hy⟩ | ⟨hx, h⟩ | h, hxid, hyid⟩
    · exact .inl h
    · exact .inr (.inl ⟨h, hy, hyid⟩)
    · exact .inr (.inr (.inl ⟨⟨hx, hxid⟩, h⟩))
    · exact .inr (.inr (.inr ⟨h, hxid, hyid⟩))

/-- **A removal takes one leaf from the relation, whatever becomes of its split.** -/
theorem remove_sides (h : Valid S t) (id : LeafId) : Restricted t id (remove t id).tree := by
  rcases remove_cases h id with ⟨hid, hr⟩ | ⟨rfl, hr⟩ | ⟨n, p, d, cs, idx, w, sib, hroot, hfind, hpar, hc, -, hr⟩
  · rw [hr]
    refine ⟨fun x => ⟨fun hx => ⟨hx, fun he => hid (he ▸ hx)⟩, And.left⟩, fun d x y => ⟨fun hp => ⟨hp, ?_, ?_⟩, And.left⟩⟩
    · obtain ⟨n, hn, hp⟩ := hp
      rintro rfl
      exact hid (by rw [leaves, hn]; exact hp.mem.1)
    · obtain ⟨n, hn, hp⟩ := hp
      rintro rfl
      exact hid (by rw [leaves, hn]; exact hp.mem.2)
  · rw [hr]
    refine ⟨fun x => by simp [leafTree], fun d x y => ?_⟩
    simp [leafTree, TreePrecedes]
  · rcases t with ⟨_ | m⟩
    · cases hroot
    cases hroot
    rw [hr]
    have hnd : (nodeLeaves n).Nodup := h.nodup
    have hl := nodeLeaves_normalize (replaceAtPath n p (.split d (cs.eraseIdx idx)))
    obtain ⟨pre, post, he, hrep⟩ := nodeLeaves_replaceAtPath p hpar
    have hperm : (nodeLeaves n).Perm (id :: nodeLeaves (replaceAtPath n p (.split d (cs.eraseIdx idx)))) := by
      rw [he, hrep, nodeLeaves_split, nodeLeaves_split]
      exact perm_middle_leaf pre post _ id (leaves_eraseIdx hc)
    have hnid := (List.nodup_cons.1 (hperm.nodup_iff.1 hnd)).1
    refine ⟨fun x => ?_, fun e x y => ?_⟩
    · show x ∈ optLeaves _ ↔ x ∈ nodeLeaves n ∧ x ≠ id
      rw [hl, hperm.mem_iff, List.mem_cons]
      exact ⟨fun hx => ⟨.inr hx, fun he => hnid (he ▸ hx)⟩, fun h => h.1.resolve_left h.2⟩
    · rw [treePrecedes_some, ← precedes_erased hnd hpar hc]
      cases hnorm : normalize (replaceAtPath n p (.split d (cs.eraseIdx idx))) with
      | none =>
        rw [hnorm, optLeaves_none] at hl
        have : ¬ Precedes e x y (replaceAtPath n p (.split d (cs.eraseIdx idx))) := fun hp => by simpa [← hl] using hp.mem.1
        simpa [TreePrecedes] using this
      | some k => rw [treePrecedes_some, precedes_normalize hnorm]

end

/-! ## The leaf-set search -/

theorem wantedRange_perm {L L' : List LeafId} (h : L.Perm L') (parts : List (List LeafId)) :
    wantedRange L parts = wantedRange L' parts := by
  have hmem : ∀ x, (x ∈ L) = (x ∈ L') := fun x => propext h.mem_iff
  simp only [wantedRange, hmem, h.length_eq]

mutual
theorem targetWalk_perm {L L' : List LeafId} (h : L.Perm L') : ∀ (n : LathNode) (path : List Nat) (found : FoundTarget),
    targetWalk L path found n = targetWalk L' path found n
  | .leaf id, path, found => by
    have hmem : ∀ x, (x ∈ L) = (x ∈ L') := fun x => propext h.mem_iff
    simp only [targetWalk, hmem, h.length_eq]
  | .split d cs, path, found => by
    have hmem : ∀ x, (x ∈ L) = (x ∈ L') := fun x => propext h.mem_iff
    simp only [targetWalk, hmem, h.length_eq, wantedRange_perm h, targetWalkAll_perm h cs path found 0]
theorem targetWalkAll_perm {L L' : List LeafId} (h : L.Perm L') : ∀ (cs : List LathChild) (path : List Nat)
    (found : FoundTarget) (i : Nat), targetWalkAll L path found i cs = targetWalkAll L' path found i cs
  | [], path, found, i => by simp only [targetWalkAll]
  | ⟨n, w⟩ :: cs, path, found, i => by
    simp only [targetWalkAll, targetWalk_perm h n (path ++ [i]) found, targetWalkAll_perm h cs path _ (i + 1)]
end

theorem targetByLeafSet_perm {L L' : List LeafId} (h : L.Perm L') (t : LathTree) (edge : Edge) :
    targetByLeafSet t L edge = targetByLeafSet t L' edge := by
  simp only [targetByLeafSet, h.length_eq, targetWalk_perm h]

theorem targetByLeafSet_node (hcan : Canon exact n) (hnd : (nodeLeaves n).Nodup) (hp : nodeAt n p = some m) (edge : Edge) :
    targetByLeafSet ⟨some n⟩ (nodeLeaves m) edge = some (targetOfFound edge (p, none)) := by
  have hne := (nodeAt_canon p hcan hp).nodeLeaves_ne_nil
  unfold targetByLeafSet
  rw [if_neg (fun h => hne (List.length_eq_zero_iff.1 h))]
  dsimp only
  rw [targetWalk_at p hcan hnd hp hne (fun x hx => hx), List.nil_append]
  have hall : ∀ ids : List LeafId, ids.all (· ∈ ids) = true := fun ids => List.all_eq_true.2 (fun x hx => decide_eq_true hx)
  cases m with
  | leaf id => simp [targetWalk]
  | split d cs =>
    rw [targetWalk_snd, nodeLeaves_split, if_pos ⟨rfl, hall _⟩]
    rfl

theorem materializeTarget_node (hp : nodeAt n p = some m) (edge : Edge) :
    materializeTarget ⟨some n⟩ (targetOfFound edge (p, none)) = some (⟨some n⟩, p) := by
  unfold materializeTarget targetOfFound
  dsimp only
  rw [indexPath_ofNat]
  simp only [nodeAtPath, Option.bind_some, hp, Option.map_none]

/-- **Leaves no other leaf tells apart are found again, and what is found holds them and no others.** -/
theorem targetByLeafSet_together {n : LathNode} (hcan : Canon exact n) (hnd : (nodeLeaves n).Nodup) (hL : Together n L)
    (hne : L ≠ []) (hLn : L.Nodup) (edge : Edge) :
    ∃ target g m path, targetByLeafSet ⟨some n⟩ L edge = some target ∧ target.edge = edge ∧
      materializeTarget ⟨some n⟩ target = some (⟨some g⟩, path) ∧ nodeAt g path = some m ∧
      ∀ x, x ∈ nodeLeaves m ↔ x ∈ L := by
  cases hL.block hcan hnd hne with
  | @node p m hp leaves =>
    have hperm : L.Perm (nodeLeaves m) := (List.perm_ext_iff_of_nodup hLn (nodup_nodeAt hnd hp)).2 leaves
    exact ⟨_, n, m, p, (targetByLeafSet_perm hperm _ _).trans (targetByLeafSet_node hcan hnd hp edge), rfl,
      materializeTarget_node hp edge, hp, fun x => (leaves x).symm⟩
  | @run p d A B C hp two proper leaves =>
    have hBn : (leavesOf B).Nodup := by
      have := nodup_nodeAt hnd hp
      rw [nodeLeaves_split, List.flatMap_append, List.flatMap_append] at this
      exact (List.nodup_append.1 (List.nodup_append.1 this).1).2.1
    have hperm : L.Perm (leavesOf B) := (List.perm_ext_iff_of_nodup hLn hBn).2 leaves
    refine ⟨_, _, .split d (normalizeWeights B), _,
      (targetByLeafSet_perm hperm _ _).trans (targetByLeafSet_range hcan hnd hp two proper edge), rfl,
      materializeTarget_range hp two proper edge, nodeAt_group hp _ _, fun x => ?_⟩
    rw [nodeLeaves_split, flatMap_leaves_congr (map_node_normalizeWeights B), leaves]

/-! ## `move` -/

theorem Together.of_sides {n n' : LathNode} (h : Together n L) (hs : SameSides n n') : Together n' L :=
  ⟨fun x hx => (hs.leaves x).1 (h.sub x hx), fun x hx y hy z hz d => by
    rw [← hs.precedes, ← hs.precedes, ← hs.precedes, ← hs.precedes]
    exact h.alike x hx y hy z hz d⟩

theorem Restricted.together {n n' : LathNode} (h : Restricted ⟨some n⟩ id ⟨some n'⟩) (hL : Together n L) :
    Together n' (L.filter (· ≠ id)) := by
  have hmem : ∀ x, x ∈ L.filter (· ≠ id) ↔ x ∈ L ∧ x ≠ id := fun x => by simp
  have hp : ∀ d x y, Precedes d x y n' ↔ Precedes d x y n ∧ x ≠ id ∧ y ≠ id := fun d x y => by
    simpa using h.precedes d x y
  refine ⟨fun x hx => ?_, fun x hx y hy z hz d => ?_⟩
  · obtain ⟨hxL, hxid⟩ := (hmem x).1 hx
    exact (h.leaves x).2 ⟨hL.sub x hxL, hxid⟩
  · obtain ⟨hxL, hxid⟩ := (hmem x).1 hx
    obtain ⟨hyL, hyid⟩ := (hmem y).1 hy
    rw [hp, hp, hp, hp]
    have hzL : z ≠ id → z ∉ L := fun hzid hzL => hz ((hmem z).2 ⟨hzL, hzid⟩)
    exact ⟨fun ⟨h, hzid, _⟩ => ⟨(hL.alike x hxL y hyL z (hzL hzid) d).1 h, hzid, hyid⟩,
      fun ⟨h, _, hzid⟩ => ⟨(hL.alike x hxL y hyL z (hzL hzid) d).2 h, hyid, hzid⟩⟩

theorem materializeTarget_leaf {S : ℚ → Prop} {n g m : LathNode} (hc : Canon S n)
    (h : materializeTarget ⟨some n⟩ target = some (⟨some g⟩, path)) (hm : nodeAt g path = some m) : nodeLeaves m ≠ [] := by
  rcases materializeTarget_cases h with ⟨rfl, -⟩ | ⟨p, d, A, B, C, hp, two, -, rfl, rfl⟩
  · exact (nodeAt_canon path hc hm).nodeLeaves_ne_nil
  · rw [nodeAt_group hp, Option.some.injEq] at hm
    rw [← hm, nodeLeaves_split, flatMap_leaves_congr (map_node_normalizeWeights _)]
    obtain ⟨c, hcB⟩ := List.exists_mem_of_length_pos (show 0 < B.length by omega)
    obtain ⟨x, hx⟩ := List.exists_mem_of_ne_nil _ ((nodeAt_canon p hc hp).split_inv.2.2.2.2 c
      (List.mem_append_left _ (List.mem_append_right _ hcB))).nodeLeaves_ne_nil
    exact List.ne_nil_of_mem (mem_leavesOf.2 ⟨c, hcB, hx⟩)

def survivors (group : LathTree) (path : List Nat) (id : LeafId) : List LeafId :=
  ((leaves ⟨nodeAtPath group path⟩).filter (· ≠ id)).dedup

section
variable {S : ℚ → Prop} {n : LathNode} (h : Valid S ⟨some n⟩) {id : LeafId} (hid : id ∈ nodeLeaves n) {target : EdgeDropTarget}
  {g m : LathNode} {path : List Nat} (hmat : materializeTarget ⟨some n⟩ target = some (⟨some g⟩, path))
  (hm : nodeAt g path = some m) (hne : nodeLeaves m ≠ [id])
include h hid hmat hm hne

theorem destination_found : ∃ n₂ destination g₂ m₂ path₂, (remove ⟨some n⟩ id).tree = ⟨some n₂⟩ ∧ Valid exact ⟨some n₂⟩ ∧
    Restricted ⟨some n⟩ id ⟨some n₂⟩ ∧ targetByLeafSet ⟨some n₂⟩ (survivors ⟨some g⟩ path id) target.edge = some destination ∧
    destination.edge = target.edge ∧ materializeTarget ⟨some n₂⟩ destination = some (⟨some g₂⟩, path₂) ∧
    nodeAt g₂ path₂ = some m₂ ∧ ∀ x, x ∈ nodeLeaves m₂ ↔ x ∈ nodeLeaves m ∧ x ≠ id := by
  obtain ⟨g', -, hg, -, hgl, -⟩ := materializeTarget_spec (h.positive rfl) hmat
  cases hg
  have hnd : (nodeLeaves n).Nodup := h.nodup
  have hgnd : (nodeLeaves g).Nodup := hgl ▸ hnd
  have htog := (together_nodeAt hgnd hm).of_sides (materializeTarget_sides hmat)
  have hsurv : survivors ⟨some g⟩ path id = ((nodeLeaves m).filter (· ≠ id)).dedup := by
    unfold survivors nodeAtPath
    rw [Option.bind_some, hm]
    rfl
  have hmem : ∀ x, x ∈ survivors ⟨some g⟩ path id ↔ x ∈ nodeLeaves m ∧ x ≠ id := fun x => by
    rw [hsurv, List.mem_dedup, List.mem_filter]
    simp
  obtain ⟨x, hx, hxid⟩ : ∃ x ∈ nodeLeaves m, x ≠ id := by
    by_contra hno
    push Not at hno
    have hmn := nodup_nodeAt hgnd hm
    have hmne := materializeTarget_leaf (h.canon n rfl) hmat hm
    match hl : nodeLeaves m with
    | [] => exact hmne hl
    | [a] => exact hne (by rw [hl, hno a (by rw [hl]; simp)])
    | a :: b :: l =>
      rw [hl] at hmn
      have hab := (List.nodup_cons.1 hmn).1
      rw [hno a (by rw [hl]; simp), hno b (by rw [hl]; simp)] at hab
      simp at hab
  have hres := remove_sides h id
  have hvalid : Valid exact (remove ⟨some n⟩ id).tree := by
    rcases remove_spec h id with hr | ⟨-, -, hv, -⟩
    · have := (hres.leaves id).1 (by rw [hr]; exact hid)
      exact absurd rfl this.2
    · exact hv
  have hx₂ : x ∈ leaves (remove ⟨some n⟩ id).tree := (hres.leaves x).2 ⟨htog.sub x hx, hxid⟩
  match hroot : (remove ⟨some n⟩ id).tree with
  | ⟨none⟩ =>
    rw [hroot] at hx₂
    simp at hx₂
  | ⟨some n₂⟩ =>
    rw [hroot] at hres hvalid
    have htog₂ : Together n₂ (survivors ⟨some g⟩ path id) := (hres.together htog).congr (fun y => by
      rw [hmem, List.mem_filter]
      simp)
    obtain ⟨destination, g₂, m₂, path₂, hfound, hedge, hmat₂, hm₂, hleaves⟩ := targetByLeafSet_together
      (hvalid.canon n₂ rfl) hvalid.nodup htog₂ (List.ne_nil_of_mem ((hmem x).2 ⟨hx, hxid⟩))
      (by rw [hsurv]; exact List.nodup_dedup _) target.edge
    exact ⟨n₂, destination, g₂, m₂, path₂, rfl, hvalid, hres, hfound, hedge, hmat₂, hm₂,
      fun y => (hleaves y).trans (hmem y)⟩

/-- **A move past its checks**: the leaf is inserted beside the leaves the target keeps, or the tree is answered as it was. -/
theorem move_accepted : ∃ n₂ destination g₂ path₂ m₂ size n', (remove ⟨some n⟩ id).tree = ⟨some n₂⟩ ∧ Valid exact ⟨some n₂⟩ ∧
    Restricted ⟨some n⟩ id ⟨some n₂⟩ ∧ targetByLeafSet ⟨some n₂⟩ (survivors ⟨some g⟩ path id) target.edge = some destination ∧
    (materializeTarget ⟨some n₂⟩ destination = some (⟨some g₂⟩, path₂) ∧ nodeAt g₂ path₂ = some m₂) ∧
    (∀ x, x ∈ nodeLeaves m₂ ↔ x ∈ nodeLeaves m ∧ x ≠ id) ∧ moveSize ⟨some n⟩ id target = some size ∧
    (∀ keep, (insertImpl ⟨some n₂⟩ id (.edge destination) size keep).ok = true) ∧ Valid exact ⟨some n'⟩ ∧
    Joined n₂ id target.edge (nodeLeaves m₂) n' ∧
    (move ⟨some n⟩ id (.edge target) = ⟨⟨some n'⟩, true⟩ ∨
      strip n' = strip n ∧ move ⟨some n⟩ id (.edge target) = ⟨⟨some n⟩, true⟩) := by
  obtain ⟨n₂, destination, g₂, m₂, path₂, hn₂, hvalid, hres, hfound, hedge, hmat₂, hm₂, hleaves⟩ :=
    destination_found h hid hmat hm hne
  obtain ⟨idPath, hfind⟩ := Option.ne_none_iff_exists'.1 (findLeafPath_ne_none.2 (show id ∈ leaves ⟨some n⟩ from hid))
  obtain ⟨size, hsize, hnan⟩ : ∃ size, moveSize ⟨some n⟩ id target = some size ∧ size.isNaN = false := by
    unfold moveSize
    rw [hfind, hmat]
    dsimp only
    split
    · exact ⟨_, rfl, rfl⟩
    · exact ⟨_, rfl, rfl⟩
  have hid₂ : id ∉ nodeLeaves n₂ := fun hx => ((hres.leaves id).1 hx).2 rfl
  have hm' : nodeAtPath ⟨some g⟩ path = some m := hm
  have hsurv : survivors ⟨some g⟩ path id = ((nodeLeaves m).filter (· ≠ id)).dedup := by
    unfold survivors
    rw [hm']
    rfl
  have hins := fun keep => insertImpl_sides hvalid hid₂ hnan keep hmat₂ hm₂
  obtain ⟨n', hins', hv', hj⟩ := hins (isOwnSplit n id idPath (materializeTarget ⟨some n₂⟩ destination))
  refine ⟨n₂, destination, g₂, path₂, m₂, size, n', hn₂, hvalid, hres, hfound, ⟨hmat₂, hm₂⟩, hleaves, hsize, fun keep => ?_,
    hv', hedge ▸ hj, ?_⟩
  · obtain ⟨_, hk, -⟩ := hins keep
    rw [hk]
  · rw [hsurv] at hfound
    unfold move
    simp only [hfind, hmat, hm', leaves_mk_some, hne, if_false, hn₂, hsize, hfound, hins', Bool.not_true, Bool.false_eq_true]
    split
    · rename_i hs
      rw [Option.map_some, Option.some.injEq, structureFingerprint_inj] at hs
      exact .inr ⟨hs, rfl⟩
    · exact .inl rfl

end

theorem move_refused {t : LathTree}
    (h : id ∉ leaves t ∨ materializeTarget t target = none ∨ ∃ group path, materializeTarget t target = some (group, path) ∧ leaves ⟨nodeAtPath group path⟩ = [id]) :
    
    (move t id (.edge target)).ok = false := by
  rcases t with ⟨_ | n⟩
  · rfl
  unfold move
  rcases h with hid | hmat | ⟨group, path, hmat, hone⟩
  · rw [findLeafPath_eq_none.2 hid]
  · cases findLeafPath ⟨some n⟩ id with
    | none => rfl
    | some _ => simp only [hmat]
  · cases findLeafPath ⟨some n⟩ id with
    | none => rfl
    | some _ => simp only [hmat, hone, if_true]

theorem materializeTarget_root {S : ℚ → Prop} {n : LathNode} (h : Valid S ⟨some n⟩) {group : LathTree}
    (hmat : materializeTarget ⟨some n⟩ target = some (group, path)) :
    ∃ g m, group = ⟨some g⟩ ∧ nodeAt g path = some m ∧ leaves ⟨nodeAtPath group path⟩ = nodeLeaves m := by
  obtain ⟨g, m, hg, -, -, hm⟩ := materializeTarget_spec (h.positive rfl) hmat
  rcases group with ⟨r⟩
  cases hg
  exact ⟨g, m, rfl, hm, by rw [nodeAtPath, Option.bind_some, hm]; rfl⟩

/-- **A move is refused for its arguments alone**: the leaf is absent, the target names nothing, or nothing but the leaf.  Otherwise
what is left of the target is found again, and the insert beside it succeeds. -/
theorem move_rejects_iff (t : LathTree) (h : validate t = []) (id : LeafId) (target : EdgeDropTarget) :
    ((move t id (.edge target)).ok = false ↔ id ∉ leaves t ∨ materializeTarget t target = none ∨
      ∃ group path, materializeTarget t target = some (group, path) ∧ leaves ⟨nodeAtPath group path⟩ = [id]) ∧
    ∀ group path, id ∈ leaves t → materializeTarget t target = some (group, path) →
      leaves ⟨nodeAtPath group path⟩ ≠ [id] →
        ∃ destination group' path' size,
          targetByLeafSet (remove t id).tree (survivors group path id) target.edge = some destination ∧
          materializeTarget (remove t id).tree destination = some (group', path') ∧
          (∀ x, x ∈ leaves ⟨nodeAtPath group' path'⟩ ↔ x ∈ survivors group path id) ∧
          moveSize t id target = some size ∧
          ∀ keep, (insertImpl (remove t id).tree id (.edge destination) size keep).ok = true := by
  have hvalid := (validate_eq_nil t).1 h
  rcases t with ⟨_ | n⟩
  · refine ⟨⟨fun _ => .inl (by simp), fun _ => rfl⟩, fun group path hid => absurd hid (by simp)⟩
  refine ⟨⟨fun hok => ?_, move_refused⟩, fun group path hid hmat hne => ?_⟩
  · by_contra hno
    push Not at hno
    obtain ⟨hid, hmat, hne⟩ := hno
    obtain ⟨⟨group, path⟩, hmat⟩ := Option.ne_none_iff_exists'.1 hmat
    have hne := hne group path hmat
    obtain ⟨g, m, rfl, hm, hl⟩ := materializeTarget_root hvalid hmat
    rw [hl] at hne
    obtain ⟨_, _, _, _, _, _, _, -, -, -, -, -, -, -, -, -, -, hmove | ⟨-, hmove⟩⟩ :=
      move_accepted hvalid hid hmat hm hne
    · rw [hmove] at hok
      cases hok
    · rw [hmove] at hok
      cases hok
  · obtain ⟨g, m, rfl, hm, hl⟩ := materializeTarget_root hvalid hmat
    rw [hl] at hne
    obtain ⟨n₂, destination, g₂, path₂, m₂, size, -, hn₂, -, -, hfound, ⟨hmat₂, hm₂⟩, hleaves, hsize, hins, -, -, -⟩ :=
      move_accepted hvalid hid hmat hm hne
    rw [hn₂]
    refine ⟨destination, ⟨some g₂⟩, path₂, size, hfound, hmat₂, fun x => ?_, hsize, hins⟩
    rw [survivors, List.mem_dedup, List.mem_filter, hl, nodeAtPath, Option.bind_some, hm₂, leaves_mk_some, hleaves]
    simp

/-- A leaf of the column dropped on the column itself: the other leaf is found where the column was. -/
theorem move_rejects_iff_cornerTree : validate cornerTree = [] ∧
    (move cornerTree (units "b") (.edge ⟨[.ofNat 1], .left, none⟩)).ok = true ∧
    ∃ destination, targetByLeafSet (remove cornerTree (units "b")).tree (survivors cornerTree [1] (units "b")) .left =
      some destination := by
  have hv : validate cornerTree = [] := (validate_eq_nil _).2 (cornerTree_valid.imp (fun _ => near_of_exact))
  have hmat : materializeTarget cornerTree ⟨[.ofNat 1], .left, none⟩ = some (cornerTree, [1]) := rfl
  have hne : leaves ⟨nodeAtPath cornerTree [1]⟩ ≠ [units "b"] := by decide
  obtain ⟨hiff, hfound⟩ := move_rejects_iff cornerTree hv (units "b") ⟨[.ofNat 1], .left, none⟩
  obtain ⟨destination, -, -, -, h, -⟩ := hfound cornerTree [1] (by decide) hmat hne
  refine ⟨hv, ?_, destination, h⟩
  rw [← Bool.not_eq_false, hiff]
  rintro (hid | hnone | ⟨group, path, hsome, hone⟩)
  · exact hid (by decide)
  · rw [hmat] at hnone
    cases hnone
  · rw [hmat] at hsome
    cases hsome
    exact hne hone

end Lath
end Dormouse

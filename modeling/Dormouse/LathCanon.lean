import Dormouse.LathModel
import Mathlib.Tactic.Positivity
/-!
# LathCanon — what `normalize` re-establishes

`Canon S` is the invariant of one node: at least two children per split, no split directly inside one of its own
direction, positive weights, and a sum of weights that `S` accepts.  `Valid S` adds distinct leaf ids.  `validate`
decides `Valid near`, its tolerance included (`validate_eq_nil`); the operations rebuild `Valid exact`.

Every operation hands `normalize` a tree whose weights are merely positive, so `normalize_canon` and
`nodeLeaves_normalize` are the only facts about it an operation needs: the result is canonical with exact sums, and its
leaves are the input's, in order.
-/
namespace Dormouse
namespace Lath

/-- A node is canonical, up to what is asked of a split's weight sum. -/
inductive Canon (S : ℚ → Prop) : LathNode → Prop where
  | leaf (id : LeafId) : Canon S (.leaf id)
  | split {d : Dir} {cs : List LathChild} (count : 2 ≤ cs.length) (pos : ∀ c ∈ cs, 0 < c.weight)
      (sum : S (weightSum cs)) (alt : ∀ c ∈ cs, c.node.dir? ≠ some d) (child : ∀ c ∈ cs, Canon S c.node) :
      Canon S (.split d cs)

def exact (s : ℚ) : Prop := s = 1

/-- The weights of a split sum to 1 within `validate`'s tolerance. -/
def near (s : ℚ) : Prop := |s - 1| ≤ 1 / 1000000

structure Valid (S : ℚ → Prop) (tree : LathTree) : Prop where
  canon : ∀ n ∈ tree.root, Canon S n
  nodup : (leaves tree).Nodup

/-- Every weight of a node is positive: all `normalize` asks of its input. -/
inductive Positive : LathNode → Prop where
  | leaf (id : LeafId) : Positive (.leaf id)
  | split {d : Dir} {cs : List LathChild} (pos : ∀ c ∈ cs, 0 < c.weight) (child : ∀ c ∈ cs, Positive c.node) :
      Positive (.split d cs)

theorem near_of_exact {s : ℚ} (h : exact s) : near s := by
  unfold exact at h; subst h; unfold near; simp

variable {n : LathNode}

theorem Canon.imp {S T : ℚ → Prop} (h : ∀ s, S s → T s) (hn : Canon S n) : Canon T n := by
  induction hn with
  | leaf id => exact .leaf id
  | split count pos sum alt _ ih => exact .split count pos (h _ sum) alt ih

theorem Valid.imp {S T : ℚ → Prop} (h : ∀ s, S s → T s) {t : LathTree} (ht : Valid S t) : Valid T t :=
  ⟨fun n hn => (ht.canon n hn).imp h, ht.nodup⟩

theorem Canon.positive {S : ℚ → Prop} (h : Canon S n) : Positive n := by
  induction h with
  | leaf id => exact .leaf id
  | split _ pos _ _ _ ih => exact .split pos ih

variable {d : Dir} {cs : List LathChild}

theorem Canon.split_inv {S : ℚ → Prop} (h : Canon S (.split d cs)) :
    2 ≤ cs.length ∧ (∀ c ∈ cs, 0 < c.weight) ∧ S (weightSum cs) ∧ (∀ c ∈ cs, c.node.dir? ≠ some d) ∧
      ∀ c ∈ cs, Canon S c.node := by
  cases h with
  | split count pos sum alt child => exact ⟨count, pos, sum, alt, child⟩

theorem Positive.split_inv (h : Positive (.split d cs)) :
    (∀ c ∈ cs, 0 < c.weight) ∧ ∀ c ∈ cs, Positive c.node := by
  cases h with
  | split pos child => exact ⟨pos, child⟩

/-! ## Weights -/

@[simp] theorem weightSum_nil : weightSum [] = 0 := rfl

@[simp] theorem weightSum_cons (c : LathChild) (cs : List LathChild) :
    weightSum (c :: cs) = c.weight + weightSum cs := by
  simp [weightSum]

@[simp] theorem weightSum_append (as bs : List LathChild) : weightSum (as ++ bs) = weightSum as + weightSum bs := by
  simp [weightSum]

theorem weightSum_scale (k : ℚ) : ∀ (cs : List LathChild),
    weightSum (cs.map (fun c => ⟨c.node, c.weight * k⟩)) = weightSum cs * k
  | [] => by simp
  | c :: cs => by
    simp only [List.map_cons, weightSum_cons, weightSum_scale k cs]
    ring

theorem weightSum_div (k : ℚ) (cs : List LathChild) :
    weightSum (cs.map (fun c => ⟨c.node, c.weight / k⟩)) = weightSum cs / k := by
  simp only [div_eq_mul_inv]
  exact weightSum_scale _ cs

theorem weightSum_nonneg : ∀ (cs : List LathChild), (∀ c ∈ cs, 0 < c.weight) → 0 ≤ weightSum cs
  | [], _ => le_refl _
  | c :: cs, h => by
    have hc := h c (by simp)
    have hcs := weightSum_nonneg cs (fun x hx => h x (by simp [hx]))
    rw [weightSum_cons]
    linarith

theorem weightSum_pos (hne : cs ≠ []) (h : ∀ c ∈ cs, 0 < c.weight) : 0 < weightSum cs := by
  cases cs with
  | nil => exact absurd rfl hne
  | cons c cs =>
    have hc := h c (by simp)
    have hcs := weightSum_nonneg cs (fun x hx => h x (by simp [hx]))
    rw [weightSum_cons]
    linarith

theorem normalizeWeights_of_pos (h : 0 < weightSum cs) :
    normalizeWeights cs = cs.map (fun c => ⟨c.node, c.weight / weightSum cs⟩) := by
  unfold normalizeWeights
  rw [if_neg (not_le.2 h)]

theorem map_node_normalizeWeights (cs : List LathChild) :
    (normalizeWeights cs).map (·.node) = cs.map (·.node) := by
  unfold normalizeWeights
  dsimp only
  split <;> simp [Function.comp_def]

@[simp] theorem length_normalizeWeights (cs : List LathChild) : (normalizeWeights cs).length = cs.length := by
  simpa using congrArg List.length (map_node_normalizeWeights cs)

theorem normalizeWeights_of_sum_one (h : weightSum cs = 1) : normalizeWeights cs = cs := by
  rw [normalizeWeights_of_pos (by rw [h]; norm_num), h]
  simp

/-- **Weights that are positive stay positive under `normalizeWeights`, and then sum to exactly 1.** -/
theorem normalizeWeights_spec (hne : cs ≠ []) (h : ∀ c ∈ cs, 0 < c.weight) :
    (∀ c ∈ normalizeWeights cs, 0 < c.weight) ∧ weightSum (normalizeWeights cs) = 1 := by
  have hs := weightSum_pos hne h
  rw [normalizeWeights_of_pos hs]
  refine ⟨fun c hc => ?_, ?_⟩
  · obtain ⟨c₀, hc₀, rfl⟩ := List.mem_map.1 hc
    exact div_pos (h c₀ hc₀) hs
  · rw [weightSum_div, div_self (ne_of_gt hs)]

theorem forall_node_normalizeWeights {P : LathNode → Prop} (h : ∀ c ∈ cs, P c.node) :
    ∀ c ∈ normalizeWeights cs, P c.node := by
  intro c hc
  have hm : c.node ∈ cs.map (·.node) := by
    rw [← map_node_normalizeWeights cs]
    exact List.mem_map.2 ⟨c, hc, rfl⟩
  obtain ⟨c₀, hc₀, he⟩ := List.mem_map.1 hm
  rw [← he]
  exact h c₀ hc₀

/-! ## Leaves -/

theorem childLeaves_eq : ∀ (cs : List LathChild), childLeaves cs = cs.flatMap (fun c => nodeLeaves c.node)
  | [] => by simp [childLeaves]
  | ⟨n, w⟩ :: cs => by simp [childLeaves, childLeaves_eq cs]

@[simp] theorem nodeLeaves_leaf (id : LeafId) : nodeLeaves (.leaf id) = [id] := by simp [nodeLeaves]

@[simp] theorem nodeLeaves_split (d : Dir) (cs : List LathChild) :
    nodeLeaves (.split d cs) = cs.flatMap (fun c => nodeLeaves c.node) := by
  rw [nodeLeaves, childLeaves_eq]

theorem flatMap_leaves_congr {as bs : List LathChild} (h : as.map (·.node) = bs.map (·.node)) :
    as.flatMap (fun c => nodeLeaves c.node) = bs.flatMap (fun c => nodeLeaves c.node) := by
  have key : ∀ cs : List LathChild,
      cs.flatMap (fun c => nodeLeaves c.node) = (cs.map (·.node)).flatMap nodeLeaves := fun cs => by
    rw [List.flatMap_map]
  rw [key, key, h]

@[simp] theorem leaves_mk_some (n : LathNode) : leaves ⟨some n⟩ = nodeLeaves n := rfl
@[simp] theorem leaves_mk_none : leaves ⟨none⟩ = [] := rfl

theorem Canon.nodeLeaves_ne_nil {S : ℚ → Prop} (h : Canon S n) : nodeLeaves n ≠ [] := by
  induction h with
  | leaf id => simp
  | @split d cs count pos sum alt child ih =>
    cases cs with
    | nil => simp at count
    | cons c cs =>
      have := ih c (by simp)
      simp [this]

/-! ## `normalize` -/

@[simp] theorem normalize_leaf (id : LeafId) : normalize (.leaf id) = some (.leaf id) := by simp [normalize]

theorem collect_eq (d : Dir) : ∀ (cs : List LathChild),
    collect d cs = cs.flatMap (fun c => flattenInto d c.weight (normalize c.node))
  | [] => by simp [collect]
  | ⟨n, w⟩ :: cs => by simp [collect, collect_eq d cs]

theorem normalize_split (d : Dir) (cs : List LathChild) :
    normalize (.split d cs) =
      match collect d cs with
      | [] => none
      | [c] => some c.node
      | c :: c' :: cs' => some (.split d (normalizeWeights (c :: c' :: cs'))) := by
  unfold normalize
  rcases collect d cs with _ | ⟨c, _ | ⟨c', cs'⟩⟩ <;> rfl

@[simp] theorem flattenInto_split (d d' : Dir) (w : ℚ) (gcs : List LathChild) :
    flattenInto d w (some (.split d' gcs)) =
      if d' = d then gcs.map (fun gc => ⟨gc.node, gc.weight * w⟩) else [⟨.split d' gcs, w⟩] := rfl

def optLeaves (n? : Option LathNode) : List LeafId := leaves ⟨n?⟩

@[simp] theorem optLeaves_none : optLeaves none = [] := rfl
@[simp] theorem optLeaves_some (n : LathNode) : optLeaves (some n) = nodeLeaves n := rfl

theorem leaves_flattenInto (d : Dir) (w : ℚ) (n? : Option LathNode) :
    (flattenInto d w n?).flatMap (fun c => nodeLeaves c.node) = optLeaves n? := by
  match n? with
  | none => rfl
  | some (.leaf id) => simp [flattenInto]
  | some (.split d' gcs) =>
    rw [flattenInto_split]
    split
    · simp [List.flatMap_map]
    · simp

/-- **`normalize` keeps the leaves, in order.** -/
theorem nodeLeaves_normalize (n : LathNode) : optLeaves (normalize n) = nodeLeaves n := by
  induction n using LathNode.ind with
  | leaf id => simp
  | split d cs ih =>
    have hcol : (collect d cs).flatMap (fun c => nodeLeaves c.node) = cs.flatMap (fun c => nodeLeaves c.node) := by
      rw [collect_eq, List.flatMap_assoc]
      exact List.flatMap_congr (fun c hc => by rw [leaves_flattenInto, ih c hc])
    rw [normalize_split, nodeLeaves_split, ← hcol]
    split
    · rename_i h; simp [h]
    · rename_i c h; simp [h]
    · rename_i c c' cs' h
      rw [optLeaves_some, nodeLeaves_split, flatMap_leaves_congr (map_node_normalizeWeights _), h]

/-- What `normalize` hands back of a child is canonical, not of the parent's direction, and positively weighted. -/
theorem flattenInto_canon {w : ℚ} (hw : 0 < w) {n? : Option LathNode} (hn : ∀ n ∈ n?, Canon exact n) :
    ∀ c ∈ flattenInto d w n?, 0 < c.weight ∧ c.node.dir? ≠ some d ∧ Canon exact c.node := by
  intro c hc
  match n? with
  | none => simp [flattenInto] at hc
  | some (.leaf id) =>
    simp only [flattenInto, List.mem_singleton] at hc
    subst hc
    exact ⟨hw, by simp [LathNode.dir?], .leaf id⟩
  | some (.split d' gcs) =>
    have hcan := hn _ rfl
    obtain ⟨_, pos, _, alt, child⟩ := hcan.split_inv
    rw [flattenInto_split] at hc
    split at hc
    · rename_i hd
      subst hd
      obtain ⟨g, hg, rfl⟩ := List.mem_map.1 hc
      exact ⟨mul_pos (pos g hg) hw, alt g hg, child g hg⟩
    · rename_i hd
      simp only [List.mem_singleton] at hc
      subst hc
      exact ⟨hw, by simpa [LathNode.dir?] using hd, hcan⟩

/-- **`normalize` of positive weights is canonical with exact sums.** -/
theorem normalize_canon (h : Positive n) : ∀ m ∈ normalize n, Canon exact m := by
  induction n using LathNode.ind with
  | leaf id =>
    intro m hm
    simp only [normalize_leaf, Option.mem_some_iff] at hm
    subst hm
    exact .leaf id
  | split d cs ih =>
    obtain ⟨pos, child⟩ := h.split_inv
    have hcol : ∀ c ∈ collect d cs, 0 < c.weight ∧ c.node.dir? ≠ some d ∧ Canon exact c.node := by
      intro c hc
      rw [collect_eq, List.mem_flatMap] at hc
      obtain ⟨c₀, hc₀, hc⟩ := hc
      exact flattenInto_canon (pos c₀ hc₀) (ih c₀ hc₀ (child c₀ hc₀)) c hc
    intro m hm
    rw [normalize_split] at hm
    split at hm
    · cases hm
    · rename_i c hc
      cases hm
      exact (hcol c (by simp [hc])).2.2
    · rename_i c c' cs' hc
      cases hm
      rw [hc] at hcol
      obtain ⟨hpos, hsum⟩ := normalizeWeights_spec (by simp) (fun x hx => (hcol x hx).1)
      exact .split (by simp) hpos hsum
        (forall_node_normalizeWeights (P := fun n => n.dir? ≠ some d) (fun x hx => (hcol x hx).2.1))
        (forall_node_normalizeWeights (P := Canon exact) (fun x hx => (hcol x hx).2.2))

theorem flattenInto_self {w : ℚ} (h : n.dir? ≠ some d) :
    flattenInto d w (some n) = [⟨n, w⟩] := by
  cases n with
  | leaf id => rfl
  | split d' gcs =>
    have : d' ≠ d := fun he => h (by simp [LathNode.dir?, he])
    simp [flattenInto, this]

/-- Children that `normalize` leaves alone and that are not of the parent's direction are collected as they are. -/
theorem collect_self (hn : ∀ c ∈ cs, normalize c.node = some c.node) (alt : ∀ c ∈ cs, c.node.dir? ≠ some d) :
    collect d cs = cs := by
  rw [collect_eq]
  have : ∀ c ∈ cs, flattenInto d c.weight (normalize c.node) = [c] := fun c hc => by
    rw [hn c hc, flattenInto_self (alt c hc)]
  rw [List.flatMap_congr this, List.flatMap_singleton']

theorem normalize_split_of_collect {cs cs' : List LathChild} (h : collect d cs = cs') (hl : 2 ≤ cs'.length) :
    normalize (.split d cs) = some (.split d (normalizeWeights cs')) := by
  rw [normalize_split, h]
  match cs', hl with
  | _ :: _ :: _, _ => rfl

/-- **A canonical node with exact sums is a fixed point of `normalize`.** -/
theorem normalize_of_canon (h : Canon exact n) : normalize n = some n := by
  induction h with
  | leaf id => simp
  | @split d cs count pos sum alt child ih =>
    rw [normalize_split_of_collect (collect_self ih alt) count, normalizeWeights_of_sum_one sum]

/-! ## Paths -/

@[simp] theorem nodeAt_nil (n : LathNode) : nodeAt n [] = some n := by cases n <;> rfl

@[simp] theorem nodeAt_leaf_cons (id : LeafId) (i : Nat) (p : List Nat) : nodeAt (.leaf id) (i :: p) = none := rfl

@[simp] theorem nodeAt_split_cons (d : Dir) (cs : List LathChild) (i : Nat) (p : List Nat) :
    nodeAt (.split d cs) (i :: p) = cs[i]?.bind (fun c => nodeAt c.node p) := rfl

theorem nodeAt_append : ∀ (p q : List Nat) (n : LathNode), nodeAt n (p ++ q) = (nodeAt n p).bind (nodeAt · q)
  | [], q, n => by simp
  | i :: p, q, .leaf id => by simp
  | i :: p, q, .split d cs => by
    simp only [List.cons_append, nodeAt_split_cons]
    cases cs[i]? with
    | none => rfl
    | some c => simpa using nodeAt_append p q c.node

theorem nodeAt_parent {n m : LathNode} {p : List Nat} {i : Nat} (h : nodeAt n (p ++ [i]) = some m) :
    ∃ d cs w, nodeAt n p = some (.split d cs) ∧ cs[i]? = some ⟨m, w⟩ := by
  rw [nodeAt_append] at h
  obtain ⟨k, hk, hi⟩ := Option.bind_eq_some_iff.1 h
  cases k with
  | leaf id => simp at hi
  | split d cs =>
    simp only [nodeAt_split_cons] at hi
    obtain ⟨⟨n', w⟩, hc, hn⟩ := Option.bind_eq_some_iff.1 hi
    simp only [nodeAt_nil, Option.some.injEq] at hn
    subst hn
    exact ⟨d, cs, w, hk, hc⟩

@[simp] theorem replaceAtPath_nil (n r : LathNode) : replaceAtPath n [] r = r := by cases n <;> rfl

theorem replaceAtPath_cons {i : Nat} {c : LathChild} (h : cs[i]? = some c) (p : List Nat) (r : LathNode) :
    replaceAtPath (.split d cs) (i :: p) r = .split d (cs.set i ⟨replaceAtPath c.node p r, c.weight⟩) := by
  simp [replaceAtPath, h]

theorem nodeAt_canon {S : ℚ → Prop} : ∀ (p : List Nat) {n m : LathNode}, Canon S n → nodeAt n p = some m → Canon S m
  | [], n, m, hn, h => by simp at h; exact h ▸ hn
  | i :: p, .leaf id, m, _, h => by simp at h
  | i :: p, .split d cs, m, hn, h => by
    simp only [nodeAt_split_cons] at h
    obtain ⟨c, hc, hm⟩ := Option.bind_eq_some_iff.1 h
    exact nodeAt_canon p (hn.split_inv.2.2.2.2 c (List.mem_of_getElem? hc)) hm

theorem positive_set (pos : ∀ c ∈ cs, 0 < c.weight) (child : ∀ c ∈ cs, Positive c.node) (i : Nat) (b : LathChild)
    (hw : 0 < b.weight) (hn : Positive b.node) :
    (∀ c ∈ cs.set i b, 0 < c.weight) ∧ ∀ c ∈ cs.set i b, Positive c.node := by
  refine ⟨fun c hc => ?_, fun c hc => ?_⟩ <;> rcases List.mem_or_eq_of_mem_set hc with h | h
  · exact pos c h
  · exact h ▸ hw
  · exact child c h
  · exact h ▸ hn

theorem replaceAtPath_positive : ∀ (p : List Nat) {n r : LathNode}, Positive n → Positive r →
    Positive (replaceAtPath n p r)
  | [], n, r, _, hr => by simpa using hr
  | i :: p, .leaf id, r, _, _ => .leaf id
  | i :: p, .split d cs, r, hn, hr => by
    obtain ⟨pos, child⟩ := hn.split_inv
    cases hc : cs[i]? with
    | none => simpa [replaceAtPath, hc] using hn
    | some c =>
      have hm := List.mem_of_getElem? hc
      rw [replaceAtPath_cons hc]
      obtain ⟨h1, h2⟩ := positive_set pos child i ⟨replaceAtPath c.node p r, c.weight⟩ (pos c hm)
        (replaceAtPath_positive p (child c hm) hr)
      exact .split h1 h2

theorem split_at_getElem? {α : Type} {l : List α} {i : Nat} {a : α} (h : l[i]? = some a) :
    l = l.take i ++ a :: l.drop (i + 1) ∧ ∀ b, l.set i b = l.take i ++ b :: l.drop (i + 1) := by
  obtain ⟨hi, rfl⟩ := List.getElem?_eq_some_iff.1 h
  refine ⟨?_, fun b => List.set_eq_take_cons_drop b hi⟩
  conv => lhs; rw [← List.set_getElem_self hi]
  exact List.set_eq_take_cons_drop _ hi

/-- **Replacing a subtree replaces its run of leaves and nothing else.** -/
theorem nodeLeaves_replaceAtPath : ∀ (p : List Nat) {n m : LathNode}, nodeAt n p = some m →
    ∃ pre post, nodeLeaves n = pre ++ nodeLeaves m ++ post ∧
      ∀ r, nodeLeaves (replaceAtPath n p r) = pre ++ nodeLeaves r ++ post
  | [], n, m, h => by
    simp only [nodeAt_nil, Option.some.injEq] at h
    subst h
    exact ⟨[], [], by simp, fun r => by simp⟩
  | i :: p, .leaf id, m, h => by simp at h
  | i :: p, .split d cs, m, h => by
    simp only [nodeAt_split_cons] at h
    obtain ⟨c, hc, hm⟩ := Option.bind_eq_some_iff.1 h
    obtain ⟨pre, post, he, hr⟩ := nodeLeaves_replaceAtPath p hm
    obtain ⟨hcs, hset⟩ := split_at_getElem? hc
    refine ⟨(cs.take i).flatMap (fun c => nodeLeaves c.node) ++ pre,
      post ++ (cs.drop (i + 1)).flatMap (fun c => nodeLeaves c.node), ?_, fun r => ?_⟩
    · rw [nodeLeaves_split]
      conv => lhs; rw [hcs]
      simp [he]
    · rw [replaceAtPath_cons hc, nodeLeaves_split, hset]
      simp [hr r]

/-! ## Finding a leaf -/

mutual
theorem findLeaf_isSome (id : LeafId) : ∀ (n : LathNode), (findLeaf id n).isSome = true ↔ id ∈ nodeLeaves n
  | .leaf id' => by
    by_cases h : id' = id
    · simp [findLeaf, h]
    · simp [findLeaf, h, Ne.symm h]
  | .split d cs => by rw [findLeaf, nodeLeaves_split, findLeafIn_isSome id 0 cs]
theorem findLeafIn_isSome (id : LeafId) (i : Nat) : ∀ (cs : List LathChild),
    (findLeafIn id i cs).isSome = true ↔ id ∈ cs.flatMap (fun c => nodeLeaves c.node)
  | [] => by simp [findLeafIn]
  | ⟨n, w⟩ :: cs => by
    have hn := findLeaf_isSome id n
    have hcs := findLeafIn_isSome id (i + 1) cs
    rw [findLeafIn, List.flatMap_cons, List.mem_append, ← hn]
    cases findLeaf id n with
    | some p => simp
    | none => simpa using hcs
end

mutual
theorem nodeAt_of_findLeaf (id : LeafId) : ∀ (n : LathNode) (p : List Nat), findLeaf id n = some p →
    nodeAt n p = some (.leaf id)
  | .leaf id', p, h => by
    unfold findLeaf at h
    split at h
    · rename_i he; cases h; simp [he]
    · cases h
  | .split d cs, p, h => by
    rw [findLeaf] at h
    obtain ⟨j, q, rfl, c, hc, hq⟩ := nodeAt_of_findLeafIn id 0 cs p h
    simp [nodeAt_split_cons, show cs[j]? = some c by simpa using hc, hq]
theorem nodeAt_of_findLeafIn (id : LeafId) (i : Nat) : ∀ (cs : List LathChild) (p : List Nat),
    findLeafIn id i cs = some p →
      ∃ j q, p = (i + j) :: q ∧ ∃ c, cs[j]? = some c ∧ nodeAt c.node q = some (.leaf id)
  | [], p, h => by simp [findLeafIn] at h
  | ⟨n, w⟩ :: cs, p, h => by
    rw [findLeafIn] at h
    cases hn : findLeaf id n with
    | some q =>
      rw [hn] at h
      cases h
      exact ⟨0, q, rfl, ⟨n, w⟩, rfl, nodeAt_of_findLeaf id n q hn⟩
    | none =>
      rw [hn] at h
      obtain ⟨j, q, rfl, c, hc, hq⟩ := nodeAt_of_findLeafIn id (i + 1) cs p h
      exact ⟨j + 1, q, by rw [Nat.add_assoc, Nat.add_comm 1 j], c, by simpa using hc, hq⟩
end

theorem findLeafPath_eq_none {t : LathTree} {id : LeafId} : findLeafPath t id = none ↔ id ∉ leaves t := by
  rcases t with ⟨_ | n⟩
  · simp [findLeafPath]
  · have := findLeaf_isSome id n
    simp only [findLeafPath, Option.bind_some, leaves_mk_some, ← this]
    cases findLeaf id n <;> simp

theorem findLeafPath_ne_none {t : LathTree} {id : LeafId} : findLeafPath t id ≠ none ↔ id ∈ leaves t := by
  rw [Ne, findLeafPath_eq_none, not_not]

theorem findLeafPath_spec {t : LathTree} {id : LeafId} {p : List Nat} (h : findLeafPath t id = some p) :
    ∃ n, t.root = some n ∧ nodeAt n p = some (.leaf id) ∧ id ∈ leaves t := by
  have hm : id ∈ leaves t := findLeafPath_ne_none.1 (by simp [h])
  obtain ⟨n, hn, hp⟩ := Option.bind_eq_some_iff.1 h
  exact ⟨n, hn, nodeAt_of_findLeaf id n p hp, hm⟩

/-! ## `validate` decides the invariant -/

theorem badWeights_eq_nil (path : List Nat) : ∀ (i : Nat) (cs : List LathChild),
    badWeights path i cs = [] ↔ ∀ c ∈ cs, 0 < c.weight
  | i, [] => by simp [badWeights]
  | i, c :: cs => by
    rw [badWeights, List.append_eq_nil_iff, badWeights_eq_nil path (i + 1) cs, List.forall_mem_cons]
    by_cases h : c.weight ≤ 0
    · simp [h]
    · simp [h, not_le.1 h]

theorem splitViolations_eq_nil (path : List Nat) (pd : Option Dir) (d : Dir) (cs : List LathChild) :
    splitViolations path pd d cs = [] ↔
      pd ≠ some d ∧ 2 ≤ cs.length ∧ (∀ c ∈ cs, 0 < c.weight) ∧ near (weightSum cs) := by
  unfold splitViolations
  simp only [List.append_eq_nil_iff, badWeights_eq_nil, ite_eq_right_iff, imp_false, not_and, not_lt,
    and_assoc, List.cons_ne_nil]
  refine and_congr_right fun _ => and_congr_right fun h2 => and_congr_right fun hpos => ?_
  have hf : cs.filter (fun c => 0 < c.weight) = cs := List.filter_eq_self.2 (fun c hc => by simpa using hpos c hc)
  rw [hf]
  constructor
  · intro h; exact h (by omega)
  · intro h _; exact h

mutual
theorem validateNode_seen (path : List Nat) (pd : Option Dir) (seen : List LeafId) : ∀ (n : LathNode),
    (validateNode path pd seen n).2 = nodeLeaves n ++ seen
  | .leaf id => by simp [validateNode]
  | .split d cs => by rw [validateNode, nodeLeaves_split]; exact validateChildren_seen path d seen 0 cs
theorem validateChildren_seen (path : List Nat) (d : Dir) (seen : List LeafId) (i : Nat) : ∀ (cs : List LathChild),
    (validateChildren path d seen i cs).2 = cs.flatMap (fun c => nodeLeaves c.node) ++ seen
  | [] => by simp [validateChildren]
  | ⟨n, w⟩ :: cs => by
    rw [validateChildren]
    dsimp only
    rw [validateNode_seen (path ++ [i]) (some d) _ n, validateChildren_seen path d seen (i + 1) cs]
    simp
end

def Fresh (ids seen : List LeafId) : Prop := ids.Nodup ∧ ∀ id ∈ ids, id ∉ seen

theorem fresh_append {as bs seen : List LeafId} :
    Fresh (as ++ bs) seen ↔ Fresh as (bs ++ seen) ∧ Fresh bs seen := by
  simp only [Fresh, List.nodup_append, List.mem_append]
  constructor
  · rintro ⟨⟨ha, hb, hab⟩, hs⟩
    exact ⟨⟨ha, fun id hid h => h.elim (fun h => hab id hid id h rfl) (hs id (.inl hid))⟩, hb,
      fun id hid => hs id (.inr hid)⟩
  · rintro ⟨⟨ha, hs⟩, hb, hbs⟩
    refine ⟨⟨ha, hb, fun x hx y hy hxy => hs x hx (.inl (hxy ▸ hy))⟩, fun id hid => ?_⟩
    exact hid.elim (fun h hse => hs id h (.inr hse)) (hbs id)

mutual
theorem validateNode_eq_nil (path : List Nat) (pd : Option Dir) (seen : List LeafId) : ∀ (n : LathNode),
    (validateNode path pd seen n).1 = [] ↔
      (∀ d, n.dir? = some d → pd ≠ some d) ∧ Canon near n ∧ Fresh (nodeLeaves n) seen
  | .leaf id => by simp [validateNode, LathNode.dir?, Fresh, Canon.leaf id]
  | .split d cs => by
    rw [validateNode, nodeLeaves_split, List.append_eq_nil_iff, splitViolations_eq_nil,
      validateChildren_eq_nil path d seen 0 cs]
    constructor
    · rintro ⟨⟨hpd, h2, hpos, hsum⟩, hchild, hfresh⟩
      refine ⟨fun d' hd' => ?_, .split h2 hpos hsum (fun c hc => (hchild c hc).1) (fun c hc => (hchild c hc).2), hfresh⟩
      simp only [LathNode.dir?, Option.some.injEq] at hd'
      exact hd' ▸ hpd
    · rintro ⟨hpd, hcan, hfresh⟩
      obtain ⟨h2, hpos, hsum, halt, hchild⟩ := hcan.split_inv
      exact ⟨⟨hpd d rfl, h2, hpos, hsum⟩, fun c hc => ⟨halt c hc, hchild c hc⟩, hfresh⟩
theorem validateChildren_eq_nil (path : List Nat) (d : Dir) (seen : List LeafId) (i : Nat) : ∀ (cs : List LathChild),
    (validateChildren path d seen i cs).1 = [] ↔
      (∀ c ∈ cs, c.node.dir? ≠ some d ∧ Canon near c.node) ∧ Fresh (cs.flatMap (fun c => nodeLeaves c.node)) seen
  | [] => by simp [validateChildren, Fresh]
  | ⟨n, w⟩ :: cs => by
    rw [validateChildren]
    dsimp only
    rw [List.append_eq_nil_iff, validateChildren_eq_nil path d seen (i + 1) cs,
      validateNode_eq_nil (path ++ [i]) (some d) _ n, validateChildren_seen, List.flatMap_cons, fresh_append,
      List.forall_mem_cons]
    have hdir : (∀ d', n.dir? = some d' → some d ≠ some d') ↔ n.dir? ≠ some d := by
      cases n.dir? with
      | none => simp
      | some d' => simp [eq_comm]
    rw [hdir]
    tauto
end

/-- **`validate` finds nothing exactly when the invariant holds, its tolerance included.** -/
theorem validate_eq_nil (t : LathTree) : validate t = [] ↔ Valid near t := by
  rcases t with ⟨_ | n⟩
  · exact ⟨fun _ => ⟨by simp, by simp⟩, fun _ => rfl⟩
  · have := validateNode_eq_nil [] none [] n
    show (validateNode [] none [] n).1 = [] ↔ _
    rw [this]
    constructor
    · rintro ⟨_, hc, hf⟩
      exact ⟨fun m hm => by cases hm; exact hc, hf.1⟩
    · intro h
      exact ⟨fun d _ => by simp, h.canon n rfl, h.nodup, by simp⟩

end Lath
end Dormouse

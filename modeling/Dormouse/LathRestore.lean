import Dormouse.LathShape
/-!
# LathRestore — a removed leaf goes back where it was

`remove` erases the leaf from its split and normalizes: a split of three or more keeps standing, a split of two
collapses onto the sibling, and a sibling group that runs along the grandparent is flattened into it.  `restore` meets
these in turn: by the parent's fingerprint, beside the sibling leaf, and beside the sibling group, which `targetByLeafSet`
finds again as a child range (`targetByLeafSet_range`).  `restoreRead_remove` is the round trip; since a restore reads the
structure alone (`restoreRead_congr`), a sequence of removals is undone in reverse order (`restoreAll_removeAll`).
-/
namespace Dormouse
namespace Lath

/-! ## Paths and subtrees -/

variable {d : Dir} {cs : List LathChild}

theorem nodup_children (h : (nodeLeaves (.split d cs)).Nodup) {i j : Nat} {a b : LathChild} (hi : cs[i]? = some a)
    (hj : cs[j]? = some b) {x : LeafId} (ha : x ∈ nodeLeaves a.node) (hb : x ∈ nodeLeaves b.node) : i = j := by
  rw [nodeLeaves_split, List.nodup_flatMap] at h
  obtain ⟨hil, rfl⟩ := List.getElem?_eq_some_iff.1 hi
  obtain ⟨hjl, rfl⟩ := List.getElem?_eq_some_iff.1 hj
  have hp := List.pairwise_iff_getElem.1 h.2
  rcases Nat.lt_trichotomy i j with hlt | heq | hlt
  · exact absurd hb (hp i j hil hjl hlt ha)
  · exact heq
  · exact absurd ha (hp j i hjl hil hlt hb)

theorem nodup_child (h : (nodeLeaves (.split d cs)).Nodup) {c : LathChild} (hc : c ∈ cs) : (nodeLeaves c.node).Nodup := by
  rw [nodeLeaves_split, List.nodup_flatMap] at h
  exact h.1 c hc

theorem mem_leaves_of_nodeAt : ∀ (p : List Nat) {n m : LathNode}, nodeAt n p = some m →
    ∀ x ∈ nodeLeaves m, x ∈ nodeLeaves n := by
  intro p n m h x hx
  obtain ⟨pre, post, he, _⟩ := nodeLeaves_replaceAtPath p h
  rw [he]
  simp [hx]

variable {S : ℚ → Prop}

theorem exists_leaf_outside (hc : Canon S (.split d cs)) (hn : (nodeLeaves (.split d cs)).Nodup) {i : Nat} {c : LathChild}
    (hi : cs[i]? = some c) :
    ∃ j c', cs[j]? = some c' ∧ j ≠ i ∧ ∃ x ∈ nodeLeaves c'.node, x ∉ nodeLeaves c.node := by
  obtain ⟨count, _, _, _, child⟩ := hc.split_inv
  obtain ⟨j, hj, hne⟩ : ∃ j, j < cs.length ∧ j ≠ i := by
    by_cases h0 : i = 0
    · exact ⟨1, by omega, by omega⟩
    · exact ⟨0, by omega, by omega⟩
  have hj' := List.getElem?_eq_getElem hj
  obtain ⟨x, hx⟩ := List.exists_mem_of_ne_nil _ (child _ (List.getElem_mem hj)).nodeLeaves_ne_nil
  exact ⟨j, _, hj', hne, x, hx, fun hx' => hne (nodup_children hn hj' hi hx hx')⟩

theorem exists_leaf_outside_subtree {n b : LathNode} {j : Nat} {q : List Nat} (hc : Canon S n) (hn : (nodeLeaves n).Nodup)
    (hq : nodeAt n (j :: q) = some b) : ∃ x ∈ nodeLeaves n, x ∉ nodeLeaves b := by
  cases n with
  | leaf id => simp at hq
  | split d cs =>
    simp only [nodeAt_split_cons] at hq
    obtain ⟨c, hcj, hb⟩ := Option.bind_eq_some_iff.1 hq
    obtain ⟨k, c', hk, _, x, hx, hxc⟩ := exists_leaf_outside hc hn hcj
    refine ⟨x, ?_, fun hxb => hxc (mem_leaves_of_nodeAt q hb x hxb)⟩
    rw [nodeLeaves_split]
    exact List.mem_flatMap.2 ⟨c', List.mem_of_getElem? hk, hx⟩

/-- **In a canonical tree of distinct leaves a subtree is known by its leaves.** -/
theorem nodeAt_unique {S : ℚ → Prop} : ∀ (p q : List Nat) {n a b : LathNode}, Canon S n → (nodeLeaves n).Nodup →
    nodeAt n p = some a → nodeAt n q = some b → (∀ x, x ∈ nodeLeaves a ↔ x ∈ nodeLeaves b) → p = q
  | [], [], n, a, b, _, _, _, _, _ => rfl
  | [], j :: q, n, a, b, hc, hn, hp, hq, hab => by
    simp only [nodeAt_nil, Option.some.injEq] at hp
    subst hp
    obtain ⟨x, hx, hxb⟩ := exists_leaf_outside_subtree hc hn hq
    exact absurd ((hab x).1 hx) hxb
  | i :: p, [], n, a, b, hc, hn, hp, hq, hab => by
    simp only [nodeAt_nil, Option.some.injEq] at hq
    subst hq
    obtain ⟨x, hx, hxa⟩ := exists_leaf_outside_subtree hc hn hp
    exact absurd ((hab x).2 hx) hxa
  | i :: p, j :: q, .leaf id, a, b, _, _, hp, _, _ => by simp at hp
  | i :: p, j :: q, .split d cs, a, b, hc, hn, hp, hq, hab => by
    simp only [nodeAt_split_cons] at hp hq
    obtain ⟨c, hci, ha⟩ := Option.bind_eq_some_iff.1 hp
    obtain ⟨c', hcj, hb⟩ := Option.bind_eq_some_iff.1 hq
    have hchild := hc.split_inv.2.2.2.2
    obtain ⟨x, hx⟩ := List.exists_mem_of_ne_nil _
      (nodeAt_canon p (hchild c (List.mem_of_getElem? hci)) ha).nodeLeaves_ne_nil
    have hij : i = j := nodup_children hn hci hcj (mem_leaves_of_nodeAt p ha x hx)
      (mem_leaves_of_nodeAt q hb x ((hab x).1 hx))
    subst hij
    rw [hci] at hcj
    cases hcj
    rw [nodeAt_unique p q (hchild c (List.mem_of_getElem? hci)) (nodup_child hn (List.mem_of_getElem? hci)) ha hb hab]

theorem replaceAtPath_self : ∀ (p : List Nat) {n m : LathNode}, nodeAt n p = some m → replaceAtPath n p m = n
  | [], n, m, h => by simpa using h.symm
  | i :: p, .leaf id, m, h => by simp at h
  | i :: p, .split d cs, m, h => by
    simp only [nodeAt_split_cons] at h
    obtain ⟨c, hc, hm⟩ := Option.bind_eq_some_iff.1 h
    obtain ⟨hi, he⟩ := List.getElem?_eq_some_iff.1 hc
    rw [replaceAtPath_cons hc, replaceAtPath_self p hm]
    rw [← he, List.set_getElem_self hi]

theorem replaceAtPath_twice : ∀ (p : List Nat) {n m : LathNode} (a b : LathNode), nodeAt n p = some m →
    replaceAtPath (replaceAtPath n p a) p b = replaceAtPath n p b
  | [], n, m, a, b, _ => by simp
  | i :: p, .leaf id, m, a, b, h => by simp at h
  | i :: p, .split d cs, m, a, b, h => by
    simp only [nodeAt_split_cons] at h
    obtain ⟨c, hc, hm⟩ := Option.bind_eq_some_iff.1 h
    have hi : i < cs.length := (List.getElem?_eq_some_iff.1 hc).1
    rw [replaceAtPath_cons hc, replaceAtPath_cons (List.getElem?_set_self hi), replaceAtPath_cons hc,
      replaceAtPath_twice p a b hm, List.set_set]

theorem replaceAtPath_append : ∀ (p : List Nat) {n : LathNode} {d : Dir} {cs : List LathChild} {j : Nat}
    {c : LathChild} (r : LathNode), nodeAt n p = some (.split d cs) → cs[j]? = some c →
    replaceAtPath n (p ++ [j]) r = replaceAtPath n p (.split d (cs.set j ⟨r, c.weight⟩))
  | [], n, d, cs, j, c, r, h, hc => by
    simp only [nodeAt_nil, Option.some.injEq] at h
    subst h
    simp [replaceAtPath_cons hc]
  | i :: p, .leaf id, d, cs, j, c, r, h, hc => by simp at h
  | i :: p, .split e es, d, cs, j, c, r, h, hc => by
    simp only [nodeAt_split_cons] at h
    obtain ⟨x, hx, hm⟩ := Option.bind_eq_some_iff.1 h
    rw [List.cons_append, replaceAtPath_cons hx, replaceAtPath_cons hx, replaceAtPath_append p r hm hc]

theorem normalize_replaceAtPath_eq : ∀ (p : List Nat) (n : LathNode) {a b : LathNode}, normalize a = normalize b →
    normalize (replaceAtPath n p a) = normalize (replaceAtPath n p b)
  | [], n, a, b, h => by simpa using h
  | i :: p, .leaf id, a, b, h => rfl
  | i :: p, .split d cs, a, b, h => by
    cases hc : cs[i]? with
    | none => simp [replaceAtPath, hc]
    | some c =>
      rw [replaceAtPath_cons hc, replaceAtPath_cons hc]
      have hcol : collect d (cs.set i ⟨replaceAtPath c.node p a, c.weight⟩) =
          collect d (cs.set i ⟨replaceAtPath c.node p b, c.weight⟩) := by
        obtain ⟨_, hset⟩ := split_at_getElem? hc
        simp only [collect_eq, hset, List.flatMap_append, List.flatMap_cons, normalize_replaceAtPath_eq p c.node h]
      rw [normalize_split, normalize_split, hcol]

variable {p : List Nat}

theorem normalize_replaceAtPath {n m r r' : LathNode} (hn : Canon exact n) (hm : nodeAt n p = some m)
    (hr : normalize r = some r') (hr' : Canon exact r') (hd : r'.dir? = m.dir? ∨ r'.dir? = none) :
    normalize (replaceAtPath n p r) = some (replaceAtPath n p r') := by
  rw [normalize_replaceAtPath_eq p n (hr.trans (normalize_of_canon hr').symm)]
  exact normalize_of_canon (Canon.replaceAtPath p hn hm hr' hd)

/-! ## The fingerprint search -/

mutual
theorem findFingerprint_sound (f : JsString) : ∀ (n : LathNode) (p : List Nat), findFingerprint f n = some p →
    ∃ d cs, nodeAt n p = some (.split d cs) ∧ structureFingerprint (.split d cs) = f
  | .leaf id, p, h => by simp [findFingerprint] at h
  | .split d cs, p, h => by
    rw [findFingerprint] at h
    split at h
    · cases h
      exact ⟨d, cs, by simp, ‹_›⟩
    · obtain ⟨j, q, rfl, c, hc, d', cs', hat, hf⟩ := findFingerprintIn_sound f 0 cs p h
      exact ⟨d', cs', by simpa [nodeAt_split_cons, hc] using hat, hf⟩
theorem findFingerprintIn_sound (f : JsString) (i : Nat) : ∀ (cs : List LathChild) (p : List Nat),
    findFingerprintIn f i cs = some p → ∃ j q, p = (i + j) :: q ∧ ∃ c, cs[j]? = some c ∧
      ∃ d cs', nodeAt c.node q = some (.split d cs') ∧ structureFingerprint (.split d cs') = f
  | [], p, h => by simp [findFingerprintIn] at h
  | ⟨n, w⟩ :: cs, p, h => by
    rw [findFingerprintIn] at h
    split at h
    · rename_i q hq
      cases h
      exact ⟨0, q, rfl, _, rfl, findFingerprint_sound f n q hq⟩
    · obtain ⟨j, q, rfl, c, hc, hrest⟩ := findFingerprintIn_sound f (i + 1) cs p h
      exact ⟨j + 1, q, by rw [Nat.add_assoc, Nat.add_comm 1 j], c, hc, hrest⟩
end

mutual
theorem findFingerprint_complete (f : JsString) : ∀ (n : LathNode), findFingerprint f n = none →
    ∀ (p : List Nat) (d : Dir) (cs : List LathChild), nodeAt n p = some (.split d cs) →
      structureFingerprint (.split d cs) ≠ f
  | .leaf id, _, p, d, cs, hp => by cases p <;> simp at hp
  | .split e es, h, p, d, cs, hp => by
    rw [findFingerprint] at h
    split at h
    · cases h
    · rename_i hne
      cases p with
      | nil =>
        simp only [nodeAt_nil, Option.some.injEq] at hp
        rw [← hp]
        exact hne
      | cons i p =>
        simp only [nodeAt_split_cons] at hp
        obtain ⟨c, hc, hat⟩ := Option.bind_eq_some_iff.1 hp
        exact findFingerprintIn_complete f 0 es h c (List.mem_of_getElem? hc) p d cs hat
theorem findFingerprintIn_complete (f : JsString) (i : Nat) : ∀ (es : List LathChild),
    findFingerprintIn f i es = none → ∀ c ∈ es, ∀ (p : List Nat) (d : Dir) (cs : List LathChild),
      nodeAt c.node p = some (.split d cs) → structureFingerprint (.split d cs) ≠ f
  | [], _, c, hc, _, _, _, _ => by simp at hc
  | ⟨n, w⟩ :: es, h, c, hc, p, d, cs, hp => by
    rw [findFingerprintIn] at h
    split at h
    · cases h
    · rename_i hn
      rcases List.mem_cons.1 hc with rfl | hc
      · exact findFingerprint_complete f n hn p d cs hp
      · exact findFingerprintIn_complete f (i + 1) es h c hc p d cs hp
end

/-! ## The leaf-set search -/

mutual
theorem targetWalk_fst (wanted : List LeafId) (path : List Nat) (found : FoundTarget) : ∀ (n : LathNode),
    (targetWalk wanted path found n).1 = nodeLeaves n
  | .leaf id => by simp [targetWalk]
  | .split d cs => by
    rw [targetWalk, nodeLeaves_split, List.flatMap_def]
    dsimp only
    rw [targetWalkAll_fst wanted path found 0 cs]
theorem targetWalkAll_fst (wanted : List LeafId) (path : List Nat) (found : FoundTarget) (i : Nat) :
    ∀ (cs : List LathChild), (targetWalkAll wanted path found i cs).1 = cs.map (fun c => nodeLeaves c.node)
  | [] => by simp [targetWalkAll]
  | ⟨n, w⟩ :: cs => by
    rw [targetWalkAll]
    simp only [List.map_cons, targetWalk_fst wanted (path ++ [i]) found n,
      targetWalkAll_fst wanted path _ (i + 1) cs]
end

theorem targetWalk_snd (wanted : List LeafId) (path : List Nat) (found : FoundTarget) (d : Dir) (cs : List LathChild) :
    (targetWalk wanted path found (.split d cs)).2 =
      if (leavesOf cs).length = wanted.length ∧ (leavesOf cs).all (· ∈ wanted) = true then some (path, none)
      else
        match wantedRange wanted (cs.map (fun c => nodeLeaves c.node)) with
        | some range => some (path, some range)
        | none => (targetWalkAll wanted path found 0 cs).2 := by
  have hleaves : leavesOf cs = (cs.map (fun c => nodeLeaves c.node)).flatten := List.flatMap_def
  unfold targetWalk
  dsimp only
  rw [targetWalkAll_fst]
  cases wantedRange wanted (cs.map (fun c => nodeLeaves c.node)) <;> rw [hleaves]

theorem counts_sum (wanted : List LeafId) (parts : List (List LeafId)) :
    (parts.map (fun ids => (ids.filter (· ∈ wanted)).length)).sum = (parts.flatten.filter (· ∈ wanted)).length := by
  rw [List.filter_flatten, List.length_flatten, List.map_map]
  rfl

section
variable {wanted : List LeafId}

theorem filter_length_lt {ids : List LeafId} (hids : ids.Nodup) {x : LeafId} (hx : x ∈ wanted) (hnot : x ∉ ids) :
    (ids.filter (· ∈ wanted)).length < wanted.length := by
  have hsub : (x :: ids.filter (· ∈ wanted)).Subperm wanted := by
    refine List.Nodup.subperm (List.nodup_cons.2 ⟨fun h => hnot (List.mem_of_mem_filter h), hids.filter _⟩) ?_
    intro y hy
    rcases List.mem_cons.1 hy with rfl | hy
    · exact hx
    · simpa using (List.mem_filter.1 hy).2
  have := hsub.length_le
  rw [List.length_cons] at this
  omega

theorem filter_eq_self_of_all {ids : List LeafId} (h : ids.all (· ∈ wanted) = true) : ids.filter (· ∈ wanted) = ids :=
  List.filter_eq_self.2 (List.all_eq_true.1 h)

theorem targetWalk_snd_miss {d : Dir} {cs : List LathChild} (hn : (nodeLeaves (.split d cs)).Nodup) {x : LeafId}
    (hx : x ∈ wanted) (hnot : x ∉ nodeLeaves (.split d cs)) (path : List Nat) (found : FoundTarget) :
    (targetWalk wanted path found (.split d cs)).2 = (targetWalkAll wanted path found 0 cs).2 := by
  rw [nodeLeaves_split] at hn hnot
  have hlt := filter_length_lt hn hx hnot
  have hrange : wantedRange wanted (cs.map (fun c => nodeLeaves c.node)) = none := by
    unfold wantedRange
    dsimp only
    rw [counts_sum, ← List.flatMap_def, if_neg]
    rintro ⟨_, hsum, _⟩
    omega
  rw [targetWalk_snd, hrange, if_neg]
  rintro ⟨hlen, hall⟩
  rw [filter_eq_self_of_all hall] at hlt
  omega

mutual
theorem targetWalk_miss : ∀ (n : LathNode) (path : List Nat) (found : FoundTarget), (nodeLeaves n).Nodup →
    (∃ x ∈ wanted, x ∉ nodeLeaves n) → (targetWalk wanted path found n).2 = found
  | .leaf id, path, found, _, ⟨x, hx, hnot⟩ => by
    rw [targetWalk]
    dsimp only
    rw [if_neg]
    rintro ⟨hlen, hall⟩
    have := filter_length_lt (List.nodup_singleton id) hx (by simpa using hnot)
    rw [filter_eq_self_of_all hall] at this
    omega
  | .split d cs, path, found, hn, ⟨x, hx, hnot⟩ => by
    rw [targetWalk_snd_miss hn hx hnot]
    refine targetWalkAll_miss cs path found 0 (fun c hc => nodup_child hn hc) (fun c hc => ⟨x, hx, fun h => hnot ?_⟩)
    rw [nodeLeaves_split]
    exact List.mem_flatMap.2 ⟨c, hc, h⟩
theorem targetWalkAll_miss : ∀ (cs : List LathChild) (path : List Nat) (found : FoundTarget) (i : Nat),
    (∀ c ∈ cs, (nodeLeaves c.node).Nodup) → (∀ c ∈ cs, ∃ x ∈ wanted, x ∉ nodeLeaves c.node) →
      (targetWalkAll wanted path found i cs).2 = found
  | [], _, _, _, _, _ => by simp [targetWalkAll]
  | ⟨n, w⟩ :: cs, path, found, i, hn, hmiss => by
    rw [targetWalkAll]
    dsimp only
    rw [targetWalk_miss n (path ++ [i]) found (hn ⟨n, w⟩ (by simp)) (hmiss ⟨n, w⟩ (by simp))]
    exact targetWalkAll_miss cs path found (i + 1) (fun c hc => hn c (by simp [hc])) (fun c hc => hmiss c (by simp [hc]))
end

end

theorem targetWalkAll_append (wanted : List LeafId) (path : List Nat) : ∀ (as bs : List LathChild) (found : FoundTarget)
    (i : Nat), (targetWalkAll wanted path found i (as ++ bs)).2 =
      (targetWalkAll wanted path (targetWalkAll wanted path found i as).2 (i + as.length) bs).2
  | [], bs, found, i => by simp [targetWalkAll]
  | ⟨n, w⟩ :: as, bs, found, i => by
    rw [List.cons_append, targetWalkAll, targetWalkAll]
    dsimp only
    rw [targetWalkAll_append wanted path as bs, List.length_cons, Nat.add_assoc, Nat.add_comm 1]

/-! The wanted leaves fill a block of the parts. -/

theorem findIdx_block (a : Nat) {k : Nat} (hk : 0 < k) (rest : List Nat) :
    (List.replicate a 0 ++ k :: rest).findIdx (fun count => 0 < count) = a := by
  induction a with
  | zero => rw [List.replicate_zero, List.nil_append, List.findIdx_cons]; simp [hk]
  | succ a ih => rw [List.replicate_succ, List.cons_append, List.findIdx_cons]; simpa using ih

theorem takeWhile_block (c : Nat) {k : Nat} (hk : 0 < k) (rest : List Nat) :
    ((List.replicate c 0 ++ k :: rest).takeWhile (fun count => count = 0)).length = c := by
  induction c with
  | zero => rw [List.replicate_zero, List.nil_append, List.takeWhile_cons_of_neg (by simp; omega)]; rfl
  | succ c ih => rw [List.replicate_succ, List.cons_append, List.takeWhile_cons_of_pos (by simp), List.length_cons, ih]

theorem counts_disjoint {wanted : List LeafId} : ∀ {parts : List (List LeafId)},
    (∀ ids ∈ parts, ∀ x ∈ ids, x ∉ wanted) →
      parts.map (fun ids => (ids.filter (· ∈ wanted)).length) = List.replicate parts.length 0
  | [], _ => rfl
  | ids :: parts, h => by
    have hnil : ids.filter (· ∈ wanted) = [] := List.filter_eq_nil_iff.2 (by simpa using h ids (by simp))
    rw [List.map_cons, hnil, counts_disjoint (fun x hx => h x (by simp [hx])), List.length_cons, List.replicate_succ]
    rfl

variable {wanted : List LeafId}

theorem wantedRange_block {A B C : List (List LeafId)} (hA : ∀ ids ∈ A, ∀ x ∈ ids, x ∉ wanted)
    (hC : ∀ ids ∈ C, ∀ x ∈ ids, x ∉ wanted) (hB : ∀ ids ∈ B, ∃ x ∈ ids, x ∈ wanted) (hne : B ≠ []) :
    wantedRange wanted (A ++ B ++ C) =
      if 1 < B.length ∧ (B.flatten.filter (· ∈ wanted)).length = wanted.length ∧
          B.all (fun ids => 0 < (ids.filter (· ∈ wanted)).length && (ids.filter (· ∈ wanted)).length == ids.length) then
        some (A.length, A.length + B.length)
      else none := by
  have hpos : ∀ k ∈ B.map (fun ids => (ids.filter (· ∈ wanted)).length), 0 < k := by
    intro k hk
    obtain ⟨ids, hids, rfl⟩ := List.mem_map.1 hk
    obtain ⟨x, hx, hxw⟩ := hB ids hids
    exact List.length_pos_of_mem (List.mem_filter.2 ⟨hx, by simpa using hxw⟩)
  have hcounts : (A ++ B ++ C).map (fun ids => (ids.filter (· ∈ wanted)).length) =
      List.replicate A.length 0 ++ B.map (fun ids => (ids.filter (· ∈ wanted)).length) ++ List.replicate C.length 0 := by
    rw [List.map_append, List.map_append, counts_disjoint hA, counts_disjoint hC]
  have hsum : ((A ++ B ++ C).map (fun ids => (ids.filter (· ∈ wanted)).length)).sum =
      (B.flatten.filter (· ∈ wanted)).length := by
    rw [hcounts, List.sum_append, List.sum_append, counts_sum]
    simp
  unfold wantedRange
  dsimp only
  rw [hsum]
  have hfirst : ((A ++ B ++ C).map (fun ids => (ids.filter (· ∈ wanted)).length)).findIdx (fun count => 0 < count) =
      A.length := by
    rw [hcounts]
    cases hb : B.map (fun ids => (ids.filter (· ∈ wanted)).length) with
    | nil => exact absurd (List.map_eq_nil_iff.1 hb) hne
    | cons k ks =>
      rw [List.append_assoc, List.cons_append]
      exact findIdx_block _ (hpos k (by simp [hb])) _
  have hstop : (((A ++ B ++ C).map (fun ids => (ids.filter (· ∈ wanted)).length)).reverse.takeWhile
      (fun count => count = 0)).length = C.length := by
    rw [hcounts, List.reverse_append, List.reverse_append, List.reverse_replicate]
    cases hb : (B.map (fun ids => (ids.filter (· ∈ wanted)).length)).reverse with
    | nil => exact absurd (List.map_eq_nil_iff.1 (List.reverse_eq_nil_iff.1 hb)) hne
    | cons k ks =>
      rw [List.cons_append]
      exact takeWhile_block _ (hpos k (List.mem_reverse.1 (by simp [hb]))) _
  rw [hfirst, hstop]
  have hlen : ((A ++ B ++ C).map (fun ids => (ids.filter (· ∈ wanted)).length)).length - C.length =
      A.length + B.length := by
    simp only [List.length_map, List.length_append]
    omega
  rw [hlen]
  have hzip : (((((A ++ B ++ C).map (fun ids => (ids.filter (· ∈ wanted)).length)).zip (A ++ B ++ C)).take
      (A.length + B.length)).drop A.length) = B.map (fun ids => ((ids.filter (· ∈ wanted)).length, ids)) := by
    rw [← List.map_prod_right_eq_zip, List.map_append, List.map_append, List.take_left' (by simp),
      List.drop_left' (by simp)]
  rw [hzip, List.all_map]
  have hiff : A.length + 1 < A.length + B.length ↔ 1 < B.length := by omega
  simp only [hiff, Function.comp_def]

theorem targetWalk_snd_of_extra {y : LeafId} (hy : y ∈ leavesOf cs) (hnot : y ∉ wanted) (path : List Nat)
    (found : FoundTarget) :
    (targetWalk wanted path found (.split d cs)).2 =
      match wantedRange wanted (cs.map (fun c => nodeLeaves c.node)) with
      | some range => some (path, some range)
      | none => (targetWalkAll wanted path found 0 cs).2 := by
  rw [targetWalk_snd, if_neg]
  rintro ⟨_, hall⟩
  exact hnot (by simpa using List.all_eq_true.1 hall y hy)

theorem targetWalk_descend (hc : Canon S (.split d cs)) (hn : (nodeLeaves (.split d cs)).Nodup) {j : Nat} {c : LathChild}
    (hj : cs[j]? = some c) (hne : wanted ≠ []) (hsub : ∀ x ∈ wanted, x ∈ nodeLeaves c.node) (path : List Nat)
    (found : FoundTarget) :
    (targetWalk wanted path found (.split d cs)).2 = (targetWalk wanted (path ++ [j]) found c.node).2 := by
  obtain ⟨hcs, _⟩ := split_at_getElem? hj
  obtain ⟨x, hx⟩ := List.exists_mem_of_ne_nil _ hne
  have hother : ∀ k c', cs[k]? = some c' → k ≠ j → ∀ y ∈ nodeLeaves c'.node, y ∉ wanted := fun k c' hk hkj y hy hyw =>
    hkj (nodup_children hn hk hj hy (hsub y hyw))
  have htake : ∀ c' ∈ cs.take j, ∀ y ∈ nodeLeaves c'.node, y ∉ wanted := by
    intro c' hc'
    obtain ⟨k, hk⟩ := List.mem_iff_getElem?.1 hc'
    rw [List.getElem?_take] at hk
    split at hk
    · exact hother k c' hk (by omega)
    · cases hk
  have hdrop : ∀ c' ∈ cs.drop (j + 1), ∀ y ∈ nodeLeaves c'.node, y ∉ wanted := by
    intro c' hc'
    obtain ⟨k, hk⟩ := List.mem_iff_getElem?.1 hc'
    rw [List.getElem?_drop] at hk
    exact hother _ c' hk (by omega)
  have hnd : ∀ c' ∈ cs, (nodeLeaves c'.node).Nodup := fun c' hc' => nodup_child hn hc'
  obtain ⟨k, c', hk, hkj, y, hy, _⟩ := exists_leaf_outside hc hn hj
  rw [targetWalk_snd_of_extra (List.mem_flatMap.2 ⟨c', List.mem_of_getElem? hk, hy⟩) (hother k c' hk hkj y hy)]
  have hrange : wantedRange wanted (cs.map (fun c => nodeLeaves c.node)) = none := by
    rw [hcs, List.map_append, List.map_cons, ← List.singleton_append, ← List.append_assoc, wantedRange_block]
    · exact if_neg (by simp)
    · intro ids hids
      obtain ⟨c', hc', rfl⟩ := List.mem_map.1 hids
      exact htake c' hc'
    · intro ids hids
      obtain ⟨c', hc', rfl⟩ := List.mem_map.1 hids
      exact hdrop c' hc'
    · intro ids hids
      rw [List.mem_singleton.1 hids]
      exact ⟨x, hsub x hx, hx⟩
    · simp
  rw [hrange]
  have hlen : (cs.take j).length = j := by
    have := (List.getElem?_eq_some_iff.1 hj).1
    rw [List.length_take]
    omega
  dsimp only
  rw [hcs, targetWalkAll_append, targetWalkAll_miss _ _ _ _ (fun c' h => hnd c' (List.mem_of_mem_take h))
    (fun c' h => ⟨x, hx, fun hxc => htake c' h x hxc hx⟩), hlen, Nat.zero_add]
  rcases c with ⟨n, w⟩
  rw [targetWalkAll]
  exact targetWalkAll_miss _ _ _ _ (fun c' h => hnd c' (List.mem_of_mem_drop h))
    (fun c' h => ⟨x, hx, fun hxc => hdrop c' h x hxc hx⟩)

theorem targetWalk_at : ∀ (p : List Nat) {S : ℚ → Prop} {n m : LathNode} {wanted : List LeafId}, Canon S n →
    (nodeLeaves n).Nodup → nodeAt n p = some m → wanted ≠ [] → (∀ x ∈ wanted, x ∈ nodeLeaves m) →
    ∀ (path : List Nat) (found : FoundTarget),
      (targetWalk wanted path found n).2 = (targetWalk wanted (path ++ p) found m).2
  | [], S, n, m, wanted, _, _, h, _, _, path, found => by
    simp only [nodeAt_nil, Option.some.injEq] at h
    rw [h, List.append_nil]
  | i :: p, S, .leaf id, m, wanted, _, _, h, _, _, path, found => by simp at h
  | i :: p, S, .split d cs, m, wanted, hc, hn, h, hne, hsub, path, found => by
    simp only [nodeAt_split_cons] at h
    obtain ⟨c, hci, hm⟩ := Option.bind_eq_some_iff.1 h
    have hmem := List.mem_of_getElem? hci
    rw [targetWalk_descend hc hn hci hne (fun x hx => mem_leaves_of_nodeAt p hm x (hsub x hx)),
      targetWalk_at p (hc.split_inv.2.2.2.2 c hmem) (nodup_child hn hmem) hm hne hsub, List.append_assoc]
    rfl

variable {A B C : List LathChild}

/-- **The walk finds a block of a split's children by its leaves.** -/
theorem targetWalk_range (hc : Canon S (.split d (A ++ B ++ C))) (hn : (nodeLeaves (.split d (A ++ B ++ C))).Nodup)
    (hB : 2 ≤ B.length) (hAC : A ++ C ≠ []) (path : List Nat) (found : FoundTarget) :
    (targetWalk (leavesOf B) path found (.split d (A ++ B ++ C))).2 =
      some (path, some (A.length, A.length + B.length)) := by
  have hchild := hc.split_inv.2.2.2.2
  have hne : ∀ c ∈ A ++ B ++ C, nodeLeaves c.node ≠ [] := fun c h => (hchild c h).nodeLeaves_ne_nil
  have hnd : (leavesOf A ++ leavesOf B ++ leavesOf C).Nodup := by
    simpa [leavesOf, List.append_assoc] using hn
  have hAout : ∀ c ∈ A, ∀ x ∈ nodeLeaves c.node, x ∉ leavesOf B := by
    intro c hcA x hx hxB
    rw [List.append_assoc] at hnd
    exact (List.nodup_append.1 hnd).2.2 x (List.mem_flatMap.2 ⟨c, hcA, hx⟩) x (List.mem_append_left _ hxB) rfl
  have hCout : ∀ c ∈ C, ∀ x ∈ nodeLeaves c.node, x ∉ leavesOf B := by
    intro c hcC x hx hxB
    exact (List.nodup_append.1 hnd).2.2 x (List.mem_append_right _ hxB) x (List.mem_flatMap.2 ⟨c, hcC, hx⟩) rfl
  have hfull : ∀ c ∈ B, (nodeLeaves c.node).filter (· ∈ leavesOf B) = nodeLeaves c.node := by
    intro c hcB
    refine List.filter_eq_self.2 (fun x hx => ?_)
    simpa using ⟨c, hcB, hx⟩
  obtain ⟨y, hy, hyB⟩ : ∃ y ∈ leavesOf (A ++ B ++ C), y ∉ leavesOf B := by
    obtain ⟨c, hc⟩ := List.exists_mem_of_ne_nil _ hAC
    have hmem : c ∈ A ++ B ++ C := by
      simp only [List.mem_append] at hc ⊢
      tauto
    obtain ⟨y, hy⟩ := List.exists_mem_of_ne_nil _ (hne c hmem)
    refine ⟨y, List.mem_flatMap.2 ⟨c, hmem, hy⟩, ?_⟩
    rcases List.mem_append.1 hc with hc | hc
    · exact hAout c hc y hy
    · exact hCout c hc y hy
  rw [targetWalk_snd_of_extra hy hyB]
  have hrange : wantedRange (leavesOf B) ((A ++ B ++ C).map (fun c => nodeLeaves c.node)) =
      some (A.length, A.length + B.length) := by
    rw [List.map_append, List.map_append, wantedRange_block]
    · rw [if_pos]
      · simp
      · refine ⟨by rw [List.length_map]; omega, ?_, ?_⟩
        · rw [← List.flatMap_def, List.filter_eq_self.2]
          intro x hx
          simpa using hx
        · rw [List.all_map, List.all_eq_true]
          intro c hcB
          have hpos := List.length_pos_of_ne_nil (hne c (by simp [hcB]))
          simp only [Function.comp_apply, hfull c hcB, beq_self_eq_true, Bool.and_true, decide_eq_true_eq]
          exact hpos
    · intro ids hids
      obtain ⟨c, hcA, rfl⟩ := List.mem_map.1 hids
      exact hAout c hcA
    · intro ids hids
      obtain ⟨c, hcC, rfl⟩ := List.mem_map.1 hids
      exact hCout c hcC
    · intro ids hids
      obtain ⟨c, hcB, rfl⟩ := List.mem_map.1 hids
      obtain ⟨x, hx⟩ := List.exists_mem_of_ne_nil _ (hne c (by simp [hcB]))
      exact ⟨x, hx, List.mem_flatMap.2 ⟨c, hcB, hx⟩⟩
    · intro h
      have := congrArg List.length h
      simp at this
      subst this
      simp at hB
  rw [hrange]

/-! ## What `remove` leaves behind -/

section
variable {d : Dir} {cs : List LathChild} {idx : Nat} {id : LeafId} {w : ℚ}

theorem weightSum_eraseIdx {c : LathChild} (hc : cs[idx]? = some c) :
    weightSum (cs.eraseIdx idx) = weightSum cs - c.weight := by
  obtain ⟨hcs, _⟩ := split_at_getElem? hc
  rw [List.eraseIdx_eq_take_drop_succ]
  conv => rhs; rw [hcs]
  simp only [weightSum_append, weightSum_cons]
  ring

theorem weight_lt_one (h : Canon exact (.split d cs)) {c : LathChild} (hc : cs[idx]? = some c) :
    0 < c.weight ∧ c.weight < 1 := by
  obtain ⟨count, pos, sum, _, _⟩ := h.split_inv
  have hlen : (cs.eraseIdx idx).length = cs.length - 1 := List.length_eraseIdx_of_lt (List.getElem?_eq_some_iff.1 hc).1
  have hpos : 0 < weightSum (cs.eraseIdx idx) := by
    refine weightSum_pos (fun h => ?_) (fun x hx => pos x (List.mem_of_mem_eraseIdx hx))
    rw [h] at hlen
    simp at hlen
    omega
  rw [weightSum_eraseIdx hc, show weightSum cs = 1 from sum] at hpos
  exact ⟨pos c (List.mem_of_getElem? hc), by linarith⟩

/-- **The leaf back at its index, with the siblings scaled back, is the split it left.** -/
theorem reinsertLeaf_eraseIdx (h : Canon exact (.split d cs)) (hc : cs[idx]? = some ⟨.leaf id, w⟩)
    {token : RestoreToken} (hid : token.leafId = id) (hw : token.weight = w) (hi : token.index = idx) :
    reinsertLeaf (normalizeWeights (cs.eraseIdx idx)) token = cs := by
  obtain ⟨hw0, hw1⟩ := weight_lt_one h hc
  have hsum : weightSum (cs.eraseIdx idx) = 1 - w := by
    rw [weightSum_eraseIdx hc, show weightSum cs = 1 from h.split_inv.2.2.1]
  have hne : (1 : ℚ) - w ≠ 0 := by
    have : w < 1 := hw1
    linarith
  have hscaled : (normalizeWeights (cs.eraseIdx idx)).map
      (fun c => (⟨c.node, c.weight * (1 - w)⟩ : LathChild)) = cs.eraseIdx idx := by
    rw [normalizeWeights_of_pos (by rw [hsum]; have : w < 1 := hw1; linarith), List.map_map, hsum]
    conv => rhs; rw [← List.map_id (cs.eraseIdx idx)]
    refine List.map_congr_left (fun c _ => ?_)
    simp only [Function.comp_apply, div_mul_cancel₀ _ hne, id_eq]
  obtain ⟨hcs, _⟩ := split_at_getElem? hc
  have hil : idx < cs.length := (List.getElem?_eq_some_iff.1 hc).1
  unfold reinsertLeaf
  rw [hw, hid, hi, hscaled]
  have hmin : min idx (cs.eraseIdx idx).length = idx := by
    rw [List.length_eraseIdx_of_lt hil]
    omega
  have htl : (cs.take idx).length = idx := by
    rw [List.length_take]
    omega
  dsimp only
  rw [hmin, List.eraseIdx_eq_take_drop_succ, List.take_left' htl, List.drop_left' htl]
  exact hcs.symm

end

variable {n : LathNode}

theorem leaves_eraseIdx_nodup (hn : (nodeLeaves n).Nodup) (hpar : nodeAt n p = some (.split d cs)) {idx : Nat} {id : LeafId}
    {w : ℚ} (hc : cs[idx]? = some ⟨.leaf id, w⟩) {r : LathNode} (hr : nodeLeaves r = leavesOf (cs.eraseIdx idx)) :
    (nodeLeaves (replaceAtPath n p r)).Nodup ∧ id ∉ nodeLeaves (replaceAtPath n p r) := by
  obtain ⟨pre, post, he, hrep⟩ := nodeLeaves_replaceAtPath p hpar
  have hperm : (nodeLeaves n).Perm (id :: nodeLeaves (replaceAtPath n p r)) := by
    rw [he, hrep, hr, nodeLeaves_split]
    exact perm_middle_leaf pre post _ id (leaves_eraseIdx hc)
  have := List.nodup_cons.1 (hperm.nodup_iff.1 hn)
  exact ⟨this.2, this.1⟩

section
variable {n : LathNode} (hcan : Canon exact n) (hnd : (nodeLeaves n).Nodup) {p : List Nat} {d : Dir}
  {cs : List LathChild} (hpar : nodeAt n p = some (.split d cs)) {idx : Nat} {id : LeafId} {w : ℚ}
  (hc : cs[idx]? = some ⟨.leaf id, w⟩)
include hcan hnd hpar hc

/-! A split of three or more stands, rescaled. -/

omit hnd in
theorem normalize_wide (h3 : 3 ≤ cs.length) :
    Canon exact (.split d (normalizeWeights (cs.eraseIdx idx))) ∧
      normalize (replaceAtPath n p (.split d (cs.eraseIdx idx))) =
        some (replaceAtPath n p (.split d (normalizeWeights (cs.eraseIdx idx)))) := by
  have hsplit := nodeAt_canon p hcan hpar
  obtain ⟨_, pos, _, alt, child⟩ := hsplit.split_inv
  have hmem : ∀ c ∈ cs.eraseIdx idx, c ∈ cs := fun c hc => List.mem_of_mem_eraseIdx hc
  have hlen : 2 ≤ (cs.eraseIdx idx).length := by
    rw [List.length_eraseIdx_of_lt (List.getElem?_eq_some_iff.1 hc).1]
    omega
  have hnorm : normalize (.split d (cs.eraseIdx idx)) = some (.split d (normalizeWeights (cs.eraseIdx idx))) :=
    normalize_split_of_collect (collect_self (fun c hc => normalize_of_canon (child c (hmem c hc)))
      (fun c hc => alt c (hmem c hc))) hlen
  have hr : Canon exact (.split d (normalizeWeights (cs.eraseIdx idx))) :=
    normalize_canon (.split (fun c hc => pos c (hmem c hc)) (fun c hc => (child c (hmem c hc)).positive)) _ hnorm
  exact ⟨hr, normalize_replaceAtPath hcan hpar hnorm hr (.inl rfl)⟩

theorem restoreParent_wide (h3 : 3 ≤ cs.length) {token : RestoreToken} (hid : token.leafId = id)
    (hw : token.weight = w) (hi : token.index = idx) :
    restoreParent ⟨some (replaceAtPath n p (.split d (normalizeWeights (cs.eraseIdx idx))))⟩ token
      (structureFingerprint (.split d (cs.eraseIdx idx))) = some ⟨some n⟩ := by
  obtain ⟨hr, _⟩ := normalize_wide hcan hpar hc h3
  have hcan' : Canon exact (replaceAtPath n p (.split d (normalizeWeights (cs.eraseIdx idx)))) :=
    Canon.replaceAtPath p hcan hpar hr (.inl rfl)
  have hleaves : nodeLeaves (.split d (normalizeWeights (cs.eraseIdx idx))) = leavesOf (cs.eraseIdx idx) := by
    rw [nodeLeaves_split, flatMap_leaves_congr (map_node_normalizeWeights _)]
  obtain ⟨hnd', _⟩ := leaves_eraseIdx_nodup hnd hpar hc hleaves
  have hat := nodeAt_replaceAtPath_self p (.split d (normalizeWeights (cs.eraseIdx idx))) hpar
  have hstrip : strip (.split d (normalizeWeights (cs.eraseIdx idx))) = strip (.split d (cs.eraseIdx idx)) := by
    rw [strip_split, strip_split, strip_normalizeWeights]
  have hsearch : findFingerprint (structureFingerprint (.split d (cs.eraseIdx idx)))
      (replaceAtPath n p (.split d (normalizeWeights (cs.eraseIdx idx)))) = some p := by
    cases hf : findFingerprint (structureFingerprint (.split d (cs.eraseIdx idx)))
        (replaceAtPath n p (.split d (normalizeWeights (cs.eraseIdx idx)))) with
    | none => exact absurd (structureFingerprint_inj.2 hstrip) (findFingerprint_complete _ _ hf p d _ hat)
    | some q =>
      obtain ⟨e, es, hq, hfp⟩ := findFingerprint_sound _ _ q hf
      have hl := nodeLeaves_congr ((structureFingerprint_inj.1 hfp).trans hstrip.symm)
      rw [nodeAt_unique q p hcan' hnd' hq hat (fun x => by rw [hl])]
  unfold restoreParent findSplitPathByFingerprint
  simp only [Option.bind_some, hsearch, hat, reinsertLeaf_eraseIdx (nodeAt_canon p hcan hpar) hc hid hw hi,
    replaceAtPath_twice p _ _ hpar]
  rw [normalizeWeights_of_sum_one (nodeAt_canon p hcan hpar).split_inv.2.2.1, replaceAtPath_self p hpar,
    normalize_of_canon hcan]

end

/-! A split of two collapses onto the sibling. -/

def pairWith (idx : Nat) (id : LeafId) (w : ℚ) (s : LathNode) (v : ℚ) : List LathChild :=
  if 0 < idx then [⟨s, v⟩, ⟨.leaf id, w⟩] else [⟨.leaf id, w⟩, ⟨s, v⟩]

theorem pair_of_length_two : ∀ {cs : List LathChild} {idx : Nat} {id : LeafId} {w : ℚ} {sib : LathChild},
    cs.length = 2 → cs[idx]? = some ⟨.leaf id, w⟩ → cs[if 0 < idx then idx - 1 else idx + 1]? = some sib →
    cs = pairWith idx id w sib.node sib.weight ∧ cs.eraseIdx idx = [sib]
  | [a, b], 0, id, w, sib, _, hc, hs => by
    simp only [List.getElem?_cons_zero, Option.some.injEq] at hc
    simp at hs
    subst hc hs
    exact ⟨rfl, rfl⟩
  | [a, b], 1, id, w, sib, _, hc, hs => by
    simp only [List.getElem?_cons_succ, List.getElem?_cons_zero, Option.some.injEq] at hc
    simp at hs
    subst hc hs
    exact ⟨rfl, rfl⟩
  | [a, b], k + 2, id, w, sib, _, hc, _ => by simp at hc

theorem edgeAxis_siblingEdge (d : Dir) (before : Bool) : edgeAxis (siblingEdge d before) = d := by
  cases d <;> cases before <;> rfl

theorem besideNode_siblingEdge (d : Dir) (idx : Nat) (id : LeafId) (w : ℚ) (s : LathNode) (v : ℚ) :
    besideNode (siblingEdge d (decide (0 < idx))) (mkLeaf id) w s v = .split d (pairWith idx id w s v) := by
  unfold besideNode pairWith
  rw [edgeAxis_siblingEdge]
  by_cases h : 0 < idx
  · cases d <;> simp [h, siblingEdge, edgeIsBefore, mkLeaf]
  · cases d <;> simp [h, siblingEdge, edgeIsBefore, mkLeaf]

theorem pairWith_canon {s : LathNode} (hs : Canon exact s) (hd : s.dir? ≠ some d) (idx : Nat) (id : LeafId) {w : ℚ}
    (h0 : 0 < w) (h1 : w < 1) : Canon exact (.split d (pairWith idx id w s (1 - w))) := by
  have hleaf : (LathNode.leaf id).dir? ≠ some d := nofun
  unfold pairWith
  split <;> refine .split (by simp) ?_ (by simp [exact, weightSum]) ?_ ?_ <;> simp [hs, hd, h0, h1, hleaf, Canon.leaf]

theorem normalize_single {sib : LathChild} (hs : Canon exact sib.node) (hd : sib.node.dir? ≠ some d) :
    normalize (.split d [sib]) = some sib.node := by
  rw [normalize_split, collect_self (by simpa using normalize_of_canon hs) (by simpa using hd)]

/-- No canonical tree holds the split of one child that the collapsed parent's fingerprint names. -/
theorem restoreParent_single (hn : Canon S n) (d : Dir) (sib : LathChild) (token : RestoreToken) :
    restoreParent ⟨some n⟩ token (structureFingerprint (.split d [sib])) = none := by
  unfold restoreParent findSplitPathByFingerprint
  cases hf : findFingerprint (structureFingerprint (.split d [sib])) n with
  | none => simp [hf]
  | some q =>
    obtain ⟨e, es, hq, hfp⟩ := findFingerprint_sound _ _ q hf
    have hlen : es.length = 1 := by
      have := structureFingerprint_inj.1 hfp
      simp only [strip_split, Shape.split.injEq] at this
      simpa using congrArg List.length this.2
    have := (nodeAt_canon q hn hq).split_inv.1
    omega

section
variable {n : LathNode} (hcan : Canon exact n) {p : List Nat} {d : Dir} {cs : List LathChild}
  (hpar : nodeAt n p = some (.split d cs)) {s : LathNode} (hs : Canon exact s) (hd : s.dir? ≠ some d)
include hcan hpar hs hd

theorem normalize_pair (idx : Nat) (id : LeafId) {w : ℚ} (h0 : 0 < w) (h1 : w < 1) :
    normalize (replaceAtPath n p (.split d (pairWith idx id w s (1 - w)))) =
      some (replaceAtPath n p (.split d (pairWith idx id w s (1 - w)))) :=
  normalize_of_canon (Canon.replaceAtPath p hcan hpar (pairWith_canon hs hd idx id h0 h1) (.inl rfl))

theorem insertBesideNode_sibling (idx : Nat) (id : LeafId) {w : ℚ} (h0 : 0 < w) (h1 : w < 1) :
    insertBesideNode ⟨some (replaceAtPath n p s)⟩ p (siblingEdge d (decide (0 < idx))) id w .renormalize =
      ⟨some (replaceAtPath n p (.split d (pairWith idx id w s (1 - w))))⟩ := by
  have hnorm := normalize_pair hcan hpar hs hd idx id h0 h1
  unfold insertBesideNode
  dsimp only
  cases hlast : p.getLast? with
  | none =>
    rw [List.getLast?_eq_none_iff.1 hlast] at hnorm ⊢
    simp only [replaceAtPath_nil] at hnorm ⊢
    rw [besideNode_siblingEdge, hnorm]
  | some j =>
    have hp : p = p.dropLast ++ [j] := (List.dropLast_append_getLast? j hlast).symm
    obtain ⟨e, gs, gw, hgp, hgj⟩ := nodeAt_parent (hp ▸ hpar)
    have he : e ≠ d := by
      have := (nodeAt_canon _ hcan hgp).split_inv.2.2.2.1 _ (List.mem_of_getElem? hgj)
      exact fun h => this (by rw [h]; rfl)
    have hg : nodeAt (replaceAtPath n p s) p.dropLast = some (.split e (gs.set j ⟨s, gw⟩)) := by
      conv => lhs; arg 1; rw [hp, replaceAtPath_append _ _ hgp hgj]
      exact nodeAt_replaceAtPath_self _ _ hgp
    dsimp only
    rw [hg, nodeAt_replaceAtPath_self p s hpar, edgeAxis_siblingEdge]
    dsimp only
    rw [if_neg he, besideNode_siblingEdge, replaceAtPath_twice p _ _ hpar, hnorm]

end

/-- What `restoreSibling` answers once the sibling group is found and its place materialized. -/
theorem restoreSibling_of_target (hcan : Canon exact n) (hpar : nodeAt n p = some (.split d cs)) {s : LathNode}
    (hs : Canon exact s) (hd : s.dir? ≠ some d) {token : RestoreToken} {idx : Nat} {n' : LathNode} {target : EdgeDropTarget}
    (hedge : token.edge = siblingEdge d (decide (0 < idx))) (hids : token.siblingLeafIds = some (nodeLeaves s))
    (hfp : token.siblingFingerprint = some (structureFingerprint s)) (hnd : (nodeLeaves s).Nodup)
    (hlen : 1 < (nodeLeaves s).length) (hid : token.leafId ∉ nodeLeaves n')
    (htarget : targetByLeafSet ⟨some n'⟩ (nodeLeaves s) token.edge = some target) (hte : target.edge = token.edge)
    (hmat : materializeTarget ⟨some n'⟩ target = some (⟨some (replaceAtPath n p s)⟩, p)) :
    restoreSibling ⟨some n'⟩ token = some ⟨some (replaceAtPath n p (.split d
      (pairWith idx token.leafId (clampWeight (.fin token.weight)) s (1 - clampWeight (.fin token.weight)))))⟩ := by
  have hne : structureFingerprint s ≠ [] := by
    obtain ⟨r, hr⟩ := (strip s).stringify_head
    unfold structureFingerprint
    rw [hr]
    exact List.cons_ne_nil _ _
  have hat : nodeAtPath ⟨some (replaceAtPath n p s)⟩ p = some s := nodeAt_replaceAtPath_self p s hpar
  have hfind : findLeafPath ⟨some n'⟩ token.leafId = none := findLeafPath_eq_none.2 hid
  obtain ⟨h0, h1⟩ := clampWeight_mem (.fin token.weight)
  have hins : insert ⟨some n'⟩ token.leafId (.edge target) (.weight (.fin token.weight)) =
      ⟨insertBesideNode ⟨some (replaceAtPath n p s)⟩ p target.edge token.leafId (clampWeight (.fin token.weight))
        .renormalize, true⟩ := by
    unfold insert insertImpl
    dsimp only
    rw [hfind, if_neg (by simp [InsertSize.isNaN]), hmat]
    rfl
  unfold restoreSibling
  simp only [hids, hfp, hnd.dedup, htarget, hmat, hat, hins, Option.map_some, if_true]
  rw [if_pos ⟨hlen, hne⟩, hte, hedge, insertBesideNode_sibling hcan hpar hs hd idx token.leafId h0 h1]

theorem targetByLeafSet_root (hne : nodeLeaves n ≠ []) (edge : Edge) :
    targetByLeafSet ⟨some n⟩ (nodeLeaves n) edge = some ⟨[], edge, none⟩ := by
  unfold targetByLeafSet
  rw [if_neg (by simpa using hne)]
  dsimp only
  cases n with
  | leaf id => simp [targetWalk, targetOfFound]
  | split d cs =>
    have hall : (leavesOf cs).all (· ∈ leavesOf cs) = true := List.all_eq_true.2 (fun x hx => decide_eq_true hx)
    rw [targetWalk_snd, nodeLeaves_split, if_pos ⟨rfl, hall⟩]
    rfl

/-- **A block of a split's children is found by its leaves, as a child range of the split.** -/
theorem targetByLeafSet_range (hcan : Canon exact n) (hnd : (nodeLeaves n).Nodup)
    (hp : nodeAt n p = some (.split d (A ++ B ++ C))) (hB : 2 ≤ B.length) (hAC : A ++ C ≠ []) (edge : Edge) :
    targetByLeafSet ⟨some n⟩ (leavesOf B) edge =
      some (targetOfFound edge (p, some (A.length, A.length + B.length))) := by
  have hcs := nodeAt_canon p hcan hp
  have hne : leavesOf B ≠ [] := by
    cases B with
    | nil => simp at hB
    | cons c B =>
      have := (hcs.split_inv.2.2.2.2 c (by simp)).nodeLeaves_ne_nil
      simp [leavesOf, this]
  have hsub : ∀ x ∈ leavesOf B, x ∈ nodeLeaves (.split d (A ++ B ++ C)) := by
    intro x hx
    rw [nodeLeaves_split, List.flatMap_append, List.flatMap_append]
    simp only [List.mem_append]
    exact .inl (.inr hx)
  have hnd' : (nodeLeaves (.split d (A ++ B ++ C))).Nodup := by
    obtain ⟨pre, post, he, _⟩ := nodeLeaves_replaceAtPath p hp
    rw [he] at hnd
    exact (List.nodup_append.1 (List.nodup_append.1 hnd).1).2.1
  unfold targetByLeafSet
  rw [if_neg (fun h => hne (List.length_eq_zero_iff.1 h))]
  dsimp only
  rw [targetWalk_at p hcan hnd hp hne hsub, targetWalk_range hcs hnd' hB hAC, List.nil_append]
  rfl

theorem materializeTarget_range (hp : nodeAt n p = some (.split d (A ++ B ++ C))) (hB : 2 ≤ B.length) (hAC : A ++ C ≠ [])
    (edge : Edge) :
    materializeTarget ⟨some n⟩ (targetOfFound edge (p, some (A.length, A.length + B.length))) =
      some (⟨some (replaceAtPath n p (.split d (A ++ ⟨.split d (normalizeWeights B), weightSum B⟩ :: C)))⟩,
        p ++ [A.length]) := by
  have hlen : 0 < A.length + C.length := by
    rw [← List.length_append]
    exact List.length_pos_of_ne_nil hAC
  have hgroup : groupRange d (A ++ B ++ C) A.length (A.length + B.length) =
      .split d (A ++ ⟨.split d (normalizeWeights B), weightSum B⟩ :: C) := by
    unfold groupRange
    rw [List.take_left' (by simp), List.drop_left' rfl, List.drop_left' (by simp), List.append_assoc,
      List.take_left' rfl]
  unfold materializeTarget targetOfFound
  dsimp only
  rw [indexPath_ofNat]
  simp only [nodeAtPath, Option.bind_some, hp, Option.map_some, JsNum.int?_ofNat]
  rw [if_neg (by simp only [List.length_append]; omega), if_neg (by simp only [List.length_append]; omega)]
  simp only [Int.toNat_natCast, hgroup]

theorem Dir.eq_of_ne {a b d : Dir} (ha : a ≠ d) (hb : b ≠ d) : a = b := by
  cases a <;> cases b <;> cases d <;> simp_all

theorem normalizeWeights_scale (hs : weightSum cs = 1) {k : ℚ} (hk : 0 < k) :
    normalizeWeights (cs.map (fun c => ⟨c.node, c.weight * k⟩)) = cs ∧
      weightSum (cs.map (fun c => ⟨c.node, c.weight * k⟩)) = k := by
  have hsum : weightSum (cs.map (fun c => ⟨c.node, c.weight * k⟩)) = k := by rw [weightSum_scale, hs, one_mul]
  refine ⟨?_, hsum⟩
  rw [normalizeWeights_of_pos (by rw [hsum]; exact hk), hsum, List.map_map]
  conv => rhs; rw [← List.map_id cs]
  refine List.map_congr_left (fun c _ => ?_)
  simp only [Function.comp_apply, mul_div_cancel_right₀ _ hk.ne', id_eq]

section
variable {n : LathNode} (hcan : Canon exact n) {p : List Nat} {e : Dir} {gs : List LathChild}
  (hgp : nodeAt n p = some (.split e gs)) {j : Nat} {g : LathChild} (hgj : gs[j]? = some g) {sc : List LathChild}
  (hs : Canon exact (.split e sc))
include hcan hgp hgj hs

/-- **A group that comes to stand in a split of its own direction is flattened into it.** -/
theorem normalize_flatten {r : LathNode} (hrp : Positive r) (hr : normalize r = some (.split e sc)) :
    Canon exact (.split e (gs.take j ++ sc.map (fun c => ⟨c.node, c.weight * g.weight⟩) ++ gs.drop (j + 1))) ∧
      normalize (replaceAtPath n (p ++ [j]) r) = some (replaceAtPath n p
        (.split e (gs.take j ++ sc.map (fun c => ⟨c.node, c.weight * g.weight⟩) ++ gs.drop (j + 1)))) := by
  have hsplit := nodeAt_canon p hcan hgp
  obtain ⟨count, pos, sum, alt, child⟩ := hsplit.split_inv
  obtain ⟨scount, _, ssum, _, _⟩ := hs.split_inv
  obtain ⟨hgs, hset⟩ := split_at_getElem? hgj
  have hself : ∀ c ∈ gs, flattenInto e c.weight (normalize c.node) = [c] := fun c hc => by
    rw [normalize_of_canon (child c hc), flattenInto_self (alt c hc)]
  have hkeep : ∀ l : List LathChild, (∀ c ∈ l, c ∈ gs) →
      l.flatMap (fun c => flattenInto e c.weight (normalize c.node)) = l := fun l hl => by
    rw [List.flatMap_congr (fun c hc => hself c (hl c hc)), List.flatMap_singleton']
  have hcol : collect e (gs.set j ⟨r, g.weight⟩) =
      gs.take j ++ sc.map (fun c => ⟨c.node, c.weight * g.weight⟩) ++ gs.drop (j + 1) := by
    rw [collect_eq, hset, List.flatMap_append, List.flatMap_cons, hr, hkeep _ (fun c hc => List.mem_of_mem_take hc),
      hkeep _ (fun c hc => List.mem_of_mem_drop hc), List.append_assoc]
    simp [flattenInto]
  have hg0 : 0 < g.weight := pos g (List.mem_of_getElem? hgj)
  have hsum : weightSum (gs.take j ++ sc.map (fun c => ⟨c.node, c.weight * g.weight⟩) ++ gs.drop (j + 1)) = 1 := by
    rw [weightSum_append, weightSum_append, (normalizeWeights_scale ssum hg0).2, ← sum]
    conv => rhs; rw [hgs]
    rw [weightSum_append, weightSum_cons]
    ring
  have hnorm := normalize_split_of_collect hcol (by simp only [List.length_append, List.length_map]; omega)
  rw [normalizeWeights_of_sum_one hsum] at hnorm
  have hpos : Positive (.split e (gs.set j ⟨r, g.weight⟩)) :=
    have h := positive_set pos (fun c hc => (child c hc).positive) j ⟨r, g.weight⟩ hg0 hrp
    .split h.1 h.2
  have hcan' := normalize_canon hpos _ hnorm
  refine ⟨hcan', ?_⟩
  rw [replaceAtPath_append p r hgp hgj]
  exact normalize_replaceAtPath hcan hgp hnorm hcan' (.inl rfl)

end

section
variable {n : LathNode} (hcan : Canon exact n) (hnd : (nodeLeaves n).Nodup) {p : List Nat} {d : Dir}
  {cs : List LathChild} (hpar : nodeAt n p = some (.split d cs)) {idx : Nat} {id : LeafId} {w : ℚ}
  (hc : cs[idx]? = some ⟨.leaf id, w⟩) {sib : LathChild} (hsib : cs.eraseIdx idx = [sib])
include hcan hnd hpar hc hsib

omit hcan hnd hpar hc in
theorem mem_of_eraseIdx_single : sib ∈ cs := List.mem_of_mem_eraseIdx (by rw [hsib]; simp : sib ∈ cs.eraseIdx idx)

/-- **The sibling group of a collapsed split is found again, at the root or as a range of the grandparent, and the split
is rebuilt there.** -/
theorem restoreSibling_group {e : Dir} {sc : List LathChild} (hgroup : sib.node = .split e sc) {token : RestoreToken}
    (hid : token.leafId = id) (hedge : token.edge = siblingEdge d (decide (0 < idx)))
    (hids : token.siblingLeafIds = some (nodeLeaves sib.node))
    (hfp : token.siblingFingerprint = some (structureFingerprint sib.node)) :
    ∃ n', normalize (replaceAtPath n p (.split d (cs.eraseIdx idx))) = some n' ∧
      restoreSibling ⟨some n'⟩ token = some ⟨some (replaceAtPath n p (.split d
        (pairWith idx id (clampWeight (.fin token.weight)) sib.node (1 - clampWeight (.fin token.weight)))))⟩ := by
  have hsplit := nodeAt_canon p hcan hpar
  obtain ⟨count, pos, _, alt, child⟩ := hsplit.split_inv
  have hmem := mem_of_eraseIdx_single hsib
  have hs := child sib hmem
  have hd := alt sib hmem
  have hsingle := normalize_single hs hd
  have hrp : Positive (.split d [sib]) :=
    .split (by simpa using pos sib hmem) (by simpa using hs.positive)
  have hlen : 1 < (nodeLeaves sib.node).length := by
    rw [hgroup] at hs ⊢
    obtain ⟨scount, _, _, _, schild⟩ := hs.split_inv
    match sc, scount, schild with
    | a :: b :: rest, _, schild =>
      have ha := List.length_pos_of_ne_nil (schild a (by simp)).nodeLeaves_ne_nil
      have hb := List.length_pos_of_ne_nil (schild b (by simp)).nodeLeaves_ne_nil
      simp only [nodeLeaves_split, List.flatMap_cons, List.length_append]
      omega
  have hleaves : nodeLeaves (.split d [sib]) = leavesOf (cs.eraseIdx idx) := by rw [hsib, nodeLeaves_split]
  have hsnd : (nodeLeaves sib.node).Nodup := by
    obtain ⟨pre, post, he, _⟩ := nodeLeaves_replaceAtPath p hpar
    rw [he] at hnd
    exact nodup_child (List.nodup_append.1 (List.nodup_append.1 hnd).1).2.1 hmem
  obtain ⟨hrnd, hrid⟩ := leaves_eraseIdx_nodup hnd hpar hc hleaves
  rw [hsib]
  subst hid
  cases hlast : p.getLast? with
  | none =>
    -- the split was the root, and the group is now
    have hnil : p = [] := List.getLast?_eq_none_iff.1 hlast
    subst hnil
    refine ⟨sib.node, by simpa using hsingle, ?_⟩
    refine restoreSibling_of_target hcan hpar hs hd hedge hids hfp hsnd hlen ?_
      (targetByLeafSet_root hs.nodeLeaves_ne_nil token.edge) rfl rfl
    simpa using hrid
  | some j =>
    -- the group runs along the grandparent and was flattened into it
    have hp : p = p.dropLast ++ [j] := (List.dropLast_append_getLast? j hlast).symm
    obtain ⟨e', gs, gw, hgp, hgj⟩ := nodeAt_parent (hp ▸ hpar)
    have he' : e' = e := by
      refine Dir.eq_of_ne (d := d) (fun h => ?_) (fun h => hd (by rw [hgroup, h]; rfl))
      exact (nodeAt_canon _ hcan hgp).split_inv.2.2.2.1 _ (List.mem_of_getElem? hgj) (by rw [h]; rfl)
    subst he'
    rw [hgroup] at hs hsingle
    obtain ⟨hcan', hnorm⟩ := normalize_flatten hcan hgp hgj hs hrp hsingle
    rw [← hp] at hnorm
    have hgw : 0 < gw := (nodeAt_canon _ hcan hgp).split_inv.2.1 _ (List.mem_of_getElem? hgj)
    obtain ⟨hscale, hscaleSum⟩ := normalizeWeights_scale hs.split_inv.2.2.1 hgw
    have hcount := (nodeAt_canon _ hcan hgp).split_inv.1
    have hj := (List.getElem?_eq_some_iff.1 hgj).1
    have hl := nodeLeaves_normalize (replaceAtPath n p (.split d [sib]))
    rw [hnorm, optLeaves_some] at hl
    rw [← hl] at hrnd hrid
    refine ⟨_, hnorm, ?_⟩
    generalize hA : gs.take j = A at *
    generalize hC : gs.drop (j + 1) = C at *
    have hAlen : A.length = j := by
      rw [← hA, List.length_take]
      omega
    have hClen : C.length = gs.length - (j + 1) := by rw [← hC, List.length_drop]
    have hAC : A ++ C ≠ [] := by
      intro h
      have := congrArg List.length h
      rw [List.length_append, List.length_nil] at this
      omega
    generalize hB : sc.map (fun c => (⟨c.node, c.weight * gw⟩ : LathChild)) = B at *
    have hB2 : 2 ≤ B.length := by
      rw [← hB, List.length_map]
      exact hs.split_inv.1
    have hat := nodeAt_replaceAtPath_self p.dropLast (.split e' (A ++ B ++ C)) hgp
    have hcanN : Canon exact (replaceAtPath n p.dropLast (.split e' (A ++ B ++ C))) :=
      Canon.replaceAtPath _ hcan hgp hcan' (.inl rfl)
    have hBl : nodeLeaves sib.node = leavesOf B := by
      rw [hgroup, nodeLeaves_split, ← hB]
      exact flatMap_leaves_congr (map_node_scale sc gw).symm
    have hplace : replaceAtPath n p.dropLast (.split e' (A ++ ⟨.split e' sc, gw⟩ :: C)) = replaceAtPath n p sib.node := by
      conv => rhs; rw [hp, replaceAtPath_append _ _ hgp hgj, hgroup, (split_at_getElem? hgj).2, hA, hC]
    have hmat := materializeTarget_range hat hB2 hAC token.edge
    rw [hscale, hscaleSum, replaceAtPath_twice _ _ _ hgp, hplace, hAlen, ← hp] at hmat
    have htarget := targetByLeafSet_range hcanN hrnd hat hB2 hAC token.edge
    rw [← hBl, hAlen] at htarget
    exact restoreSibling_of_target hcan hpar (hgroup ▸ hs) hd hedge hids hfp hsnd hlen hrid htarget rfl hmat

end

end Lath
end Dormouse

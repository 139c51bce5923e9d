import Dormouse.LathRestore
/-!
# LathSides — which leaf lies on which side of which

`Precedes d x y n`: the split that parts the leaves `x` and `y` of `n` runs along `d`, and `x` comes first; on the screen `x` is left
of `y` (`row`) or above it (`col`).  `normalize` keeps the relation (`precedes_normalize`), a removal restricts it and an insert
extends it, whatever they do to the tree's shape on the way; and the relation determines a canonical tree up to its weights
(`strip_eq_of_precedes`).

A set of leaves that no leaf outside tells apart is `Together`.  These sets are exactly what an edge target can name: the leaves of a
node, or of a run of children of a split (`Together.block`).
-/
namespace Dormouse
namespace Lath

/-- `x` is in an earlier child than `y`. -/
def Earlier (x y : LeafId) : List LathChild → Prop
  | []      => False
  | c :: cs => (x ∈ nodeLeaves c.node ∧ y ∈ leavesOf cs) ∨ Earlier x y cs

mutual
/-- `x` comes before `y` along `d`. -/
def Precedes (d : Dir) (x y : LeafId) : LathNode → Prop
  | .leaf _     => False
  | .split e cs => (e = d ∧ Earlier x y cs) ∨ PrecedesIn d x y cs
def PrecedesIn (d : Dir) (x y : LeafId) : List LathChild → Prop
  | []           => False
  | ⟨n, _⟩ :: cs => Precedes d x y n ∨ PrecedesIn d x y cs
end

/-! ## Children -/

section
variable {x y : LeafId}

@[simp] theorem not_earlier_nil : ¬ Earlier x y [] := id

@[simp] theorem earlier_cons (c : LathChild) (cs : List LathChild) :
    Earlier x y (c :: cs) ↔ (x ∈ nodeLeaves c.node ∧ y ∈ leavesOf cs) ∨ Earlier x y cs := Iff.rfl

theorem mem_leavesOf {cs : List LathChild} : x ∈ leavesOf cs ↔ ∃ c ∈ cs, x ∈ nodeLeaves c.node := List.mem_flatMap

theorem leavesOf_append (as bs : List LathChild) : leavesOf (as ++ bs) = leavesOf as ++ leavesOf bs :=
  List.flatMap_append

theorem earlier_append : ∀ (as bs : List LathChild),
    Earlier x y (as ++ bs) ↔ Earlier x y as ∨ (x ∈ leavesOf as ∧ y ∈ leavesOf bs) ∨ Earlier x y bs
  | [], bs => by simp [leavesOf]
  | a :: as, bs => by
    rw [List.cons_append, earlier_cons, earlier_cons, earlier_append as bs, leavesOf_append, List.mem_append,
      show leavesOf (a :: as) = nodeLeaves a.node ++ leavesOf as from List.flatMap_cons, List.mem_append]
    tauto

theorem Earlier.mem : ∀ {cs : List LathChild}, Earlier x y cs → x ∈ leavesOf cs ∧ y ∈ leavesOf cs
  | c :: cs, .inl ⟨hx, hy⟩ => by
    rw [show leavesOf (c :: cs) = nodeLeaves c.node ++ leavesOf cs from List.flatMap_cons]
    exact ⟨List.mem_append_left _ hx, List.mem_append_right _ hy⟩
  | c :: cs, .inr h => by
    rw [show leavesOf (c :: cs) = nodeLeaves c.node ++ leavesOf cs from List.flatMap_cons]
    exact ⟨List.mem_append_right _ h.mem.1, List.mem_append_right _ h.mem.2⟩

theorem earlier_congr : ∀ {as bs : List LathChild},
    List.Forall₂ (fun a b => nodeLeaves a.node = nodeLeaves b.node) as bs → (Earlier x y as ↔ Earlier x y bs)
  | _, _, .nil => Iff.rfl
  | a :: as, b :: bs, .cons h hs => by
    have hleaves : leavesOf as = leavesOf bs := by
      clear h
      induction hs with
      | nil => rfl
      | cons h _ ih => exact congrArg₂ (· ++ ·) h ih
    rw [earlier_cons, earlier_cons, h, hleaves, earlier_congr hs]

theorem earlier_flatMap (f : LathChild → List LathChild) : ∀ (cs : List LathChild),
    (∀ c ∈ cs, leavesOf (f c) = nodeLeaves c.node) →
      (Earlier x y (cs.flatMap f) ↔ Earlier x y cs ∨ ∃ c ∈ cs, Earlier x y (f c))
  | [], _ => by simp
  | c :: cs, h => by
    have hcs : leavesOf (cs.flatMap f) = leavesOf cs := by
      rw [leavesOf, List.flatMap_assoc]
      exact List.flatMap_congr (fun a ha => h a (List.mem_cons_of_mem _ ha))
    rw [List.flatMap_cons, earlier_append, hcs, h c (List.mem_cons_self ..),
      earlier_flatMap f cs (fun a ha => h a (List.mem_cons_of_mem _ ha)), earlier_cons]
    simp only [List.mem_cons, exists_eq_or_imp]
    tauto

theorem earlier_getElem {cs : List LathChild} {i j : Nat} {a b : LathChild} (hij : i < j) (hi : cs[i]? = some a)
    (hj : cs[j]? = some b) (hx : x ∈ nodeLeaves a.node) (hy : y ∈ nodeLeaves b.node) : Earlier x y cs := by
  induction cs generalizing i j with
  | nil => simp at hi
  | cons c cs ih =>
    obtain ⟨j, rfl⟩ : ∃ k, j = k + 1 := ⟨j - 1, by omega⟩
    rw [List.getElem?_cons_succ] at hj
    rw [earlier_cons]
    cases i with
    | zero =>
      rw [List.getElem?_cons_zero] at hi
      cases hi
      exact .inl ⟨hx, mem_leavesOf.2 ⟨b, List.mem_of_getElem? hj, hy⟩⟩
    | succ i =>
      rw [List.getElem?_cons_succ] at hi
      exact .inr (ih (by omega) hi hj)

theorem Earlier.exists : ∀ {cs : List LathChild}, Earlier x y cs →
    ∃ (i j : Nat) (a b : LathChild), i < j ∧ cs[i]? = some a ∧ cs[j]? = some b ∧ x ∈ nodeLeaves a.node ∧ y ∈ nodeLeaves b.node
  | c :: cs, .inl ⟨hx, hy⟩ => by
    obtain ⟨b, hb, hyb⟩ := mem_leavesOf.1 hy
    obtain ⟨j, hj⟩ := List.mem_iff_getElem?.1 hb
    exact ⟨0, j + 1, c, b, by omega, rfl, by rw [List.getElem?_cons_succ, hj], hx, hyb⟩
  | c :: cs, .inr h => by
    obtain ⟨i, j, a, b, hij, hi, hj, hx, hy⟩ := h.exists
    exact ⟨i + 1, j + 1, a, b, by omega, by rw [List.getElem?_cons_succ, hi], by rw [List.getElem?_cons_succ, hj], hx, hy⟩

end

/-! ## Nodes -/

section
variable {d : Dir} {x y : LeafId}

theorem precedesIn_iff (cs : List LathChild) : PrecedesIn d x y cs ↔ ∃ c ∈ cs, Precedes d x y c.node := by
  induction cs with
  | nil => simp [PrecedesIn]
  | cons c cs ih =>
    obtain ⟨n, w⟩ := c
    simp [PrecedesIn, ih]

@[simp] theorem not_precedes_leaf (id : LeafId) : ¬ Precedes d x y (.leaf id) := by simp [Precedes]

@[simp] theorem precedes_split (e : Dir) (cs : List LathChild) :
    Precedes d x y (.split e cs) ↔ (e = d ∧ Earlier x y cs) ∨ ∃ c ∈ cs, Precedes d x y c.node := by
  rw [Precedes, precedesIn_iff]

theorem Precedes.mem {n : LathNode} (h : Precedes d x y n) : x ∈ nodeLeaves n ∧ y ∈ nodeLeaves n := by
  induction n using LathNode.ind with
  | leaf id => exact absurd h (not_precedes_leaf id)
  | split e cs ih =>
    rw [nodeLeaves_split]
    rcases (precedes_split e cs).1 h with ⟨-, ha⟩ | ⟨c, hc, hp⟩
    · exact ha.mem
    · exact ⟨mem_leavesOf.2 ⟨c, hc, (ih c hc hp).1⟩, mem_leavesOf.2 ⟨c, hc, (ih c hc hp).2⟩⟩

theorem precedes_congr {n n' : LathNode} (h : strip n = strip n') : Precedes d x y n ↔ Precedes d x y n' := by
  refine strip_ind (fun _ => Iff.rfl) (fun e cs cs' hs ih => ?_) n n' h
  rw [precedes_split, precedes_split, earlier_congr (hs.imp (fun _ _ h => nodeLeaves_congr h))]
  have hchild : (∃ c ∈ cs, Precedes d x y c.node) ↔ ∃ c ∈ cs', Precedes d x y c.node := by
    clear hs
    induction ih with
    | nil => simp
    | cons hc _ ih => simp only [List.mem_cons, exists_eq_or_imp, hc, ih]
  rw [hchild]

theorem precedes_split_congr {e : Dir} {cs cs' : List LathChild} (h : cs.map (·.node) = cs'.map (·.node)) :
    Precedes d x y (.split e cs) ↔ Precedes d x y (.split e cs') := by
  refine precedes_congr ?_
  have := congrArg (List.map strip) h
  rw [List.map_map, List.map_map] at this
  rw [strip_split, strip_split]
  exact congrArg (Shape.split e) this

theorem precedes_single (e : Dir) (c : LathChild) : Precedes d x y (.split e [c]) ↔ Precedes d x y c.node := by
  simp [leavesOf]

theorem precedes_flatMap {e : Dir} {cs : List LathChild} (f : LathChild → List LathChild)
    (hf : ∀ c ∈ cs, leavesOf (f c) = nodeLeaves c.node)
    (hp : ∀ c ∈ cs, (Precedes d x y (.split e (f c)) ↔ Precedes d x y c.node)) :
    Precedes d x y (.split e (cs.flatMap f)) ↔ Precedes d x y (.split e cs) := by
  simp only [precedes_split, earlier_flatMap f cs hf, List.mem_flatMap] at hp ⊢
  constructor
  · rintro (⟨he, h | ⟨c, hc, h⟩⟩ | ⟨b, ⟨c, hc, hb⟩, h⟩)
    · exact .inl ⟨he, h⟩
    · exact .inr ⟨c, hc, (hp c hc).1 (.inl ⟨he, h⟩)⟩
    · exact .inr ⟨c, hc, (hp c hc).1 (.inr ⟨b, hb, h⟩)⟩
  · rintro (⟨he, h⟩ | ⟨c, hc, h⟩)
    · exact .inl ⟨he, .inl h⟩
    · rcases (hp c hc).2 h with ⟨he, h⟩ | ⟨b, hb, h⟩
      · exact .inl ⟨he, .inr ⟨c, hc, h⟩⟩
      · exact .inr ⟨b, ⟨c, hc, hb⟩, h⟩

theorem precedes_flattenInto (e : Dir) (w : ℚ) (n : LathNode) :
    Precedes d x y (.split e (flattenInto e w (some n))) ↔ Precedes d x y n := by
  cases n with
  | leaf id => exact precedes_single e ⟨.leaf id, w⟩
  | split e' gcs =>
    rw [flattenInto_split]
    split
    · rename_i he
      subst he
      exact precedes_split_congr (map_node_scale gcs w)
    · exact precedes_single e ⟨.split e' gcs, w⟩

/-- **`normalize` keeps every leaf on its side of every other.** -/
theorem precedes_normalize {n m : LathNode} (h : normalize n = some m) : Precedes d x y m ↔ Precedes d x y n := by
  induction n using LathNode.ind generalizing m with
  | leaf id =>
    rw [normalize_leaf] at h
    cases h
    exact Iff.rfl
  | split e cs ih =>
    have hcollect : Precedes d x y (.split e (collect e cs)) ↔ Precedes d x y (.split e cs) := by
      rw [collect_eq]
      refine precedes_flatMap _ (fun c _ => ?_) (fun c hc => ?_)
      · exact (leaves_flattenInto _ _ _).trans (nodeLeaves_normalize c.node)
      · cases hn : normalize c.node with
        | none =>
          -- a child that vanishes has no leaf to relate
          have hnone : nodeLeaves c.node = [] := by rw [← nodeLeaves_normalize, hn, optLeaves_none]
          have hnot : ¬ Precedes d x y c.node := fun hp => by simpa [hnone] using hp.mem.1
          simpa [flattenInto] using hnot
        | some k => rw [precedes_flattenInto, ih c hc hn]
    rw [← hcollect]
    rw [normalize_split] at h
    split at h
    · cases h
    · rename_i c hc
      cases h
      rw [hc, precedes_single]
    · rename_i c c' cs' hc
      cases h
      rw [hc]
      exact precedes_split_congr (map_node_normalizeWeights _)

end

/-! ## Distinct leaves -/

section
variable {d e : Dir} {x y : LeafId}
variable {cs : List LathChild}

theorem Earlier.not_same (hn : (nodeLeaves (.split d cs)).Nodup) (h : Earlier x y cs) {c : LathChild} (hc : c ∈ cs)
    (hx : x ∈ nodeLeaves c.node) : y ∉ nodeLeaves c.node := by
  intro hy
  obtain ⟨i, j, a, b, hij, hi, hj, hxa, hyb⟩ := h.exists
  obtain ⟨k, hk⟩ := List.mem_iff_getElem?.1 hc
  have hki := nodup_children hn hk hi hx hxa
  have hkj := nodup_children hn hk hj hy hyb
  omega

theorem Earlier.asymm (hn : (nodeLeaves (.split d cs)).Nodup) (h : Earlier x y cs) :
    ¬ Earlier y x cs := by
  intro h'
  obtain ⟨i, j, a, b, hij, hi, hj, hx, hy⟩ := h.exists
  obtain ⟨k, l, a', b', hkl, hk, hl, hy', hx'⟩ := h'.exists
  have hil := nodup_children hn hi hl hx hx'
  have hjk := nodup_children hn hj hk hy hy'
  omega

theorem earlier_or_same (hx : x ∈ leavesOf cs) (hy : y ∈ leavesOf cs) :
    Earlier x y cs ∨ Earlier y x cs ∨ ∃ c ∈ cs, x ∈ nodeLeaves c.node ∧ y ∈ nodeLeaves c.node := by
  obtain ⟨a, ha, hxa⟩ := mem_leavesOf.1 hx
  obtain ⟨b, hb, hyb⟩ := mem_leavesOf.1 hy
  obtain ⟨i, hi⟩ := List.mem_iff_getElem?.1 ha
  obtain ⟨j, hj⟩ := List.mem_iff_getElem?.1 hb
  rcases Nat.lt_trichotomy i j with hij | rfl | hij
  · exact .inl (earlier_getElem hij hi hj hxa hyb)
  · rw [hi] at hj
    cases hj
    exact .inr (.inr ⟨a, ha, hxa, hyb⟩)
  · exact .inr (.inl (earlier_getElem hij hj hi hyb hxa))

theorem precedes_child (hn : (nodeLeaves (.split d cs)).Nodup) {c : LathChild} (hc : c ∈ cs) (hx : x ∈ nodeLeaves c.node)
    (hy : y ∈ nodeLeaves c.node) :
    Precedes e x y (.split d cs) ↔ Precedes e x y c.node := by
  rw [precedes_split]
  constructor
  · rintro (⟨-, ha⟩ | ⟨c', hc', h⟩)
    · exact absurd hy (ha.not_same hn hc hx)
    · obtain ⟨i, hi⟩ := List.mem_iff_getElem?.1 hc
      obtain ⟨j, hj⟩ := List.mem_iff_getElem?.1 hc'
      have hij := nodup_children hn hi hj hx h.mem.1
      rw [← hij, hi] at hj
      cases hj
      exact h
  · exact fun h => .inr ⟨c, hc, h⟩

theorem Earlier.precedes_iff (hn : (nodeLeaves (.split d cs)).Nodup) (h : Earlier x y cs) :
    (Precedes e x y (.split d cs) ↔ d = e) ∧ ¬ Precedes e y x (.split d cs) := by
  have hchild : ¬ ∃ c ∈ cs, x ∈ nodeLeaves c.node ∧ y ∈ nodeLeaves c.node :=
    fun ⟨c, hc, hx, hy⟩ => h.not_same hn hc hx hy
  rw [precedes_split, precedes_split]
  refine ⟨⟨?_, fun he => .inl ⟨he, h⟩⟩, ?_⟩
  · rintro (⟨he, -⟩ | ⟨c, hc, hp⟩)
    · exact he
    · exact absurd ⟨c, hc, hp.mem⟩ hchild
  · rintro (⟨-, ha⟩ | ⟨c, hc, hp⟩)
    · exact h.asymm hn ha
    · exact hchild ⟨c, hc, hp.mem.2, hp.mem.1⟩

/-- **Of two leaves one comes first, along one direction.** -/
theorem Precedes.unique {n : LathNode} (hn : (nodeLeaves n).Nodup) (h : Precedes d x y n) :
    (∀ e, Precedes e x y n → d = e) ∧ ∀ e, ¬ Precedes e y x n := by
  induction n using LathNode.ind with
  | leaf id => exact absurd h (not_precedes_leaf id)
  | split f cs ih =>
    have hmem := h.mem
    rw [nodeLeaves_split] at hmem
    rcases earlier_or_same hmem.1 hmem.2 with ha | ha | ⟨c, hc, hx, hy⟩
    · have hf := (ha.precedes_iff hn).1.1 h
      exact ⟨fun e he => hf.symm.trans ((ha.precedes_iff hn).1.1 he), fun e => (ha.precedes_iff hn).2⟩
    · exact absurd h (ha.precedes_iff hn).2
    · have := ih c hc (nodup_child hn hc) ((precedes_child hn hc hx hy).1 h)
      exact ⟨fun e he => this.1 e ((precedes_child hn hc hx hy).1 he),
        fun e he => this.2 e ((precedes_child hn hc hy hx).1 he)⟩

theorem precedes_total {n : LathNode} (hx : x ∈ nodeLeaves n) (hy : y ∈ nodeLeaves n) (hxy : x ≠ y) :
    ∃ d, Precedes d x y n ∨ Precedes d y x n := by
  induction n using LathNode.ind with
  | leaf id => exact absurd ((List.mem_singleton.1 hx).trans (List.mem_singleton.1 hy).symm) hxy
  | split f cs ih =>
    rw [nodeLeaves_split] at hx hy
    rcases earlier_or_same hx hy with ha | ha | ⟨c, hc, hx, hy⟩
    · exact ⟨f, .inl ((precedes_split f cs).2 (.inl ⟨rfl, ha⟩))⟩
    · exact ⟨f, .inr ((precedes_split f cs).2 (.inl ⟨rfl, ha⟩))⟩
    · obtain ⟨d, h | h⟩ := ih c hc hx hy
      · exact ⟨d, .inl ((precedes_split f cs).2 (.inr ⟨c, hc, h⟩))⟩
      · exact ⟨d, .inr ((precedes_split f cs).2 (.inr ⟨c, hc, h⟩))⟩

theorem pairwise_precedes (n : LathNode) : (nodeLeaves n).Pairwise (fun x y => ∃ d, Precedes d x y n) := by
  induction n using LathNode.ind with
  | leaf id => simp
  | split f cs ih =>
    rw [nodeLeaves_split, List.pairwise_flatMap]
    refine ⟨fun c hc => (ih c hc).imp (fun ⟨d, h⟩ => ⟨d, (precedes_split f cs).2 (.inr ⟨c, hc, h⟩)⟩), ?_⟩
    rw [List.pairwise_iff_getElem]
    intro i j hi hj hij x hx y hy
    refine ⟨f, (precedes_split f cs).2 (.inl ⟨rfl, ?_⟩)⟩
    exact earlier_getElem hij (List.getElem?_eq_getElem hi) (List.getElem?_eq_getElem hj) hx hy

end

/-! ## The relation determines the tree -/

structure SameSides (n n' : LathNode) : Prop where
  leaves   : ∀ x, x ∈ nodeLeaves n ↔ x ∈ nodeLeaves n'
  precedes : ∀ d x y, Precedes d x y n ↔ Precedes d x y n'

theorem SameSides.symm {n n' : LathNode} (h : SameSides n n') : SameSides n' n :=
  ⟨fun x => (h.leaves x).symm, fun d x y => (h.precedes d x y).symm⟩

theorem SameSides.nodeLeaves_eq {n n' : LathNode} (h : SameSides n n') (hn : (nodeLeaves n).Nodup)
    (hn' : (nodeLeaves n').Nodup) : nodeLeaves n = nodeLeaves n' := by
  have hperm := (List.perm_ext_iff_of_nodup hn hn').2 h.leaves
  refine hperm.eq_of_pairwise (fun x y _ _ hxy hyx => ?_) (pairwise_precedes n)
    ((pairwise_precedes n').imp (fun ⟨d, hd⟩ => ⟨d, (h.precedes d _ _).2 hd⟩))
  obtain ⟨d, hd⟩ := hxy
  obtain ⟨e, he⟩ := hyx
  exact absurd he ((hd.unique hn).2 e)

/-- Of two lists of parts that keep the same elements together, the first part of one is no proper prefix of the other's. -/
theorem part_prefix {α : Type} {p a : List α} {P Q : List (List α)} (hp : p ≠ []) (hn : (p ++ P.flatten).Nodup)
    (hflat : P.flatten = a ++ Q.flatten)
    (hs : ∀ x y, (∃ r ∈ (p ++ a) :: Q, x ∈ r ∧ y ∈ r) → ∃ r ∈ p :: P, x ∈ r ∧ y ∈ r) : a = [] := by
  obtain ⟨x, hx⟩ := List.exists_mem_of_ne_nil p hp
  refine List.eq_nil_iff_forall_not_mem.2 (fun z hz => ?_)
  obtain ⟨-, -, hdisj⟩ := List.nodup_append.1 hn
  have hzP : z ∈ P.flatten := hflat ▸ List.mem_append_left _ hz
  obtain ⟨r, hr, hxr, hzr⟩ := hs x z ⟨p ++ a, List.mem_cons_self .., List.mem_append_left _ hx, List.mem_append_right _ hz⟩
  rcases List.mem_cons.1 hr with rfl | hr
  · exact hdisj z hzr z hzP rfl
  · exact hdisj x hx x (List.mem_flatten.2 ⟨r, hr, hxr⟩) rfl

/-- Lists of nonempty parts that flatten alike and keep the same elements together are equal. -/
theorem parts_eq {α : Type} : ∀ {P Q : List (List α)}, (∀ p ∈ P, p ≠ []) → (∀ q ∈ Q, q ≠ []) → P.flatten = Q.flatten →
    P.flatten.Nodup → (∀ x y, (∃ p ∈ P, x ∈ p ∧ y ∈ p) ↔ ∃ q ∈ Q, x ∈ q ∧ y ∈ q) → P = Q
  | [], [], _, _, _, _, _ => rfl
  | [], q :: Q, _, hQ, h, _, _ => by
    have := hQ q (List.mem_cons_self ..)
    simp_all
  | p :: P, [], hP, _, h, _, _ => by
    have := hP p (List.mem_cons_self ..)
    simp_all
  | p :: P, q :: Q, hP, hQ, h, hn, hs => by
    rw [List.flatten_cons, List.flatten_cons] at h
    rw [List.flatten_cons] at hn
    have hpq : p = q ∧ P.flatten = Q.flatten := by
      rcases List.append_eq_append_iff.1 h with ⟨a, rfl, hflat⟩ | ⟨a, rfl, hflat⟩
      · have ha := part_prefix (hP p (List.mem_cons_self ..)) hn hflat (fun x y => (hs x y).2)
        subst ha
        exact ⟨(List.append_nil p).symm, hflat⟩
      · rw [h] at hn
        have ha := part_prefix (hQ q (List.mem_cons_self ..)) hn hflat (fun x y => (hs x y).1)
        subst ha
        exact ⟨List.append_nil q, hflat.symm⟩
    obtain ⟨rfl, hflat⟩ := hpq
    obtain ⟨-, hnP, hdisj⟩ := List.nodup_append.1 hn
    -- a part of the tail holds no element of the head
    have htail : ∀ {R R' : List (List α)} {x y : α}, R.flatten = P.flatten →
        (∃ r ∈ R, x ∈ r ∧ y ∈ r) → (∃ r ∈ p :: R', x ∈ r ∧ y ∈ r) → ∃ r ∈ R', x ∈ r ∧ y ∈ r := by
      rintro R R' x y hR ⟨r, hr, hx, -⟩ ⟨r', hr', hx', hy'⟩
      rcases List.mem_cons.1 hr' with rfl | hr'
      · exact absurd rfl (hdisj x hx' x (hR ▸ List.mem_flatten.2 ⟨r, hr, hx⟩))
      · exact ⟨r', hr', hx', hy'⟩
    have hcons : ∀ {R : List (List α)} {x y : α}, (∃ r ∈ R, x ∈ r ∧ y ∈ r) → ∃ r ∈ p :: R, x ∈ r ∧ y ∈ r :=
      fun ⟨r, hr, h⟩ => ⟨r, List.mem_cons_of_mem _ hr, h⟩
    rw [parts_eq (fun r hr => hP r (List.mem_cons_of_mem _ hr)) (fun r hr => hQ r (List.mem_cons_of_mem _ hr)) hflat hnP
      (fun x y => ⟨fun h => htail rfl h ((hs x y).1 (hcons h)), fun h => htail hflat.symm h ((hs x y).2 (hcons h))⟩)]

def Same (x y : LeafId) (cs : List LathChild) : Prop := ∃ c ∈ cs, x ∈ nodeLeaves c.node ∧ y ∈ nodeLeaves c.node

section
variable {S S' : ℚ → Prop} {d d' : Dir} {cs cs' : List LathChild}

theorem Same.trans (hn : (nodeLeaves (.split d cs)).Nodup) {x y z : LeafId} (h : Same x y cs) (h' : Same y z cs) :
    Same x z cs := by
  obtain ⟨c, hc, hx, hy⟩ := h
  obtain ⟨c', hc', hy', hz⟩ := h'
  obtain ⟨i, hi⟩ := List.mem_iff_getElem?.1 hc
  obtain ⟨j, hj⟩ := List.mem_iff_getElem?.1 hc'
  have hij := nodup_children hn hi hj hy hy'
  rw [← hij, hi] at hj
  cases hj
  exact ⟨c, hc, hx, hz⟩

variable {x y : LeafId}

theorem Same.symm (h : Same x y cs) : Same y x cs := by
  obtain ⟨c, hc, hx, hy⟩ := h
  exact ⟨c, hc, hy, hx⟩

theorem Precedes.same (h : Precedes d' x y (.split d cs)) (hd : d ≠ d') : Same x y cs := by
  rcases (precedes_split d cs).1 h with ⟨he, -⟩ | ⟨c, hc, hp⟩
  · exact absurd he hd
  · exact ⟨c, hc, hp.mem⟩

theorem exists_earlier (hc : Canon S (.split d cs)) {x : LeafId} (hx : x ∈ nodeLeaves (.split d cs)) :
    ∃ y, Earlier x y cs ∨ Earlier y x cs := by
  obtain ⟨count, -, -, -, child⟩ := hc.split_inv
  rw [nodeLeaves_split] at hx
  obtain ⟨a, ha, hxa⟩ := mem_leavesOf.1 hx
  obtain ⟨i, hi⟩ := List.mem_iff_getElem?.1 ha
  obtain ⟨j, hj, hne⟩ : ∃ j, j < cs.length ∧ j ≠ i := by
    by_cases h0 : i = 0
    · exact ⟨1, by omega, by omega⟩
    · exact ⟨0, by omega, by omega⟩
  have hj' := List.getElem?_eq_getElem hj
  obtain ⟨y, hy⟩ := List.exists_mem_of_ne_nil _ (child _ (List.getElem_mem hj)).nodeLeaves_ne_nil
  rcases Nat.lt_or_gt_of_ne hne with hlt | hlt
  · exact ⟨y, .inr (earlier_getElem hlt hj' hi hy hxa)⟩
  · exact ⟨y, .inl (earlier_getElem hlt hi hj' hxa hy)⟩

theorem parted_or_both (hc : Canon S (.split d cs)) (hn : (nodeLeaves (.split d cs)).Nodup)
    (hx : x ∈ nodeLeaves (.split d cs)) (hy : y ∈ nodeLeaves (.split d cs)) :
    (Earlier x y cs ∨ Earlier y x cs) ∨ ∃ z, (Earlier x z cs ∨ Earlier z x cs) ∧ (Earlier y z cs ∨ Earlier z y cs) := by
  have hx' := hx
  have hy' := hy
  rw [nodeLeaves_split] at hx' hy'
  rcases earlier_or_same hx' hy' with h | h | ⟨c, hcc, hxc, hyc⟩
  · exact .inl (.inl h)
  · exact .inl (.inr h)
  · obtain ⟨z, hz⟩ := exists_earlier hc hx
    have hzl : z ∈ leavesOf cs := hz.elim (fun h => h.mem.2) (fun h => h.mem.1)
    have hzc : z ∉ nodeLeaves c.node := by
      rcases hz with h | h
      · exact h.not_same hn hcc hxc
      · exact fun hzc => h.not_same hn hcc hzc hxc
    refine .inr ⟨z, hz, ?_⟩
    rcases earlier_or_same hy' hzl with h | h | ⟨c', hcc', hyc', hzc'⟩
    · exact .inl h
    · exact .inr h
    · obtain ⟨k, hk⟩ := List.mem_iff_getElem?.1 hcc
      obtain ⟨l, hl⟩ := List.mem_iff_getElem?.1 hcc'
      have hkl := nodup_children hn hk hl hyc hyc'
      rw [← hkl, hk] at hl
      cases hl
      exact absurd hzc' hzc

theorem same_of_precedes (hc : Canon S (.split d cs)) (hn : (nodeLeaves (.split d cs)).Nodup)
    (hn' : (nodeLeaves (.split d' cs')).Nodup) (hd : d' ≠ d)
    (h : ∀ x y, Precedes d x y (.split d cs) → Precedes d x y (.split d' cs')) (hx : x ∈ nodeLeaves (.split d cs))
    (hy : y ∈ nodeLeaves (.split d cs)) : Same x y cs' := by
  have hpart : ∀ x y, Earlier x y cs ∨ Earlier y x cs → Same x y cs' := by
    intro x y hxy
    rcases hxy with ha | ha
    · exact (h x y ((precedes_split d cs).2 (.inl ⟨rfl, ha⟩))).same hd
    · exact ((h y x ((precedes_split d cs).2 (.inl ⟨rfl, ha⟩))).same hd).symm
  rcases parted_or_both hc hn hx hy with hxy | ⟨z, hxz, hyz⟩
  · exact hpart x y hxy
  · exact (hpart x z hxz).trans hn' (hpart y z hyz).symm

section
variable (hc : Canon S (.split d cs)) (hc' : Canon S' (.split d' cs')) (hn : (nodeLeaves (.split d cs)).Nodup)
  (hn' : (nodeLeaves (.split d' cs')).Nodup) (h : SameSides (.split d cs) (.split d' cs'))
include hc hc' hn hn' h

theorem SameSides.dir_eq : d' = d := by
  by_contra hd
  obtain ⟨x, hx⟩ := List.exists_mem_of_ne_nil _ hc.nodeLeaves_ne_nil
  obtain ⟨y, hy⟩ := exists_earlier hc' ((h.leaves x).1 hx)
  have hyl : y ∈ nodeLeaves (.split d' cs') := by
    rw [nodeLeaves_split]
    exact hy.elim (fun h => h.mem.2) (fun h => h.mem.1)
  obtain ⟨c, hcc, hxc, hyc⟩ := same_of_precedes hc hn hn' hd (fun x y => (h.precedes d x y).1) hx ((h.leaves y).2 hyl)
  rcases hy with ha | ha
  · exact ha.not_same hn' hcc hxc hyc
  · exact ha.not_same hn' hcc hyc hxc

omit hc' hn in
theorem SameSides.same (hd : d' = d) {x y : LeafId} (hxy : Same x y cs) (hchild : ∀ c ∈ cs, (nodeLeaves c.node).Nodup) :
    Same x y cs' := by
  obtain ⟨c, hcc, hx, hy⟩ := hxy
  obtain ⟨-, -, -, alt, child⟩ := hc.split_inv
  have hrel : ∀ e x y, Precedes e x y c.node → Precedes e x y (.split d' cs') :=
    fun e x y hp => (h.precedes e x y).1 ((precedes_split d cs).2 (.inr ⟨c, hcc, hp⟩))
  have halt := alt c hcc
  have hcan := child c hcc
  have hnd := hchild c hcc
  have hxl := (h.leaves x).1 (by rw [nodeLeaves_split]; exact mem_leavesOf.2 ⟨c, hcc, hx⟩)
  cases hnode : c.node with
  | leaf id =>
    rw [hnode, nodeLeaves_leaf, List.mem_singleton] at hx hy
    rw [nodeLeaves_split] at hxl
    obtain ⟨c', hc', hxc'⟩ := mem_leavesOf.1 hxl
    exact ⟨c', hc', hxc', by rw [hy, ← hx]; exact hxc'⟩
  | split e gs =>
    rw [hnode] at hrel halt hcan hnd hx hy
    exact same_of_precedes hcan hnd hn' (fun he => halt (by rw [← hd, he]; rfl)) (hrel e) hx hy

theorem SameSides.children : d' = d ∧ cs.map (fun c => nodeLeaves c.node) = cs'.map (fun c => nodeLeaves c.node) := by
  have hd := h.dir_eq hc hc' hn hn'
  refine ⟨hd, ?_⟩
  have hne : ∀ {T : ℚ → Prop} {f : Dir} {gs : List LathChild}, Canon T (.split f gs) →
      ∀ p ∈ gs.map (fun c => nodeLeaves c.node), p ≠ [] := by
    intro T f gs hg p hp
    obtain ⟨c, hcc, rfl⟩ := List.mem_map.1 hp
    exact (hg.split_inv.2.2.2.2 c hcc).nodeLeaves_ne_nil
  have hflat : ∀ (f : Dir) (gs : List LathChild), (gs.map (fun c => nodeLeaves c.node)).flatten = nodeLeaves (.split f gs) :=
    fun f gs => by rw [nodeLeaves_split, List.flatMap_def]
  have hsame : ∀ (gs : List LathChild) (x y : LeafId),
      (∃ p ∈ gs.map (fun c => nodeLeaves c.node), x ∈ p ∧ y ∈ p) ↔ Same x y gs := fun gs x y => by
    simp only [Same, List.mem_map, exists_exists_and_eq_and]
  refine parts_eq (hne hc) (hne hc') ?_ ?_ (fun x y => ?_)
  · rw [hflat d, hflat d', h.nodeLeaves_eq hn hn']
  · rw [hflat d]
    exact hn
  · rw [hsame, hsame]
    exact ⟨fun hxy => h.same hc hn' hd hxy (fun c => nodup_child hn),
      fun hxy => h.symm.same hc' hn hd.symm hxy (fun c => nodup_child hn')⟩

end

theorem SameSides.child (hn : (nodeLeaves (.split d cs)).Nodup) (hn' : (nodeLeaves (.split d' cs')).Nodup)
    (h : SameSides (.split d cs) (.split d' cs')) {c c' : LathChild} (hcc : c ∈ cs) (hcc' : c' ∈ cs')
    (hl : nodeLeaves c.node = nodeLeaves c'.node) : SameSides c.node c'.node := by
  refine ⟨fun x => by rw [hl], fun e x y => ⟨fun hp => ?_, fun hp => ?_⟩⟩
  · obtain ⟨hx, hy⟩ := hp.mem
    rw [← precedes_child hn' hcc' (hl ▸ hx) (hl ▸ hy), ← h.precedes, precedes_child hn hcc hx hy]
    exact hp
  · obtain ⟨hx, hy⟩ := hp.mem
    rw [← precedes_child hn hcc (hl ▸ hx) (hl ▸ hy), h.precedes, precedes_child hn' hcc' hx hy]
    exact hp

/-- **Which leaf lies on which side of which determines a canonical tree, weights apart.** -/
theorem strip_eq_of_precedes {n n' : LathNode} (hc : Canon S n) (hc' : Canon S' n') (hn : (nodeLeaves n).Nodup)
    (hn' : (nodeLeaves n').Nodup) (h : SameSides n n') : strip n = strip n' := by
  have hleaf : ∀ {T : ℚ → Prop} {id : LeafId} {f : Dir} {gs : List LathChild}, Canon T (.split f gs) →
      ¬ SameSides (.leaf id) (.split f gs) := by
    intro T id f gs hg hs
    obtain ⟨x, hx⟩ := List.exists_mem_of_ne_nil _ hg.nodeLeaves_ne_nil
    obtain ⟨y, hy | hy⟩ := exists_earlier hg hx
    · exact not_precedes_leaf id ((hs.precedes f x y).2 ((precedes_split f gs).2 (.inl ⟨rfl, hy⟩)))
    · exact not_precedes_leaf id ((hs.precedes f y x).2 ((precedes_split f gs).2 (.inl ⟨rfl, hy⟩)))
  induction n using LathNode.ind generalizing n' with
  | leaf id =>
    cases n' with
    | leaf id' =>
      have := h.nodeLeaves_eq hn hn'
      rw [nodeLeaves_leaf, nodeLeaves_leaf, List.singleton_inj] at this
      rw [this]
    | split d' cs' => exact absurd h (hleaf hc')
  | split d cs ih =>
    cases n' with
    | leaf id' => exact absurd h.symm (hleaf hc)
    | split d' cs' =>
      obtain ⟨hd, hparts⟩ := h.children hc hc' hn hn'
      have hlen : cs.length = cs'.length := by simpa using congrArg List.length hparts
      rw [strip_split, strip_split, hd]
      refine congrArg (Shape.split d) (List.ext_getElem (by simpa using hlen) (fun i hi hi' => ?_))
      rw [List.length_map] at hi hi'
      have hl : nodeLeaves cs[i].node = nodeLeaves cs'[i].node := by
        have := congrArg (fun l => l[i]?) hparts
        simpa [List.getElem?_eq_getElem hi, List.getElem?_eq_getElem hi'] using this
      have hm := List.getElem_mem hi
      have hm' := List.getElem_mem hi'
      rw [List.getElem_map, List.getElem_map]
      exact ih _ hm (hc.split_inv.2.2.2.2 _ hm) (hc'.split_inv.2.2.2.2 _ hm') (nodup_child hn hm) (nodup_child hn' hm')
        (h.child hn hn' hm hm' hl)

end

theorem exists_run {α : Type} {P : α → Prop} : ∀ (l : List α),
    (∀ (i j k : Nat) (a b c : α), i < j → j < k → l[i]? = some a → l[j]? = some b → l[k]? = some c → P a → P c → P b) →
      ∃ A B C, l = A ++ B ++ C ∧ (∀ a ∈ A, ¬ P a) ∧ (∀ b ∈ B, P b) ∧ ∀ c ∈ C, ¬ P c
  | [], _ => ⟨[], [], [], rfl, by simp, by simp, by simp⟩
  | a :: l, h => by
    obtain ⟨A, B, C, rfl, hA, hB, hC⟩ := exists_run l (fun i j k x y z hij hjk hi hj hk =>
      h (i + 1) (j + 1) (k + 1) x y z (by omega) (by omega) hi hj hk)
    by_cases ha : P a
    · cases B with
      | nil => exact ⟨[], [a], A ++ C, by simp, by simp, by simpa using ha,
          fun c hc => (List.mem_append.1 hc).elim (hA c) (hC c)⟩
      | cons b B =>
        cases A with
        | nil => exact ⟨[], a :: b :: B, C, rfl, by simp, fun x hx => (List.mem_cons.1 hx).elim (fun e => e ▸ ha) (hB x), hC⟩
        | cons a' A =>
          -- `a'` would be a gap between `a` and `b`
          refine absurd (h 0 1 (A.length + 2) a a' b (by omega) (by omega) rfl rfl ?_ ha (hB b (List.mem_cons_self ..)))
            (hA a' (List.mem_cons_self ..))
          simp
    · exact ⟨a :: A, B, C, rfl, fun x hx => (List.mem_cons.1 hx).elim (fun e => e ▸ ha) (hA x), hB, hC⟩

/-! ## What an edge target can name -/

/-- No leaf outside `L` tells two leaves of `L` apart. -/
structure Together (n : LathNode) (L : List LeafId) : Prop where
  sub   : ∀ x ∈ L, x ∈ nodeLeaves n
  alike : ∀ x ∈ L, ∀ y ∈ L, ∀ z, z ∉ L → ∀ d, (Precedes d z x n → Precedes d z y n) ∧ (Precedes d x z n → Precedes d y z n)

theorem Together.congr {n : LathNode} {L L' : List LeafId} (h : Together n L) (he : ∀ x, x ∈ L ↔ x ∈ L') : Together n L' :=
  ⟨fun x hx => h.sub x ((he x).2 hx), fun x hx y hy z hz =>
    h.alike x ((he x).2 hx) y ((he y).2 hy) z (fun hz' => hz ((he z).1 hz'))⟩

/-- The leaves of a node, or of two or more of the children of a split that stand in a row and are not all of them. -/
inductive Block (n : LathNode) (L : List LeafId) : Prop where
  | node {p : List Nat} {m : LathNode} (hp : nodeAt n p = some m) (leaves : ∀ x, x ∈ L ↔ x ∈ nodeLeaves m)
  | run {p : List Nat} {d : Dir} {A B C : List LathChild} (hp : nodeAt n p = some (.split d (A ++ B ++ C)))
      (two : 2 ≤ B.length) (proper : A ++ C ≠ []) (leaves : ∀ x, x ∈ L ↔ x ∈ leavesOf B)

theorem Block.child {d : Dir} {cs : List LathChild} {c : LathChild} (hc : c ∈ cs) {L : List LeafId} (h : Block c.node L) :
    Block (.split d cs) L := by
  obtain ⟨i, hi⟩ := List.mem_iff_getElem?.1 hc
  have hat : ∀ q, nodeAt (.split d cs) (i :: q) = nodeAt c.node q := fun q => by rw [nodeAt_split_cons, hi]; rfl
  cases h with
  | node hp leaves => exact .node ((hat _).trans hp) leaves
  | run hp two proper leaves => exact .run ((hat _).trans hp) two proper leaves

section
variable {S : ℚ → Prop} {d : Dir} {cs : List LathChild} {L : List LeafId} (hc : Canon S (.split d cs))
  (hn : (nodeLeaves (.split d cs)).Nodup) (hL : Together (.split d cs) L)
include hn hL

omit hn in
/-- Leaves parted within a child are parted by its own direction, which the split around it does not run along. -/
theorem Together.inner {a : LathChild} (ha : a ∈ cs) {e : Dir} {gs : List LathChild} (hnode : a.node = .split e gs)
    {x y z : LeafId} (hxL : x ∉ L) (hyL : y ∈ L) (hzL : z ∈ L) (hxy : Earlier x y gs ∨ Earlier y x gs) :
    Precedes e x z (.split d cs) ∨ Precedes e z x (.split d cs) := by
  have hin : ∀ {u v : LeafId}, Earlier u v gs → Precedes e u v (.split d cs) := fun h =>
    (precedes_split d cs).2 (.inr ⟨a, ha, by rw [hnode]; exact (precedes_split e gs).2 (.inl ⟨rfl, h⟩)⟩)
  rcases hxy with h | h
  · exact .inl ((hL.alike y hyL z hzL x hxL e).1 (hin h))
  · exact .inr ((hL.alike y hyL z hzL x hxL e).2 (hin h))

include hc

theorem Together.whole {a : LathChild} (ha : a ∈ cs) {y z : LeafId} (hy : y ∈ nodeLeaves a.node) (hyL : y ∈ L)
    (hz : z ∉ nodeLeaves a.node) (hzL : z ∈ L) : ∀ x ∈ nodeLeaves a.node, x ∈ L := by
  intro x hx
  by_contra hxL
  obtain ⟨-, -, -, alt, child⟩ := hc.split_inv
  have hzl := hL.sub z hzL
  have hal : ∀ u ∈ nodeLeaves a.node, u ∈ leavesOf cs := fun u hu => mem_leavesOf.2 ⟨a, ha, hu⟩
  -- a leaf of the child and one outside are parted by the split, along `d` alone
  have houter : ∀ u ∈ nodeLeaves a.node, ∀ e, Precedes e u z (.split d cs) ∨ Precedes e z u (.split d cs) → d = e := by
    intro u hu e h
    rw [nodeLeaves_split] at hzl
    rcases earlier_or_same (hal u hu) hzl with hp | hp | hs
    · exact h.elim (hp.precedes_iff hn).1.1 (fun h => absurd h (hp.precedes_iff hn).2)
    · exact h.elim (fun h => absurd h (hp.precedes_iff hn).2) (hp.precedes_iff hn).1.1
    · obtain ⟨c, hcc, huc, hzc⟩ := hs
      obtain ⟨k, hk⟩ := List.mem_iff_getElem?.1 ha
      obtain ⟨l, hl⟩ := List.mem_iff_getElem?.1 hcc
      have hkl := nodup_children hn hk hl hu huc
      rw [← hkl, hk] at hl
      cases hl
      exact absurd hzc hz
  have halt := alt a ha
  have hcan := child a ha
  have hnd := nodup_child hn ha
  cases hnode : a.node with
  | leaf id =>
    rw [hnode, nodeLeaves_leaf, List.mem_singleton] at hx hy
    exact hxL (hx.trans hy.symm ▸ hyL)
  | split e gs =>
    rw [hnode] at halt hcan hnd
    have hde : d ≠ e := fun he => halt (by rw [he]; rfl)
    obtain ⟨u, hu⟩ := exists_earlier hcan (hnode ▸ hx)
    have hug : u ∈ leavesOf gs := hu.elim (fun h => h.mem.2) (fun h => h.mem.1)
    have hua : u ∈ nodeLeaves a.node := by rw [hnode, nodeLeaves_split]; exact hug
    by_cases huL : u ∈ L
    · exact hde (houter x hx e (hL.inner ha hnode hxL huL hzL hu))
    · -- `u` is parted from `y`, or else `x` is
      have hyg := hnode ▸ hy
      rw [nodeLeaves_split] at hyg
      rcases earlier_or_same hug hyg with huy | huy | ⟨b, hb, hub, hyb⟩
      · exact hde (houter u hua e (hL.inner ha hnode huL hyL hzL (.inl huy)))
      · exact hde (houter u hua e (hL.inner ha hnode huL hyL hzL (.inr huy)))
      · have hxg := hnode ▸ hx
        rw [nodeLeaves_split] at hxg
        rcases earlier_or_same hxg hyg with hxy | hxy | hsame
        · exact hde (houter x hx e (hL.inner ha hnode hxL hyL hzL (.inl hxy)))
        · exact hde (houter x hx e (hL.inner ha hnode hxL hyL hzL (.inr hxy)))
        · obtain ⟨b', hb', hxb, hub'⟩ := Same.trans hnd hsame ⟨b, hb, hyb, hub⟩
          exact hu.elim (fun h => h.not_same hnd hb' hxb hub') (fun h => h.not_same hnd hb' hub' hxb)

omit hc in
theorem Together.between {i j k : Nat} (hij : i < j) (hjk : j < k) {a b c : LathChild} (hi : cs[i]? = some a)
    (hj : cs[j]? = some b) (hk : cs[k]? = some c) {x y z : LeafId} (hx : x ∈ nodeLeaves a.node) (hxL : x ∈ L)
    (hz : z ∈ nodeLeaves c.node) (hzL : z ∈ L) (hy : y ∈ nodeLeaves b.node) : y ∈ L := by
  by_contra hyL
  have hxy : Precedes d x y (.split d cs) := (precedes_split d cs).2 (.inl ⟨rfl, earlier_getElem hij hi hj hx hy⟩)
  have hyz : Earlier y z cs := earlier_getElem hjk hj hk hy hz
  exact (hyz.precedes_iff hn).2 ((hL.alike x hxL z hzL y hyL d).2 hxy)

theorem Together.run (hne : L ≠ []) (hspread : ∀ a ∈ cs, ∃ z ∈ L, z ∉ nodeLeaves a.node) :
    ∃ A B C, cs = A ++ B ++ C ∧ 2 ≤ B.length ∧ ∀ x, x ∈ L ↔ x ∈ leavesOf B := by
  have hwhole : ∀ c ∈ cs, (∃ x ∈ nodeLeaves c.node, x ∈ L) → ∀ x ∈ nodeLeaves c.node, x ∈ L := by
    rintro c hcc ⟨y, hy, hyL⟩
    obtain ⟨z, hzL, hz⟩ := hspread c hcc
    exact hL.whole hc hn hcc hy hyL hz hzL
  have hconvex : ∀ (i j k : Nat) (a b c : LathChild), i < j → j < k → cs[i]? = some a → cs[j]? = some b →
      cs[k]? = some c → (∃ x ∈ nodeLeaves a.node, x ∈ L) → (∃ x ∈ nodeLeaves c.node, x ∈ L) →
        ∃ x ∈ nodeLeaves b.node, x ∈ L := by
    rintro i j k a b c hij hjk hi hj hk ⟨x, hx, hxL⟩ ⟨z, hz, hzL⟩
    obtain ⟨y, hy⟩ := List.exists_mem_of_ne_nil _
      (hc.split_inv.2.2.2.2 b (List.mem_of_getElem? hj)).nodeLeaves_ne_nil
    exact ⟨y, hy, hL.between hn hij hjk hi hj hk hx hxL hz hzL hy⟩
  obtain ⟨A, B, C, rfl, hA, hB, hC⟩ := exists_run cs hconvex
  have hB' : ∀ c ∈ B, c ∈ A ++ B ++ C := fun c h => List.mem_append_left _ (List.mem_append_right _ h)
  have hmem : ∀ x, x ∈ L ↔ x ∈ leavesOf B := by
    intro x
    rw [mem_leavesOf]
    constructor
    · intro hx
      have hxl := hL.sub x hx
      rw [nodeLeaves_split] at hxl
      obtain ⟨c, hcc, hxc⟩ := mem_leavesOf.1 hxl
      rcases List.mem_append.1 hcc with h | h
      · rcases List.mem_append.1 h with h | h
        · exact absurd ⟨x, hxc, hx⟩ (hA c h)
        · exact ⟨c, h, hxc⟩
      · exact absurd ⟨x, hxc, hx⟩ (hC c h)
    · rintro ⟨c, hcB, hxc⟩
      exact hwhole c (hB' c hcB) (hB c hcB) x hxc
  refine ⟨A, B, C, rfl, ?_, hmem⟩
  match B with
  | [] =>
    obtain ⟨x, hx⟩ := List.exists_mem_of_ne_nil L hne
    exact absurd ((hmem x).1 hx) (List.not_mem_nil)
  | [b] =>
    obtain ⟨z, hzL, hz⟩ := hspread b (hB' b (List.mem_singleton_self b))
    exact absurd (by simpa [leavesOf] using (hmem z).1 hzL) hz
  | _ :: _ :: B => simp

end

/-- **Leaves no other leaf tells apart are those of a node or of a run of a split's children.** -/
theorem Together.block {S : ℚ → Prop} {n : LathNode} {L : List LeafId} (hc : Canon S n) (hn : (nodeLeaves n).Nodup)
    (hL : Together n L) (hne : L ≠ []) : Block n L := by
  induction n using LathNode.ind with
  | leaf id =>
    refine .node (nodeAt_nil _) (fun x => ⟨hL.sub x, fun hx => ?_⟩)
    obtain ⟨y, hy⟩ := List.exists_mem_of_ne_nil L hne
    have hyid := hL.sub y hy
    rw [nodeLeaves_leaf, List.mem_singleton] at hx hyid
    rw [hx, ← hyid]
    exact hy
  | split d cs ih =>
    by_cases hone : ∃ a ∈ cs, ∀ x ∈ L, x ∈ nodeLeaves a.node
    · obtain ⟨a, ha, hin⟩ := hone
      have hup : ∀ e x y, Precedes e x y a.node → Precedes e x y (.split d cs) :=
        fun e x y h => (precedes_split d cs).2 (.inr ⟨a, ha, h⟩)
      refine (ih a ha (hc.split_inv.2.2.2.2 a ha) (nodup_child hn ha) ⟨hin, fun x hx y hy z hz e =>
        ⟨fun h => ?_, fun h => ?_⟩⟩).child ha
      · exact (precedes_child hn ha h.mem.1 (hin y hy)).1 ((hL.alike x hx y hy z hz e).1 (hup e z x h))
      · exact (precedes_child hn ha (hin y hy) h.mem.2).1 ((hL.alike x hx y hy z hz e).2 (hup e x z h))
    · push Not at hone
      obtain ⟨A, B, C, rfl, two, leaves⟩ := hL.run hc hn hne hone
      by_cases hAC : A ++ C = []
      · obtain ⟨rfl, rfl⟩ := List.append_eq_nil_iff.1 hAC
        refine .node (nodeAt_nil _) (fun x => ?_)
        rw [leaves, nodeLeaves_split, List.nil_append, List.append_nil]
      · exact .run (nodeAt_nil _) two hAC leaves

end Lath
end Dormouse

import Dormouse.LathKeep
/-!
# LathShape — what the structure fingerprint identifies

`structureFingerprint` is uniquely readable (`stringify_append_inj`), so two nodes have one fingerprint exactly when
they differ in weights alone: `strip n = strip n'`.  The searches of `restore` and the trees it builds read no weight
either; their congruence lemmas below carry a restore from one tree to any other of its structure.
-/
namespace Dormouse
namespace Lath

/-! ## The fingerprint is injective -/

theorem Shape.stringify_leaf (id : LeafId) :
    (Shape.leaf id).stringify = units "\x7b\"k\":\"leaf\",\"id\":" ++ quote id ++ units "\x7d" := by
  rw [Shape.stringify]

theorem Shape.stringify_split (d : Dir) (cs : List Shape) :
    (Shape.split d cs).stringify = units "\x7b\"k\":\"split\",\"dir\":\"" ++ d.text ++ units "\",\"children\":[" ++
      Shape.stringifyAll cs ++ units "]\x7d" := by
  rw [Shape.stringify]

theorem Shape.stringify_head (s : Shape) : ∃ r, s.stringify = 0x7b :: r := by
  cases s with
  | leaf id => rw [Shape.stringify_leaf]; exact ⟨_, rfl⟩
  | split d cs => rw [Shape.stringify_split]; exact ⟨_, rfl⟩

theorem Dir.text_append_inj {r s : JsString} : ∀ {d e : Dir}, d.text ++ r = e.text ++ s → d = e ∧ r = s
  | .row, .row, h => ⟨rfl, List.append_cancel_left h⟩
  | .col, .col, h => ⟨rfl, List.append_cancel_left h⟩
  | .row, .col, h => absurd (List.cons.inj h).1 (by decide)
  | .col, .row, h => absurd (List.cons.inj h).1 (by decide)

theorem leaf_ne_split (a b : JsString) :
    units "\x7b\"k\":\"leaf\",\"id\":" ++ a ≠ units "\x7b\"k\":\"split\",\"dir\":\"" ++ b := by
  intro h
  have := congrArg (List.take 7) h
  rw [List.take_append_of_le_length (by decide), List.take_append_of_le_length (by decide)] at this
  revert this
  decide

theorem Shape.stringifyAll_nil : Shape.stringifyAll [] = [] := by rw [Shape.stringifyAll]

theorem Shape.stringifyAll_one (c : Shape) : Shape.stringifyAll [c] = c.stringify := by rw [Shape.stringifyAll]

theorem Shape.stringifyAll_cons (c d : Shape) (cs : List Shape) :
    Shape.stringifyAll (c :: d :: cs) = c.stringify ++ units "," ++ Shape.stringifyAll (d :: cs) := by
  rw [Shape.stringifyAll]

theorem stringifyAll_cons_head (c : Shape) (cs : List Shape) : ∃ r, Shape.stringifyAll (c :: cs) = 0x7b :: r := by
  obtain ⟨r, hr⟩ := c.stringify_head
  cases cs with
  | nil => exact ⟨r, by rw [Shape.stringifyAll_one, hr]⟩
  | cons d cs => exact ⟨_, by rw [Shape.stringifyAll_cons, hr]; rfl⟩

theorem stringifyAll_cons_ne (c : Shape) (cs : List Shape) (r r' : JsString) :
    Shape.stringifyAll (c :: cs) ++ r ≠ units "]\x7d" ++ r' := by
  obtain ⟨x, hx⟩ := stringifyAll_cons_head c cs
  rw [hx]
  intro h
  exact absurd (List.cons.inj h).1 (by decide)

theorem bracket_ne_comma (r r' : JsString) : units "]\x7d" ++ r ≠ units "," ++ r' := by
  intro h
  exact absurd (List.cons.inj h).1 (by decide)

mutual
/-- **A stringified shape is uniquely readable.** -/
theorem stringify_append_inj : ∀ (s s' : Shape) (r r' : JsString),
    s.stringify ++ r = s'.stringify ++ r' → s = s' ∧ r = r'
  | .leaf id, .leaf id', r, r', h => by
    simp only [Shape.stringify_leaf, List.append_assoc, List.append_cancel_left_eq] at h
    obtain ⟨rfl, hr⟩ := quote_append_inj h
    exact ⟨rfl, List.append_cancel_left hr⟩
  | .leaf id, .split d cs, r, r', h => by
    simp only [Shape.stringify_leaf, Shape.stringify_split, List.append_assoc] at h
    exact absurd h (leaf_ne_split _ _)
  | .split d cs, .leaf id, r, r', h => by
    simp only [Shape.stringify_leaf, Shape.stringify_split, List.append_assoc] at h
    exact absurd h.symm (leaf_ne_split _ _)
  | .split d cs, .split d' cs', r, r', h => by
    simp only [Shape.stringify_split, List.append_assoc, List.append_cancel_left_eq] at h
    obtain ⟨rfl, hcs⟩ := Dir.text_append_inj h
    obtain ⟨rfl, hr⟩ := stringifyAll_append_inj cs cs' r r' (List.append_cancel_left hcs)
    exact ⟨rfl, hr⟩
theorem stringifyAll_append_inj : ∀ (cs cs' : List Shape) (r r' : JsString),
    Shape.stringifyAll cs ++ (units "]\x7d" ++ r) = Shape.stringifyAll cs' ++ (units "]\x7d" ++ r') → cs = cs' ∧ r = r'
  | [], [], r, r', h => ⟨rfl, List.append_cancel_left (List.append_cancel_left h)⟩
  | [], c' :: cs', r, r', h => by
    rw [Shape.stringifyAll_nil, List.nil_append] at h
    exact absurd h.symm (stringifyAll_cons_ne c' cs' _ _)
  | c :: cs, [], r, r', h => by
    rw [Shape.stringifyAll_nil, List.nil_append] at h
    exact absurd h (stringifyAll_cons_ne c cs _ _)
  | [c], [c'], r, r', h => by
    rw [Shape.stringifyAll_one, Shape.stringifyAll_one] at h
    obtain ⟨rfl, hr⟩ := stringify_append_inj c c' _ _ h
    exact ⟨rfl, List.append_cancel_left hr⟩
  | [c], c' :: d' :: cs', r, r', h => by
    rw [Shape.stringifyAll_one, Shape.stringifyAll_cons, List.append_assoc, List.append_assoc] at h
    exact absurd (stringify_append_inj c c' _ _ h).2 (bracket_ne_comma _ _)
  | c :: d :: cs, [c'], r, r', h => by
    rw [Shape.stringifyAll_one, Shape.stringifyAll_cons, List.append_assoc, List.append_assoc] at h
    exact absurd (stringify_append_inj c c' _ _ h).2.symm (bracket_ne_comma _ _)
  | c :: d :: cs, c' :: d' :: cs', r, r', h => by
    simp only [Shape.stringifyAll_cons, List.append_assoc] at h
    obtain ⟨rfl, ht⟩ := stringify_append_inj c c' _ _ h
    obtain ⟨hds, hr⟩ := stringifyAll_append_inj (d :: cs) (d' :: cs') r r' (List.append_cancel_left ht)
    exact ⟨by rw [hds], hr⟩
end

variable {n n' : LathNode}

theorem structureFingerprint_inj : structureFingerprint n = structureFingerprint n' ↔
    strip n = strip n' := by
  refine ⟨fun h => (stringify_append_inj _ _ [] [] ?_).1, fun h => congrArg Shape.stringify h⟩
  rw [List.append_nil, List.append_nil]
  exact h

/-! ## Nodes of one structure -/

theorem stripAll_eq (cs : List LathChild) : stripAll cs = cs.map (fun c => strip c.node) := by
  induction cs with
  | nil => simp [stripAll]
  | cons c cs ih =>
    obtain ⟨n, w⟩ := c
    simp [stripAll, ih]

@[simp] theorem strip_leaf (id : LeafId) : strip (.leaf id) = .leaf id := by simp [strip]
@[simp] theorem strip_split (d : Dir) (cs : List LathChild) :
    strip (.split d cs) = .split d (cs.map (fun c => strip c.node)) := by simp [strip, stripAll_eq]

abbrev SameShape (cs cs' : List LathChild) : Prop := List.Forall₂ (fun c c' => strip c.node = strip c'.node) cs cs'

theorem sameShape_iff {cs cs' : List LathChild} :
    SameShape cs cs' ↔ cs.map (fun c => strip c.node) = cs'.map (fun c => strip c.node) := by
  rw [← List.forall₂_eq_eq_eq, List.forall₂_map_left_iff, List.forall₂_map_right_iff]

theorem strip_eq_leaf {n : LathNode} {id : LeafId} (h : strip n = .leaf id) : n = .leaf id := by
  cases n with
  | leaf id' => simpa using h
  | split d cs => simp at h

theorem strip_eq_split {n : LathNode} {d : Dir} {cs : List LathChild} (h : strip n = strip (.split d cs)) :
    ∃ cs', n = .split d cs' ∧ SameShape cs' cs := by
  cases n with
  | leaf id' => simp at h
  | split d' cs' =>
    simp only [strip_split, Shape.split.injEq] at h
    obtain ⟨rfl, h⟩ := h
    exact ⟨cs', rfl, sameShape_iff.2 h⟩

@[elab_as_elim]
theorem strip_ind {motive : LathNode → LathNode → Prop} (leaf : ∀ id, motive (.leaf id) (.leaf id))
    (split : ∀ d cs cs', SameShape cs cs' → List.Forall₂ (fun c c' => motive c.node c'.node) cs cs' →
      motive (.split d cs) (.split d cs')) (n n' : LathNode) (h : strip n = strip n') : motive n n' := by
  induction n using LathNode.ind generalizing n' with
  | leaf id =>
    rw [strip_eq_leaf (h.symm.trans (strip_leaf id))]
    exact leaf id
  | split d cs ih =>
    obtain ⟨cs', rfl, hs⟩ := strip_eq_split h.symm
    have hs := hs.flip.imp (fun _ _ => Eq.symm)
    exact split d cs cs' hs (List.forall₂_iff_get.2 ⟨hs.length_eq, fun i h₁ h₂ =>
      ih _ (List.get_mem cs ⟨i, h₁⟩) _ (hs.get h₁ h₂)⟩)

section
variable {n n' : LathNode} (h : strip n = strip n')
include h

theorem nodeLeaves_congr : nodeLeaves n = nodeLeaves n' := by
  refine strip_ind (fun _ => rfl) (fun d cs cs' hs ih => ?_) n n' h
  rw [nodeLeaves_split, nodeLeaves_split]
  clear hs
  induction ih with
  | nil => rfl
  | cons hc _ ih => rw [List.flatMap_cons, List.flatMap_cons, hc, ih]

theorem findLeaf_congr (id : LeafId) : findLeaf id n = findLeaf id n' := by
  refine strip_ind (fun _ => rfl) (fun d cs cs' hs ih => ?_) n n' h
  have hin : ∀ i, findLeafIn id i cs = findLeafIn id i cs' := by
    clear hs
    induction ih with
    | nil => exact fun _ => rfl
    | cons hc _ ih => intro i; rw [findLeafIn, findLeafIn, hc, ih]
  rw [findLeaf, findLeaf, hin]

theorem findFingerprint_congr (f : JsString) : findFingerprint f n = findFingerprint f n' := by
  refine strip_ind (fun _ => rfl) (fun d cs cs' hs ih => ?_) n n' h
  have hin : ∀ i, findFingerprintIn f i cs = findFingerprintIn f i cs' := by
    clear hs
    induction ih with
    | nil => exact fun _ => rfl
    | cons hc _ ih => intro i; rw [findFingerprintIn, findFingerprintIn, hc, ih]
  have hf : structureFingerprint (.split d cs) = structureFingerprint (.split d cs') :=
    structureFingerprint_inj.2 (by rw [strip_split, strip_split, sameShape_iff.1 hs])
  rw [findFingerprint, findFingerprint, hin, hf]

theorem targetWalk_congr (wanted : List LeafId) :
    ∀ path found, targetWalk wanted path found n = targetWalk wanted path found n' := by
  refine strip_ind (fun _ _ _ => rfl) (fun d cs cs' hs ih path found => ?_) n n' h
  have hin : ∀ found i, targetWalkAll wanted path found i cs = targetWalkAll wanted path found i cs' := by
    clear hs
    induction ih with
    | nil => exact fun _ _ => rfl
    | cons hc _ ih => intro found i; rw [targetWalkAll, targetWalkAll, hc, ih]
  rw [targetWalk, targetWalk, hin]

end

theorem nodeAt_congr : ∀ (p : List Nat) {n n' : LathNode}, strip n = strip n' →
    (nodeAt n p).map strip = (nodeAt n' p).map strip
  | [], n, n', h => by simpa using h
  | i :: p, n, n', h => by
    refine strip_ind (fun _ => rfl) (fun d cs cs' hs _ => ?_) n n' h
    simp only [nodeAt_split_cons]
    have hi : (cs[i]?).map (fun c => strip c.node) = (cs'[i]?).map (fun c => strip c.node) := by
      rw [← List.getElem?_map, ← List.getElem?_map, sameShape_iff.1 hs]
    cases hc : cs[i]? with
    | none => 
      rw [hc] at hi
      rw [Option.map_eq_none_iff.1 hi.symm]
    | some c =>
      rw [hc] at hi
      obtain ⟨c', hc', he⟩ := Option.map_eq_some_iff.1 hi.symm
      rw [hc']
      exact nodeAt_congr p he.symm

theorem replaceAtPath_congr : ∀ (p : List Nat) {n n' r r' : LathNode}, strip n = strip n' → strip r = strip r' →
    strip (replaceAtPath n p r) = strip (replaceAtPath n' p r')
  | [], n, n', r, r', _, hr => by simpa using hr
  | i :: p, n, n', r, r', h, hr => by
    refine strip_ind (fun _ => rfl) (fun d cs cs' hs _ => ?_) n n' h
    have hi : (cs[i]?).map (fun c => strip c.node) = (cs'[i]?).map (fun c => strip c.node) := by
      rw [← List.getElem?_map, ← List.getElem?_map, sameShape_iff.1 hs]
    cases hc : cs[i]? with
    | none =>
      rw [hc] at hi
      have hc' := Option.map_eq_none_iff.1 hi.symm
      simp only [replaceAtPath, hc, hc', strip_split, sameShape_iff.1 hs]
    | some c =>
      rw [hc] at hi
      obtain ⟨c', hc', he⟩ := Option.map_eq_some_iff.1 hi.symm
      rw [replaceAtPath_cons hc, replaceAtPath_cons hc', strip_split, strip_split, List.map_set, List.map_set,
        sameShape_iff.1 hs, replaceAtPath_congr p he.symm hr]

theorem flattenInto_congr (d : Dir) (w w' : ℚ) {n? n?' : Option LathNode} (h : n?.map strip = n?'.map strip) :
    SameShape (flattenInto d w n?) (flattenInto d w' n?') := by
  rw [sameShape_iff]
  cases n? with
  | none => rw [Option.map_eq_none_iff.1 h.symm]; rfl
  | some n =>
    obtain ⟨n', rfl, he⟩ := Option.map_eq_some_iff.1 h.symm
    refine strip_ind (fun id => ?_) (fun e cs cs' hs _ => ?_) n n' he.symm
    · simp [flattenInto]
    · simp only [flattenInto]
      by_cases hd : e = d
      · simpa [hd, Function.comp_def] using sameShape_iff.1 hs
      · simp [hd, sameShape_iff.1 hs]

theorem strip_normalizeWeights (cs : List LathChild) :
    (normalizeWeights cs).map (fun c => strip c.node) = cs.map (fun c => strip c.node) := by
  have h := congrArg (List.map strip) (map_node_normalizeWeights cs)
  simpa only [List.map_map, Function.comp_def] using h

theorem normalize_congr (h : strip n = strip n') : (normalize n).map strip = (normalize n').map strip := by
  refine strip_ind (fun _ => rfl) (fun d cs cs' hs ih => ?_) n n' h
  have hcol : SameShape (collect d cs) (collect d cs') := by
    rw [collect_eq, collect_eq]
    clear hs
    induction ih with
    | nil => exact .nil
    | cons hc _ ih =>
      rw [List.flatMap_cons, List.flatMap_cons]
      exact List.rel_append (flattenInto_congr d _ _ hc) ih
  rw [normalize_split, normalize_split]
  match collect d cs, collect d cs', hcol with
  | [], [], _ => rfl
  | [c], [c'], .cons hc _ => simpa using hc
  | c :: e :: cs, c' :: e' :: cs', hs =>
    simp only [Option.map_some, strip_split, strip_normalizeWeights, sameShape_iff.1 hs]

/-! ## Trees of one structure -/

def treeShape (t : LathTree) : Option Shape := t.root.map strip

@[simp] theorem treeShape_mk (n? : Option LathNode) : treeShape ⟨n?⟩ = n?.map strip := rfl

theorem treeShape_eq_none {t : LathTree} (h : treeShape t = none) : t = ⟨none⟩ := by
  rcases t with ⟨_ | n⟩
  · rfl
  · cases h

theorem treeShape_eq_some {t : LathTree} {s : Shape} (h : treeShape t = some s) : ∃ n, t = ⟨some n⟩ ∧ strip n = s := by
  rcases t with ⟨_ | n⟩
  · cases h
  · exact ⟨n, rfl, Option.some.inj h⟩

variable {t t' : LathTree}

theorem treeShape_cases {motive : LathTree → LathTree → Prop} (empty : motive ⟨none⟩ ⟨none⟩)
    (root : ∀ n n', strip n = strip n' → motive ⟨some n⟩ ⟨some n'⟩) (h : treeShape t = treeShape t') : motive t t' := by
  rcases t with ⟨_ | n⟩
  · rw [treeShape_eq_none h.symm]
    exact empty
  · obtain ⟨n', rfl, he⟩ := treeShape_eq_some h.symm
    exact root n n' he.symm

theorem findLeafPath_congr (h : treeShape t = treeShape t') (id : LeafId) :
    findLeafPath t id = findLeafPath t' id :=
  treeShape_cases (motive := fun t t' => findLeafPath t id = findLeafPath t' id) rfl
    (fun _ _ hn => findLeaf_congr hn id) h

theorem strip_besideNode (edge : Edge) (new : LathNode) (w v : ℚ) {old old' : LathNode} (h : strip old = strip old')
    (w' v' : ℚ) : strip (besideNode edge new w old v) = strip (besideNode edge new w' old' v') := by
  unfold besideNode
  cases edgeIsBefore edge <;> simp [h]

theorem split_congr (h : treeShape t = treeShape t') (at' : LeafId) (edge : Edge) (newId : LeafId) :
    (split t at' edge newId).ok = (split t' at' edge newId).ok ∧
      treeShape (split t at' edge newId).tree = treeShape (split t' at' edge newId).tree := by
  have hfind := findLeafPath_congr h
  revert hfind
  refine treeShape_cases (motive := fun t t' => (∀ id, findLeafPath t id = findLeafPath t' id) →
    (split t at' edge newId).ok = (split t' at' edge newId).ok ∧
      treeShape (split t at' edge newId).tree = treeShape (split t' at' edge newId).tree) (fun _ => ⟨rfl, rfl⟩)
    (fun n n' hn hfind => ?_) h
  unfold split
  dsimp only
  rw [hfind, hfind]
  cases findLeafPath ⟨some n'⟩ at' with
  | none => exact ⟨rfl, congrArg some hn⟩
  | some p =>
    dsimp only
    split
    · exact ⟨rfl, congrArg some hn⟩
    · exact ⟨rfl, normalize_congr (replaceAtPath_congr p hn rfl)⟩

theorem targetByLeafSet_congr (h : treeShape t = treeShape t') (wanted : List LeafId) (edge : Edge) :
    targetByLeafSet t wanted edge = targetByLeafSet t' wanted edge := by
  refine treeShape_cases (motive := fun t t' => targetByLeafSet t wanted edge = targetByLeafSet t' wanted edge) rfl
    (fun n n' hn => ?_) h
  unfold targetByLeafSet
  dsimp only
  rw [targetWalk_congr hn]

theorem strip_groupRange {d : Dir} {cs cs' : List LathChild} (hs : SameShape cs cs') (start stop : Nat) :
    strip (groupRange d cs start stop) = strip (groupRange d cs' start stop) := by
  simp only [groupRange, strip_split, List.map_append, List.map_cons, List.map_take, List.map_drop,
    strip_normalizeWeights, sameShape_iff.1 hs]

theorem materializeTarget_congr (h : strip n = strip n') (target : EdgeDropTarget) :
    (materializeTarget ⟨some n⟩ target).map (fun r => (treeShape r.1, r.2)) =
      (materializeTarget ⟨some n'⟩ target).map (fun r => (treeShape r.1, r.2)) := by
  unfold materializeTarget
  cases hp : indexPath target.path with
  | none => rfl
  | some path =>
    have hat := nodeAt_congr path h
    simp only [nodeAtPath, Option.bind_some]
    cases hm : nodeAt n path with
    | none =>
      rw [hm] at hat
      rw [Option.map_eq_none_iff.1 hat.symm]
    | some m =>
      rw [hm] at hat
      obtain ⟨m', hm', he⟩ := Option.map_eq_some_iff.1 hat.symm
      rw [hm']
      cases target.range with
      | none => simp [h]
      | some range =>
        clear hm hm' hat
        revert he
        refine fun he => strip_ind (fun _ => rfl) (fun d cs cs' hs _ => ?_) m m' he.symm
        dsimp only
        cases range.start.int? with
        | none => rfl
        | some start =>
          cases range.stop.int? with
          | none => rfl
          | some stop =>
            dsimp only
            rw [hs.length_eq]
            split
            · rfl
            · split
              · simp [h]
              · simp [replaceAtPath_congr path h (strip_groupRange hs start.toNat stop.toNat)]

theorem strip_spliceLeaf (cs : List LathChild) (idx : Nat) (before : Bool) (new : LathNode) (w : ℚ) :
    (spliceLeaf cs idx before new w .renormalize).map (fun c => strip c.node) =
      (cs.map (fun c => strip c.node)).take (if before then idx else idx + 1) ++
        strip new :: (cs.map (fun c => strip c.node)).drop (if before then idx else idx + 1) := by
  simp [spliceLeaf, List.map_take, List.map_drop]

theorem nested_congr (h : strip n = strip n') (path : List Nat) (edge : Edge) (id : LeafId) (w : ℚ) :
    treeShape (match nodeAt n path with
        | none => ⟨some n⟩
        | some m => ⟨normalize (replaceAtPath n path (besideNode edge (mkLeaf id) w m (1 - w)))⟩) =
      treeShape (match nodeAt n' path with
        | none => ⟨some n'⟩
        | some m => ⟨normalize (replaceAtPath n' path (besideNode edge (mkLeaf id) w m (1 - w)))⟩) := by
  have hat := nodeAt_congr path h
  cases hm : nodeAt n path with
  | none =>
    rw [hm] at hat
    rw [Option.map_eq_none_iff.1 hat.symm]
    exact congrArg some h
  | some m =>
    rw [hm] at hat
    obtain ⟨m', hm', he⟩ := Option.map_eq_some_iff.1 hat.symm
    rw [hm']
    exact normalize_congr (replaceAtPath_congr path h (strip_besideNode edge _ _ _ he.symm _ _))

theorem insertBesideNode_congr (h : strip n = strip n') (path : List Nat) (edge : Edge) (id : LeafId) (w : ℚ) :
    treeShape (insertBesideNode ⟨some n⟩ path edge id w .renormalize) =
      treeShape (insertBesideNode ⟨some n'⟩ path edge id w .renormalize) := by
  unfold insertBesideNode
  dsimp only
  cases path.getLast? with
  | none => exact normalize_congr (strip_besideNode edge _ _ _ h _ _)
  | some idx =>
    dsimp only
    have hpar := nodeAt_congr path.dropLast h
    have hnest := nested_congr h path edge id w
    cases hm : nodeAt n path.dropLast with
    | none =>
      rw [hm] at hpar
      rw [Option.map_eq_none_iff.1 hpar.symm]
      exact hnest
    | some m =>
      rw [hm] at hpar
      obtain ⟨m', hm', he⟩ := Option.map_eq_some_iff.1 hpar.symm
      rw [hm']
      clear hm hm' hpar
      refine strip_ind (fun _ => hnest) (fun d cs cs' hs _ => ?_) m m' he.symm
      dsimp only
      split
      · refine normalize_congr (replaceAtPath_congr _ h ?_)
        simp only [strip_split, strip_normalizeWeights, strip_spliceLeaf, sameShape_iff.1 hs]
      · exact hnest

theorem insert_weight_congr (h : strip n = strip n') (id : LeafId) (target : EdgeDropTarget) (w : ℚ) :
    (insert ⟨some n⟩ id (.edge target) (.weight (.fin w))).ok =
        (insert ⟨some n'⟩ id (.edge target) (.weight (.fin w))).ok ∧
      treeShape (insert ⟨some n⟩ id (.edge target) (.weight (.fin w))).tree =
        treeShape (insert ⟨some n'⟩ id (.edge target) (.weight (.fin w))).tree := by
  have ht : treeShape ⟨some n⟩ = treeShape ⟨some n'⟩ := congrArg some h
  have hmat := materializeTarget_congr h target
  unfold insert insertImpl
  dsimp only
  rw [findLeafPath_congr ht id, Option.isNone_some, Option.isNone_some]
  split
  · exact ⟨rfl, ht⟩
  cases hm : materializeTarget ⟨some n⟩ target with
  | none =>
    rw [hm] at hmat
    rw [Option.map_eq_none_iff.1 hmat.symm]
    exact ⟨rfl, ht⟩
  | some r =>
    rw [hm] at hmat
    obtain ⟨r', hm', he⟩ := Option.map_eq_some_iff.1 hmat.symm
    obtain ⟨hg, hpath⟩ := Prod.mk.inj he
    rw [hm']
    refine ⟨rfl, ?_⟩
    dsimp only
    rw [hpath]
    exact treeShape_cases (motive := fun g g' =>
      treeShape (insertBesideNode g r.2 target.edge id (InsertSize.weight (.fin w)).clamped .renormalize) =
        treeShape (insertBesideNode g' r.2 target.edge id (InsertSize.weight (.fin w)).clamped .renormalize)) rfl
      (fun _ _ hn => insertBesideNode_congr hn r.2 target.edge id _) hg.symm

/-! ## `restore` reads the structure alone -/

theorem restoreParent_congr (h : strip n = strip n') (token : RestoreToken) (f : JsString) :
    (restoreParent ⟨some n⟩ token f).map treeShape = (restoreParent ⟨some n'⟩ token f).map treeShape := by
  unfold restoreParent findSplitPathByFingerprint
  simp only [Option.bind_some, findFingerprint_congr h]
  cases findFingerprint f n' with
  | none => rfl
  | some p =>
    dsimp only
    have hat := nodeAt_congr p h
    cases hm : nodeAt n p with
    | none =>
      rw [hm] at hat
      rw [Option.map_eq_none_iff.1 hat.symm]
    | some m =>
      rw [hm] at hat
      obtain ⟨m', hm', he⟩ := Option.map_eq_some_iff.1 hat.symm
      rw [hm']
      clear hm hm' hat
      refine strip_ind (fun _ => rfl) (fun d cs cs' hs _ => ?_) m m' he.symm
      refine congrArg some (normalize_congr (replaceAtPath_congr p h ?_))
      simp only [strip_split, strip_normalizeWeights, reinsertLeaf, List.map_append, List.map_cons, List.map_take,
        List.map_drop, List.length_map, List.map_map, Function.comp_def, sameShape_iff.1 hs, hs.length_eq]

theorem nodeAtPath_fingerprint_congr (h : treeShape t = treeShape t') (path : List Nat) :
    (nodeAtPath t path).map structureFingerprint = (nodeAtPath t' path).map structureFingerprint := by
  refine treeShape_cases (motive := fun t t' => (nodeAtPath t path).map structureFingerprint =
    (nodeAtPath t' path).map structureFingerprint) rfl (fun n n' hn => ?_) h
  have hat := congrArg (Option.map Shape.stringify) (nodeAt_congr path hn)
  rw [Option.map_map, Option.map_map] at hat
  exact hat

theorem restoreSibling_congr (h : strip n = strip n') (token : RestoreToken) :
    (restoreSibling ⟨some n⟩ token).map treeShape = (restoreSibling ⟨some n'⟩ token).map treeShape := by
  have ht : treeShape ⟨some n⟩ = treeShape ⟨some n'⟩ := congrArg some h
  unfold restoreSibling
  cases token.siblingLeafIds with
  | none => rfl
  | some ids =>
    cases token.siblingFingerprint with
    | none => rfl
    | some f =>
      dsimp only
      rw [targetByLeafSet_congr ht]
      split
      · cases targetByLeafSet ⟨some n'⟩ ids.dedup token.edge with
        | none => rfl
        | some target =>
          have hmat := materializeTarget_congr h target
          obtain ⟨hok, htree⟩ := insert_weight_congr h token.leafId target token.weight
          dsimp only
          cases hm : materializeTarget ⟨some n⟩ target with
          | none =>
            rw [hm] at hmat
            rw [Option.map_eq_none_iff.1 hmat.symm]
          | some r =>
            rw [hm] at hmat
            obtain ⟨r', hm', he⟩ := Option.map_eq_some_iff.1 hmat.symm
            obtain ⟨hg, hpath⟩ := Prod.mk.inj he
            rw [hm']
            dsimp only
            rw [hpath, nodeAtPath_fingerprint_congr hg, hok]
            split
            · split
              · exact congrArg some htree
              · rfl
            · rfl
      · rfl

theorem restoreExact_congr (h : strip n = strip n') (token : RestoreToken) :
    (restoreExact ⟨some n⟩ token).map treeShape = (restoreExact ⟨some n'⟩ token).map treeShape := by
  unfold restoreExact
  cases token.siblingId with
  | none => rfl
  | some sid =>
    cases token.fingerprint with
    | none => rfl
    | some f =>
      dsimp only
      have hpar := restoreParent_congr h token f
      cases hp : restoreParent ⟨some n⟩ token f with
      | none =>
        rw [hp] at hpar
        rw [Option.map_eq_none_iff.1 hpar.symm]
        exact restoreSibling_congr h token
      | some t =>
        rw [hp] at hpar
        obtain ⟨t', hp', he⟩ := Option.map_eq_some_iff.1 hpar.symm
        rw [hp']
        exact congrArg some he.symm

theorem restoreNeighbor_congr (h : strip n = strip n') (token : RestoreToken) :
    (restoreNeighbor ⟨some n⟩ token).map treeShape = (restoreNeighbor ⟨some n'⟩ token).map treeShape := by
  have ht : treeShape ⟨some n⟩ = treeShape ⟨some n'⟩ := congrArg some h
  unfold restoreNeighbor
  cases token.siblingId with
  | none => rfl
  | some sid =>
    obtain ⟨hok, htree⟩ := split_congr ht sid token.edge token.leafId
    dsimp only
    rw [findLeafPath_congr ht, hok]
    split
    · exact congrArg some htree
    · rfl

/-- **A restore that needs no fallback succeeds alike on every tree of one structure, with results of one structure.** -/
theorem restoreRead_congr (h : treeShape t = treeShape t') {token : RestoreToken} {opts : RestoreOpts}
    (hok : (restoreRead t token opts).ok = true)
    (htier : t.root = none ∨ (restoreRead t token opts).tier ≠ some .fallback) :
    (restoreRead t' token opts).ok = true ∧
      treeShape (restoreRead t' token opts).tree = treeShape (restoreRead t token opts).tree := by
  have hfind := findLeafPath_congr h token.leafId
  revert hok htier hfind
  refine treeShape_cases (motive := fun t t' => (restoreRead t token opts).ok = true →
    (t.root = none ∨ (restoreRead t token opts).tier ≠ some .fallback) →
    findLeafPath t token.leafId = findLeafPath t' token.leafId → (restoreRead t' token opts).ok = true ∧
      treeShape (restoreRead t' token opts).tree = treeShape (restoreRead t token opts).tree)
    (fun hok _ _ => ⟨hok, rfl⟩) (fun n n' hn hok htier hfind => ?_) h
  have hex := restoreExact_congr hn token
  have hne := restoreNeighbor_congr hn token
  have htier := htier.resolve_left (by simp)
  unfold restoreRead at hok htier ⊢
  rw [hfind] at hok htier ⊢
  by_cases hin : (findLeafPath ⟨some n'⟩ token.leafId).isSome = true
  · rw [if_pos hin] at hok
    cases hok
  rw [if_neg hin] at hok htier ⊢
  rw [if_neg hin]
  simp only [Option.isNone_some, Bool.false_eq_true, if_false] at hok htier ⊢
  cases he : restoreExact ⟨some n⟩ token with
  | some r =>
    rw [he] at hex
    obtain ⟨r', hr', hs⟩ := Option.map_eq_some_iff.1 hex.symm
    rw [hr']
    exact ⟨rfl, hs⟩
  | none =>
    rw [he] at hex hok htier
    rw [Option.map_eq_none_iff.1 hex.symm]
    cases hb : restoreNeighbor ⟨some n⟩ token with
    | some r =>
      rw [hb] at hne
      obtain ⟨r', hr', hs⟩ := Option.map_eq_some_iff.1 hne.symm
      rw [hr']
      exact ⟨rfl, hs⟩
    | none =>
      rw [hb] at hok htier
      cases hf : restoreFallback ⟨some n⟩ token opts with
      | some r => rw [hf] at htier; exact absurd rfl htier
      | none => rw [hf] at hok; cases hok

end Lath
end Dormouse

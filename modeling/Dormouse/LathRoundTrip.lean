import Dormouse.LathRestore
/-!
# LathRoundTrip — `restore` undoes `remove`

The round trip of one removal, case by case of what `remove` left (`restoreRead_remove`), with the token going through
the untyped form `restore` reads (`readRestoreToken_toJson`), and of a sequence of removals (`restoreAll_removeAll`).
-/
namespace Dormouse
namespace Lath

/-! ## The token as `restore` is handed it -/

def Edge.text : Edge → JsString
  | .left   => units "left"
  | .right  => units "right"
  | .top    => units "top"
  | .bottom => units "bottom"

def nullable : Option JsString → Json
  | none   => .null
  | some s => .str s

/-- The token object; an optional field that `remove` leaves out is absent. -/
def RestoreToken.toJson (token : RestoreToken) : Json :=
  .obj ([(units "leafId", .str token.leafId), (units "weight", .num (.fin token.weight)),
      (units "siblingId", nullable token.siblingId), (units "edge", .str token.edge.text),
      (units "index", .num (.ofNat token.index)), (units "fingerprint", nullable token.fingerprint)] ++
    token.siblingLeafIds.toList.map (fun ids => (units "siblingLeafIds", .arr (ids.map .str))) ++
    token.siblingFingerprint.toList.map (fun f => (units "siblingFingerprint", .str f)))

theorem readEdge_text (e : Edge) : readEdge (some (.str e.text)) = some e := by cases e <;> rfl

theorem readNullable_nullable (s : Option JsString) : readNullable (some (nullable s)) = some s := by cases s <;> rfl

theorem readIndex_ofNat (k : Nat) : readIndex (some (.num (.ofNat k))) = some k := JsNum.index?_ofNat k

/-- **A token `remove` made is read back as it is.** -/
theorem readRestoreToken_toJson (token : RestoreToken) (h : token.WeightOk) :
    readRestoreToken token.toJson = some token := by
  have hids : token.toJson.field (units "siblingLeafIds") =
      token.siblingLeafIds.map (fun ids => Json.arr (ids.map .str)) := by
    unfold RestoreToken.toJson
    cases token.siblingLeafIds <;> cases token.siblingFingerprint <;> rfl
  have hfp : token.toJson.field (units "siblingFingerprint") = token.siblingFingerprint.map Json.str := by
    unfold RestoreToken.toJson
    cases token.siblingLeafIds <;> cases token.siblingFingerprint <;> rfl
  have hreadIds : readLeafIds (token.siblingLeafIds.map (fun ids => Json.arr (ids.map .str))) =
      some token.siblingLeafIds := by
    cases token.siblingLeafIds <;> simp [readLeafIds]
  have hreadFp : readOptional (token.siblingFingerprint.map Json.str) = some token.siblingFingerprint := by
    cases token.siblingFingerprint <;> rfl
  have hleaf : token.toJson.field (units "leafId") = some (.str token.leafId) := rfl
  have hweight : token.toJson.field (units "weight") = some (.num (.fin token.weight)) := rfl
  have hsibling : token.toJson.field (units "siblingId") = some (nullable token.siblingId) := rfl
  have hedge : token.toJson.field (units "edge") = some (.str token.edge.text) := rfl
  have hindex : token.toJson.field (units "index") = some (.num (.ofNat token.index)) := rfl
  have hprint : token.toJson.field (units "fingerprint") = some (nullable token.fingerprint) := rfl
  unfold readRestoreToken
  rw [hids, hfp, hreadIds, hreadFp, hleaf, hweight, hsibling, hedge, hindex, hprint, readNullable_nullable,
    readNullable_nullable, readEdge_text, readIndex_ofNat]
  exact if_pos h

/-! ## One removal -/

theorem restoreNeighbor_leaf {n : LathNode} (hcan : Canon exact n) (hnd : (nodeLeaves n).Nodup) {p : List Nat} {d : Dir}
    {cs : List LathChild} (hpar : nodeAt n p = some (.split d cs)) {idx : Nat} {id : LeafId} {w : ℚ}
    (hc : cs[idx]? = some ⟨.leaf id, w⟩) {sib : LathChild} (hsib : cs.eraseIdx idx = [sib]) {sid : LeafId}
    (hleaf : sib.node = .leaf sid) {token : RestoreToken} (hid : token.leafId = id)
    (hedge : token.edge = siblingEdge d (decide (0 < idx))) (hsid : token.siblingId = some sid) :
    normalize (replaceAtPath n p (.split d (cs.eraseIdx idx))) = some (replaceAtPath n p (.leaf sid)) ∧
      restoreNeighbor ⟨some (replaceAtPath n p (.leaf sid))⟩ token =
        some ⟨some (replaceAtPath n p (.split d (pairWith idx id (1 / 2) (.leaf sid) (1 - 1 / 2))))⟩ := by
  have hd : (LathNode.leaf sid).dir? ≠ some d := nofun
  have hsingle : normalize (.split d [sib]) = some (.leaf sid) := by
    rw [normalize_single (by rw [hleaf]; exact .leaf sid) (by rw [hleaf]; exact hd), hleaf]
  have hleaves : nodeLeaves (.leaf sid) = leavesOf (cs.eraseIdx idx) := by simp [hsib, leavesOf, hleaf]
  obtain ⟨hnd', hid'⟩ := leaves_eraseIdx_nodup hnd hpar hc hleaves
  have hat := nodeAt_replaceAtPath_self p (.leaf sid) hpar
  have hcan' : Canon exact (replaceAtPath n p (.leaf sid)) := Canon.replaceAtPath p hcan hpar (.leaf sid) (.inr rfl)
  have hfind : findLeafPath ⟨some (replaceAtPath n p (.leaf sid))⟩ sid = some p := by
    have hmem := mem_leaves_of_nodeAt p hat sid (by simp)
    cases hf : findLeafPath ⟨some (replaceAtPath n p (.leaf sid))⟩ sid with
    | none => exact absurd hmem (findLeafPath_eq_none.1 hf)
    | some q =>
      obtain ⟨n', hroot, hq, _⟩ := findLeafPath_spec hf
      cases hroot
      rw [nodeAt_unique q p hcan' hnd' hq hat (fun x => Iff.rfl)]
  have hnew : findLeafPath ⟨some (replaceAtPath n p (.leaf sid))⟩ id = none := findLeafPath_eq_none.2 hid'
  refine ⟨by rw [hsib]; exact normalize_replaceAtPath hcan hpar hsingle (.leaf sid) (.inr rfl), ?_⟩
  have hsplit : split ⟨some (replaceAtPath n p (.leaf sid))⟩ sid token.edge id =
      ⟨⟨some (replaceAtPath n p (.split d (pairWith idx id (1 / 2) (.leaf sid) (1 - 1 / 2))))⟩, true⟩ := by
    have hhalf : (1 : ℚ) - 1 / 2 = 1 / 2 := by norm_num
    unfold split
    dsimp only
    rw [hfind]
    dsimp only
    rw [hnew, if_neg (by simp), replaceAtPath_twice p _ _ hpar, hedge, besideNode_siblingEdge]
    have hnorm := normalize_pair hcan hpar (.leaf sid) hd idx id (w := 1 / 2) (by norm_num) (by norm_num)
    rw [hhalf] at hnorm ⊢
    rw [mkLeaf, hnorm]
  unfold restoreNeighbor
  simp only [hsid, hid, hsplit, hfind, Option.isSome_some, Bool.and_self, if_true]

def evenPair (cs : List LathChild) : List LathChild := cs.map (fun c => ⟨c.node, 1 / 2⟩)

def LeafPair (cs : List LathChild) : Prop := cs.length = 2 ∧ ∀ c ∈ cs, c.node.dir? = none

theorem clampWeight_of_mem {w : ℚ} (h0 : 1 / 1000000 ≤ w) (h1 : w ≤ 1 - 1 / 1000000) : clampWeight (.fin w) = w := by
  unfold clampWeight
  dsimp only
  rw [max_eq_left h0, min_eq_left h1]

theorem evenPair_pairWith (idx : Nat) (id : LeafId) (w : ℚ) (s : LathNode) (v : ℚ) :
    evenPair (pairWith idx id w s v) = pairWith idx id (1 / 2) s (1 - 1 / 2) := by
  have hhalf : (1 : ℚ) - 1 / 2 = 1 / 2 := by norm_num
  unfold evenPair pairWith
  rw [hhalf]
  split <;> rfl

theorem strip_pairWith (idx : Nat) (id : LeafId) (w w' : ℚ) (s : LathNode) (v v' : ℚ) :
    (pairWith idx id w s v).map (fun c => strip c.node) = (pairWith idx id w' s v').map (fun c => strip c.node) := by
  unfold pairWith
  split <;> rfl

section
variable {n : LathNode} {token : RestoreToken} (hid : token.leafId ∉ nodeLeaves n) (opts : RestoreOpts)
include hid

theorem restoreRead_exact {t : LathTree} (h : restoreExact ⟨some n⟩ token = some t) :
    restoreRead ⟨some n⟩ token opts = ⟨t, true, some .exact⟩ := by
  have hfind : findLeafPath ⟨some n⟩ token.leafId = none := findLeafPath_eq_none.2 hid
  unfold restoreRead
  rw [hfind, h]
  rfl

theorem restoreRead_neighbor {t : LathTree} (h : restoreExact ⟨some n⟩ token = none)
    (hn : restoreNeighbor ⟨some n⟩ token = some t) : restoreRead ⟨some n⟩ token opts = ⟨t, true, some .neighbor⟩ := by
  have hfind : findLeafPath ⟨some n⟩ token.leafId = none := findLeafPath_eq_none.2 hid
  unfold restoreRead
  rw [hfind, h, hn]
  rfl

end

/-- What a restore of `n`'s leaf from the split `cs` at `p` gives: the structure of `n`; `n` itself for a weight in the
insert range, except that two leaves come back at half each. -/
structure Undoes (n : LathNode) (p : List Nat) (d : Dir) (cs : List LathChild) (w : ℚ) (m : LathNode) : Prop where
  shape : strip m = strip n
  pair  : LeafPair cs → m = replaceAtPath n p (.split d (evenPair cs))
  same  : ¬ LeafPair cs → 1 / 1000000 ≤ w → w ≤ 1 - 1 / 1000000 → m = n

theorem strip_rebuilt {n : LathNode} {p : List Nat} {d : Dir} {cs cs' : List LathChild}
    (hpar : nodeAt n p = some (.split d cs))
    (h : cs'.map (fun c => strip c.node) = cs.map (fun c => strip c.node)) :
    strip (replaceAtPath n p (.split d cs')) = strip n := by
  conv => rhs; rw [← replaceAtPath_self p hpar]
  exact replaceAtPath_congr p rfl (by rw [strip_split, strip_split, h])

/-- **One removal from a split is undone**, by the parent's fingerprint, beside the sibling group or beside the sibling
leaf. -/
theorem restoreRead_removed {n : LathNode} (hcan : Canon exact n) (hnd : (nodeLeaves n).Nodup) {p : List Nat} {d : Dir}
    {cs : List LathChild} (hpar : nodeAt n p = some (.split d cs)) {idx : Nat} {id : LeafId} {w : ℚ}
    (hc : cs[idx]? = some ⟨.leaf id, w⟩) {sib : LathChild}
    (hsib : cs[if 0 < idx then idx - 1 else idx + 1]? = some sib) (opts : RestoreOpts) :
    ∃ n' m tier, normalize (replaceAtPath n p (.split d (cs.eraseIdx idx))) = some n' ∧
      restoreRead ⟨some n'⟩ (removeToken id d cs idx ⟨.leaf id, w⟩ sib) opts = ⟨⟨some m⟩, true, some tier⟩ ∧
      tier ≠ .fallback ∧ Undoes n p d cs w m := by
  have hsplit := nodeAt_canon p hcan hpar
  have hcount := hsplit.split_inv.1
  have hout : ∀ n', normalize (replaceAtPath n p (.split d (cs.eraseIdx idx))) = some n' → id ∉ nodeLeaves n' := by
    intro n' hn'
    have hl := nodeLeaves_normalize (replaceAtPath n p (.split d (cs.eraseIdx idx)))
    rw [hn', optLeaves_some] at hl
    rw [hl]
    exact (leaves_eraseIdx_nodup hnd hpar hc (nodeLeaves_split d _)).2
  have hsome : (nodeLeaves sib.node).head? = some ((nodeLeaves sib.node).head
      (hsplit.split_inv.2.2.2.2 sib (List.mem_of_getElem? hsib)).nodeLeaves_ne_nil) := List.head?_eq_some_head _
  generalize htok : removeToken id d cs idx ⟨.leaf id, w⟩ sib = token
  have hid : token.leafId = id := by rw [← htok]; rfl
  have hw : token.weight = w := by rw [← htok]; rfl
  have hedge : token.edge = siblingEdge d (decide (0 < idx)) := by rw [← htok]; rfl
  have hsid : token.siblingId = (nodeLeaves sib.node).head? := by rw [← htok]; rfl
  have hfp : token.fingerprint = some (structureFingerprint (.split d (cs.eraseIdx idx))) := by rw [← htok]; rfl
  have hexact : ∀ t, restoreExact t token =
      (restoreParent t token (structureFingerprint (.split d (cs.eraseIdx idx)))).or (restoreSibling t token) := by
    intro t
    unfold restoreExact
    rw [hsid, hsome, hfp]
    dsimp only
    cases restoreParent t token (structureFingerprint (.split d (cs.eraseIdx idx))) <;> rfl
  rw [← hid] at hout
  rcases Nat.lt_or_ge 2 cs.length with h3 | h2
  · -- the parent still stands
    have hnorm := (normalize_wide hcan hpar hc h3).2
    refine ⟨_, n, .exact, hnorm, restoreRead_exact (hout _ hnorm) opts ?_, by decide, rfl,
      fun hpair => absurd hpair.1 (by omega), fun _ _ _ => rfl⟩
    rw [hexact, restoreParent_wide hcan hnd hpar hc h3 hid hw (by rw [← htok]; rfl), Option.some_or]
  · have h2 : cs.length = 2 := by omega
    obtain ⟨hpw, herase⟩ := pair_of_length_two h2 hc hsib
    have hv : sib.weight = 1 - w := by
      have := weightSum_eraseIdx hc
      rw [herase, show weightSum cs = 1 from hsplit.split_inv.2.2.1] at this
      simpa using this
    have hparent : ∀ n', normalize (replaceAtPath n p (.split d (cs.eraseIdx idx))) = some n' →
        restoreExact ⟨some n'⟩ token = restoreSibling ⟨some n'⟩ token := by
      intro n' hn'
      have hpos : Positive (replaceAtPath n p (.split d (cs.eraseIdx idx))) := by
        obtain ⟨_, pos, _, _, child⟩ := hsplit.split_inv
        exact replaceAtPath_positive p hcan.positive (.split (fun c hc => pos c (List.mem_of_mem_eraseIdx hc))
          (fun c hc => (child c (List.mem_of_mem_eraseIdx hc)).positive))
      rw [hexact, herase, restoreParent_single (normalize_canon hpos n' hn'), Option.none_or]
    cases hnode : sib.node with
    | split e sc =>
      -- it collapsed onto a group
      obtain ⟨n', hnorm, hres⟩ := restoreSibling_group hcan hnd hpar hc herase hnode hid hedge (by rw [← htok]; rfl)
        (by rw [← htok]; rfl)
      refine ⟨n', _, .exact, hnorm, restoreRead_exact (hout _ hnorm) opts ((hparent n' hnorm).trans hres), by decide,
        strip_rebuilt hpar ?_, fun hpair => ?_, fun _ h0 h1 => ?_⟩
      · rw [hpw]
        exact strip_pairWith _ _ _ _ _ _ _
      · have := hpair.2 sib (mem_of_eraseIdx_single herase)
        rw [hnode] at this
        cases this
      · rw [hw, clampWeight_of_mem h0 h1, ← hv, ← hpw, replaceAtPath_self p hpar]
    | leaf sid =>
      -- it collapsed onto a leaf
      obtain ⟨hnorm, hres⟩ := restoreNeighbor_leaf hcan hnd hpar hc herase hnode hid hedge (by
        rw [← htok]; simp [removeToken, hnode])
      refine ⟨_, _, .neighbor, hnorm, restoreRead_neighbor (hout _ hnorm) opts ?_ hres, by decide,
        strip_rebuilt hpar ?_, fun _ => ?_, fun hpair => absurd ⟨h2, ?_⟩ hpair⟩
      · rw [hparent _ hnorm]
        unfold restoreSibling
        rw [← htok]
        simp [removeToken, hnode]
      · rw [hpw, hnode]
        exact strip_pairWith _ _ _ _ _ _ _
      · rw [hpw, evenPair_pairWith, hnode]
      · intro c hmem
        rw [hpw, hnode] at hmem
        unfold pairWith at hmem
        split at hmem <;> simp only [List.mem_cons, List.not_mem_nil, or_false] at hmem <;>
          rcases hmem with rfl | rfl <;> rfl

/-- A removal and its restore, read back: what `Undoes` says of a leaf in a split, the same tree for a lone leaf. -/
theorem restoreRead_remove {t : LathTree} (h : Valid exact t) {id : LeafId} (hid : id ∈ leaves t) (opts : RestoreOpts) :
    ∃ token, (remove t id).ok = true ∧ (remove t id).token = some token ∧ token.WeightOk ∧
      (restoreRead (remove t id).tree token opts).ok = true ∧
      ((remove t id).tree.root = none ∨ (restoreRead (remove t id).tree token opts).tier ≠ some .fallback) ∧
      treeShape (restoreRead (remove t id).tree token opts).tree = treeShape t ∧
      (t = leafTree id → (restoreRead (remove t id).tree token opts).tree = t) ∧
      ∀ (n : LathNode) (p : List Nat) (d : Dir) (cs : List LathChild) (idx : Nat) (w : ℚ), t.root = some n →
        nodeAt n p = some (.split d cs) → cs[idx]? = some ⟨.leaf id, w⟩ →
        ∃ m, (restoreRead (remove t id).tree token opts).tree = ⟨some m⟩ ∧ Undoes n p d cs w m := by
  rcases remove_cases h id with ⟨hnot, _⟩ | ⟨rfl, hr⟩ | ⟨n, p, d, cs, idx, w, sib, hroot, hfind, hpar, hc, hsib, hr⟩
  · exact absurd hid hnot
  · rw [hr]
    refine ⟨_, rfl, rfl, ⟨by norm_num, .inr ⟨rfl, rfl, rfl⟩⟩, rfl, .inl rfl, rfl, fun _ => rfl, ?_⟩
    rintro n p d cs idx w hroot hpar -
    cases hroot
    cases p <;> simp at hpar
  · rcases t with ⟨r⟩
    cases hroot
    have hcan := h.canon n rfl
    obtain ⟨n', m, tier, hnorm, hres, htier, hund⟩ := restoreRead_removed hcan h.nodup hpar hc hsib opts
    obtain ⟨hw0, hw1⟩ := weight_lt_one (nodeAt_canon p hcan hpar) hc
    rw [hr]
    dsimp only
    rw [hnorm]
    refine ⟨_, rfl, rfl, ⟨hw0, .inl hw1⟩, by rw [hres], .inr ?_, ?_, fun ht => ?_, ?_⟩
    · rw [hres]
      exact fun he => htier (Option.some.inj he)
    · rw [hres]
      exact congrArg some hund.shape
    · simp only [leafTree, LathTree.mk.injEq, Option.some.injEq] at ht
      rw [ht] at hpar
      cases p <;> simp at hpar
    · intro n₂ q e es k v hroot hq hk
      cases hroot
      -- the leaf has one place in the tree
      have hat : nodeAt n (p ++ [idx]) = some (.leaf id) := by simp [nodeAt_append, hpar, nodeAt_split_cons, hc]
      have hat' : nodeAt n (q ++ [k]) = some (.leaf id) := by simp [nodeAt_append, hq, nodeAt_split_cons, hk]
      have hpath := nodeAt_unique _ _ hcan h.nodup hat hat' (fun x => Iff.rfl)
      obtain ⟨rfl, hidx⟩ := List.append_inj' hpath rfl
      cases hidx
      rw [hpar] at hq
      cases hq
      rw [hc] at hk
      cases hk
      exact ⟨m, by rw [hres], hund⟩

/-! ## A sequence of removals -/

/-- The tree after a sequence of removals, and the tokens of those that found their leaf, the last one first. -/
def removeAll : LathTree → List LeafId → LathTree × List RestoreToken
  | t, []        => (t, [])
  | t, id :: ids =>
    let r := remove t id
    let rest := removeAll r.tree ids
    (rest.1, rest.2 ++ r.token.toList)

def restoreAll (opts : RestoreOpts) : LathTree → List RestoreToken → LathTree × Bool
  | t, []              => (t, true)
  | t, token :: tokens =>
    let r := restore t token.toJson opts
    let rest := restoreAll opts r.tree tokens
    (rest.1, r.ok && rest.2)

theorem restoreAll_append (opts : RestoreOpts) : ∀ (as bs : List RestoreToken) (t : LathTree),
    restoreAll opts t (as ++ bs) =
      ((restoreAll opts (restoreAll opts t as).1 bs).1,
        (restoreAll opts t as).2 && (restoreAll opts (restoreAll opts t as).1 bs).2)
  | [], bs, t => by simp [restoreAll]
  | a :: as, bs, t => by
    rw [List.cons_append, restoreAll, restoreAll, restoreAll_append opts as bs]
    simp [Bool.and_assoc]

theorem restore_toJson {token : RestoreToken} (h : token.WeightOk) (t : LathTree) (opts : RestoreOpts) :
    restore t token.toJson opts = restoreRead t token opts := by
  unfold restore
  rw [readRestoreToken_toJson token h]

/-- **Restoring the tokens of a sequence of removals, last removal first, rebuilds the structure** — from the tree the
removals left, and from any other tree of its structure. -/
theorem restoreAll_removeAll (opts : RestoreOpts) : ∀ (ids : List LeafId) {t : LathTree}, Valid exact t →
    ∀ t', treeShape t' = treeShape (removeAll t ids).1 →
      (restoreAll opts t' (removeAll t ids).2).2 = true ∧
        treeShape (restoreAll opts t' (removeAll t ids).2).1 = treeShape t
  | [], t, _, t', ht' => ⟨rfl, ht'⟩
  | id :: ids, t, h, t', ht' => by
    have hvalid : Valid exact (remove t id).tree := by
      rcases remove_spec h id with hr | ⟨_, _, hv, _⟩
      · rw [hr]; exact h
      · exact hv
    rw [removeAll] at ht' ⊢
    dsimp only at ht' ⊢
    obtain ⟨hok, hshape⟩ := restoreAll_removeAll opts ids hvalid t' ht'
    rw [restoreAll_append, hok, Bool.true_and]
    dsimp only
    by_cases hid : id ∈ leaves t
    · obtain ⟨token, _, htok, hw, hres, htier, hsame, _⟩ := restoreRead_remove h hid opts
      obtain ⟨hok', hshape'⟩ := restoreRead_congr hshape.symm hres htier
      rw [htok]
      simp only [Option.toList_some, restoreAll, restore_toJson hw, Bool.and_true]
      exact ⟨hok', hshape'.trans hsame⟩
    · have hr : remove t id = ⟨t, false, none⟩ := by
        rcases remove_cases h id with ⟨_, hr⟩ | ⟨rfl, _⟩ | ⟨n, p, d, cs, idx, w, sib, _, hfind, _⟩
        · exact hr
        · exact absurd (by simp [leafTree]) hid
        · exact absurd (findLeafPath_spec hfind).choose_spec.2.2 hid
      rw [hr] at hshape ⊢
      exact ⟨rfl, hshape⟩

/-- **`restore` undoes `remove`**: the structure always; every weight too, for a weight in the insert range, except that
a pair of leaves comes back at half each; and a sequence of removals is undone in reverse order. -/
theorem restore_remove (t : LathTree) (h : Valid exact t) (opts : RestoreOpts) :
    (∀ id ∈ leaves t, ∃ token, (remove t id).token = some token ∧
      (restore (remove t id).tree token.toJson opts).ok = true ∧
      (restore (remove t id).tree token.toJson opts).tree.root.map structureFingerprint =
        t.root.map structureFingerprint ∧
      (t = leafTree id → (restore (remove t id).tree token.toJson opts).tree = t) ∧
      ∀ (n : LathNode) (p : List Nat) (d : Dir) (cs : List LathChild) (idx : Nat) (w : ℚ), t.root = some n →
        nodeAt n p = some (.split d cs) → cs[idx]? = some ⟨.leaf id, w⟩ →
        (LeafPair cs → (restore (remove t id).tree token.toJson opts).tree =
          ⟨some (replaceAtPath n p (.split d (evenPair cs)))⟩) ∧
        (¬ LeafPair cs → 1 / 1000000 ≤ w → w ≤ 1 - 1 / 1000000 →
          (restore (remove t id).tree token.toJson opts).tree = t)) ∧
    ∀ ids, (restoreAll opts (removeAll t ids).1 (removeAll t ids).2).2 = true ∧
      (restoreAll opts (removeAll t ids).1 (removeAll t ids).2).1.root.map structureFingerprint =
        t.root.map structureFingerprint := by
  have hprint : ∀ {a b : LathTree}, treeShape a = treeShape b →
      a.root.map structureFingerprint = b.root.map structureFingerprint := fun {a b} hab => by
    have := congrArg (Option.map Shape.stringify) hab
    unfold treeShape at this
    rw [Option.map_map, Option.map_map] at this
    exact this
  constructor
  · intro id hid
    obtain ⟨token, _, htok, hw, hok, _, hshape, hleaf, hrest⟩ := restoreRead_remove h hid opts
    refine ⟨token, htok, ?_⟩
    rw [restore_toJson hw]
    refine ⟨hok, hprint hshape, hleaf, fun n p d cs idx w hroot hpar hc => ?_⟩
    obtain ⟨m, hm, hund⟩ := hrest n p d cs idx w hroot hpar hc
    refine ⟨fun hpair => by rw [hm, hund.pair hpair], fun hnot h0 h1 => ?_⟩
    rw [hm, hund.same hnot h0 h1]
    exact congrArg LathTree.mk hroot.symm
  · intro ids
    obtain ⟨hok, hshape⟩ := restoreAll_removeAll opts ids h _ rfl
    exact ⟨hok, hprint hshape⟩

def cornerTree : LathTree :=
  ⟨some (.split .row [⟨.leaf (units "a"), 1 / 4⟩,
    ⟨.split .col [⟨.leaf (units "b"), 1 / 3⟩, ⟨.leaf (units "c"), 2 / 3⟩], 3 / 4⟩])⟩

theorem cornerTree_valid : Valid exact cornerTree := by
  refine ⟨fun n hn => ?_, by decide⟩
  cases hn
  have hcol : Canon exact (.split .col [⟨.leaf (units "b"), 1 / 3⟩, ⟨.leaf (units "c"), 2 / 3⟩]) :=
    .split (by simp) (by simp) (by unfold exact weightSum; norm_num) (by simp [LathNode.dir?]) (by simp [Canon.leaf])
  refine .split (by simp) (by simp) (by unfold exact weightSum; norm_num) (by simp [LathNode.dir?]) (fun c hc => ?_)
  simp only [List.mem_cons, List.not_mem_nil, or_false] at hc
  rcases hc with rfl | rfl
  · exact .leaf _
  · exact hcol

theorem restore_remove_cornerTree : Valid exact cornerTree ∧
    ∃ token, (remove cornerTree (units "a")).token = some token ∧
      (restore (remove cornerTree (units "a")).tree token.toJson ⟨none, none, none⟩).tree = cornerTree := by
  refine ⟨cornerTree_valid, ?_⟩
  obtain ⟨token, htok, _, _, _, hrest⟩ :=
    (restore_remove cornerTree cornerTree_valid ⟨none, none, none⟩).1 (units "a") (by decide)
  refine ⟨token, htok, (hrest _ [] _ _ 0 (1 / 4) rfl rfl rfl).2 (fun hpair => ?_) (by norm_num) (by norm_num)⟩
  have := hpair.2 _ (List.mem_cons_of_mem _ (List.mem_cons_self))
  cases this

end Lath
end Dormouse

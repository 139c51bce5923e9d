import Dormouse.LathKeep
import Dormouse.Steps
/-!
# LathRun — sequences of operations

`Op` is one call of an operation with the arguments its caller passes, and `runOps` a sequence of them.  The sums of a
starting tree that `validate` accepts may be off by its tolerance, and an operation that rebuilds nothing (`swap`,
`replace`, a rejected call) leaves them so (`swap_keeps_near_sum`); every tree an operation does rebuild has exact sums.
So the invariant of a run is `Valid S` for the `S` of its start (`apply_spec`, `runOps_valid`).
-/
namespace Dormouse
namespace Lath

inductive Op where
  | split (at' : LeafId) (edge : Edge) (newId : LeafId)
  | remove (id : LeafId)
  | restore (token : Json) (opts : RestoreOpts)
  | replace (oldId newId : LeafId)
  | swap (a b : LeafId)
  | insert (id : LeafId) (target : DropTarget) (size : InsertSize)
  | move (id : LeafId) (target : DropTarget)
  | resize (splitPath : List JsNum) (boundary deltaPx : JsNum) (rect : Rect) (opts : LayoutOpts)

def Op.apply (tree : LathTree) : Op → OpResult
  | .split at' edge newId                      => Lath.split tree at' edge newId
  | .remove id                                 => let r := Lath.remove tree id; ⟨r.tree, r.ok⟩
  | .restore token opts                        => let r := Lath.restore tree token opts; ⟨r.tree, r.ok⟩
  | .replace oldId newId                       => Lath.replace tree oldId newId
  | .swap a b                                  => Lath.swap tree a b
  | .insert id target size                     => Lath.insert tree id target size
  | .move id target                            => Lath.move tree id target
  | .resize splitPath boundary deltaPx rect opts => Lath.resize tree splitPath boundary deltaPx rect opts

def runOps (tree : LathTree) (ops : List Op) : LathTree := Steps.run (fun t op => (Op.apply t op).tree) tree ops

def LeafAdded (id : LeafId) (before after : LathTree) : Prop :=
  id ∉ leaves before ∧ ∀ x, x ∈ leaves after ↔ x = id ∨ x ∈ leaves before

def LeafRemoved (id : LeafId) (before after : LathTree) : Prop :=
  id ∈ leaves before ∧ ∀ x, x ∈ leaves after ↔ x ∈ leaves before ∧ x ≠ id

def LeafRenamed (oldId newId : LeafId) (before after : LathTree) : Prop :=
  oldId ∈ leaves before ∧ newId ∉ leaves before ∧
    ∀ x, x ∈ leaves after ↔ x = newId ∨ (x ∈ leaves before ∧ x ≠ oldId)

def LeavesKept (before after : LathTree) : Prop := ∀ x, x ∈ leaves after ↔ x ∈ leaves before

def Op.LeafChange (before after : LathTree) : Op → Prop
  | .split _ _ newId      => LeafAdded newId before after
  | .remove id            => LeafRemoved id before after
  | .restore token _      => ∃ id, token.field (units "leafId") = some (.str id) ∧ LeafAdded id before after
  | .replace oldId newId  => LeafRenamed oldId newId before after
  | .swap _ _             => LeavesKept before after
  | .insert id _ _        => LeafAdded id before after
  | .move _ _             => LeavesKept before after
  | .resize _ _ _ _ _     => LeavesKept before after

theorem Adds.leafAdded {t t' : LathTree} {id : LeafId} (h : Adds t id t') : LeafAdded id t t' :=
  ⟨h.1, fun x => by rw [h.2.2.mem_iff, List.mem_cons]⟩

theorem Drops.leafRemoved {t t' : LathTree} {id : LeafId} (hn : (leaves t).Nodup) (h : Drops t id t') :
    LeafRemoved id t t' := by
  refine ⟨h.1, fun x => ?_⟩
  have hnd := List.nodup_cons.1 (h.2.2.nodup_iff.1 hn)
  rw [h.2.2.mem_iff, List.mem_cons]
  constructor
  · intro hx
    exact ⟨.inr hx, fun he => hnd.1 (he ▸ hx)⟩
  · rintro ⟨he | hx, hne⟩
    · exact absurd he hne
    · exact hx

/-- What one operation answers on a tree whose sums `S` accepts. -/
structure StepOk (S : ℚ → Prop) (op : Op) (t : LathTree) (r : OpResult) : Prop where
  valid    : Valid S r.tree
  accepted : r.ok = true → op.LeafChange t r.tree
  rejected : r.ok = false → r.tree = t

theorem StepOk.of_rejected {S : ℚ → Prop} {op : Op} {t : LathTree} (h : Valid S t) : StepOk S op t ⟨t, false⟩ :=
  ⟨h, fun he => (nomatch he), fun _ => rfl⟩

/-- **One operation keeps the invariant, changes the leaves as it says, and changes nothing where it rejects.** -/
theorem apply_spec {S : ℚ → Prop} (hS : ∀ s, exact s → S s) {t : LathTree} (h : Valid S t) (op : Op) :
    StepOk S op t (op.apply t) := by
  cases op with
  | split at' edge newId =>
    rcases split_spec h at' edge newId with hr | ⟨hok, hadd⟩
    · simp only [Op.apply, hr]; exact .of_rejected h
    · exact ⟨hadd.2.1.imp hS, fun _ => hadd.leafAdded, fun he => by simp [Op.apply, hok] at he⟩
  | remove id =>
    rcases remove_spec h id with hr | ⟨hok, hdrop⟩
    · simp only [Op.apply, hr]; exact .of_rejected h
    · exact ⟨hdrop.2.1.imp hS, fun _ => hdrop.leafRemoved h.nodup, fun he => by simp [Op.apply, hok] at he⟩
  | restore token opts =>
    simp only [Op.apply, restore]
    cases hread : readRestoreToken token with
    | none => exact .of_rejected h
    | some tok =>
      obtain ⟨hw, hid⟩ := readRestoreToken_weightOk hread
      dsimp only
      rcases restoreRead_spec h hw opts with hr | ⟨hok, hadd⟩
      · rw [hr]; exact .of_rejected h
      · exact ⟨hadd.2.1.imp hS, fun _ => ⟨tok.leafId, hid, hadd.leafAdded⟩, fun he => by simp [hok] at he⟩
  | replace oldId newId =>
    rcases replace_spec h oldId newId with hr | ⟨hok, hv, rest, hold, hnew, hafter⟩
    · simp only [Op.apply, hr]; exact .of_rejected h
    · refine ⟨hv, fun _ => ⟨hold.mem_iff.2 (by simp), hnew, fun x => ?_⟩, fun he => by simp [Op.apply, hok] at he⟩
      have hnd := List.nodup_cons.1 (hold.nodup_iff.1 h.nodup)
      simp only [Op.apply, hafter.mem_iff, hold.mem_iff, List.mem_cons]
      constructor
      · rintro (hx | hx)
        · exact .inl hx
        · exact .inr ⟨.inr hx, fun he => hnd.1 (he ▸ hx)⟩
      · rintro (hx | ⟨hx | hx, hne⟩)
        · exact .inl hx
        · exact absurd hx hne
        · exact .inr hx
  | swap a b =>
    rcases swap_spec h a b with hr | ⟨hok, hv, hl⟩
    · simp only [Op.apply, hr]; exact .of_rejected h
    · exact ⟨hv, fun _ x => hl.mem_iff, fun he => by simp [Op.apply, hok] at he⟩
  | insert id target size =>
    rcases insertImpl_spec h id target size false with hr | ⟨hok, hadd⟩
    · simp only [Op.apply, insert, hr]; exact .of_rejected h
    · exact ⟨hadd.2.1.imp hS, fun _ => hadd.leafAdded, fun he => by simp [Op.apply, insert, hok] at he⟩
  | move id target =>
    rcases move_spec h id target with hr | ⟨hok, hv, hl⟩
    · simp only [Op.apply, hr]; exact .of_rejected h
    · refine ⟨?_, fun _ x => hl.mem_iff, fun he => by simp [Op.apply, hok] at he⟩
      rcases hv with hv | hv | hv
      · simpa only [Op.apply, hv] using h
      · exact hv.imp hS
      · exact hv
  | resize splitPath boundary deltaPx rect opts =>
    rcases resize_spec h splitPath boundary deltaPx rect opts with hr | ⟨hok, hv, hl⟩
    · simp only [Op.apply, hr]; exact .of_rejected h
    · refine ⟨?_, fun _ x => by simp only [Op.apply, hl], fun he => by simp [Op.apply, hok] at he⟩
      rcases hv with hv | hv
      · simpa only [Op.apply, hv] using h
      · exact hv.imp hS

theorem runOps_valid {S : ℚ → Prop} (hS : ∀ s, exact s → S s) {t : LathTree} (h : Valid S t) (ops : List Op) :
    Valid S (runOps t ops) := by
  have hstep : ∀ t op, Valid S t → Valid S (Op.apply t op).tree := fun _ op ht => (apply_spec hS ht op).valid
  exact Steps.run_invariant hstep ops t h

theorem valid_leafTree (id : LeafId) : Valid exact (leafTree id) :=
  ⟨fun n hn => by cases hn; exact .leaf id, by simp [leafTree]⟩

def Start (t : LathTree) : Prop := (∃ id, t = leafTree id) ∨ validate t = []

/-- **Every tree of every run satisfies the invariant `validate` checks, with the exact sums of its start; an accepted
operation changes the leaf set as it says, and a rejected one returns its input.** -/
theorem runOps_keeps (t₀ : LathTree) (h : Start t₀) (ops : List Op) (op : Op) :
    Valid near (runOps t₀ ops) ∧
    (((∃ id, t₀ = leafTree id) ∨ Valid exact t₀) → Valid exact (runOps t₀ ops)) ∧
    ((op.apply (runOps t₀ ops)).ok = true → op.LeafChange (runOps t₀ ops) (op.apply (runOps t₀ ops)).tree) ∧
    ((op.apply (runOps t₀ ops)).ok = false → (op.apply (runOps t₀ ops)).tree = runOps t₀ ops) := by
  have hnear : Valid near t₀ := by
    rcases h with ⟨id, rfl⟩ | h
    · exact (valid_leafTree id).imp (fun _ => near_of_exact)
    · exact (validate_eq_nil t₀).1 h
  have hrun := runOps_valid (fun _ => near_of_exact) hnear ops
  have hop := apply_spec (fun _ => near_of_exact) hrun op
  refine ⟨hrun, fun hex => ?_, hop.accepted, hop.rejected⟩
  have hex : Valid exact t₀ := by
    rcases hex with ⟨id, rfl⟩ | hex
    · exact valid_leafTree id
    · exact hex
  exact runOps_valid (fun _ hs => hs) hex ops

theorem runOps_keeps_leafTree :
    Valid near (runOps (leafTree (units "a")) [.split (units "a") .right (units "b")]) ∧
    (((∃ id, leafTree (units "a") = leafTree id) ∨ Valid exact (leafTree (units "a"))) →
      Valid exact (runOps (leafTree (units "a")) [.split (units "a") .right (units "b")])) :=
  have h := runOps_keeps (leafTree (units "a")) (.inl ⟨_, rfl⟩) [.split (units "a") .right (units "b")]
    (.remove (units "a"))
  ⟨h.1, h.2.1⟩

/-- Two leaves whose weights sum to `1.0000001`, inside `validate`'s tolerance. -/
def nearPair : LathTree :=
  ⟨some (.split .row [⟨.leaf (units "a"), 1 / 2⟩, ⟨.leaf (units "b"), 5000001 / 10000000⟩])⟩

theorem nearPair_valid : Valid near nearPair := by
  refine ⟨fun n hn => ?_, by decide⟩
  cases hn
  refine .split (by simp) ?_ (by unfold near weightSum; norm_num [abs_le]) ?_ ?_ <;>
    simp [Canon.leaf, LathNode.dir?]

/-- **A tree `validate` accepts may be carried on with sums that are not exactly 1**: `swap` rebuilds no weight. -/
theorem swap_keeps_near_sum : Start nearPair ∧ (Op.apply nearPair (.swap (units "a") (units "b"))).ok = true ∧
    ¬ Valid exact (runOps nearPair [.swap (units "a") (units "b")]) := by
  refine ⟨.inr ((validate_eq_nil _).2 nearPair_valid), by decide, fun h => ?_⟩
  have hroot : (runOps nearPair [.swap (units "a") (units "b")]).root =
      some (.split .row [⟨.leaf (units "b"), 1 / 2⟩, ⟨.leaf (units "a"), 5000001 / 10000000⟩]) := by rfl
  have hsum := (h.canon _ hroot).split_inv.2.2.1
  unfold exact weightSum at hsum
  norm_num at hsum

end Lath
end Dormouse

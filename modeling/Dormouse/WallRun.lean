import Dormouse.WallStore
/-!
# WallRun — the wall store's invariant

Four relations hold between the fields of a snapshot (`Coherent`).  Each call restores them all: what it does to the tree
is what the core operation says of its leaves (`apply_spec`), and the other fields follow it in the same commit.
-/
namespace Dormouse
namespace Lath

variable {V : Type}

/-- The tree is valid, no leaf of it is parked, every leaf in the tree or parked has metadata, and the zoom is a leaf. -/
structure Coherent (n : WallSnapshot V) : Prop where
  valid   : validate n.tree = []
  apart   : ∀ id ∈ n.parked, id ∉ leaves n.tree
  parked  : ∀ id ∈ n.parked, id ∈ n.leafMeta
  leaf    : ∀ id ∈ leaves n.tree, id ∈ n.leafMeta
  zoomed  : ∀ id, n.zoomedId = some id → id ∈ leaves n.tree

namespace WallStore

/-! ## What the helpers do to the snapshot -/

@[simp] theorem commit_tree (s : WallStore V) (next : Next V) :
    (s.commit next).snapshot.tree = next.tree.getD s.snapshot.tree := rfl

@[simp] theorem commit_leafMeta (s : WallStore V) (next : Next V) :
    (s.commit next).snapshot.leafMeta = next.leafMeta.getD s.snapshot.leafMeta := rfl

@[simp] theorem commit_parked (s : WallStore V) (next : Next V) :
    (s.commit next).snapshot.parked = next.parked.getD s.snapshot.parked := rfl

@[simp] theorem commit_zoomedId (s : WallStore V) (next : Next V) :
    (s.commit next).snapshot.zoomedId = next.zoomedId.getD s.snapshot.zoomedId := rfl

@[simp] theorem commit_revision (s : WallStore V) (next : Next V) :
    (s.commit next).snapshot.revision = s.snapshot.revision + 1 := rfl

@[simp] theorem deriveEnterHint_snapshot (s : WallStore V) (id : LeafId) (edge : Edge) :
    (s.deriveEnterHint id edge).snapshot = s.snapshot := by
  unfold deriveEnterHint
  split <;> rfl

theorem admitLeaf_spec (s : WallStore V) (parked : AList (fun _ : LeafId => Option Rect)) (id : LeafId) :
    (admitLeaf s parked id).1.snapshot = s.snapshot ∧
      ∀ x, x ∈ (admitLeaf s parked id).2 ↔ x ∈ parked ∧ x ≠ id := by
  unfold admitLeaf
  cases h : parked.lookup id with
  | none =>
    refine ⟨rfl, fun x => ⟨fun hx => ⟨hx, ?_⟩, fun hx => hx.1⟩⟩
    rintro rfl
    exact AList.lookup_eq_none.mp h hx
  | some held =>
    cases held <;> exact ⟨rfl, fun x => by rw [AList.mem_erase, and_comm]⟩

/-- **What is admitted is parked no more; nothing else changes.** -/
theorem admitIds_spec (s : WallStore V) (ids : List LeafId) :
    (s.admitIds ids).1.snapshot = s.snapshot ∧
      ∀ x, x ∈ (s.admitIds ids).2 ↔ x ∈ s.snapshot.parked ∧ x ∉ ids := by
  suffices h : ∀ (ids : List LeafId) (t : WallStore V) (parked : AList (fun _ : LeafId => Option Rect)),
      (ids.foldl (fun r id => admitLeaf r.1 r.2 id) (t, parked)).1.snapshot = t.snapshot ∧
        ∀ x, x ∈ (ids.foldl (fun r id => admitLeaf r.1 r.2 id) (t, parked)).2 ↔ x ∈ parked ∧ x ∉ ids from
    h ids s s.snapshot.parked
  intro ids
  induction ids with
  | nil =>
    intro t parked
    exact ⟨rfl, fun x => by simp⟩
  | cons id ids ih =>
    intro t parked
    obtain ⟨h1, h2⟩ := admitLeaf_spec t parked id
    obtain ⟨h3, h4⟩ := ih (admitLeaf t parked id).1 (admitLeaf t parked id).2
    refine ⟨h3.trans h1, fun x => ?_⟩
    rw [List.foldl_cons, h4, h2, List.mem_cons, not_or, and_assoc]

theorem mem_foldl_insert : ∀ (l : List (LeafId × LeafMeta V)) (m : AList (fun _ : LeafId => LeafMeta V)) (x : LeafId),
    x ∈ l.foldl (fun m entry => m.insert entry.1 entry.2) m ↔ x ∈ l.map Prod.fst ∨ x ∈ m
  | [], m, x => by simp
  | entry :: l, m, x => by
    rw [List.foldl_cons, mem_foldl_insert l, AList.mem_insert, List.map_cons, List.mem_cons, or_left_comm, or_assoc]

theorem mem_foldl_held (held : AList (fun _ : LeafId => LeafMeta V)) : ∀ (ids : List LeafId)
    (m : AList (fun _ : LeafId => LeafMeta V)) (x : LeafId), (x ∈ ids ∧ x ∈ held) ∨ x ∈ m →
    x ∈ ids.foldl (fun m id => match held.lookup id with | some kept => m.insert id kept | none => m) m
  | [], m, x, hx => by simpa using hx
  | id :: ids, m, x, hx => by
    rw [List.foldl_cons]
    refine mem_foldl_held held ids _ x ?_
    rcases hx with ⟨hx, hh⟩ | hx
    · rcases List.mem_cons.mp hx with rfl | hx
      · obtain ⟨kept, hm⟩ := Option.isSome_iff_exists.mp (AList.lookup_isSome.mpr hh)
        rw [hm]
        exact .inr ((AList.mem_insert _).mpr (.inl rfl))
      · exact .inl ⟨hx, hh⟩
    · refine .inr ?_
      cases held.lookup id with
      | none => exact hx
      | some kept => exact (AList.mem_insert _).mpr (.inr hx)

theorem mem_seedMeta_of_given {n : WallSnapshot V} {leafMeta : List (LeafId × LeafMeta V)} {id : LeafId}
    (h : id ∈ leafMeta.map Prod.fst) : id ∈ seedMeta n leafMeta :=
  (mem_foldl_insert _ _ _).mpr (.inl h)

theorem mem_seedMeta_of_parked {n : WallSnapshot V} (leafMeta : List (LeafId × LeafMeta V)) {id : LeafId}
    (hp : id ∈ n.parked) (hm : id ∈ n.leafMeta) : id ∈ seedMeta n leafMeta :=
  (mem_foldl_insert _ _ _).mpr (.inr (mem_foldl_held n.leafMeta _ _ _ (.inl ⟨AList.mem_keys.mp hp, hm⟩)))

/-! ## One call -/

theorem coherent_place {s t : WallStore V} (hs : Coherent s.snapshot) (ht : t.snapshot = s.snapshot) {tree : LathTree}
    {id : LeafId} (hv : Valid near tree) (hadd : LeafAdded id s.snapshot.tree tree) (leafMeta : LeafMeta V) :
    Coherent (t.place tree id leafMeta).snapshot := by
  obtain ⟨h1, h2⟩ := t.admitIds_spec [id]
  rw [ht] at h1 h2
  have hleaf := hadd.2
  refine ⟨(validate_eq_nil tree).2 hv, ?_, ?_, ?_, ?_⟩
  · intro x hx hl
    obtain ⟨hx, hne⟩ := (h2 x).mp hx
    rcases (hleaf x).mp hl with rfl | hl
    · exact hne (List.mem_singleton.mpr rfl)
    · exact hs.apart x hx hl
  · intro x hx
    obtain ⟨hx, -⟩ := (h2 x).mp hx
    show x ∈ t.snapshot.leafMeta.insert id leafMeta
    rw [ht]
    exact (AList.mem_insert _).mpr (.inr (hs.parked x hx))
  · intro x hl
    show x ∈ t.snapshot.leafMeta.insert id leafMeta
    rw [ht]
    rcases (hleaf x).mp hl with rfl | hl
    · exact (AList.mem_insert _).mpr (.inl rfl)
    · exact (AList.mem_insert _).mpr (.inr (hs.leaf x hl))
  · intro x hx
    have hz : s.snapshot.zoomedId = some x := by
      rw [← h1]
      exact hx
    exact (hleaf x).mpr (.inr (hs.zoomed x hz))

variable {s : WallStore V}

theorem coherent_detachLeaf (hs : Coherent s.snapshot) (id : LeafId) (keepMeta park : Bool) :
    Coherent (s.detachLeaf id keepMeta park).1.snapshot := by
  have hop := apply_spec (fun _ => near_of_exact) ((validate_eq_nil _).1 hs.valid) (.remove id)
  unfold detachLeaf
  by_cases hok : (remove s.snapshot.tree id).ok = true
  · dsimp only
    rw [if_pos hok]
    obtain ⟨hin, hleaf⟩ := hop.accepted hok
    -- the leaf is not parked, so parking it is all that can put it among the parked
    have hnot : id ∉ s.snapshot.parked := fun h => hs.apart id h hin
    have hmeta : ∀ x, x ≠ id → x ∈ s.snapshot.leafMeta →
        x ∈ (if keepMeta then s.snapshot.leafMeta else s.snapshot.leafMeta.erase id) := by
      intro x hne hx
      cases keepMeta
      · exact AList.mem_erase.mpr ⟨hne, hx⟩
      · exact hx
    generalize (if keepMeta then s.snapshot.leafMeta else s.snapshot.leafMeta.erase id) = kept at hmeta ⊢
    refine ⟨(validate_eq_nil _).2 hop.valid, ?_, ?_, ?_, ?_⟩
    · intro x hx hl
      have hl := (hleaf x).mp hl
      simp only [commit_parked] at hx
      split at hx
      · rcases (AList.mem_insert _).mp hx with rfl | hx
        · exact hl.2 rfl
        · exact hs.apart x hx hl.1
      · exact hs.apart x hx hl.1
    · intro x hx
      simp only [commit_parked] at hx
      split at hx
      · rename_i hpark
        rcases (AList.mem_insert _).mp hx with rfl | hx
        · exact hpark.2
        · exact hmeta x (fun h => hnot (h ▸ hx)) (hs.parked x hx)
      · exact hmeta x (fun h => hnot (h ▸ hx)) (hs.parked x hx)
    · intro x hl
      have hl := (hleaf x).mp hl
      exact hmeta x hl.2 (hs.leaf x hl.1)
    · intro x hx
      simp only [commit_zoomedId] at hx
      split at hx
      · cases hx
      · rename_i hz
        exact (hleaf x).mpr ⟨hs.zoomed x hx, fun h => hz (h ▸ hx)⟩
  · dsimp only
    rw [if_neg hok]
    exact hs

theorem coherent_commitTree (hs : Coherent s.snapshot) (op : Op)
    (hkept : ∀ after, op.LeafChange s.snapshot.tree after → LeavesKept s.snapshot.tree after) :
    Coherent (s.commitTree (op.apply s.snapshot.tree)).1.snapshot := by
  have hop := apply_spec (fun _ => near_of_exact) ((validate_eq_nil _).1 hs.valid) op
  unfold commitTree
  by_cases hok : (op.apply s.snapshot.tree).ok = true
  · rw [if_pos hok]
    have hleaf := hkept _ (hop.accepted hok)
    exact ⟨(validate_eq_nil _).2 hop.valid, fun x hx hl => hs.apart x hx ((hleaf x).mp hl), hs.parked,
      fun x hl => hs.leaf x ((hleaf x).mp hl), fun x hx => (hleaf x).mpr (hs.zoomed x hx)⟩
  · rw [if_neg hok]
    exact hs

theorem coherent_writeMeta (hs : Coherent s.snapshot) (id : LeafId) (f : LeafMeta V → Option (LeafMeta V)) :
    Coherent (s.writeMeta id f).1.snapshot := by
  unfold writeMeta
  split
  · exact hs
  · exact ⟨hs.valid, hs.apart, fun x hx => (AList.mem_insert _).mpr (.inr (hs.parked x hx)),
      fun x hl => (AList.mem_insert _).mpr (.inr (hs.leaf x hl)), hs.zoomed⟩

theorem coherent_addLeaf (hs : Coherent s.snapshot) (id : LeafId) (leafMeta : LeafMeta V)
    (position : Option (LeafId × Edge)) : Coherent (s.addLeaf id leafMeta position).1.snapshot := by
  unfold addLeaf
  cases hroot : s.snapshot.tree.root with
  | none =>
    have hempty : leaves s.snapshot.tree = [] := by
      unfold leaves
      rw [hroot]
    refine coherent_place hs rfl ((valid_leafTree id).imp (fun _ => near_of_exact)) ⟨by simp [hempty], fun x => ?_⟩ leafMeta
    rw [hempty]
    show x ∈ [id] ↔ _
    simp
  | some root =>
    dsimp only
    cases s.addLeafAt position with
    | none => exact hs
    | some ref =>
      obtain ⟨refId, edge⟩ := ref
      have hop := apply_spec (fun _ => near_of_exact) ((validate_eq_nil _).1 hs.valid) (.split refId edge id)
      dsimp only
      by_cases hok : (split s.snapshot.tree refId edge id).ok = true
      · rw [if_pos hok]
        exact coherent_place hs (deriveEnterHint_snapshot ..) hop.valid (hop.accepted hok) leafMeta
      · rw [if_neg hok]
        exact hs

theorem coherent_insertLeaf (hs : Coherent s.snapshot) (id : LeafId) (leafMeta : LeafMeta V) (target : DropTarget) :
    Coherent (s.insertLeaf id leafMeta target).1.snapshot := by
  have hop := apply_spec (fun _ => near_of_exact) ((validate_eq_nil _).1 hs.valid) (.insert id target .half)
  unfold insertLeaf
  dsimp only
  by_cases hok : (insert s.snapshot.tree id target .half).ok = true
  · rw [if_pos hok]
    refine coherent_place hs ?_ hop.valid (hop.accepted hok) leafMeta
    cases target with
    | edge target => exact deriveEnterHint_snapshot ..
    | swap leaf => rfl
  · rw [if_neg hok]
    exact hs

theorem coherent_restoreLeaf (hs : Coherent s.snapshot) (leafMeta : LeafMeta V) (token : Json) (fallbackRef : Option LeafId) :
    Coherent (s.restoreLeaf leafMeta token fallbackRef).1.snapshot := by
  unfold restoreLeaf
  dsimp only
  cases hread : readRestoreToken token with
  | none =>
    split
    · rename_i h
      cases h
    · exact hs
  | some t =>
    obtain ⟨hw, -⟩ := readRestoreToken_weightOk hread
    have hrestore : ∀ opts, restore s.snapshot.tree token opts = restoreRead s.snapshot.tree t opts := by
      intro opts
      rw [restore, hread]
    rw [hrestore]
    rcases restoreRead_spec ((validate_eq_nil _).1 hs.valid) hw
        ⟨fallbackRef, s.geometry.map (·.1), s.geometry.map (·.2)⟩ with hr | ⟨hok, hadd⟩
    · rw [hr]
      exact hs
    · rw [hok]
      exact coherent_place hs (deriveEnterHint_snapshot ..) (hadd.2.1.imp (fun _ => near_of_exact)) hadd.leafAdded leafMeta

theorem coherent_replaceLeaf (hs : Coherent s.snapshot) (oldId newId : LeafId) (leafMeta : LeafMeta V) :
    Coherent (s.replaceLeaf oldId newId leafMeta).1.snapshot := by
  have hop := apply_spec (fun _ => near_of_exact) ((validate_eq_nil _).1 hs.valid) (.replace oldId newId)
  unfold replaceLeaf
  dsimp only
  by_cases hok : (replace s.snapshot.tree oldId newId).ok = true
  · rw [if_pos hok]
    obtain ⟨hold, hnew, hleaf⟩ := hop.accepted hok
    obtain ⟨h1, h2⟩ := s.admitIds_spec [newId]
    refine ⟨(validate_eq_nil _).2 hop.valid, ?_, ?_, ?_, ?_⟩
    · intro x hx hl
      obtain ⟨hx, hne⟩ := (h2 x).mp hx
      rcases (hleaf x).mp hl with rfl | hl
      · exact hne (List.mem_singleton.mpr rfl)
      · exact hs.apart x hx hl.1
    · intro x hx
      obtain ⟨hx, -⟩ := (h2 x).mp hx
      refine (AList.mem_insert _).mpr (.inr (AList.mem_erase.mpr ⟨?_, hs.parked x hx⟩))
      intro he
      exact hs.apart x hx (he ▸ hold)
    · intro x hl
      rcases (hleaf x).mp hl with rfl | hl
      · exact (AList.mem_insert _).mpr (.inl rfl)
      · exact (AList.mem_insert _).mpr (.inr (AList.mem_erase.mpr ⟨hl.2, hs.leaf x hl.1⟩))
    · intro x hx
      simp only [commit_zoomedId, h1] at hx
      split at hx
      · cases hx
        exact (hleaf newId).mpr (.inl rfl)
      · rename_i hz
        exact (hleaf x).mpr (.inr ⟨hs.zoomed x hx, fun h => hz (h ▸ hx)⟩)
  · rw [if_neg hok]
    exact hs

theorem coherent_addDoor (hs : Coherent s.snapshot) (id : LeafId) (leafMeta : LeafMeta V) :
    Coherent (s.addDoor id leafMeta).1.snapshot := by
  unfold addDoor
  split
  · exact hs
  · exact ⟨hs.valid, hs.apart, fun x hx => (AList.mem_insert _).mpr (.inr (hs.parked x hx)),
      fun x hl => (AList.mem_insert _).mpr (.inr (hs.leaf x hl)), hs.zoomed⟩

theorem coherent_forgetLeaf (hs : Coherent s.snapshot) (id : LeafId) :
    Coherent (s.forgetLeaf id).1.snapshot := by
  unfold forgetLeaf
  split
  · exact hs
  · rename_i hpath
    split
    · exact hs
    · have hout : id ∉ leaves s.snapshot.tree := findLeafPath_eq_none.mp (by simpa using hpath)
      refine ⟨hs.valid, fun x hx => hs.apart x (AList.mem_erase.mp hx).2, fun x hx => ?_, fun x hl => ?_, hs.zoomed⟩
      · obtain ⟨hne, hx⟩ := AList.mem_erase.mp hx
        exact AList.mem_erase.mpr ⟨hne, hs.parked x hx⟩
      · exact AList.mem_erase.mpr ⟨fun h => hout (h ▸ hl), hs.leaf x hl⟩

theorem coherent_seed (hs : Coherent s.snapshot) {tree : LathTree} {leafMeta : List (LeafId × LeafMeta V)}
    (hv : validate tree = []) (hm : ∀ id ∈ leaves tree, id ∈ leafMeta.map Prod.fst) :
    Coherent (s.seed tree leafMeta).1.snapshot := by
  obtain ⟨-, h2⟩ := s.admitIds_spec (leaves tree)
  refine ⟨hv, fun x hx => ((h2 x).mp hx).2, fun x hx => ?_, fun x hl => mem_seedMeta_of_given (hm x hl), nofun⟩
  have hx := ((h2 x).mp hx).1
  exact mem_seedMeta_of_parked leafMeta hx (hs.parked x hx)

end WallStore

/-- What a caller owes: a seed is a valid tree with metadata for its leaves, and a zoom is a leaf of the tree. -/
def WallCall.Fits (s : WallStore V) : WallCall V → Prop
  | .seed tree leafMeta  => validate tree = [] ∧ ∀ id ∈ leaves tree, id ∈ leafMeta.map Prod.fst
  | .setZoomed (some id) => id ∈ leaves s.snapshot.tree
  | _                    => True

/-- **One call keeps the invariant**, one that restores a snapshot if the snapshot has it. -/
theorem coherent_apply {s : WallStore V} (hs : Coherent s.snapshot) (call : WallCall V) (hfits : call.Fits s)
    (hsaved : ∀ saved, call = .restoreSnapshot saved → Coherent saved) : Coherent (s.apply call).1.snapshot := by
  cases call with
  | restoreSnapshot saved =>
    have h := hsaved saved rfl
    exact ⟨h.valid, h.apart, h.parked, h.leaf, h.zoomed⟩
  | seed tree leafMeta => exact WallStore.coherent_seed hs hfits.1 hfits.2
  | addLeaf id leafMeta position => exact WallStore.coherent_addLeaf hs id leafMeta position
  | removeLeaf id => exact WallStore.coherent_detachLeaf hs id false false
  | doorLeaf id park => exact WallStore.coherent_detachLeaf hs id true park
  | addDoor id leafMeta => exact WallStore.coherent_addDoor hs id leafMeta
  | forgetLeaf id => exact WallStore.coherent_forgetLeaf hs id
  | replaceLeaf oldId newId leafMeta => exact WallStore.coherent_replaceLeaf hs oldId newId leafMeta
  | restoreLeaf leafMeta token ref => exact WallStore.coherent_restoreLeaf hs leafMeta token ref
  | swapLeaves a b => exact WallStore.coherent_commitTree hs (.swap a b) (fun _ h => h)
  | moveLeaf id target => exact WallStore.coherent_commitTree hs (.move id target) (fun _ h => h)
  | insertLeaf id leafMeta target => exact WallStore.coherent_insertLeaf hs id leafMeta target
  | resizeBoundary path boundary delta =>
    show Coherent (s.resizeBoundary path boundary delta).1.snapshot
    unfold WallStore.resizeBoundary
    split
    · exact hs
    · exact WallStore.coherent_commitTree hs (.resize _ _ _ _ _) (fun _ h => h)
  | setTitle id title => exact WallStore.coherent_writeMeta hs id _
  | updateParams id patch => exact WallStore.coherent_writeMeta hs id _
  | setMeta id leafMeta => exact WallStore.coherent_writeMeta hs id _
  | setZoomed id =>
    show Coherent (s.setZoomed id).1.snapshot
    unfold WallStore.setZoomed
    split
    · exact hs
    · refine ⟨hs.valid, hs.apart, hs.parked, hs.leaf, fun x hx => ?_⟩
      cases hx
      exact hfits
  | setLayoutGeometry rect opts =>
    show Coherent (s.setLayoutGeometry rect opts).snapshot
    unfold WallStore.setLayoutGeometry
    split <;> exact hs
  | setEnterHint id enterFrom => exact hs
  | consumeEnterHints => exact hs

/-! ## Every state -/

/-- What an accepted call does to the revision, and a rejected one to the snapshot. -/
def Commits (s : WallStore V) (r : WallStore V × Bool) : Prop :=
  (r.2 = true → r.1.snapshot.revision = s.snapshot.revision + 1) ∧ (r.2 = false → r.1.snapshot = s.snapshot)

theorem commits_commit (s : WallStore V) {t : WallStore V} (ht : t.snapshot = s.snapshot) (next : WallStore.Next V) :
    Commits s (t.commit next, true) :=
  ⟨fun _ => by rw [WallStore.commit_revision, ht], nofun⟩

theorem commits_reject (s : WallStore V) {t : WallStore V} (ht : t.snapshot = s.snapshot) : Commits s (t, false) :=
  ⟨nofun, fun _ => ht⟩

theorem commits_place (s : WallStore V) {t : WallStore V} (ht : t.snapshot = s.snapshot) (tree : LathTree) (id : LeafId)
    (leafMeta : LeafMeta V) : Commits s (t.place tree id leafMeta, true) :=
  commits_commit s ((t.admitIds_spec [id]).1.trans ht) _

theorem commits_ite {s : WallStore V} {c : Prop} [Decidable c] {r r' : WallStore V × Bool} (h : Commits s r)
    (h' : Commits s r') : Commits s (if c then r else r') := by
  split
  · exact h
  · exact h'

theorem commits_detachLeaf (s : WallStore V) (id : LeafId) (keepMeta park : Bool) :
    Commits s ((s.detachLeaf id keepMeta park).1, (s.detachLeaf id keepMeta park).2.1) := by
  unfold WallStore.detachLeaf
  dsimp only
  split
  · exact commits_commit s rfl _
  · exact commits_reject s rfl

theorem commits_writeMeta (s : WallStore V) (id : LeafId) (f : LeafMeta V → Option (LeafMeta V)) :
    Commits s (s.writeMeta id f) := by
  unfold WallStore.writeMeta
  split
  · exact commits_reject s rfl
  · exact commits_commit s rfl _

theorem commits_apply (s : WallStore V) (call : WallCall V) : Commits s (s.apply call) := by
  cases call with
  | restoreSnapshot saved => exact commits_commit s rfl _
  | seed tree leafMeta => exact commits_commit s (s.admitIds_spec (leaves tree)).1 _
  | addLeaf id leafMeta position =>
    show Commits s (s.addLeaf id leafMeta position)
    unfold WallStore.addLeaf
    split
    · exact commits_place s rfl _ id leafMeta
    · split
      · exact commits_reject s rfl
      · exact commits_ite (commits_place s (WallStore.deriveEnterHint_snapshot ..) _ id leafMeta) (commits_reject s rfl)
  | removeLeaf id => exact commits_detachLeaf s id false false
  | doorLeaf id park => exact commits_detachLeaf s id true park
  | addDoor id leafMeta => exact commits_ite (commits_reject s rfl) (commits_commit s rfl _)
  | forgetLeaf id =>
    refine commits_ite (commits_reject s rfl) (commits_ite (commits_reject s rfl) ?_)
    exact commits_commit s (t := { s with enterHints := s.enterHints.erase id }) rfl _
  | replaceLeaf oldId newId leafMeta =>
    exact commits_ite (commits_commit s (s.admitIds_spec [newId]).1 _) (commits_reject s rfl)
  | restoreLeaf leafMeta token ref =>
    show Commits s ((s.restoreLeaf leafMeta token ref).1, (s.restoreLeaf leafMeta token ref).2.1)
    unfold WallStore.restoreLeaf
    dsimp only
    split
    · exact commits_place s (WallStore.deriveEnterHint_snapshot ..) _ _ leafMeta
    · exact commits_reject s rfl
  | swapLeaves a b => exact commits_ite (commits_commit s rfl _) (commits_reject s rfl)
  | moveLeaf id target => exact commits_ite (commits_commit s rfl _) (commits_reject s rfl)
  | insertLeaf id leafMeta target =>
    refine commits_ite (commits_place s ?_ _ id leafMeta) (commits_reject s rfl)
    cases target with
    | edge target => exact WallStore.deriveEnterHint_snapshot ..
    | swap leaf => rfl
  | resizeBoundary path boundary delta =>
    show Commits s (s.resizeBoundary path boundary delta)
    unfold WallStore.resizeBoundary
    split
    · exact commits_reject s rfl
    · exact commits_ite (commits_commit s rfl _) (commits_reject s rfl)
  | setTitle id title => exact commits_writeMeta s id _
  | updateParams id patch => exact commits_writeMeta s id _
  | setMeta id leafMeta => exact commits_writeMeta s id _
  | setZoomed id => exact commits_ite (commits_reject s rfl) (commits_commit s rfl _)
  | setLayoutGeometry rect opts =>
    refine commits_reject s ?_
    unfold WallStore.setLayoutGeometry
    split <;> rfl
  | setEnterHint id enterFrom => exact commits_reject s rfl
  | consumeEnterHints => exact commits_reject s rfl

/-- The stores calls lead to.  A snapshot is what `getSnapshot` of a store handed out, so a restored one is a reachable
store's. -/
inductive Reachable : WallStore V → Prop where
  | create : Reachable createLathWallStore
  | call {s : WallStore V} (call : WallCall V) : Reachable s → call.Fits s → (∀ saved, call ≠ .restoreSnapshot saved) →
      Reachable (s.apply call).1
  | restoreSnapshot {s t : WallStore V} : Reachable s → Reachable t →
      Reachable (s.apply (.restoreSnapshot t.snapshot)).1

theorem Reachable.coherent {s : WallStore V} (h : Reachable s) : Coherent s.snapshot := by
  induction h with
  | create => exact ⟨rfl, nofun, nofun, nofun, nofun⟩
  | call call _ hfits hne ih => exact coherent_apply ih call hfits (fun saved he => absurd he (hne saved))
  | restoreSnapshot _ _ ih ih' =>
    refine coherent_apply ih (.restoreSnapshot _) trivial (fun saved he => ?_)
    cases he
    exact ih'

def terminalMeta : LeafMeta Unit := ⟨units "terminal", units "terminal", [], none⟩

def zoomedPair : WallStore Unit :=
  ((((createLathWallStore.apply (.addLeaf (units "a") terminalMeta none)).1.apply
    (.addLeaf (units "b") terminalMeta none)).1).apply (.setZoomed (some (units "a")))).1

end Lath
end Dormouse

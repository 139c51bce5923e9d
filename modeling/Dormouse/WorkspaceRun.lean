import Dormouse.WorkspaceStore
/-!
# WorkspaceRun — the Workspaces after any operations

However the operations follow one another, the list is never empty, its ids are distinct, the active one is in it and the
unpinned come first (`Valid`); a reorder and a pin keep the order of the others; and a name a user set stays until the user
changes it, hands it back, closes the Workspace, or the whole list is replaced.
-/
namespace Dormouse
namespace Workspaces

/-- What holds of the list and the selection between operations. -/
structure Valid (s : WorkspacesState) : Prop where
  nonempty    : s.workspaces ≠ []
  distinct    : (ids s.workspaces).Nodup
  active      : s.activeId ∈ ids s.workspaces
  partitioned : s.workspaces.Pairwise (fun a b => a.pinned = true → b.pinned = true)

/-! ## Lists in two groups -/

variable {l : List WorkspaceMeta}

/-- **A list is partitioned as the unpinned and then the pinned**, which its boundary parts. -/
theorem pairwise_iff_split :
    l.Pairwise (fun a b => a.pinned = true → b.pinned = true) ↔
      ∃ us ps, l = us ++ ps ∧ (∀ w ∈ us, w.pinned = false) ∧ ∀ w ∈ ps, w.pinned = true := by
  constructor
  · intro h
    induction l with
    | nil => exact ⟨[], [], rfl, by simp, by simp⟩
    | cons w l ih =>
      obtain ⟨hw, hl⟩ := List.pairwise_cons.1 h
      cases hpinned : w.pinned with
      | true => exact ⟨[], w :: l, rfl, by simp, List.forall_mem_cons.2 ⟨hpinned, fun b hb => hw b hb hpinned⟩⟩
      | false =>
        obtain ⟨us, ps, rfl, hus, hps⟩ := ih hl
        exact ⟨w :: us, ps, rfl, List.forall_mem_cons.2 ⟨hpinned, hus⟩, hps⟩
  · rintro ⟨us, ps, rfl, hus, hps⟩
    refine List.pairwise_append.2 ⟨?_, ?_, fun a _ b hb _ => hps b hb⟩
    · exact List.Pairwise.imp_of_mem (fun ha _ _ h => by rw [hus _ ha] at h; cases h)
        (List.pairwise_of_forall (fun _ _ => trivial))
    · exact List.Pairwise.imp_of_mem (fun _ hb _ _ => hps _ hb) (List.pairwise_of_forall (fun _ _ => trivial))

theorem pinnedBoundary_append {us ps : List WorkspaceMeta} (hus : ∀ w ∈ us, w.pinned = false)
    (hps : ∀ w ∈ ps, w.pinned = true) : pinnedBoundary (us ++ ps) = us.length := by
  unfold pinnedBoundary
  rw [List.findIdx_append, List.findIdx_eq_length.2 hus]
  cases ps with
  | nil => simp
  | cons p _ => simp [List.findIdx_cons, hps p List.mem_cons_self]

theorem spliceIn_perm (l : List WorkspaceMeta) (k : Nat) (w : WorkspaceMeta) : (spliceIn l k w).Perm (w :: l) := by
  unfold spliceIn
  exact List.perm_middle.trans (List.Perm.cons w (by rw [List.take_append_drop]))

theorem ids_perm {l m : List WorkspaceMeta} (h : l.Perm m) : (ids l).Perm (ids m) := h.map _

variable {w : WorkspaceMeta}

theorem filter_spliceIn (p : WorkspaceMeta → Bool) (k : Nat) (hw : p w = false) : (spliceIn l k w).filter p = l.filter p := by
  unfold spliceIn
  rw [List.filter_append, List.filter_cons_of_neg (by simp [hw]), ← List.filter_append, List.take_append_drop]

theorem spliceIn_length {us : List WorkspaceMeta} (ps : List WorkspaceMeta) (w : WorkspaceMeta) :
    spliceIn (us ++ ps) us.length w = us ++ w :: ps := by
  simp [spliceIn]

theorem spliceIn_left {us : List WorkspaceMeta} (ps : List WorkspaceMeta) {k : Nat} (hk : k ≤ us.length) (w : WorkspaceMeta) :
    spliceIn (us ++ ps) k w = spliceIn us k w ++ ps := by
  simp [spliceIn, List.take_append_of_le_length hk, List.drop_append_of_le_length hk]

theorem spliceIn_right (us ps : List WorkspaceMeta) (k : Nat) (w : WorkspaceMeta) :
    spliceIn (us ++ ps) (us.length + k) w = us ++ spliceIn ps k w := by
  simp [spliceIn, List.take_append, List.drop_append, List.take_of_length_le, List.drop_of_length_le]

theorem mem_spliceIn {k : Nat} {w a : WorkspaceMeta} : a ∈ spliceIn l k w ↔ a = w ∨ a ∈ l :=
  (spliceIn_perm l k w).mem_iff.trans List.mem_cons

/-- **At the boundary either group may take one more.** -/
theorem partitioned_spliceIn_boundary (h : l.Pairwise (fun a b => a.pinned = true → b.pinned = true)) (w : WorkspaceMeta) :
    (spliceIn l (pinnedBoundary l) w).Pairwise (fun a b => a.pinned = true → b.pinned = true) := by
  obtain ⟨us, ps, rfl, hus, hps⟩ := pairwise_iff_split.1 h
  rw [pinnedBoundary_append hus hps, spliceIn_length, pairwise_iff_split]
  cases hpinned : w.pinned with
  | true => exact ⟨us, w :: ps, rfl, hus, List.forall_mem_cons.2 ⟨hpinned, hps⟩⟩
  | false =>
    refine ⟨us ++ [w], ps, by simp, fun a ha => ?_, hps⟩
    rcases List.mem_append.1 ha with ha | ha
    · exact hus a ha
    · rw [List.mem_singleton.1 ha, hpinned]

theorem partitionPinned_perm (l : List WorkspaceMeta) : (partitionPinned l).Perm l := by
  dsimp only [partitionPinned]
  split
  · exact List.Perm.refl l
  · exact (List.perm_append_comm.trans (List.filter_append_perm (·.pinned) l))

theorem partitionPinned_partitioned (l : List WorkspaceMeta) :
    (partitionPinned l).Pairwise (fun a b => a.pinned = true → b.pinned = true) := by
  rw [pairwise_iff_split]
  dsimp only [partitionPinned]
  split
  · next hnone =>
    refine ⟨l, [], by simp, fun w hw => ?_, by simp⟩
    by_contra hpinned
    have := List.mem_filter.2 ⟨hw, (by simpa using hpinned : w.pinned = true)⟩
    rw [hnone] at this
    cases this
  · exact ⟨_, _, rfl, fun w hw => by simpa using (List.mem_filter.1 hw).2, fun w hw => (List.mem_filter.1 hw).2⟩

/-! ## What a move does to the list -/

theorem eraseIdx_perm {i : Nat} (h : l[i]? = some w) :
    (w :: l.eraseIdx i).Perm l := by
  obtain ⟨hi, rfl⟩ := List.getElem?_eq_some_iff.1 h
  exact List.getElem_cons_eraseIdx_perm hi

theorem filter_eraseIdx (p : WorkspaceMeta → Bool) : ∀ {l : List WorkspaceMeta} {i : Nat} {w : WorkspaceMeta},
    l[i]? = some w → p w = false → (l.eraseIdx i).filter p = l.filter p
  | [], _, _, h, _ => by simp at h
  | a :: l, 0, w, h, hw => by
    rw [List.getElem?_cons_zero, Option.some.injEq] at h
    rw [List.eraseIdx_cons_zero, List.filter_cons_of_neg (by simp [h, hw])]
  | a :: l, i + 1, w, h, hw => by
    rw [List.eraseIdx_cons_succ, List.filter_cons, List.filter_cons,
      filter_eraseIdx p (by simpa using h) hw]

/-- **A Workspace moved within its group leaves the groups where they are.** -/
theorem partitioned_move (h : l.Pairwise (fun a b => a.pinned = true → b.pinned = true)) {i : Nat} (hw : l[i]? = some w)
    (toIndex : Int) :
    (spliceIn (l.eraseIdx i) (clampIndex l w.pinned toIndex).toNat w).Pairwise
      (fun a b => a.pinned = true → b.pinned = true) := by
  obtain ⟨us, ps, rfl, hus, hps⟩ := pairwise_iff_split.1 h
  obtain ⟨hi, hget⟩ := List.getElem?_eq_some_iff.1 hw
  rw [pairwise_iff_split]
  by_cases hlt : i < us.length
  · have hmem : w ∈ us := by
      rw [← hget, List.getElem_append_left hlt]
      exact List.getElem_mem hlt
    have hpinned := hus w hmem
    have hk : (clampIndex (us ++ ps) w.pinned toIndex).toNat ≤ (us.eraseIdx i).length := by
      rw [List.length_eraseIdx_of_lt hlt]
      simp only [clampIndex, hpinned, pinnedBoundary_append hus hps]
      simp only [Bool.false_eq_true, if_false]
      omega
    rw [List.eraseIdx_append_of_lt_length hlt, spliceIn_left ps hk]
    refine ⟨_, ps, rfl, fun a ha => ?_, hps⟩
    rcases mem_spliceIn.1 ha with rfl | ha
    · exact hpinned
    · exact hus a (List.mem_of_mem_eraseIdx ha)
  · have hge := Nat.le_of_not_lt hlt
    have hmem : w ∈ ps := by
      rw [← hget, List.getElem_append_right hge]
      exact List.getElem_mem _
    have hpinned := hps w hmem
    obtain ⟨k, hk⟩ : ∃ k, (clampIndex (us ++ ps) w.pinned toIndex).toNat = us.length + k := by
      refine Nat.exists_eq_add_of_le ?_
      simp only [clampIndex, hpinned, pinnedBoundary_append hus hps]
      simp only [if_true]
      omega
    rw [List.eraseIdx_append_of_length_le hge, hk, spliceIn_right]
    refine ⟨us, _, rfl, hus, fun a ha => ?_⟩
    rcases mem_spliceIn.1 ha with rfl | ha
    · exact hpinned
    · exact hps a (List.mem_of_mem_eraseIdx ha)

/-! ## Every operation keeps the list valid -/

theorem defaultState_valid : Valid defaultState where
  nonempty := by simp [defaultState]
  distinct := by simp [defaultState, ids]
  active := by simp [defaultState, ids]
  partitioned := by simp [defaultState]

variable {id : WorkspaceId}

theorem mem_ids : id ∈ ids l ↔ ∃ w ∈ l, w.id = id := List.mem_map

theorem getWorkspace_some {s : WorkspacesState} (h : getWorkspace s id = some w) :
    w ∈ s.workspaces ∧ w.id = id :=
  ⟨List.mem_of_find?_eq_some h, by simpa using List.find?_some h⟩

namespace Valid

variable {s : WorkspacesState}

theorem eq_of_id (h : Valid s) {a b : WorkspaceMeta} (ha : a ∈ s.workspaces) (hb : b ∈ s.workspaces) (hid : a.id = b.id) :
    a = b :=
  List.inj_on_of_nodup_map h.distinct ha hb hid

theorem map (h : Valid s) {f : WorkspaceMeta → WorkspaceMeta} (hid : ∀ w ∈ s.workspaces, (f w).id = w.id)
    (hpinned : ∀ w ∈ s.workspaces, (f w).pinned = w.pinned) : Valid { s with workspaces := s.workspaces.map f } := by
  have hids : ids (s.workspaces.map f) = ids s.workspaces := by
    unfold ids
    rw [List.map_map]
    exact List.map_congr_left hid
  constructor
  · simpa using h.nonempty
  · rw [show ({ s with workspaces := s.workspaces.map f } : WorkspacesState).workspaces = s.workspaces.map f from rfl, hids]
    exact h.distinct
  · show s.activeId ∈ ids (s.workspaces.map f)
    rw [hids]
    exact h.active
  · refine List.pairwise_map.2 (h.partitioned.imp_of_mem fun ha hb hab => ?_)
    rw [hpinned _ ha, hpinned _ hb]
    exact hab

theorem replace (h : Valid s) {id : WorkspaceId} {current next : WorkspaceMeta} (hcurrent : getWorkspace s id = some current)
    (hid : next.id = current.id) (hpinned : next.pinned = current.pinned) :
    Valid { s with workspaces := s.workspaces.map (fun ws => if ws.id = id then next else ws) } := by
  obtain ⟨hmem, rfl⟩ := getWorkspace_some hcurrent
  refine h.map (fun w hw => ?_) (fun w hw => ?_)
  · by_cases hw' : w.id = current.id
    · rw [if_pos hw', hid, hw']
    · rw [if_neg hw']
  · by_cases hw' : w.id = current.id
    · rw [if_pos hw', hpinned, h.eq_of_id hw hmem hw']
    · rw [if_neg hw']

theorem select (h : Valid s) {id : WorkspaceId} (hid : id ∈ ids s.workspaces) : Valid { s with activeId := id } :=
  ⟨h.nonempty, h.distinct, hid, h.partitioned⟩

theorem perm (h : Valid s) {l : List WorkspaceMeta} (hl : l.Perm s.workspaces)
    (hpartitioned : l.Pairwise (fun a b => a.pinned = true → b.pinned = true)) : Valid { s with workspaces := l } where
  nonempty := fun hnil => h.nonempty (by
    rw [show l = [] from hnil] at hl
    exact hl.symm.eq_nil)
  distinct := (ids_perm hl).nodup_iff.2 h.distinct
  active := (ids_perm hl).mem_iff.2 h.active
  partitioned := hpartitioned

end Valid

variable {w : Window}

theorem placeNew_valid (h : Valid w.state) (opts : CreateOptions) (hnew : id ∉ ids w.state.workspaces) :
    Valid (placeNew w opts id).1.state := by
  have hperm := spliceIn_perm w.state.workspaces (pinnedBoundary w.state.workspaces) (opts.toMeta w.state.workspaces id)
  constructor
  · exact fun hnil => by
      rw [show spliceIn _ _ _ = [] from hnil] at hperm
      cases hperm.symm.eq_nil
  · exact (ids_perm hperm).nodup_iff.2 (List.nodup_cons.2 ⟨hnew, h.distinct⟩)
  · refine (ids_perm hperm).mem_iff.2 ?_
    show (if _ then _ else _) ∈ _
    split
    · exact List.mem_cons_of_mem _ h.active
    · exact List.mem_cons_self
  · exact partitioned_spliceIn_boundary h.partitioned _

theorem generateWorkspaceId_fresh {uuid : Nat → JsString} {w w' : Window} (h : generateWorkspaceId uuid w = (some id, w')) :
    id ∉ ids w.state.workspaces ∧ w'.state = w.state := by
  obtain ⟨skipped, -, -, hout, -⟩ := IdPool.unused_drawn (IdPool.draw idPoolOptions uuid) (fun s => s)
    (ids w.state.workspaces) IdPool.draw_drawn (IdPool.tries (ids w.state.workspaces) w.idPool.ids) w.idPool
  have hid : (IdPool.unused (IdPool.draw idPoolOptions uuid) (ids w.state.workspaces)
      (IdPool.tries (ids w.state.workspaces) w.idPool.ids) w.idPool).1 = some id := congrArg Prod.fst h
  exact ⟨hout id hid, (congrArg (fun r => r.2.state) h).symm⟩

theorem generateWorkspaceId_state (uuid : Nat → JsString) (w : Window) : (generateWorkspaceId uuid w).2.state = w.state := rfl

theorem neighbour_mem (hl : l ≠ []) (index : Nat) (fallback : WorkspaceId) :
    neighbour l index fallback ∈ ids l := by
  have hlt : min index (l.length - 1) < l.length := by
    have := List.length_pos_iff.2 hl
    omega
  unfold neighbour
  rw [List.getElem?_eq_getElem hlt]
  exact List.mem_map_of_mem (List.getElem_mem hlt)

theorem closeWorkspace_valid (uuid : Nat → JsString) (h : Valid w.state) (id : WorkspaceId) :
    Valid (closeWorkspace uuid w id).1.state := by
  unfold closeWorkspace
  simp only
  by_cases hid : id ∈ ids w.state.workspaces
  · rw [if_neg (not_not.2 hid)]
    by_cases hlast : w.state.workspaces.filter (fun ws => ws.id ≠ id) = []
    · rw [if_pos hlast]
      cases hmint : generateWorkspaceId uuid w with
      | mk fresh w' =>
        have hstate : w'.state = w.state := by rw [← generateWorkspaceId_state uuid w, hmint]
        cases fresh with
        | none => rw [← hstate] at h; exact h
        | some fresh =>
          have hactive : w.state.activeId = id := by
            obtain ⟨a, ha, hid'⟩ := mem_ids.1 h.active
            by_contra hne
            have hother : a ∈ w.state.workspaces.filter (fun ws => ws.id ≠ id) :=
              List.mem_filter.2 ⟨ha, by simpa [hid'] using hne⟩
            rw [hlast] at hother
            cases hother
          refine ⟨List.cons_ne_nil _ _, by simp [emit, ids], ?_, by simp [emit]⟩
          show (if w'.state.activeId = id then _ else _) ∈ _
          rw [hstate, if_pos hactive]
          exact neighbour_mem (List.cons_ne_nil _ _) _ _
    · rw [if_neg hlast]
      refine ⟨hlast, h.distinct.sublist (List.filter_sublist.map _), ?_, h.partitioned.sublist List.filter_sublist⟩
      show (if w.state.activeId = id then _ else _) ∈ _
      by_cases hactive : w.state.activeId = id
      · rw [if_pos hactive]
        exact neighbour_mem hlast _ _
      · rw [if_neg hactive]
        obtain ⟨a, ha, hid'⟩ := mem_ids.1 h.active
        exact mem_ids.2 ⟨a, List.mem_filter.2 ⟨ha, by simpa [hid'] using hactive⟩, hid'⟩
  · rw [if_pos hid]
    exact h

theorem setWorkspaces_valid (h : Valid w.state) (next : WorkspacesState) :
    Valid (setWorkspaces w next).1.state := by
  unfold setWorkspaces
  by_cases hdistinct : (ids next.workspaces).Nodup
  · rw [if_neg (not_not.2 hdistinct)]
    have hperm := partitionPinned_perm next.workspaces
    cases hws : next.workspaces with
    | nil => exact defaultState_valid
    | cons first l =>
      simp only
      rw [← hws]
      constructor
      · exact fun hnil => by
          rw [show partitionPinned next.workspaces = [] from hnil, hws] at hperm
          cases hperm.symm.eq_nil
      · exact (ids_perm hperm).nodup_iff.2 hdistinct
      · refine (ids_perm hperm).mem_iff.2 ?_
        show (if _ then _ else _) ∈ ids next.workspaces
        split
        · next hin => exact hin
        · exact mem_ids.2 ⟨first, by rw [hws]; exact List.mem_cons_self, rfl⟩
      · exact partitionPinned_partitioned _
  · rw [if_pos hdistinct]
    exact h

theorem setActiveWorkspace_valid (h : Valid w.state) (id : WorkspaceId) :
    Valid (setActiveWorkspace w id).state := by
  unfold setActiveWorkspace
  split
  · exact h
  · split
    · exact h
    · next hid => exact h.select (not_not.1 hid)

theorem createWorkspace_valid (uuid : Nat → JsString) (h : Valid w.state) (opts : CreateOptions) :
    Valid (createWorkspace uuid w opts).1.state := by
  unfold createWorkspace
  cases opts.id with
  | some id =>
    simp only
    split
    · exact h
    · next hnew => exact placeNew_valid h opts hnew
  | none =>
    cases hmint : generateWorkspaceId uuid w with
    | mk id w' =>
      have hstate : w'.state = w.state := by rw [← generateWorkspaceId_state uuid w, hmint]
      cases id with
      | none => exact hstate ▸ h
      | some id => exact placeNew_valid (hstate ▸ h) opts (hstate ▸ (generateWorkspaceId_fresh hmint).1)

theorem moveWorkspace_valid (h : Valid w.state) (id : WorkspaceId) (toIndex : Int) :
    Valid (moveWorkspace w id toIndex).1.state := by
  unfold moveWorkspace
  cases hmoved : w.state.workspaces[w.state.workspaces.findIdx (fun ws => ws.id = id)]? with
  | none => simp only [hmoved]; exact h
  | some moved =>
    simp only [hmoved]
    split
    · exact h
    · exact h.perm ((spliceIn_perm _ _ moved).trans (eraseIdx_perm hmoved)) (partitioned_move h.partitioned hmoved toIndex)

theorem spliceIn_filter_perm {s : WorkspacesState} (h : Valid s) {current : WorkspaceMeta}
    (hcurrent : getWorkspace s id = some current) (k : Nat) (w : WorkspaceMeta) (hid : w.id = id) :
    (ids (spliceIn (s.workspaces.filter (fun ws => ws.id ≠ id)) k w)).Perm (ids s.workspaces) := by
  obtain ⟨hmem, rfl⟩ := getWorkspace_some hcurrent
  have hothers : (s.workspaces.filter (fun ws => !decide (ws.id ≠ current.id))) = [current] := by
    have hnodup : (s.workspaces.filter (fun ws => !decide (ws.id ≠ current.id))).Nodup :=
      (List.Nodup.of_map _ h.distinct).sublist List.filter_sublist
    refine List.perm_singleton.1 ((List.perm_ext_iff_of_nodup hnodup (List.nodup_singleton _)).2 fun a => ?_)
    rw [List.mem_filter, List.mem_singleton]
    constructor
    · rintro ⟨ha, hpa⟩
      exact h.eq_of_id ha hmem (by simpa using hpa)
    · rintro rfl
      exact ⟨hmem, by simp⟩
  have hall := List.filter_append_perm (fun ws => decide (ws.id ≠ current.id)) s.workspaces
  rw [hothers] at hall
  have hids : (ids (w :: s.workspaces.filter (fun ws => ws.id ≠ current.id))).Perm
      (ids (current :: s.workspaces.filter (fun ws => ws.id ≠ current.id))) := by
    simp [ids, hid]
  exact (ids_perm (spliceIn_perm _ k w)).trans (hids.trans (ids_perm (List.perm_append_comm.trans hall)))

theorem setWorkspacePinned_valid (h : Valid w.state) (id : WorkspaceId) (pinned : Bool) :
    Valid (setWorkspacePinned w id pinned).1.state := by
  unfold setWorkspacePinned
  cases hcurrent : getWorkspace w.state id with
  | none => exact h
  | some current =>
    simp only
    split
    · exact h
    · have hperm := spliceIn_filter_perm h hcurrent (pinnedBoundary (w.state.workspaces.filter (fun ws => ws.id ≠ id)))
        { current with pinned := pinned } (getWorkspace_some hcurrent).2
      refine ⟨?_, hperm.nodup_iff.2 h.distinct, hperm.mem_iff.2 h.active,
        partitioned_spliceIn_boundary (h.partitioned.sublist List.filter_sublist) _⟩
      intro hnil
      have := hperm.length_eq
      rw [show spliceIn _ _ _ = [] from hnil] at this
      exact h.nonempty (List.length_eq_zero_iff.1 (by simpa [ids] using this.symm))

/-- **Every operation keeps the list valid.** -/
theorem step_valid (uuid : Nat → JsString) (w : Window) (op : Op) (h : Valid w.state) : Valid (step uuid w op).state := by
  cases op with
  | setWorkspaces next => exact setWorkspaces_valid h next
  | setActiveWorkspace id => exact setActiveWorkspace_valid h id
  | activateWorkspaceAt index =>
    show Valid (activateWorkspaceAt w index).state
    unfold activateWorkspaceAt
    split
    · exact setActiveWorkspace_valid h _
    · exact h
  | createWorkspace opts => exact createWorkspace_valid uuid h opts
  | renameWorkspace id name =>
    show Valid (renameWorkspace w id name).state
    unfold renameWorkspace
    cases hcurrent : getWorkspace w.state id with
    | none => exact h
    | some current =>
      simp only
      split
      · exact h
      · exact h.replace hcurrent rfl rfl
  | resumeAutoWorkspaceName id =>
    show Valid (resumeAutoWorkspaceName w id).state
    unfold resumeAutoWorkspaceName
    cases hcurrent : getWorkspace w.state id with
    | none => exact h
    | some current =>
      simp only
      split
      · exact h
      · exact h.replace hcurrent rfl rfl
  | setAutoWorkspaceName id name =>
    show Valid (setAutoWorkspaceName w id name).state
    unfold setAutoWorkspaceName
    cases hcurrent : getWorkspace w.state id with
    | none => exact h
    | some current =>
      simp only
      split
      · exact h
      · exact h.replace hcurrent rfl rfl
  | closeWorkspace id => exact closeWorkspace_valid uuid h id
  | moveWorkspace id toIndex => exact moveWorkspace_valid h id toIndex
  | setWorkspacePinned id pinned => exact setWorkspacePinned_valid h id pinned
  | resetWorkspaces => exact defaultState_valid
  | setWorkspaceAlertDelivery id value =>
    show Valid (setWorkspaceAlertDelivery w id value).state
    unfold setWorkspaceAlertDelivery
    simp only
    split
    · split
      · exact h
      · refine h.map (fun ws _ => ?_) (fun ws _ => ?_)
        · split <;> rfl
        · split <;> rfl
    · exact h
  | idPool e => exact h

/-! ## What an operation leaves alone -/

def Refused : Result → Prop
  | .threw _       => True
  | .changed false => True
  | _              => False

theorem act_refused (uuid : Nat → JsString) (w : Window) (op : Op) (h : Refused (act uuid w op).2) :
    (step uuid w op).state = w.state := by
  unfold step
  cases op with
  | setWorkspaces next =>
    simp only [act, setWorkspaces] at h ⊢
    split at h
    · next hdup => rw [if_pos hdup]
    · split at h <;> exact h.elim
  | createWorkspace opts =>
    simp only [act, createWorkspace] at h ⊢
    split at h
    · next id _ =>
      split at h
      · next hdup => simp [hdup]
      · exact h.elim
    · split at h <;> exact h.elim
  | closeWorkspace id =>
    simp only [act, closeWorkspace] at h ⊢
    split at h
    · next hid => rw [if_pos hid]
    · split at h
      · split at h <;> exact h.elim
      · exact h.elim
  | moveWorkspace id toIndex =>
    simp only [act, moveWorkspace] at h ⊢
    cases hmoved : w.state.workspaces[w.state.workspaces.findIdx (fun ws => ws.id = id)]? with
    | none => rfl
    | some moved =>
      simp only [hmoved] at h ⊢
      split at h
      · next hsame => rw [if_pos hsame]
      · exact h.elim
  | setWorkspacePinned id pinned =>
    simp only [act, setWorkspacePinned] at h ⊢
    split at h
    · split at h
      · next hsame => rw [if_pos hsame]
      · exact h.elim
    · rfl
  | setActiveWorkspace id => exact h.elim
  | activateWorkspaceAt index => exact h.elim
  | renameWorkspace id name => exact h.elim
  | resumeAutoWorkspaceName id => exact h.elim
  | setAutoWorkspaceName id name => exact h.elim
  | resetWorkspaces => exact h.elim
  | setWorkspaceAlertDelivery id value => exact h.elim
  | idPool e => exact h.elim

def others (s : WorkspacesState) (id : WorkspaceId) : List WorkspaceMeta := s.workspaces.filter (fun ws => ws.id ≠ id)

theorem moveWorkspace_others (w : Window) (id : WorkspaceId) (toIndex : Int) :
    others (moveWorkspace w id toIndex).1.state id = others w.state id := by
  unfold moveWorkspace
  cases hmoved : w.state.workspaces[w.state.workspaces.findIdx (fun ws => ws.id = id)]? with
  | none => simp only [hmoved]
  | some moved =>
    simp only [hmoved]
    split
    · rfl
    · obtain ⟨hlt, hget⟩ := List.getElem?_eq_some_iff.1 hmoved
      have hid : moved.id = id := by
        rw [← hget]
        simpa using List.findIdx_getElem (w := hlt)
      have hout : decide (moved.id ≠ id) = false := by simp [hid]
      unfold others
      exact (filter_spliceIn _ _ hout).trans (filter_eraseIdx _ hmoved hout)

theorem setWorkspacePinned_others (w : Window) (id : WorkspaceId) (pinned : Bool) :
    others (setWorkspacePinned w id pinned).1.state id = others w.state id := by
  unfold setWorkspacePinned
  cases hcurrent : getWorkspace w.state id with
  | none => rfl
  | some current =>
    simp only
    split
    · rfl
    · have hid := (getWorkspace_some hcurrent).2
      refine (filter_spliceIn (fun ws => decide (ws.id ≠ id)) _ (by simp [hid])).trans ?_
      simp only [others, List.filter_filter, Bool.and_self]

/-! ## Names -/

def Named (s : WorkspacesState) (id : WorkspaceId) (name : JsString) : Prop :=
  ∃ w ∈ s.workspaces, w.id = id ∧ w.name = name ∧ w.nameIsAuto = false

instance (s : WorkspacesState) (id : WorkspaceId) (name : JsString) : Decidable (Named s id name) :=
  inferInstanceAs (Decidable (∃ w ∈ s.workspaces, w.id = id ∧ w.name = name ∧ w.nameIsAuto = false))

/-- The user renames the Workspace or hands its name back, or it is closed. -/
def Releases (id : WorkspaceId) : Op → Prop
  | .renameWorkspace id' _       => id' = id
  | .resumeAutoWorkspaceName id' => id' = id
  | .closeWorkspace id'          => id' = id
  | _                            => False

def Replaces : Op → Prop
  | .setWorkspaces _ => True
  | .resetWorkspaces => True
  | _                => False

namespace Named

variable {s : WorkspacesState} {id : WorkspaceId} {name : JsString}

theorem of_subset {s' : WorkspacesState} (h : Named s id name) (hsub : ∀ w ∈ s.workspaces, w.id = id → w ∈ s'.workspaces) :
    Named s' id name := by
  obtain ⟨w, hw, hid, hname, hauto⟩ := h
  exact ⟨w, hsub w hw hid, hid, hname, hauto⟩

theorem map (h : Named s id name) {f : WorkspaceMeta → WorkspaceMeta}
    (hf : ∀ w ∈ s.workspaces, w.id = id → (f w).id = id ∧ (f w).name = w.name ∧ (f w).nameIsAuto = w.nameIsAuto) :
    Named { s with workspaces := s.workspaces.map f } id name := by
  obtain ⟨w, hw, hid, hname, hauto⟩ := h
  obtain ⟨hid', hname', hauto'⟩ := hf w hw hid
  exact ⟨f w, List.mem_map_of_mem hw, hid', hname'.trans hname, hauto'.trans hauto⟩

theorem replace_other (h : Named s id name) {id' : WorkspaceId} (hne : id' ≠ id) (next : WorkspaceMeta) :
    Named { s with workspaces := s.workspaces.map (fun ws => if ws.id = id' then next else ws) } id name :=
  h.map (fun w _ hid => by rw [if_neg (fun he => hne (he.symm.trans hid))]; exact ⟨hid, rfl, rfl⟩)

theorem current (h : Named s id name) (hv : Valid s) {w : WorkspaceMeta} (hw : w ∈ s.workspaces) (hid : w.id = id) :
    w.name = name ∧ w.nameIsAuto = false := by
  obtain ⟨w', hw', hid', hname, hauto⟩ := h
  rw [hv.eq_of_id hw hw' (hid.trans hid'.symm)]
  exact ⟨hname, hauto⟩

end Named

/-- **An operation that neither releases the name nor replaces the list keeps it.** -/
theorem step_named (uuid : Nat → JsString) (hv : Valid w.state) {name : JsString} (h : Named w.state id name) (op : Op)
    (hkept : ¬ Releases id op) (hlist : ¬ Replaces op) :
    Named (step uuid w op).state id name := by
  cases op with
  | setWorkspaces next => exact absurd trivial hlist
  | resetWorkspaces => exact absurd trivial hlist
  | setActiveWorkspace id' =>
    show Named (setActiveWorkspace w id').state id name
    unfold setActiveWorkspace
    split
    · exact h
    · split <;> exact h
  | activateWorkspaceAt index =>
    show Named (activateWorkspaceAt w index).state id name
    unfold activateWorkspaceAt setActiveWorkspace
    split
    · split
      · exact h
      · split <;> exact h
    · exact h
  | createWorkspace opts =>
    have hplaced : ∀ (w' : Window) (fresh : WorkspaceId), w'.state = w.state →
        Named (placeNew w' opts fresh).1.state id name := by
      intro w' fresh hstate
      refine Named.of_subset (s := w'.state) (hstate ▸ h) (fun a ha _ => ?_)
      exact mem_spliceIn.2 (.inr ha)
    show Named (createWorkspace uuid w opts).1.state id name
    unfold createWorkspace
    cases opts.id with
    | some id' =>
      simp only
      split
      · exact h
      · exact hplaced w id' rfl
    | none =>
      cases hmint : generateWorkspaceId uuid w with
      | mk fresh w' =>
        have hstate : w'.state = w.state := by rw [← generateWorkspaceId_state uuid w, hmint]
        cases fresh with
        | none => exact hstate ▸ h
        | some fresh => exact hplaced w' fresh hstate
  | renameWorkspace id' name' =>
    show Named (renameWorkspace w id' name').state id name
    unfold renameWorkspace
    cases getWorkspace w.state id' with
    | none => exact h
    | some current =>
      simp only
      split
      · exact h
      · exact h.replace_other hkept _
  | resumeAutoWorkspaceName id' =>
    show Named (resumeAutoWorkspaceName w id').state id name
    unfold resumeAutoWorkspaceName
    cases getWorkspace w.state id' with
    | none => exact h
    | some current =>
      simp only
      split
      · exact h
      · exact h.replace_other hkept _
  | setAutoWorkspaceName id' name' =>
    show Named (setAutoWorkspaceName w id' name').state id name
    unfold setAutoWorkspaceName
    cases hcurrent : getWorkspace w.state id' with
    | none => exact h
    | some current =>
      simp only
      split
      · exact h
      · next hauto =>
        refine h.replace_other (fun hid => hauto (.inl ?_)) _
        obtain ⟨hmem, hcid⟩ := getWorkspace_some hcurrent
        exact (h.current hv hmem (hcid.trans hid)).2
  | closeWorkspace id' =>
    have hothers : ∀ a ∈ w.state.workspaces, a.id = id → a ∈ w.state.workspaces.filter (fun ws => ws.id ≠ id') :=
      fun a ha hid => List.mem_filter.2 ⟨ha, by simpa using fun he => hkept (he.symm.trans hid)⟩
    show Named (closeWorkspace uuid w id').1.state id name
    unfold closeWorkspace
    simp only
    split
    · exact h
    · split
      · next hnone =>
        obtain ⟨a, ha, hid, -, -⟩ := h
        have := hothers a ha hid
        rw [hnone] at this
        cases this
      · exact h.of_subset hothers
  | moveWorkspace id' toIndex =>
    show Named (moveWorkspace w id' toIndex).1.state id name
    unfold moveWorkspace
    cases hmoved : w.state.workspaces[w.state.workspaces.findIdx (fun ws => ws.id = id')]? with
    | none => simp only [hmoved]; exact h
    | some moved =>
      simp only [hmoved]
      split
      · exact h
      · exact h.of_subset (fun a ha _ => ((spliceIn_perm _ _ moved).trans (eraseIdx_perm hmoved)).mem_iff.2 ha)
  | setWorkspacePinned id' pinned =>
    show Named (setWorkspacePinned w id' pinned).1.state id name
    unfold setWorkspacePinned
    cases hcurrent : getWorkspace w.state id' with
    | none => exact h
    | some current =>
      simp only
      split
      · exact h
      · by_cases hid : id' = id
        · obtain ⟨hmem, hcid⟩ := getWorkspace_some hcurrent
          obtain ⟨hname, hauto⟩ := h.current hv hmem (hcid.trans hid)
          exact ⟨{ current with pinned := pinned }, mem_spliceIn.2 (.inl rfl), hcid.trans hid, hname, hauto⟩
        · refine h.of_subset (fun a ha haid => mem_spliceIn.2 (.inr (List.mem_filter.2 ⟨ha, ?_⟩)))
          simpa using fun he => hid (he.symm.trans haid)
  | setWorkspaceAlertDelivery id' value =>
    show Named (setWorkspaceAlertDelivery w id' value).state id name
    unfold setWorkspaceAlertDelivery
    simp only
    split
    · split
      · exact h
      · refine h.map (fun ws _ hid => ?_)
        split
        · exact ⟨hid, rfl, rfl⟩
        · exact ⟨hid, rfl, rfl⟩
    · exact h
  | idPool e => exact h

/-! ## Every run -/

/-- **The Workspaces after any operations**: one at least, of distinct ids, the active one among them, the unpinned first;
what throws or reports no change changes nothing; a reorder and a pin keep the others' order; and a name a user set stays
until the user changes it or hands it back, the Workspace is closed, or the whole list is replaced. -/
theorem workspaces_kept (uuid : Nat → JsString) (ops : List Op) :
    let w := Steps.run (step uuid) openWindow ops
    Valid w.state ∧
    (∀ op, Refused (act uuid w op).2 → (step uuid w op).state = w.state) ∧
    (∀ id toIndex, others (moveWorkspace w id toIndex).1.state id = others w.state id) ∧
    (∀ id pinned, others (setWorkspacePinned w id pinned).1.state id = others w.state id) ∧
    ∀ id name, Named w.state id name → ∀ later, (∀ op ∈ later, ¬ Releases id op ∧ ¬ Replaces op) →
      Named (Steps.run (step uuid) w later).state id name := by
  intro w
  have hvalid : ∀ (ops : List Op) (w : Window), Valid w.state → Valid (Steps.run (step uuid) w ops).state := fun ops w =>
    Steps.run_invariant (I := fun w => Valid w.state) (fun w op h => step_valid uuid w op h) ops w
  refine ⟨hvalid ops openWindow defaultState_valid, fun op => act_refused uuid w op, moveWorkspace_others w,
    setWorkspacePinned_others w, fun id name hnamed later hlater => ?_⟩
  have hw : Valid w.state := hvalid ops openWindow defaultState_valid
  clear_value w
  induction later generalizing w with
  | nil => exact hnamed
  | cons op later ih =>
    obtain ⟨⟨hkept, hlist⟩, hlater⟩ := List.forall_mem_cons.1 hlater
    exact ih (step uuid w op) (step_named uuid hw hnamed op hkept hlist) hlater (step_valid uuid w op hw)

theorem replaced_name :
    ¬ ∀ (uuid : Nat → JsString) (ops : List Op), ∀ id name, Named (Steps.run (step uuid) openWindow ops).state id name →
      ∀ later, (∀ op ∈ later, ¬ Releases id op) →
        Named (Steps.run (step uuid) (Steps.run (step uuid) openWindow ops) later).state id name := by
  intro h
  have hkept := h (fun _ => []) [.renameWorkspace defaultWorkspaceId (units "notes")] defaultWorkspaceId (units "notes")
    (by decide) [.setWorkspaces ⟨[⟨none, defaultWorkspaceId, units "mail", false, false⟩], defaultWorkspaceId⟩]
    (fun op hop => by rw [List.mem_singleton.1 hop]; exact fun hr => hr)
  exact absurd hkept (by decide)

end Workspaces
end Dormouse

import Dormouse.AlertManager
/-!
# AlertKeep — what an operation can do to an entry

Every operation but a viewer's report moves the entries alone, one step at a time, and a step does three things at most
(`EntryStep`): it keeps the relations within an entry (`Sound`), it leaves the leave grace, and it holds an alert only
for a Session that is engaged.  `Moves` says so of a whole manager; it composes, so each operation follows from its parts.
-/
namespace Dormouse
namespace Alert

/-! ## The relations within an entry -/

def SourceSet.all (set : SourceSet) : List RingSource := set.watching.toList.map .watching ++ set.sources.map .listed

def SourceSet.Proper (set : SourceSet) : Prop := set.all ≠ [] ∧ set.all.Nodup

theorem SourceSet.proper_iff (set : SourceSet) :
    set.Proper ↔ (set.watching.isSome = true ∨ set.sources ≠ []) ∧ set.sources.Nodup := by
  obtain ⟨sources, watching⟩ := set
  have hinj : Function.Injective RingSource.listed := fun a b h => by cases h; rfl
  unfold Proper all
  cases watching with
  | none => simp [List.nodup_map_iff hinj]
  | some w => simp [List.nodup_map_iff hinj]

theorem SourceSet.proper_addSource {set : SourceSet} (h : set.sources.Nodup) (source : RingSource) :
    (set.addSource source).Proper := by
  rw [proper_iff]
  cases source with
  | watching w => exact ⟨.inl rfl, h⟩
  | listed source =>
    unfold addSource
    dsimp only
    by_cases hm : source ∈ set.sources
    · rw [if_pos hm]
      exact ⟨.inr (List.ne_nil_of_mem hm), h⟩
    · rw [if_neg hm]
      exact ⟨.inr (by simp), List.nodup_append.mpr ⟨h, List.nodup_singleton _, by
        rintro a ha b hb rfl
        exact hm (List.mem_singleton.mp hb ▸ ha)⟩⟩

theorem SourceSet.proper_dropWatching {set rest : SourceSet} (h : set.Proper) (hd : set.dropWatching = some rest) :
    rest.Proper := by
  unfold dropWatching at hd
  split at hd
  · cases hd
  · rename_i hne
    cases hd
    exact (proper_iff _).mpr ⟨.inr hne, ((proper_iff set).mp h).2⟩

/-- What holds between the fields of an entry. -/
structure AlertEntry.Sound (e : AlertEntry) : Prop where
  ring  : ∀ r, e.ring = some r → r.toSourceSet.Proper
  held  : ∀ h, e.held = some h → h.toSourceSet.Proper
  acked : e.ackedQuiet = true → e.ring = none
  todo  : e.notification.isSome = true ∨ e.held.isSome = true → e.todo = true

/-- What a step does to an entry of a Session that is engaged or not. -/
structure EntryStep (engaged : Bool) (e e' : AlertEntry) : Prop where
  sound : e.Sound → e'.Sound
  grace : e'.leaveGrace = e.leaveGrace
  held  : e'.held.isSome = true → e.held.isSome = true ∨ engaged = true

theorem EntryStep.refl (engaged : Bool) (e : AlertEntry) : EntryStep engaged e e := ⟨id, rfl, .inl⟩

theorem EntryStep.trans {engaged : Bool} {e e' e'' : AlertEntry} (h : EntryStep engaged e e')
    (h' : EntryStep engaged e' e'') : EntryStep engaged e e'' :=
  ⟨h'.sound ∘ h.sound, h'.grace.trans h.grace, fun hh => (h'.held hh).elim h.held .inr⟩

theorem EntryStep.of_same {engaged : Bool} {e e' : AlertEntry} (hr : e'.ring = e.ring) (hh : e'.held = e.held)
    (ha : e'.ackedQuiet = e.ackedQuiet) (ht : e'.todo = e.todo) (hn : e'.notification = e.notification)
    (hg : e'.leaveGrace = e.leaveGrace) : EntryStep engaged e e' := by
  refine ⟨fun hs => ⟨?_, ?_, ?_, ?_⟩, hg, ?_⟩
  · rw [hr]
    exact hs.ring
  · rw [hh]
    exact hs.held
  · rw [ha, hr]
    exact hs.acked
  · rw [hn, hh, ht]
    exact hs.todo
  · rw [hh]
    exact .inl

theorem sound_create : AlertEntry.create.Sound := ⟨nofun, nofun, nofun, nofun⟩

namespace AlertEntry

theorem step_noteWork (engaged : Bool) (e : AlertEntry) : EntryStep engaged e e.noteWork := by
  refine ⟨fun hs => ⟨?_, ?_, nofun, ?_⟩, rfl, ?_⟩
  · intro r hr
    obtain ⟨r', hr', rfl⟩ := Option.map_eq_some_iff.mp hr
    have h := (SourceSet.proper_iff _).mp (hs.ring r' hr')
    exact (SourceSet.proper_iff _).mpr ⟨by simpa using h.1, h.2⟩
  · intro r hr
    obtain ⟨r', hr', rfl⟩ := Option.map_eq_some_iff.mp hr
    have h := (SourceSet.proper_iff _).mp (hs.held r' hr')
    exact (SourceSet.proper_iff _).mpr ⟨by simpa using h.1, h.2⟩
  · intro h
    refine hs.todo (h.imp id (fun hh => ?_))
    simpa [noteWork] using hh
  · intro hh
    exact .inl (by simpa [noteWork] using hh)

theorem step_invalidateWatching (engaged : Bool) (e : AlertEntry) (voids : JsString → Bool) :
    EntryStep engaged e (e.invalidateWatching voids) := by
  have hheld : (e.invalidateWatching voids).held.isSome = true → e.held.isSome = true := by
    intro hh
    obtain ⟨h, hh⟩ := Option.isSome_iff_exists.mp hh
    obtain ⟨h', hh', -⟩ := Option.bind_eq_some_iff.mp hh
    rw [hh']
    rfl
  refine ⟨fun hs => ⟨?_, ?_, ?_, ?_⟩, rfl, fun hh => .inl (hheld hh)⟩
  · intro r hr
    obtain ⟨r', hr', hv⟩ := Option.bind_eq_some_iff.mp hr
    unfold Ring.voidWatching at hv
    split at hv
    · obtain ⟨rest, hd, rfl⟩ := Option.map_eq_some_iff.mp hv
      exact SourceSet.proper_dropWatching (hs.ring r' hr') hd
    · cases hv
      exact hs.ring _ hr'
  · intro r hr
    obtain ⟨r', hr', hv⟩ := Option.bind_eq_some_iff.mp hr
    unfold HeldCompletion.voidWatching at hv
    split at hv
    · obtain ⟨rest, hd, rfl⟩ := Option.map_eq_some_iff.mp hv
      exact SourceSet.proper_dropWatching (hs.held r' hr') hd
    · cases hv
      exact hs.held _ hr'
  · intro ha
    show e.ring.bind _ = none
    rw [hs.acked ha]
    rfl
  · exact fun h => hs.todo (h.imp id hheld)

theorem step_updateReceipt (engaged : Bool) (e : AlertEntry) (detail : ActivityNotification) :
    EntryStep engaged e (e.updateReceipt detail) := by
  unfold updateReceipt
  split
  · rename_i ht
    exact ⟨fun hs => ⟨hs.ring, hs.held, hs.acked, fun _ => ht⟩, rfl, .inl⟩
  · exact .refl engaged e

theorem step_raiseRing (engaged : Bool) (e : AlertEntry) (source : RingSource) (detail : ActivityNotification)
    (arrived : Nat) (episode : AlertEpisode) : EntryStep engaged e (e.raiseRing source detail arrived episode) := by
  unfold raiseRing
  cases hring : e.ring with
  | none =>
    refine ⟨fun hs => ⟨fun r hr => ?_, hs.held, nofun, hs.todo⟩, rfl, .inl⟩
    cases hr
    exact SourceSet.proper_addSource List.nodup_nil source
  | some ring =>
    refine ⟨fun hs => ⟨fun r hr => ?_, hs.held, fun ha => ?_, hs.todo⟩, rfl, .inl⟩
    · cases hr
      exact SourceSet.proper_addSource ((SourceSet.proper_iff _).mp (hs.ring ring hring)).2 source
    · have := hs.acked ha
      rw [hring] at this
      cases this

theorem step_hold (e : AlertEntry) (source : RingSource) (detail : ActivityNotification) (arrived : Nat) :
    EntryStep true e (e.hold source detail arrived) := by
  refine ⟨fun hs => ⟨hs.ring, fun h hh => ?_, hs.acked, fun _ => rfl⟩, rfl, fun _ => .inr rfl⟩
  cases hh
  refine SourceSet.proper_addSource ?_ source
  cases hheld : e.held with
  | none => exact List.nodup_nil
  | some held => exact ((SourceSet.proper_iff _).mp (hs.held held hheld)).2

theorem step_answeredWatching (engaged : Bool) (e : AlertEntry) : EntryStep engaged e e.answeredWatching :=
  .of_same rfl rfl rfl rfl rfl rfl

theorem step_withdrawListed (engaged : Bool) {e e' : AlertEntry} {source : ListedRingSource}
    (h : e.withdrawListed source = some e') : EntryStep engaged e e' := by
  unfold withdrawListed at h
  cases hring : e.ring with
  | none =>
    rw [hring] at h
    cases h
  | some ring =>
    rw [hring] at h
    dsimp only at h
    split at h
    · cases h
      refine ⟨fun hs => ⟨fun r hr => ?_, hs.held, fun ha => ?_, hs.todo⟩, rfl, .inl⟩
      · dsimp only at hr
        split at hr
        · cases hr
        · rename_i hne
          cases hr
          have hn := ((SourceSet.proper_iff _).mp (hs.ring ring hring)).2
          refine (SourceSet.proper_iff _).mpr ⟨?_, hn.filter _⟩
          rw [Option.isSome_iff_ne_none]
          exact (not_and_or.mp hne).symm
      · have := hs.acked ha
        rw [hring] at this
        cases this
    · cases h

theorem step_withdrawWatching (engaged : Bool) {e e' : AlertEntry} (h : e.withdrawWatching = some e') :
    EntryStep engaged e e' := by
  unfold withdrawWatching at h
  cases hring : e.ring with
  | none =>
    rw [hring] at h
    cases h
  | some ring =>
    rw [hring] at h
    dsimp only at h
    split at h
    · cases h
    · cases h
      have hdrop : EntryStep engaged e
          { e with ring := ring.dropWatching.map (fun set => { ring with toSourceSet := set }) } := by
        refine ⟨fun hs => ⟨fun r hr => ?_, hs.held, fun ha => ?_, hs.todo⟩, rfl, .inl⟩
        · obtain ⟨rest, hd, rfl⟩ := Option.map_eq_some_iff.mp hr
          exact SourceSet.proper_dropWatching (hs.ring ring hring) hd
        · have := hs.acked ha
          rw [hring] at this
          cases this
      exact hdrop.trans (step_answeredWatching engaged _)

theorem step_consumeAwaitableRing (engaged : Bool) {e e' : AlertEntry} {until' : AwaitUntil} {cause : AwaitCause}
    (h : e.consumeAwaitableRing until' = some (e', cause)) : EntryStep engaged e e' := by
  unfold consumeAwaitableRing at h
  dsimp only at h
  split at h
  · rename_i hr
    cases h
    split at hr
    · exact step_withdrawListed engaged hr
    · cases hr
  · rename_i hr
    cases h
    split at hr
    · exact step_withdrawListed engaged hr
    · cases hr
  · rename_i hr
    cases h
    split at hr
    · exact step_withdrawWatching engaged hr
    · cases hr
  · cases h

theorem clearRingForUser_spec (e : AlertEntry) :
    e.clearRingForUser.1.ring = none ∧ e.clearRingForUser.1.held = none ∧ e.clearRingForUser.1.todo = e.todo ∧
      e.clearRingForUser.1.notification = e.notification ∧ e.clearRingForUser.1.leaveGrace = e.leaveGrace := by
  unfold clearRingForUser
  split
  · rename_i h
    exact ⟨Option.isNone_iff_eq_none.mp h.1, Option.isNone_iff_eq_none.mp h.2, rfl, rfl, rfl⟩
  · dsimp only
    split <;> exact ⟨rfl, rfl, rfl, rfl, rfl⟩

theorem sound_of_cleared {e : AlertEntry} (hr : e.ring = none) (hh : e.held = none)
    (ht : e.notification.isSome = true → e.todo = true) : e.Sound := by
  refine ⟨?_, ?_, fun _ => hr, fun h => h.elim ht (fun hh' => ?_)⟩
  · rw [hr]
    exact nofun
  · rw [hh]
    exact nofun
  · rw [hh] at hh'
    cases hh'

theorem step_clearRingForUser (engaged : Bool) (e : AlertEntry) : EntryStep engaged e e.clearRingForUser.1 := by
  obtain ⟨hr, hh, ht, hn, hg⟩ := e.clearRingForUser_spec
  refine ⟨fun hs => sound_of_cleared hr hh ?_, hg, ?_⟩
  · rw [hn, ht]
    exact fun h => hs.todo (.inl h)
  · rw [hh]
    exact nofun

theorem ringToTodo_spec (e : AlertEntry) (ring : Option Ring) :
    (e.ringToTodo ring).ring = e.ring ∧ (e.ringToTodo ring).held = e.held ∧
      (e.ringToTodo ring).ackedQuiet = e.ackedQuiet ∧ (e.ringToTodo ring).leaveGrace = e.leaveGrace ∧
      ((e.notification.isSome = true → e.todo = true) →
        (e.ringToTodo ring).notification.isSome = true → (e.ringToTodo ring).todo = true) := by
  cases ring with
  | none => exact ⟨rfl, rfl, rfl, rfl, id⟩
  | some ring => exact ⟨rfl, rfl, rfl, rfl, fun _ _ => rfl⟩

theorem step_lookAt (engaged : Bool) (e : AlertEntry) : EntryStep engaged e e.lookAt := by
  obtain ⟨hr, hh, ht, hn, hg⟩ := e.clearRingForUser_spec
  obtain ⟨hr', hh', -, hg', hn'⟩ := e.clearRingForUser.1.ringToTodo_spec e.clearRingForUser.2
  refine ⟨fun hs => sound_of_cleared (hr'.trans hr) (hh'.trans hh) (hn' ?_), hg'.trans hg, ?_⟩
  · rw [hn, ht]
    exact fun h => hs.todo (.inl h)
  · show (e.clearRingForUser.1.ringToTodo e.clearRingForUser.2).held.isSome = true → _
    rw [hh', hh]
    exact nofun

theorem step_setTodo (engaged : Bool) (e : AlertEntry) (todo : Bool) : EntryStep engaged e (e.setTodo todo) := by
  obtain ⟨hr, hh, ht, hn, hg⟩ := e.clearRingForUser_spec
  obtain ⟨hr', hh', -, hg', hn'⟩ := e.clearRingForUser.1.ringToTodo_spec e.clearRingForUser.2
  cases todo with
  | true =>
    refine ⟨fun _ => sound_of_cleared (hr'.trans hr) (hh'.trans hh) (fun _ => rfl), hg'.trans hg, ?_⟩
    show (e.clearRingForUser.1.ringToTodo e.clearRingForUser.2).held.isSome = true → _
    rw [hh', hh]
    exact nofun
  | false =>
    refine ⟨fun _ => sound_of_cleared hr hh nofun, hg, ?_⟩
    show e.clearRingForUser.1.held.isSome = true → _
    rw [hh]
    exact nofun

theorem step_unhold (engaged : Bool) (e : AlertEntry) : EntryStep engaged e { e with held := none } :=
  ⟨fun hs => ⟨hs.ring, nofun, hs.acked, fun h => hs.todo (h.imp id nofun)⟩, rfl, nofun⟩

theorem step_endRun (engaged : Bool) (e : AlertEntry) : EntryStep engaged e e.endRun :=
  .of_same rfl rfl rfl rfl rfl rfl

theorem step_cancelProgressEnd (engaged : Bool) (e : AlertEntry) : EntryStep engaged e e.cancelProgressEnd :=
  .of_same rfl rfl rfl rfl rfl rfl

theorem step_markSeen (engaged : Bool) (e : AlertEntry) : EntryStep engaged e e.markSeen :=
  .of_same rfl rfl rfl rfl rfl rfl

theorem step_unack (engaged : Bool) (e : AlertEntry) : EntryStep engaged e { e with ackedQuiet := false } :=
  ⟨fun hs => ⟨hs.ring, hs.held, nofun, hs.todo⟩, rfl, .inl⟩

theorem step_seedEntry (engaged : Bool) (e : AlertEntry) (todo : Json) (notification : Option Json) :
    EntryStep engaged e (AlertManager.seedEntry e todo notification) := by
  refine ⟨fun _ => sound_of_cleared rfl rfl ?_, rfl, nofun⟩
  unfold AlertManager.seedEntry endRun
  dsimp only
  split
  · exact fun _ => rfl
  · exact nofun

end AlertEntry

/-! ## What an operation does to the entries -/

/-- Every entry is one that was there, or a new one, moved on by steps; the viewers report nothing. -/
structure Moves (m m' : AlertManager) : Prop where
  viewers : m'.viewers = m.viewers
  entries : ∀ id e', m'.entries.lookup id = some e' →
    ∃ e, (m.entries.lookup id = some e ∨ e = .create) ∧ EntryStep (m.isEngaged id) e e'

namespace Moves

theorem isEngaged {m m' : AlertManager} (h : Moves m m') (id : SessionId) : m'.isEngaged id = m.isEngaged id := by
  unfold AlertManager.isEngaged
  rw [h.viewers]

theorem of_same {m m' : AlertManager} (hv : m'.viewers = m.viewers) (he : m'.entries = m.entries) : Moves m m' :=
  ⟨hv, fun _ e' h => ⟨e', .inl (he ▸ h), .refl _ e'⟩⟩

theorem refl (m : AlertManager) : Moves m m := of_same rfl rfl

theorem trans {m m' m'' : AlertManager} (h : Moves m m') (h' : Moves m' m'') : Moves m m'' := by
  refine ⟨h'.viewers.trans h.viewers, fun id e'' he'' => ?_⟩
  obtain ⟨e', he' | rfl, hs'⟩ := h'.entries id e'' he''
  · obtain ⟨e, he, hs⟩ := h.entries id e' he'
    exact ⟨e, he, hs.trans (h.isEngaged id ▸ hs')⟩
  · exact ⟨.create, .inr rfl, h.isEngaged id ▸ hs'⟩

theorem after {m m' m'' : AlertManager} (h : Moves m' m'') (hv : m'.viewers = m.viewers) (he : m'.entries = m.entries) :
    Moves m m'' :=
  (of_same hv he).trans h

theorem foldl {β : Type} {f : AlertManager → β → AlertManager} (hf : ∀ m b, Moves m (f m b)) :
    ∀ (l : List β) (m : AlertManager), Moves m (l.foldl f m)
  | [], m => refl m
  | b :: l, m => (hf m b).trans (foldl hf l (f m b))

theorem foldl_fst {β γ : Type} {f : AlertManager × γ → β → AlertManager × γ} (hf : ∀ r b, Moves r.1 (f r b).1) :
    ∀ (l : List β) (r : AlertManager × γ), Moves r.1 (l.foldl f r).1
  | [], r => refl r.1
  | b :: l, r => (hf r b).trans (foldl_fst hf l (f r b))

/-- **The relations within every entry are kept.** -/
theorem sound {m m' : AlertManager} (h : Moves m m') (hs : ∀ id e, m.entries.lookup id = some e → e.Sound) :
    ∀ id e, m'.entries.lookup id = some e → e.Sound := by
  intro id e' he'
  obtain ⟨e, he | rfl, hstep⟩ := h.entries id e' he'
  · exact hstep.sound (hs id e he)
  · exact hstep.sound sound_create

theorem unheld {m m' : AlertManager} (h : Moves m m') {id : SessionId} (hen : m.isEngaged id = false)
    (hu : ∀ e, m.entries.lookup id = some e → e.held = none) :
    ∀ e, m'.entries.lookup id = some e → e.held = none := by
  intro e' he'
  obtain ⟨e, he, hstep⟩ := h.entries id e' he'
  have hnone : e.held = none := he.elim (hu e) (fun h => h ▸ rfl)
  by_contra hsome
  rcases hstep.held (Option.isSome_iff_ne_none.mpr hsome) with hh | hh
  · rw [hnone] at hh
    cases hh
  · rw [hen] at hh
    cases hh

end Moves

namespace AlertManager

@[simp] theorem notify_entries (m : AlertManager) (id : SessionId) : (m.notify id).entries = m.entries := by
  unfold notify
  dsimp only
  split <;> split <;> rfl

@[simp] theorem notify_viewers (m : AlertManager) (id : SessionId) : (m.notify id).viewers = m.viewers := by
  unfold notify
  dsimp only
  split <;> split <;> rfl

theorem moves_notify (m : AlertManager) (id : SessionId) : Moves m (m.notify id) :=
  .of_same (m.notify_viewers id) (m.notify_entries id)

@[simp] theorem modifyEntry_viewers (m : AlertManager) (id : SessionId) (f : AlertEntry → AlertEntry) :
    (m.modifyEntry id f).viewers = m.viewers := by
  unfold modifyEntry
  split <;> rfl

theorem lookup_modifyEntry (m : AlertManager) (id : SessionId) (f : AlertEntry → AlertEntry) :
    (m.modifyEntry id f).entries.lookup id = (m.entries.lookup id).map f := by
  unfold modifyEntry
  split
  · rename_i h
    rw [h]
    rfl
  · rename_i e h
    rw [h]
    exact AList.lookup_insert _

theorem lookup_modifyEntry_ne (m : AlertManager) {id other : SessionId} (h : other ≠ id) (f : AlertEntry → AlertEntry) :
    (m.modifyEntry id f).entries.lookup other = m.entries.lookup other := by
  unfold modifyEntry
  split
  · rfl
  · exact AList.lookup_insert_ne h

theorem moves_modify_of (m : AlertManager) (id : SessionId) {f : AlertEntry → AlertEntry}
    (hf : ∀ e, EntryStep (m.isEngaged id) e (f e)) : Moves m (m.modifyEntry id f) := by
  refine ⟨m.modifyEntry_viewers id f, fun other e' he' => ?_⟩
  by_cases h : other = id
  · subst h
    rw [lookup_modifyEntry] at he'
    obtain ⟨e, he, rfl⟩ := Option.map_eq_some_iff.mp he'
    exact ⟨e, .inl he, hf e⟩
  · rw [m.lookup_modifyEntry_ne h] at he'
    exact ⟨e', .inl he', .refl _ e'⟩

theorem moves_modify (m : AlertManager) (id : SessionId) {f : AlertEntry → AlertEntry}
    (hf : ∀ engaged e, EntryStep engaged e (f e)) : Moves m (m.modifyEntry id f) :=
  m.moves_modify_of id (hf _)

theorem moves_replace (m : AlertManager) (id : SessionId) {e e' : AlertEntry} (he : m.entries.lookup id = some e)
    (hs : EntryStep (m.isEngaged id) e e') : Moves m (m.modifyEntry id (fun _ => e')) := by
  refine ⟨m.modifyEntry_viewers id _, fun other e'' he'' => ?_⟩
  by_cases h : other = id
  · subst h
    rw [lookup_modifyEntry, he] at he''
    cases he''
    exact ⟨e, .inl he, hs⟩
  · rw [m.lookup_modifyEntry_ne h] at he''
    exact ⟨e'', .inl he'', .refl _ e''⟩

theorem moves_getOrCreateEntry (m : AlertManager) (id : SessionId) : Moves m (m.getOrCreateEntry id) := by
  unfold getOrCreateEntry
  split
  · exact .refl m
  · refine ⟨rfl, fun other e' he' => ?_⟩
    by_cases h : other = id
    · subst h
      rw [AList.lookup_insert] at he'
      cases he'
      exact ⟨.create, .inr rfl, .refl _ _⟩
    · rw [AList.lookup_insert_ne h] at he'
      exact ⟨e', .inl he', .refl _ e'⟩

theorem moves_reportedEntry (m : AlertManager) (id : SessionId) : Moves m (m.reportedEntry id) := by
  unfold reportedEntry
  exact (moves_getOrCreateEntry _ id).after rfl rfl

theorem moves_streamEntry {m m' : AlertManager} {id : SessionId} (h : m.streamEntry id = some m') : Moves m m' := by
  unfold streamEntry at h
  split at h
  · cases h
  · cases h
    exact m.moves_getOrCreateEntry id

/-! ### Awaits move no entry -/

theorem moves_dropClaimant (m : AlertManager) (id : SessionId) (keep : Claimant → Bool) :
    Moves m (m.dropClaimant id keep) := by
  unfold dropClaimant
  split
  · exact .refl m
  · exact .of_same rfl rfl

theorem moves_dropWaiter (m : AlertManager) (id : SessionId) (handle : Nat) : Moves m (m.dropWaiter id handle) := by
  unfold dropWaiter
  split
  · exact .refl m
  · dsimp only
    split
    · exact .refl m
    split
    · exact .of_same rfl rfl
    · exact (moves_dropClaimant _ id _).after rfl rfl

theorem moves_settleWaiter (m : AlertManager) (id : SessionId) (handle : Nat) (outcome : AwaitOutcome) :
    Moves m (m.settleWaiter id handle outcome) := by
  unfold settleWaiter
  exact (m.moves_dropWaiter id handle).trans ((moves_notify _ id).after rfl rfl)

theorem moves_settleWaiters (m : AlertManager) (id : SessionId) (outcome : Int → AwaitOutcome) (now : Int) :
    Moves m (m.settleWaiters id outcome now) := by
  unfold settleWaiters
  exact Moves.foldl (fun m (w : AwaitWaiter) => m.moves_settleWaiter id w.handle _) _ m

theorem moves_clearGraces (m : AlertManager) (id : SessionId) (ends : AwaitWaiter → Bool) :
    Moves m (m.clearGraces id ends) := by
  unfold clearGraces
  split
  · exact .refl m
  · exact .of_same rfl rfl

theorem moves_offerWaiters (m : AlertManager) (id : SessionId) (event : CompletionEvent) (now : Int) :
    Moves m (m.offerWaiters id event now).1 := by
  refine Moves.foldl_fst (fun r w => ?_) _ (m, false)
  split
  · exact .refl r.1
  · exact r.1.moves_settleWaiter id w.handle _

theorem moves_offerClaimants (id : SessionId) (event : CompletionEvent) (now : Int) :
    ∀ (cs : List Claimant) (m : AlertManager), Moves m (offerClaimants id event now cs m).1
  | [], m => .refl m
  | .external _ claims :: cs, m => by
    unfold offerClaimants
    split
    · exact .of_same rfl rfl
    · exact (moves_offerClaimants id event now cs _).after rfl rfl
  | .awaits :: cs, m => by
    have h := m.moves_offerWaiters id event now
    unfold offerClaimants
    split
    · rename_i m' heq
      rw [heq] at h
      exact h
    · rename_i m' heq
      rw [heq] at h
      exact h.trans (moves_offerClaimants id event now cs m')

theorem moves_addWaiter (m : AlertManager) (id : SessionId) (waiter : AwaitWaiter) : Moves m (m.addWaiter id waiter) := by
  unfold addWaiter
  split <;> exact .of_same rfl rfl

theorem moves_endAwait (m : AlertManager) (id : SessionId) (handle : Nat) (outcome : Int → AwaitOutcome) (now : Int) :
    Moves m (m.endAwait id handle outcome now) := by
  unfold endAwait
  split
  · exact .refl m
  · exact m.moves_settleWaiter id handle _

/-! ### Completions -/

/-- **A completion that may ring rings, or is held for a Session that is engaged.** -/
theorem moves_holdOrDeliver (m : AlertManager) (id : SessionId) (source : RingSource) (detail : ActivityNotification)
    (held : Option Nat) (now : Int) : Moves m (m.holdOrDeliver id source detail held now) := by
  unfold holdOrDeliver
  extract_lets arrived m' acked opens
  refine Moves.after ?_ (rfl : m'.viewers = m.viewers) rfl
  split
  · rename_i hen
    refine (m'.moves_modify_of id (fun e => ?_)).trans (moves_notify _ id)
    rw [hen]
    exact e.step_hold source detail arrived
  · split
    · split
      · exact m'.moves_notify id
      · exact (m'.moves_modify id (fun b e => e.step_updateReceipt b detail)).trans (moves_notify _ id)
    · refine (m'.moves_modify id (fun b e => e.step_raiseRing b source detail arrived ⟨m'.episodes, now⟩)).trans ?_
      exact (moves_notify _ id).after rfl rfl

theorem moves_deliver (R : AlertReaders) (m : AlertManager) (id : SessionId) (e : AlertEntry) (event : CompletionEvent)
    (now : Int) : Moves m (m.deliver R id e event now) := by
  unfold deliver
  split
  · split
    · exact .refl m
    · split
      · exact .refl m
      · exact m.moves_holdOrDeliver id _ _ _ now
  · split
    · exact m.moves_holdOrDeliver id _ _ _ now
    · exact .refl m
  · exact m.moves_holdOrDeliver id _ _ _ now

theorem moves_dispatchCompletion (R : AlertReaders) (m : AlertManager) (id : SessionId) (event : CompletionEvent)
    (now : Int) : Moves m (m.dispatchCompletion R id event now).1 := by
  have h := moves_offerClaimants id event now ((m.claimants.lookup id).getD []) m
  unfold dispatchCompletion
  split
  · exact .refl m
  · split
    · rename_i heq
      rw [heq] at h
      exact h
    · rename_i m' heq
      rw [heq] at h
      split
      · exact h
      · split
        · exact h.trans (m'.moves_notify id)
        · exact h.trans (m'.moves_deliver R id _ event now)

theorem moves_escalateHeld (m : AlertManager) (id : SessionId) (now : Int) : Moves m (m.escalateHeld id now) := by
  unfold escalateHeld
  split
  · exact .refl m
  · refine (m.moves_modify id (fun b e => e.step_unhold b)).trans ?_
    exact Moves.foldl (fun m source => m.moves_holdOrDeliver id source _ _ now) _ _

/-! ### Progress and commands -/

theorem moves_settleProgressEnd (R : AlertReaders) (m : AlertManager) (id : SessionId) (now : Int) :
    Moves m (m.settleProgressEnd R id now) := by
  unfold settleProgressEnd
  split
  · exact .refl m
  · split
    · exact .refl m
    · extract_lets body r
      have h : Moves m r.1 :=
        (m.moves_modify id (fun b e => e.step_endRun b)).trans (moves_dispatchCompletion R _ id _ now)
      split
      · exact h.trans (moves_notify _ id)
      · exact h

theorem moves_endRunAtBoundary (R : AlertReaders) (m : AlertManager) (id : SessionId) (now : Int) :
    Moves m (m.endRunAtBoundary R id now).1 :=
  (m.moves_settleProgressEnd R id now).trans (moves_modify _ id (fun b e => e.step_endRun b))

theorem moves_startCommandExitWatch (R : AlertReaders) (m : AlertManager) (id : SessionId) (now : Int) :
    Moves m (m.startCommandExitWatch R id now) := by
  unfold startCommandExitWatch
  refine (m.moves_endRunAtBoundary R id now).trans (Moves.trans (moves_modify _ id (fun b e => ?_)) (moves_clearGraces _ id _))
  exact (e.step_unack b).trans (.of_same rfl rfl rfl rfl rfl rfl)

theorem moves_finishCommandExitWatch (R : AlertReaders) (m : AlertManager) (id : SessionId) (exitCode : Option Int)
    (now : Int) : Moves m (m.finishCommandExitWatch R id exitCode now).1 := by
  have h := m.moves_endRunAtBoundary R id now
  unfold finishCommandExitWatch
  generalize m.endRunAtBoundary R id now = r at h ⊢
  obtain ⟨m', endedProgress⟩ := r
  dsimp only at h ⊢
  have h' := h.trans (m'.moves_modify id (fun b e =>
    (.of_same rfl rfl rfl rfl rfl rfl : EntryStep b e { e with commandExitWatch := none, pendingCommandLine := none })))
  split
  · exact h'
  · exact h'.trans (moves_dispatchCompletion R _ id _ now)

end AlertManager

end Alert
end Dormouse

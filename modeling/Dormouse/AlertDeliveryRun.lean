import Dormouse.AlertDelivery
import Dormouse.AlertHeard
/-!
# AlertDeliveryRun — each ring is delivered once to a sink, while it rings

The scheduler is in order (`Scheduled`) when every running timer is its episode's, is still pending, and is of a sink that
is on; it follows the manager (`Follows`) when the episodes it keeps are the ones Sessions show.  Both hold in every run, so
what is delivered rings then, is on and is not blocked.  That nothing is delivered twice (`Once`) rests on an episode that
ended never being shown again: a Session promoted while it rings shows one again.
-/
namespace Dormouse
namespace Alert

open Bulletin (own)

namespace AlertDeliveryScheduler

/-! ## Timers of a pending map -/

theorem lookup_eraseEach (map : Nat) : ∀ (sinks : List AlertSink) (timers : AList (fun _ : Nat × AlertSink => DeliveryTimer))
    (m : Nat) (sink : AlertSink),
    (sinks.foldl (fun timers sink => timers.erase (map, sink)) timers).lookup (m, sink) =
      if m = map ∧ sink ∈ sinks then none else timers.lookup (m, sink)
  | [], timers, m, sink => by
    rw [if_neg (fun h => List.not_mem_nil h.2)]
    rfl
  | head :: sinks, timers, m, sink => by
    rw [List.foldl_cons, lookup_eraseEach map sinks]
    by_cases h : (m, sink) = (map, head)
    · cases h
      rw [AList.lookup_erase, ite_self, if_pos ⟨rfl, List.mem_cons_self⟩]
    · rw [AList.lookup_erase_ne h]
      by_cases hm : m = map
      · have hne : sink ≠ head := fun hs => h (by rw [hm, hs])
        simp only [hm, true_and, List.mem_cons, hne, false_or]
      · simp only [hm, false_and, if_false]

theorem lookup_insertEach (map : Nat) (timer : AlertSink → DeliveryTimer) : ∀ (sinks : List AlertSink)
    (timers : AList (fun _ : Nat × AlertSink => DeliveryTimer)) (m : Nat) (sink : AlertSink),
    (sinks.foldl (fun timers sink => timers.insert (map, sink) (timer sink)) timers).lookup (m, sink) =
      if m = map ∧ sink ∈ sinks then some (timer sink) else timers.lookup (m, sink)
  | [], timers, m, sink => by
    rw [if_neg (fun h => List.not_mem_nil h.2)]
    rfl
  | head :: sinks, timers, m, sink => by
    rw [List.foldl_cons, lookup_insertEach map timer sinks]
    by_cases h : (m, sink) = (map, head)
    · cases h
      rw [AList.lookup_insert, ite_self, if_pos ⟨rfl, List.mem_cons_self⟩]
    · rw [AList.lookup_insert_ne h]
      by_cases hm : m = map
      · have hne : sink ≠ head := fun hs => h (by rw [hm, hs])
        simp only [hm, true_and, List.mem_cons, hne, false_or]
      · simp only [hm, false_and, if_false]

theorem lookup_clearTimers (s : AlertDeliveryScheduler) (map : Nat) (sinks : List AlertSink) (m : Nat) (sink : AlertSink) :
    (s.clearTimers map sinks).timers.lookup (m, sink) =
      if m = map ∧ sink ∈ sinks then none else s.timers.lookup (m, sink) :=
  lookup_eraseEach map sinks s.timers m sink

/-! ## A scheduler in order -/

/-- Every running timer is its episode's and still pending; pending maps are not shared; and of the Sessions that `ok`
names, what is pending is on. -/
structure Scheduled (ok : SessionId → Prop) (s : AlertDeliveryScheduler) : Prop where
  timers  : ∀ map sink t, s.timers.lookup (map, sink) = some t →
    ∃ c, s.episodes.lookup t.id = some c ∧ c.pending = map ∧ c.episodeId = t.episodeId ∧ sink ∈ s.pendingOf map
  maps    : ∀ id c, s.episodes.lookup id = some c → c.pending < s.maps
  own     : ∀ id id' c c', s.episodes.lookup id = some c → s.episodes.lookup id' = some c' → c.pending = c'.pending →
    id = id'
  enabled : ∀ id c, ok id → s.episodes.lookup id = some c → ∀ sink ∈ s.pendingOf c.pending,
    AlertSink.enabled (s.policy id) sink = true

/-- No episode is delivered twice to a sink: what was delivered is of an episode before the `n`th and is pending no more. -/
structure Once (n : Nat) (s : AlertDeliveryScheduler) : Prop where
  nodup    : (s.delivered.map (fun d => (d.episodeId, d.sink))).Nodup
  counted  : ∀ d ∈ s.delivered, d.episodeId < n
  consumed : ∀ d ∈ s.delivered, ∀ id c, s.episodes.lookup id = some c → c.episodeId = d.episodeId →
    d.sink ∉ s.pendingOf c.pending

theorem pendingOf_insert {s : AlertDeliveryScheduler} (map : Nat) (sinks : List AlertSink) (m : Nat) :
    ({ s with pendings := s.pendings.insert map sinks } : AlertDeliveryScheduler).pendingOf m =
      if m = map then sinks else s.pendingOf m := by
  unfold pendingOf
  by_cases h : m = map
  · rw [if_pos h, h, AList.lookup_insert]
    rfl
  · rw [if_neg h, AList.lookup_insert_ne h]

variable {s s' : AlertDeliveryScheduler} {ok : SessionId → Prop} {n : Nat}

theorem Once.fewer (h : Once n s) (he : s'.episodes = s.episodes) (hd : s'.delivered = s.delivered)
    (hp : ∀ m, s'.pendingOf m ⊆ s.pendingOf m) : Once n s' := by
  refine ⟨hd ▸ h.nodup, fun d hm => h.counted d (hd ▸ hm), fun d hm id c hc hep hpend => ?_⟩
  rw [he] at hc
  exact h.consumed d (hd ▸ hm) id c hc hep (hp _ hpend)

theorem recheck_same (s : AlertDeliveryScheduler) (id : SessionId) :
    (s.recheck id).episodes = s.episodes ∧ (s.recheck id).published = s.published ∧ (s.recheck id).defaults = s.defaults ∧
      (s.recheck id).maps = s.maps ∧ (s.recheck id).attached = s.attached ∧ (s.recheck id).delivered = s.delivered := by
  unfold recheck
  split
  · exact ⟨rfl, rfl, rfl, rfl, rfl, rfl⟩
  · exact ⟨rfl, rfl, rfl, rfl, rfl, rfl⟩

theorem pendingOf_recheck (s : AlertDeliveryScheduler) (id : SessionId) (m : Nat) :
    (s.recheck id).pendingOf m ⊆ s.pendingOf m := by
  unfold recheck
  split
  · exact List.Subset.refl _
  · rename_i current _
    dsimp only
    show ({ s with pendings := s.pendings.insert _ _ } : AlertDeliveryScheduler).pendingOf m ⊆ _
    rw [pendingOf_insert]
    split
    · rename_i h
      rw [h]
      exact fun sink hsink => List.mem_of_mem_filter hsink
    · exact List.Subset.refl _

theorem policy_recheck (s : AlertDeliveryScheduler) (id k : SessionId) : (s.recheck id).policy k = s.policy k := by
  unfold policy
  rw [(s.recheck_same id).2.1, (s.recheck_same id).2.2.1]

/-- **A Session that is rechecked has nothing pending that is off.** -/
theorem Scheduled.recheck (h : Scheduled ok s) (id : SessionId) : Scheduled (fun k => ok k ∨ k = id) (s.recheck id) := by
  obtain ⟨he, -, -, hm, -, -⟩ := s.recheck_same id
  refine ⟨fun map sink t ht => ?_, fun k c hc => ?_, fun k k' c c' hc hc' => ?_, fun k c hok hc sink hsink => ?_⟩
  · cases hcur : s.episodes.lookup id with
    | none =>
      have heq : s.recheck id = s := by
        unfold AlertDeliveryScheduler.recheck
        rw [hcur]
      rw [heq] at ht ⊢
      exact h.timers map sink t ht
    | some current =>
      rw [he]
      have hpend : ∀ m, (s.recheck id).pendingOf m =
          if m = current.pending then (s.pendingOf current.pending).filter (AlertSink.enabled (s.policy id))
          else s.pendingOf m := by
        intro m
        unfold AlertDeliveryScheduler.recheck
        rw [hcur]
        exact pendingOf_insert current.pending _ m
      have htimers : (s.recheck id).timers.lookup (map, sink) =
          if map = current.pending ∧ sink ∈ (s.pendingOf current.pending).filter
            (fun sink => !AlertSink.enabled (s.policy id) sink) then none else s.timers.lookup (map, sink) := by
        unfold AlertDeliveryScheduler.recheck
        rw [hcur]
        exact s.lookup_clearTimers current.pending _ map sink
      rw [htimers] at ht
      split at ht
      · cases ht
      · rename_i hkept
        obtain ⟨c, hc, hmap, hep, hmem⟩ := h.timers map sink t ht
        refine ⟨c, hc, hmap, hep, ?_⟩
        rw [hpend]
        by_cases hcp : map = current.pending
        · rw [if_pos hcp]
          rw [hcp] at hmem hkept
          refine List.mem_filter.mpr ⟨hmem, ?_⟩
          by_contra hoff
          exact hkept ⟨rfl, List.mem_filter.mpr ⟨hmem, by simp only [hoff, Bool.not_false]⟩⟩
        · rw [if_neg hcp]
          exact hmem
  · rw [hm]
    rw [he] at hc
    exact h.maps k c hc
  · rw [he] at hc hc'
    exact h.own k k' c c' hc hc'
  · rw [he] at hc
    rw [policy_recheck]
    by_cases hk : k = id
    · subst hk
      unfold AlertDeliveryScheduler.recheck at hsink
      rw [hc] at hsink
      have hpend := pendingOf_insert (s := s) c.pending ((s.pendingOf c.pending).filter (AlertSink.enabled (s.policy k)))
        c.pending
      rw [if_pos rfl] at hpend
      have hsink' : sink ∈ (s.pendingOf c.pending).filter (AlertSink.enabled (s.policy k)) := by
        rw [← hpend]
        exact hsink
      exact (List.mem_filter.mp hsink').2
    · exact h.enabled k c (hok.resolve_right hk) hc sink (s.pendingOf_recheck id c.pending hsink)

theorem Once.recheck (h : Once n s) (id : SessionId) : Once n (s.recheck id) := by
  obtain ⟨he, -, -, -, -, hd⟩ := s.recheck_same id
  exact h.fewer he hd (s.pendingOf_recheck id)

/-! ## The end of an episode, and the start of one -/

theorem endEpisode_same (s : AlertDeliveryScheduler) (id : SessionId) :
    (s.endEpisode id).episodes = s.episodes.erase id ∧ (s.endEpisode id).published = s.published ∧
      (s.endEpisode id).defaults = s.defaults ∧ (s.endEpisode id).pendings = s.pendings ∧
      (s.endEpisode id).maps = s.maps ∧ (s.endEpisode id).attached = s.attached ∧
      (s.endEpisode id).delivered = s.delivered := by
  unfold endEpisode
  split
  · rename_i h
    refine ⟨?_, rfl, rfl, rfl, rfl, rfl, rfl⟩
    have : id ∉ s.episodes := AList.lookup_eq_none.mp h
    exact (AList.ext (List.kerase_of_notMem_keys this)).symm
  · exact ⟨rfl, rfl, rfl, rfl, rfl, rfl, rfl⟩

/-- **The timers of an episode that is over are cleared.** -/
theorem Scheduled.endEpisode (h : Scheduled ok s) (id : SessionId) : Scheduled ok (s.endEpisode id) := by
  obtain ⟨he, hpub, hdef, hp, hm, -, -⟩ := s.endEpisode_same id
  have hpend : ∀ m, (s.endEpisode id).pendingOf m = s.pendingOf m := fun m => by
    unfold pendingOf
    rw [hp]
  have hlookup : ∀ k c, (s.endEpisode id).episodes.lookup k = some c → k ≠ id ∧ s.episodes.lookup k = some c := by
    intro k c hc
    rw [he] at hc
    by_cases hk : k = id
    · rw [hk, AList.lookup_erase] at hc
      cases hc
    · rw [AList.lookup_erase_ne hk] at hc
      exact ⟨hk, hc⟩
  refine ⟨fun map sink t ht => ?_, fun k c hc => ?_, fun k k' c c' hc hc' => ?_, fun k c hok hc => ?_⟩
  · have hold : s.timers.lookup (map, sink) = some t ∧ t.id ≠ id := by
      unfold AlertDeliveryScheduler.endEpisode at ht
      cases hcur : s.episodes.lookup id with
      | none =>
        rw [hcur] at ht
        refine ⟨ht, fun hid => ?_⟩
        obtain ⟨c, hc, -⟩ := h.timers map sink t ht
        rw [hid, hcur] at hc
        cases hc
      | some current =>
        rw [hcur] at ht
        have ht' := (s.lookup_clearTimers current.pending (s.pendingOf current.pending) map sink).symm.trans ht
        split at ht'
        · cases ht'
        · rename_i hkept
          refine ⟨ht', fun hid => hkept ?_⟩
          obtain ⟨c, hc, hmap, -, hmem⟩ := h.timers map sink t ht'
          rw [hid, hcur] at hc
          cases hc
          exact ⟨hmap.symm, hmap ▸ hmem⟩
    obtain ⟨c, hc, hmap, hep, hmem⟩ := h.timers map sink t hold.1
    refine ⟨c, ?_, hmap, hep, ?_⟩
    · rw [he, AList.lookup_erase_ne hold.2]
      exact hc
    · rw [hpend]
      exact hmem
  · rw [hm]
    exact h.maps k c (hlookup k c hc).2
  · exact h.own k k' c c' (hlookup k c hc).2 (hlookup k' c' hc').2
  · intro sink hsink
    rw [hpend] at hsink
    unfold policy
    rw [hpub, hdef]
    exact h.enabled k c hok (hlookup k c hc).2 sink hsink

theorem Once.endEpisode (h : Once n s) (id : SessionId) : Once n (s.endEpisode id) := by
  obtain ⟨he, -, -, hp, -, -, hd⟩ := s.endEpisode_same id
  refine ⟨hd ▸ h.nodup, fun d hm => h.counted d (hd ▸ hm), fun d hm k c hc hep hpend => ?_⟩
  unfold pendingOf at hpend
  rw [hp] at hpend
  rw [he] at hc
  by_cases hk : k = id
  · rw [hk, AList.lookup_erase] at hc
    cases hc
  · rw [AList.lookup_erase_ne hk] at hc
    exact h.consumed d (hd ▸ hm) k c hc hep hpend

theorem Scheduled.startEpisode (h : Scheduled ok s) {id : SessionId} (hnone : s.episodes.lookup id = none)
    (episode : AlertEpisode) (now : Int) : Scheduled ok (s.startEpisode id episode now) := by
  unfold AlertDeliveryScheduler.startEpisode
  extract_lets effective sinks timer
  -- the map is new: no episode held it
  have hpend : ∀ m, ({ s with pendings := s.pendings.insert s.maps sinks } : AlertDeliveryScheduler).pendingOf m =
      if m = s.maps then sinks else s.pendingOf m := pendingOf_insert s.maps sinks
  have hlookup : ∀ k c, (s.episodes.insert id ⟨episode.id, s.maps⟩).lookup k = some c →
      (k = id ∧ c = ⟨episode.id, s.maps⟩) ∨ (k ≠ id ∧ s.episodes.lookup k = some c) := by
    intro k c hc
    by_cases hk : k = id
    · rw [hk, AList.lookup_insert] at hc
      cases hc
      exact .inl ⟨hk, rfl⟩
    · rw [AList.lookup_insert_ne hk] at hc
      exact .inr ⟨hk, hc⟩
  refine ⟨fun map sink t ht => ?_, fun k c hc => ?_, fun k k' c c' hc hc' hshare => ?_, fun k c hok hc sink hsink => ?_⟩
  · have ht' := (lookup_insertEach s.maps timer sinks s.timers map sink).symm.trans ht
    split at ht'
    · rename_i hnew
      cases ht'
      refine ⟨⟨episode.id, s.maps⟩, AList.lookup_insert _, hnew.1.symm, rfl, ?_⟩
      show sink ∈ ({ s with pendings := s.pendings.insert s.maps sinks } : AlertDeliveryScheduler).pendingOf map
      rw [hpend, if_pos hnew.1]
      exact hnew.2
    · obtain ⟨c, hc, hmap, hep, hmem⟩ := h.timers map sink t ht'
      have hne : t.id ≠ id := by
        intro hid
        rw [hid, hnone] at hc
        cases hc
      refine ⟨c, ?_, hmap, hep, ?_⟩
      · exact (AList.lookup_insert_ne hne).trans hc
      · have hold : map ≠ s.maps := by
          rw [← hmap]
          exact Nat.ne_of_lt (h.maps t.id c hc)
        show sink ∈ ({ s with pendings := s.pendings.insert s.maps sinks } : AlertDeliveryScheduler).pendingOf map
        rw [hpend, if_neg hold]
        exact hmem
  · rcases hlookup k c hc with ⟨-, rfl⟩ | ⟨-, hc⟩
    · exact Nat.lt_succ_self _
    · exact Nat.lt_succ_of_lt (h.maps k c hc)
  · rcases hlookup k c hc with ⟨hk, hnew⟩ | ⟨-, hold⟩
    · rcases hlookup k' c' hc' with ⟨hk', -⟩ | ⟨-, hold'⟩
      · rw [hk, hk']
      · have hlt := h.maps k' c' hold'
        rw [← hshare, hnew] at hlt
        exact absurd hlt (Nat.lt_irrefl _)
    · rcases hlookup k' c' hc' with ⟨-, hnew'⟩ | ⟨-, hold'⟩
      · have hlt := h.maps k c hold
        rw [hshare, hnew'] at hlt
        exact absurd hlt (Nat.lt_irrefl _)
      · exact h.own k k' c c' hold hold' hshare
  · have hsink' : sink ∈ ({ s with pendings := s.pendings.insert s.maps sinks } : AlertDeliveryScheduler).pendingOf c.pending :=
      hsink
    rw [hpend] at hsink'
    rcases hlookup k c hc with ⟨rfl, rfl⟩ | ⟨-, hc⟩
    · rw [if_pos rfl] at hsink'
      exact (List.mem_filter.mp hsink').2
    · rw [if_neg (Nat.ne_of_lt (h.maps k c hc))] at hsink'
      exact h.enabled k c hok hc sink hsink'

theorem Once.startEpisode (h : Once n s) (hs : Scheduled ok s) {id : SessionId} {episode : AlertEpisode}
    (hnew : n ≤ episode.id) (now : Int) : Once n (s.startEpisode id episode now) := by
  refine ⟨h.nodup, h.counted, fun d hm k c hc hep => ?_⟩
  have hc' : (s.episodes.insert id ⟨episode.id, s.maps⟩).lookup k = some c := hc
  by_cases hk : k = id
  · rw [hk, AList.lookup_insert] at hc'
    cases hc'
    have hlt := h.counted d hm
    rw [← hep] at hlt
    exact absurd hlt (Nat.not_lt.mpr hnew)
  · rw [AList.lookup_insert_ne hk] at hc'
    have hp := pendingOf_insert (s := s) s.maps ([AlertSink.speech, .push].filter (AlertSink.enabled (s.policy id))) c.pending
    rw [if_neg (Nat.ne_of_lt (hs.maps k c hc'))] at hp
    have hold := h.consumed d hm k c hc' hep
    rw [← hp] at hold
    exact hold

/-! ## What the manager announces -/

def keptEpisode (s : AlertDeliveryScheduler) (id : SessionId) : Option Nat := (s.episodes.lookup id).map (·.episodeId)

theorem Scheduled.onState (h : Scheduled ok s) (id : SessionId) (state : AlertState) (now : Int) :
    Scheduled ok (s.onState id state now) := by
  unfold AlertDeliveryScheduler.onState
  split
  · exact h
  · split
    · exact h.endEpisode id
    · refine (h.endEpisode id).startEpisode ?_ _ now
      rw [(s.endEpisode_same id).1]
      exact AList.lookup_erase _ _

theorem Once.onState (h : Once n s) (hs : Scheduled ok s) {id : SessionId} {state : AlertState}
    (ho : state.episodeId = none ∨ state.episodeId = s.keptEpisode id ∨ ∃ k, state.episodeId = some k ∧ n ≤ k) (now : Int) :
    Once n (s.onState id state now) := by
  unfold AlertDeliveryScheduler.onState
  split
  · exact h
  · rename_i hne
    cases hep : state.episode with
    | none => exact h.endEpisode id
    | some episode =>
      refine (h.endEpisode id).startEpisode (hs.endEpisode id) ?_ now
      have hid : state.episodeId = some episode.id := by
        unfold AlertState.episodeId
        rw [hep]
        rfl
      rw [hid] at ho
      rcases ho with ho | ho | ⟨k, hk, hn⟩
      · cases ho
      · refine absurd ?_ hne
        unfold keptEpisode at ho
        rw [← ho, hep]
        rfl
      · cases hk
        exact hn

theorem onState_same (s : AlertDeliveryScheduler) (id : SessionId) (state : AlertState) (now : Int) :
    (s.onState id state now).published = s.published ∧ (s.onState id state now).defaults = s.defaults ∧
      (s.onState id state now).attached = s.attached ∧ (s.onState id state now).delivered = s.delivered := by
  obtain ⟨-, hpub, hdef, -, -, ha, hd⟩ := s.endEpisode_same id
  unfold onState
  split
  · exact ⟨rfl, rfl, rfl, rfl⟩
  · split
    · exact ⟨hpub, hdef, ha, hd⟩
    · exact ⟨hpub, hdef, ha, hd⟩

theorem keptEpisode_onState (s : AlertDeliveryScheduler) (id k : SessionId) (state : AlertState) (now : Int) :
    (s.onState id state now).keptEpisode k = if k = id then state.episodeId else s.keptEpisode k := by
  unfold onState
  split
  · rename_i h
    split
    · rename_i hk
      rw [hk]
      exact h
    · rfl
  · have hend : ∀ k, (s.endEpisode id).keptEpisode k = if k = id then none else s.keptEpisode k := by
      intro k
      unfold keptEpisode
      rw [(s.endEpisode_same id).1]
      by_cases hk : k = id
      · rw [if_pos hk, hk, AList.lookup_erase]
        rfl
      · rw [if_neg hk, AList.lookup_erase_ne hk]
    cases hep : state.episode with
    | none =>
      dsimp only
      rw [hend]
      unfold AlertState.episodeId
      rw [hep]
      rfl
    | some episode =>
      dsimp only
      have hid : state.episodeId = some episode.id := by
        unfold AlertState.episodeId
        rw [hep]
        rfl
      by_cases hk : k = id
      · rw [if_pos hk, hk, hid]
        unfold keptEpisode AlertDeliveryScheduler.startEpisode
        dsimp only
        rw [AList.lookup_insert]
        rfl
      · have hstart : ((s.endEpisode id).startEpisode id episode now).keptEpisode k = (s.endEpisode id).keptEpisode k := by
          unfold keptEpisode AlertDeliveryScheduler.startEpisode
          dsimp only
          rw [AList.lookup_insert_ne hk]
        rw [hstart, hend, if_neg hk, if_neg hk]

/-! ## Timers, settings and publications -/

theorem fire_cases (s : AlertDeliveryScheduler) (m : AlertManager) (map : Nat) (sink : AlertSink) (now : Int) :
    s.fire m map sink now = s ∨ ∃ t, s.timers.lookup (map, sink) = some t ∧
      (s.fire m map sink now = { s with
        timers := s.timers.erase (map, sink)
        pendings := s.pendings.insert map ((s.pendingOf map).filter (· ≠ sink)) } ∨
      AlertSink.blocked m t.id sink = false ∧ ∃ title, s.fire m map sink now = { s with
        timers := s.timers.erase (map, sink)
        pendings := s.pendings.insert map ((s.pendingOf map).filter (· ≠ sink))
        delivered := s.delivered ++ [⟨t.id, t.episodeId, sink, title⟩] }) := by
  unfold fire
  cases ht : s.timers.lookup (map, sink) with
  | none => exact .inl rfl
  | some t =>
    dsimp only
    split
    · exact .inl rfl
    · refine .inr ⟨t, rfl, ?_⟩
      split
      · exact .inl rfl
      · rename_i hblocked
        exact .inr ⟨Bool.eq_false_iff.mpr hblocked, _, rfl⟩

theorem Scheduled.fired (h : Scheduled ok s) (map : Nat) (sink : AlertSink) (delivered : List Delivery) :
    Scheduled ok
      { s with
        timers := s.timers.erase (map, sink)
        pendings := s.pendings.insert map ((s.pendingOf map).filter (· ≠ sink))
        delivered := delivered } := by
  have hpend := pendingOf_insert (s := s) map ((s.pendingOf map).filter (· ≠ sink))
  refine ⟨fun m k t ht => ?_, h.maps, h.own, fun id c hok hc k hk => ?_⟩
  · have ht' : (s.timers.erase (map, sink)).lookup (m, k) = some t := ht
    by_cases heq : (m, k) = (map, sink)
    · rw [heq, AList.lookup_erase] at ht'
      cases ht'
    · rw [AList.lookup_erase_ne heq] at ht'
      obtain ⟨c, hc, hmap, hep, hmem⟩ := h.timers m k t ht'
      refine ⟨c, hc, hmap, hep, ?_⟩
      have hmem' : k ∈ if m = map then (s.pendingOf map).filter (· ≠ sink) else s.pendingOf m := by
        split
        · rename_i hm
          rw [hm] at hmem heq
          exact List.mem_filter.mpr ⟨hmem, decide_eq_true (fun hk => heq (by rw [hk]))⟩
        · exact hmem
      rw [← hpend] at hmem'
      exact hmem'
  · have hk' : k ∈ ({ s with pendings := s.pendings.insert map ((s.pendingOf map).filter (· ≠ sink)) } :
        AlertDeliveryScheduler).pendingOf c.pending := hk
    rw [hpend] at hk'
    refine h.enabled id c hok hc k ?_
    split at hk'
    · rename_i hm
      rw [hm]
      exact List.mem_of_mem_filter hk'
    · exact hk'

theorem pendingOf_fired (map : Nat) (sink : AlertSink) (m : Nat) :
    ({ s with
      timers := s.timers.erase (map, sink)
      pendings := s.pendings.insert map ((s.pendingOf map).filter (· ≠ sink)) } : AlertDeliveryScheduler).pendingOf m ⊆
      s.pendingOf m := by
  show ({ s with pendings := s.pendings.insert map ((s.pendingOf map).filter (· ≠ sink)) } :
    AlertDeliveryScheduler).pendingOf m ⊆ _
  rw [pendingOf_insert]
  split
  · rename_i hm
    rw [hm]
    exact fun k hk => List.mem_of_mem_filter hk
  · exact List.Subset.refl _

/-- **What a timer delivers was not delivered before**, where no other Session rings in its episode. -/
theorem Once.deliver (h : Once n s) (hs : Scheduled ok s) {map : Nat} {sink : AlertSink} {t : DeliveryTimer}
    (ht : s.timers.lookup (map, sink) = some t) (hn : t.episodeId < n)
    (hown : ∀ id c, s.episodes.lookup id = some c → c.episodeId = t.episodeId → id = t.id) (title : Option JsString) :
    Once n
      { s with
        timers := s.timers.erase (map, sink)
        pendings := s.pendings.insert map ((s.pendingOf map).filter (· ≠ sink))
        delivered := s.delivered ++ [⟨t.id, t.episodeId, sink, title⟩] } := by
  obtain ⟨c, hc, hmap, hep, hmem⟩ := hs.timers map sink t ht
  refine ⟨?_, fun d hd => ?_, fun d hd id c' hc' hep' hpend => ?_⟩
  · show ((s.delivered ++ [(⟨t.id, t.episodeId, sink, title⟩ : Delivery)]).map (fun d => (d.episodeId, d.sink))).Nodup
    rw [List.map_append, List.nodup_append]
    refine ⟨h.nodup, List.nodup_singleton _, fun p hp q hq hpq => ?_⟩
    obtain ⟨d, hd, hdp⟩ := List.mem_map.mp hp
    rw [hpq, List.mem_singleton.mp hq] at hdp
    obtain ⟨hdep, hdsink⟩ := Prod.mk.inj hdp
    have hno := h.consumed d hd t.id c hc (hep.trans hdep.symm)
    rw [hdsink, hmap] at hno
    exact hno hmem
  · rcases List.mem_append.mp hd with hd | hd
    · exact h.counted d hd
    · rw [List.mem_singleton.mp hd]
      exact hn
  · rcases List.mem_append.mp hd with hd | hd
    · exact h.consumed d hd id c' hc' hep' (pendingOf_fired map sink _ hpend)
    · rw [List.mem_singleton.mp hd] at hep' hpend
      have hid := hown id c' hc' hep'
      have hcc : c' = c := by
        have hc'' : s.episodes.lookup id = some c' := hc'
        rw [hid, hc] at hc''
        exact (Option.some.inj hc'').symm
      rw [hcc, hmap] at hpend
      have hpend' : sink ∈ ({ s with pendings := s.pendings.insert map ((s.pendingOf map).filter (· ≠ sink)) } :
          AlertDeliveryScheduler).pendingOf map := hpend
      rw [pendingOf_insert, if_pos rfl] at hpend'
      exact of_decide_eq_true (List.mem_filter.mp hpend').2 rfl

theorem policy_published {s : AlertDeliveryScheduler} {published : AList (fun _ : SessionId => Published)} {id : SessionId}
    (h : (published.lookup id).elim noOverrides (·.overrides) = (s.published.lookup id).elim noOverrides (·.overrides)) :
    ({ s with published := published } : AlertDeliveryScheduler).policy id = s.policy id := by
  unfold policy
  rw [h]

/-- Publications that change the overrides of no Session that `ok` names and that has an episode. -/
theorem Scheduled.published (h : Scheduled ok s) {published : AList (fun _ : SessionId => Published)}
    {ok' : SessionId → Prop} (hok : ∀ id, ok' id → ok id)
    (hp : ∀ id, ok' id → s.episodes.lookup id = none ∨
      (published.lookup id).elim noOverrides (·.overrides) = (s.published.lookup id).elim noOverrides (·.overrides)) :
    Scheduled ok' { s with published := published } := by
  refine ⟨h.timers, h.maps, h.own, fun id c hid hc sink hsink => ?_⟩
  rcases hp id hid with hnone | hsame
  · have hc' : s.episodes.lookup id = some c := hc
    rw [hnone] at hc'
    cases hc'
  · rw [policy_published hsame]
    exact h.enabled id c (hok id hid) hc sink hsink

theorem Scheduled.all (h : Scheduled ok s) (hok : ∀ id c, s.episodes.lookup id = some c → ok id) :
    Scheduled (fun _ => True) s :=
  ⟨h.timers, h.maps, h.own, fun id c _ hc => h.enabled id c (hok id c hc) hc⟩

theorem Scheduled.publishOne (h : Scheduled (fun _ => True) s) (realmId id : JsString) (value : Json) :
    Scheduled (fun _ => True) (s.publishOne realmId id value) := by
  unfold AlertDeliveryScheduler.publishOne
  extract_lets label overrides prior written
  split
  · rename_i hsame
    refine h.published (fun _ h => h) (fun k _ => .inr ?_)
    by_cases hk : k = id
    · rw [hk, AList.lookup_insert]
      exact (of_decide_eq_true hsame).symm
    · rw [AList.lookup_insert_ne hk]
  · have hw : Scheduled (fun k => k ≠ id) written :=
      h.published (fun _ _ => trivial) (fun k hk => .inr (by rw [AList.lookup_insert_ne hk]))
    refine (hw.recheck id).all (fun k c _ => ?_)
    by_cases hk : k = id
    · exact .inr hk
    · exact .inl hk

theorem publishOne_same (s : AlertDeliveryScheduler) (realmId id : JsString) (value : Json) :
    (s.publishOne realmId id value).episodes = s.episodes ∧ (s.publishOne realmId id value).attached = s.attached ∧
      (s.publishOne realmId id value).delivered = s.delivered := by
  unfold publishOne
  extract_lets label overrides prior written
  split
  · exact ⟨rfl, rfl, rfl⟩
  · obtain ⟨he, -, -, -, ha, hd⟩ := written.recheck_same id
    exact ⟨he, ha, hd⟩

theorem Once.publishOne (h : Once n s) (realmId id : JsString) (value : Json) : Once n (s.publishOne realmId id value) := by
  unfold AlertDeliveryScheduler.publishOne
  extract_lets label overrides prior written
  have hw : Once n written := ⟨h.nodup, h.counted, h.consumed⟩
  split
  · exact hw
  · exact hw.recheck id

theorem lookup_eraseWhere {β : Type} (drops : SessionId → Bool) : ∀ (ids : List SessionId) (a : AList (fun _ : SessionId => β))
    (k : SessionId), drops k = false →
    (ids.foldl (fun a id => if drops id then a.erase id else a) a).lookup k = a.lookup k
  | [], _, _, _ => rfl
  | id :: ids, a, k, h => by
    rw [List.foldl_cons, lookup_eraseWhere drops ids _ k h]
    split
    · rename_i hd
      have hk : k ≠ id := by
        intro hk
        rw [hk, hd] at h
        cases h
      exact AList.lookup_erase_ne hk
    · rfl

/-- **A publication leaves nothing pending that is off**, if what it drops has no episode. -/
theorem Scheduled.publish (h : Scheduled (fun _ => True) s) {m : AlertManager}
    (hm : ∀ id, has m id = false → s.episodes.lookup id = none) (realmId : JsString) (raw : Json) :
    Scheduled (fun _ => True) (s.publish m realmId raw) := by
  unfold AlertDeliveryScheduler.publish
  split
  · rename_i fields
    extract_lets named written
    have hw : Scheduled (fun _ => True) written ∧ written.episodes = s.episodes := by
      refine List.foldlRecOn named _ (motive := fun w => Scheduled (fun _ => True) w ∧ w.episodes = s.episodes) ⟨h, rfl⟩ ?_
      intro w hw f _
      exact ⟨hw.1.publishOne realmId f.1 f.2, (w.publishOne_same realmId f.1 f.2).1.trans hw.2⟩
    refine hw.1.published (fun _ h => h) (fun k _ => ?_)
    by_cases hk : has m k = true
    · refine .inr ?_
      rw [lookup_eraseWhere (fun id => (written.published.lookup id).any (·.realmId = realmId) &&
        id ∉ named.map (·.1) && !has m id)]
      simp only [hk, Bool.not_true, Bool.and_false]
    · rw [hw.2]
      exact .inl (hm k (Bool.eq_false_iff.mpr hk))
  · exact h

theorem publish_same (s : AlertDeliveryScheduler) (m : AlertManager) (realmId : JsString) (raw : Json) :
    (s.publish m realmId raw).episodes = s.episodes ∧ (s.publish m realmId raw).attached = s.attached ∧
      (s.publish m realmId raw).delivered = s.delivered := by
  unfold publish
  split
  · rename_i fields
    refine List.foldlRecOn (namedSessions fields) _
      (motive := fun (w : AlertDeliveryScheduler) =>
        w.episodes = s.episodes ∧ w.attached = s.attached ∧ w.delivered = s.delivered) ⟨rfl, rfl, rfl⟩ ?_
    intro w hw f _
    obtain ⟨he, ha, hd⟩ := w.publishOne_same realmId f.1 f.2
    exact ⟨he.trans hw.1, ha.trans hw.2.1, hd.trans hw.2.2⟩
  · exact ⟨rfl, rfl, rfl⟩

theorem Once.publish (h : Once n s) (m : AlertManager) (realmId : JsString) (raw : Json) :
    Once n (s.publish m realmId raw) := by
  unfold AlertDeliveryScheduler.publish
  split
  · rename_i fields
    have hw : Once n ((namedSessions fields).foldl (fun s f => s.publishOne realmId f.1 f.2) s) :=
      List.foldlRecOn _ _ (motive := Once n) h (fun w hw f _ => hw.publishOne realmId f.1 f.2)
    exact ⟨hw.nodup, hw.counted, hw.consumed⟩
  · exact h

theorem recheckEach_spec : ∀ (ids : List SessionId) (s : AlertDeliveryScheduler),
    (ids.foldl AlertDeliveryScheduler.recheck s).episodes = s.episodes ∧
    (ids.foldl AlertDeliveryScheduler.recheck s).attached = s.attached ∧
    (ids.foldl AlertDeliveryScheduler.recheck s).delivered = s.delivered ∧
    (∀ n, Once n s → Once n (ids.foldl AlertDeliveryScheduler.recheck s)) ∧
    (∀ ok, Scheduled ok s → Scheduled (fun k => ok k ∨ k ∈ ids) (ids.foldl AlertDeliveryScheduler.recheck s))
  | [], s => ⟨rfl, rfl, rfl, fun _ h => h, fun ok h =>
      ⟨h.timers, h.maps, h.own, fun id c hok => h.enabled id c (hok.resolve_right List.not_mem_nil)⟩⟩
  | id :: ids, s => by
    obtain ⟨he, -, -, -, ha, hd⟩ := s.recheck_same id
    obtain ⟨he', ha', hd', ho, hs⟩ := recheckEach_spec ids (s.recheck id)
    refine ⟨he'.trans he, ha'.trans ha, hd'.trans hd, fun n h => ho n (h.recheck id), fun ok h => ?_⟩
    have h' := hs _ (h.recheck id)
    refine ⟨h'.timers, h'.maps, h'.own, fun k c hok => h'.enabled k c ?_⟩
    rcases hok with hok | hok
    · exact .inl (.inl hok)
    · exact (List.mem_cons.mp hok).elim (fun h => .inl (.inr h)) .inr

/-- **New defaults leave nothing pending that is off.** -/
theorem setDefaults_spec (s : AlertDeliveryScheduler) (settings : AlertSettings) :
    (s.setDefaults settings).episodes = s.episodes ∧ (s.setDefaults settings).attached = s.attached ∧
    (s.setDefaults settings).delivered = s.delivered ∧ (∀ n, Once n s → Once n (s.setDefaults settings)) ∧
    (Scheduled (fun _ => True) s → Scheduled (fun _ => True) (s.setDefaults settings)) := by
  obtain ⟨he, ha, hd, ho, hs⟩ := recheckEach_spec s.episodes.keys { s with defaults := settings }
  refine ⟨he, ha, hd, fun n h => ho n ⟨h.nodup, h.counted, h.consumed⟩, fun h => ?_⟩
  have hnone : Scheduled (fun _ => False) { s with defaults := settings } :=
    ⟨h.timers, h.maps, h.own, fun _ _ hf => hf.elim⟩
  refine (hs _ hnone).all (fun id c hc => .inr ?_)
  have hc' : s.episodes.lookup id = some c := he ▸ hc
  exact AList.mem_keys.mp (AList.lookup_isSome.mp (by rw [hc']; rfl))

theorem endEach_spec : ∀ (ids : List SessionId) (s : AlertDeliveryScheduler),
    (∀ k, (ids.foldl AlertDeliveryScheduler.endEpisode s).episodes.lookup k =
      if k ∈ ids then none else s.episodes.lookup k) ∧
    (ids.foldl AlertDeliveryScheduler.endEpisode s).delivered = s.delivered ∧
    (∀ ok, Scheduled ok s → Scheduled ok (ids.foldl AlertDeliveryScheduler.endEpisode s)) ∧
    (∀ n, Once n s → Once n (ids.foldl AlertDeliveryScheduler.endEpisode s))
  | [], s => ⟨fun k => by rw [if_neg List.not_mem_nil]; rfl, rfl, fun _ h => h, fun _ h => h⟩
  | id :: ids, s => by
    obtain ⟨he, -, -, -, -, -, hd⟩ := s.endEpisode_same id
    obtain ⟨he', hd', hs, ho⟩ := endEach_spec ids (s.endEpisode id)
    refine ⟨fun k => ?_, hd'.trans hd, fun ok h => hs ok (h.endEpisode id), fun n h => ho n (h.endEpisode id)⟩
    rw [List.foldl_cons, he', he]
    by_cases hk : k = id
    · rw [hk, AList.lookup_erase, ite_self, if_pos List.mem_cons_self]
    · rw [AList.lookup_erase_ne hk]
      simp only [List.mem_cons, hk, false_or]

theorem dispose_spec (s : AlertDeliveryScheduler) :
    (∀ id, s.dispose.episodes.lookup id = none) ∧ s.dispose.delivered = s.delivered ∧
    (Scheduled (fun _ => True) s → Scheduled (fun _ => True) s.dispose) ∧ (∀ n, Once n s → Once n s.dispose) := by
  obtain ⟨he, hd, hs, ho⟩ := endEach_spec s.episodes.keys s
  have hnone : ∀ id, s.dispose.episodes.lookup id = none := by
    intro id
    refine (he id).trans ?_
    by_cases hk : id ∈ s.episodes.keys
    · rw [if_pos hk]
    · rw [if_neg hk]
      exact AList.lookup_eq_none.mpr (fun h => hk (AList.mem_keys.mp h))
  refine ⟨hnone, hd, fun h => ?_, fun n h => ?_⟩
  · have h' := hs _ h
    refine ⟨h'.timers, h'.maps, h'.own, fun id c _ hc => ?_⟩
    rw [hnone] at hc
    cases hc
  · have h' := ho n h
    exact ⟨h'.nodup, h'.counted, h'.consumed⟩

end AlertDeliveryScheduler

/-! ## The host -/

namespace AlertHost

open AlertDeliveryScheduler

variable {P : Term.Payloads} (R : AlertReaders)

theorem hears_spec (now : Int) : ∀ (l : List (SessionId × AlertState)) (s : AlertDeliveryScheduler),
    Scheduled (fun _ => True) s → ∀ s', s' = l.foldl (fun s a => s.onState a.1 a.2 now) s →
    Scheduled (fun _ => True) s' ∧ s'.attached = s.attached ∧ s'.delivered = s.delivered ∧
    (∀ id, s'.keptEpisode id = ((own id l).getLast?.map (·.episodeId)).getD (s.keptEpisode id)) ∧
    ∀ n, (∀ id, Opening n (s.keptEpisode id) (own id l)) → Once n s → Once n s'
  | [], s, h, s', hs' => by
    rw [hs']
    exact ⟨h, rfl, rfl, fun _ => rfl, fun _ _ ho => ho⟩
  | (id, st) :: l, s, h, s', hs' => by
    obtain ⟨-, -, ha, hd⟩ := s.onState_same id st now
    obtain ⟨hsch, ha', hd', hkept, honce⟩ := hears_spec now l (s.onState id st now) (h.onState id st now) s' hs'
    have hown : ∀ k, own k ((id, st) :: l) = if k = id then st :: own k l else own k l := by
      intro k
      have := Bulletin.own_append k [(id, st)] l
      rw [List.singleton_append] at this
      rw [this]
      by_cases hk : k = id
      · rw [if_pos hk, hk, Bulletin.own_self, List.singleton_append]
      · rw [if_neg hk, Bulletin.own_ne hk, List.nil_append]
    refine ⟨hsch, ha'.trans ha, hd'.trans hd, fun k => ?_, fun n ho h1 => honce n (fun k => ?_) ?_⟩
    · rw [hkept, keptEpisode_onState, hown]
      by_cases hk : k = id
      · rw [if_pos hk, if_pos hk, List.getLast?_cons]
        cases (own k l).getLast? with
        | none => rfl
        | some t => rfl
      · rw [if_neg hk, if_neg hk]
    · have hok := ho k
      rw [hown] at hok
      rw [keptEpisode_onState]
      by_cases hk : k = id
      · rw [if_pos hk] at hok ⊢
        exact hok.2
      · rw [if_neg hk] at hok ⊢
        exact hok
    · have hok := ho id
      rw [hown, if_pos rfl] at hok
      exact h1.onState h hok.1 now

/-- The scheduler keeps the episodes that Sessions show, and none once it was disposed of. -/
structure Follows (h : AlertHost) : Prop where
  steady    : Steady h.manager
  scheduled : Scheduled (fun _ => True) h.scheduler
  shown     : h.scheduler.attached = true → ∀ id, h.scheduler.keptEpisode id = (h.manager.getState id).episodeId
  detached  : h.scheduler.attached = false → ∀ id, h.scheduler.episodes.lookup id = none

variable {id : SessionId}

theorem Follows.none_of_has {h : AlertHost} (hf : h.Follows) (hh : has h.manager id = false) :
    h.scheduler.episodes.lookup id = none := by
  by_cases ha : h.scheduler.attached = true
  · have hdefault : h.manager.getState id = defaultAlertState := by
      by_cases hp : id ∈ h.manager.entries
      · refine AlertManager.getState_helper ?_
        by_contra hn
        have : has h.manager id = true := by
          unfold has
          rw [decide_eq_true hp, decide_eq_true hn]
          rfl
        rw [hh] at this
        cases this
      · exact AlertManager.getState_absent hp
    have := hf.shown ha id
    rw [hdefault] at this
    exact Option.map_eq_none_iff.mp this
  · exact hf.detached (Bool.eq_false_iff.mpr ha) id

theorem ringing_of_shown {m : AlertManager} {k : Nat} (h : (m.getState id).episodeId = some k) :
    ringingEpisode m id = some k := by
  by_cases hh : id ∈ m.helpers
  · rw [AlertManager.getState_helper hh] at h
    cases h
  · rw [← AlertManager.episodeId_getState hh]
    exact h

def HostOp.Replays (h : AlertHost) (op : HostOp P) : Prop :=
  ∃ a now alive, op = .alert a now alive ∧ a.Replays h.manager

theorem hears_alert {h : AlertHost} (hf : h.Follows) (op : AlertOp P) (now : Int) (alive : ∀ at', op ≠ .dispose at') :
    let s := hears h.scheduler ((h.manager.step R op).emitted.drop h.manager.emitted.length) now
    Follows ⟨h.manager.step R op, s⟩ ∧ s.delivered = h.scheduler.delivered ∧ s.attached = h.scheduler.attached ∧
      h.manager.episodes ≤ (h.manager.step R op).episodes ∧
      (¬ op.Replays h.manager → Once h.manager.episodes h.scheduler → Once h.manager.episodes s) := by
  intro s
  obtain ⟨hs', hc, l, hp, hopens⟩ := publishes_step R hf.steady op alive
  have hdrop : (h.manager.step R op).emitted.drop h.manager.emitted.length = l := by
    rw [hp.emitted, List.drop_left]
  by_cases ha : h.scheduler.attached = true
  · have hs : s = l.foldl (fun s a => s.onState a.1 a.2 now) h.scheduler := by
      show hears _ _ _ = _
      unfold hears
      rw [if_pos ha, hdrop]
    obtain ⟨hsch, ha', hd, hkept, honce⟩ := hears_spec now l h.scheduler hf.scheduled s hs
    have htold : ∀ id, h.scheduler.keptEpisode id = toldEpisode h.manager id := by
      intro id
      rw [hf.shown ha id]
      have : ((h.manager.lastEmitted.lookup id).getD defaultAlertState).episodeId = (h.manager.getState id).episodeId :=
        congrArg (fun t => t.2.2.2.2.1) (hf.steady.current id)
      rw [← this]
      unfold toldEpisode
      cases h.manager.lastEmitted.lookup id with
      | none => rfl
      | some st => rfl
    refine ⟨⟨hs', hsch, fun _ id => ?_, fun hoff => ?_⟩, hd, ha', hc, fun hnot => honce _ (fun id => ?_)⟩
    · show s.keptEpisode id = ((h.manager.step R op).getState id).episodeId
      rw [hkept]
      cases hown : (own id l).getLast? with
      | some st => exact congrArg (fun t => t.2.2.2.2.1) (hp.voiced id st hown)
      | none =>
        have hsilent := hp.silent id (List.getLast?_eq_none_iff.mp hown)
        have : ((h.manager.step R op).getState id).episodeId = (h.manager.getState id).episodeId :=
          congrArg (fun t => t.2.2.2.2.1) hsilent
        rw [this]
        exact hf.shown ha id
    · have hoff' : s.attached = false := hoff
      rw [ha', ha] at hoff'
      cases hoff'
    · rw [htold]
      exact hopens hnot id
  · have hs : s = h.scheduler := by
      show hears _ _ _ = _
      unfold hears
      rw [if_neg ha]
    rw [hs]
    exact ⟨⟨hs', hf.scheduled, fun hon => absurd hon ha, hf.detached⟩, rfl, rfl, hc, fun _ h => h⟩

theorem step_alert_none (h : AlertHost) {op : AlertOp P} (now : Int) (alive : ∀ at', op ≠ .dispose at')
    (hr : removes op = none) : h.step R (.alert op now alive) =
      ⟨h.manager.step R op, hears h.scheduler ((h.manager.step R op).emitted.drop h.manager.emitted.length) now⟩ := by
  unfold step
  dsimp only
  rw [hr]

theorem step_alert_some (h : AlertHost) {op : AlertOp P} (now : Int) (alive : ∀ at', op ≠ .dispose at')
    (hr : removes op = some id) : h.step R (.alert op now alive) =
      if (hears h.scheduler ((h.manager.step R op).emitted.drop h.manager.emitted.length) now).attached then
        ⟨h.manager.step R op,
          (hears h.scheduler ((h.manager.step R op).emitted.drop h.manager.emitted.length) now).onRemove id⟩
      else ⟨h.manager.step R op, hears h.scheduler ((h.manager.step R op).emitted.drop h.manager.emitted.length) now⟩ := by
  unfold step
  dsimp only
  rw [hr]
  dsimp only
  by_cases ha : (hears h.scheduler ((h.manager.step R op).emitted.drop h.manager.emitted.length) now).attached = true
  · rw [if_pos ha, if_pos ha]
  · rw [if_neg ha, if_neg ha]

theorem notMem_discard (m : AlertManager) (id : SessionId) (now : Int) : id ∉ (m.discard id now).entries := by
  unfold AlertManager.discard
  extract_lets m1 m2 m3
  show id ∉ m3.entries
  unfold m3
  split
  · rw [AlertManager.notify_entries, AList.mem_erase]
    exact fun h => h.1 rfl
  · assumption

theorem gone_of_removes {m : AlertManager} {op : AlertOp P} (h : removes op = some id) :
    id ∉ (m.step R op).entries := by
  cases op with
  | remove k now =>
    cases h
    exact notMem_discard m id now
  | _ => cases h

/-- A delivery is of an episode that its Session shows, to a sink that is on and not blocked. -/
def Timely (h : AlertHost) (d : Delivery) : Prop :=
  (h.manager.getState d.id).episodeId = some d.episodeId ∧
    AlertSink.enabled (h.scheduler.policy d.id) d.sink = true ∧ AlertSink.blocked h.manager d.id d.sink = false

/-- **What one step of the host does.** -/
theorem step_spec {h : AlertHost} (hf : h.Follows) (op : HostOp P) :
    (h.step R op).Follows ∧ h.manager.episodes ≤ (h.step R op).manager.episodes ∧
    (∃ new, (h.step R op).scheduler.delivered = h.scheduler.delivered ++ new ∧ ∀ d ∈ new, h.Timely d) ∧
    (¬ op.Replays h → Once h.manager.episodes h.scheduler →
      Once (h.step R op).manager.episodes (h.step R op).scheduler) := by
  have hmono : ∀ {n n' : Nat} {s : AlertDeliveryScheduler}, n ≤ n' → Once n s → Once n' s :=
    fun hn ho => ⟨ho.nodup, fun d hd => lt_of_lt_of_le (ho.counted d hd) hn, ho.consumed⟩
  cases op with
  | alert op now alive =>
    obtain ⟨hf', hd, -, hc, honce⟩ := hears_alert R hf op now alive
    have hnew : ∃ new, (hears h.scheduler ((h.manager.step R op).emitted.drop h.manager.emitted.length) now).delivered =
        h.scheduler.delivered ++ new ∧ ∀ d ∈ new, h.Timely d :=
      ⟨[], hd.trans (List.append_nil _).symm, fun _ hm => (List.not_mem_nil hm).elim⟩
    have honce' : ¬ HostOp.Replays h (.alert op now alive) → Once h.manager.episodes h.scheduler →
        Once (h.manager.step R op).episodes
          (hears h.scheduler ((h.manager.step R op).emitted.drop h.manager.emitted.length) now) :=
      fun hnot ho => hmono hc (honce (fun hr => hnot ⟨op, now, alive, rfl, hr⟩) ho)
    cases hr : removes op with
    | none =>
      rw [step_alert_none R h now alive hr]
      exact ⟨hf', hc, hnew, honce'⟩
    | some id =>
      rw [step_alert_some R h now alive hr]
      split
      · -- the Session that is gone has no episode, so that dropping its overrides turns nothing off
        have hgone : has (h.manager.step R op) id = false := by
          unfold has
          rw [decide_eq_false (gone_of_removes R hr)]
          rfl
        refine ⟨⟨hf'.steady, ?_, hf'.shown, hf'.detached⟩, hc, hnew, fun hnot ho => ?_⟩
        · refine hf'.scheduled.published (fun _ h => h) (fun k _ => ?_)
          by_cases hk : k = id
          · rw [hk]
            exact .inl (hf'.none_of_has hgone)
          · rw [AList.lookup_erase_ne hk]
            exact .inr rfl
        · have h1 := honce' hnot ho
          exact ⟨h1.nodup, h1.counted, h1.consumed⟩
      · exact ⟨hf', hc, hnew, honce'⟩
  | publish realmId raw =>
    obtain ⟨he, ha, hd⟩ := h.scheduler.publish_same h.manager realmId raw
    refine ⟨⟨hf.steady, hf.scheduled.publish (fun id => hf.none_of_has) realmId raw, fun hon id => ?_, fun hoff id => ?_⟩,
      le_refl _, ⟨[], ?_, fun _ hm => (List.not_mem_nil hm).elim⟩, fun _ ho => ho.publish h.manager realmId raw⟩
    · show ((h.scheduler.publish h.manager realmId raw).episodes.lookup id).map _ = _
      rw [he]
      exact hf.shown (ha ▸ hon) id
    · show (h.scheduler.publish h.manager realmId raw).episodes.lookup id = none
      rw [he]
      exact hf.detached (ha ▸ hoff) id
    · exact hd.trans (List.append_nil _).symm
  | setDefaults settings =>
    obtain ⟨he, ha, hd, ho, hs⟩ := h.scheduler.setDefaults_spec settings
    refine ⟨⟨hf.steady, hs hf.scheduled, fun hon id => ?_, fun hoff id => ?_⟩, le_refl _,
      ⟨[], ?_, fun _ hm => (List.not_mem_nil hm).elim⟩, fun _ => ho _⟩
    · show ((h.scheduler.setDefaults settings).episodes.lookup id).map _ = _
      rw [he]
      exact hf.shown (ha ▸ hon) id
    · show (h.scheduler.setDefaults settings).episodes.lookup id = none
      rw [he]
      exact hf.detached (ha ▸ hoff) id
    · exact hd.trans (List.append_nil _).symm
  | fire map sink now =>
    rcases h.scheduler.fire_cases h.manager map sink now with hsame | ⟨t, ht, hfired | ⟨hblocked, title, hfired⟩⟩
    · have heq : h.step R (.fire map sink now : HostOp P) = h := congrArg (AlertHost.mk h.manager) hsame
      rw [heq]
      exact ⟨hf, le_refl _, ⟨[], (List.append_nil _).symm, fun _ hm => (List.not_mem_nil hm).elim⟩, fun _ ho => ho⟩
    · have heq : (h.step R (.fire map sink now : HostOp P)).scheduler = _ := hfired
      refine ⟨⟨hf.steady, ?_, fun hon id => ?_, fun hoff id => ?_⟩, le_refl _,
        ⟨[], ?_, fun _ hm => (List.not_mem_nil hm).elim⟩, fun _ ho => ?_⟩
      · rw [heq]
        exact hf.scheduled.fired map sink h.scheduler.delivered
      · rw [heq] at hon ⊢
        exact hf.shown hon id
      · rw [heq] at hoff ⊢
        exact hf.detached hoff id
      · rw [heq, List.append_nil]
      · rw [heq]
        exact ho.fewer rfl rfl (pendingOf_fired map sink)
    · have heq : (h.step R (.fire map sink now : HostOp P)).scheduler = _ := hfired
      obtain ⟨c, hc, hmap, hep, hmem⟩ := hf.scheduled.timers map sink t ht
      have hon : h.scheduler.attached = true := by
        by_contra hoff
        rw [hf.detached (Bool.eq_false_iff.mpr hoff)] at hc
        cases hc
      have hshown : (h.manager.getState t.id).episodeId = some t.episodeId := by
        rw [← hf.shown hon t.id]
        unfold keptEpisode
        rw [hc, ← hep]
        rfl
      refine ⟨⟨hf.steady, ?_, fun _ id => ?_, fun hoff => ?_⟩, le_refl _, ⟨[⟨t.id, t.episodeId, sink, title⟩], ?_, ?_⟩,
        fun _ ho => ?_⟩
      · rw [heq]
        exact hf.scheduled.fired map sink _
      · rw [heq]
        exact hf.shown hon id
      · rw [heq] at hoff
        exact absurd hon (Bool.eq_false_iff.mp hoff)
      · rw [heq]
      · intro d hd
        rw [List.mem_singleton.mp hd]
        refine ⟨hshown, ?_, hblocked⟩
        rw [← hmap] at hmem
        exact hf.scheduled.enabled t.id c trivial hc sink hmem
      · rw [heq]
        refine ho.deliver hf.scheduled ht ?_ (fun id c' hc' hsame => ?_) title
        · exact hf.steady.numbered.counted t.id t.episodeId (ringing_of_shown hshown)
        · -- two Sessions do not ring in one episode
          refine hf.steady.numbered.distinct id t.id t.episodeId (ringing_of_shown ?_) (ringing_of_shown hshown)
          rw [← hf.shown hon id]
          unfold keptEpisode
          rw [hc', ← hsame]
          rfl
  | dispose now =>
    obtain ⟨hs', hc, -⟩ := AlertManager.publishes_dispose hf.steady now
    obtain ⟨hnone, hd, hs, ho⟩ := h.scheduler.dispose_spec
    refine ⟨⟨hs', hs hf.scheduled, fun hon => ?_, fun _ => hnone⟩, hc,
      ⟨[], ?_, fun _ hm => (List.not_mem_nil hm).elim⟩, fun _ h1 => hmono hc (ho _ h1)⟩
    · cases hon
    · exact hd.trans (List.append_nil _).symm

theorem follows_create : AlertHost.create.Follows := by
  refine ⟨steady_create, ⟨?_, ?_, ?_, ?_⟩, fun _ _ => rfl, fun h => ?_⟩
  · intro map sink t ht
    cases ht
  · intro id c hc
    cases hc
  · intro id id' c c' hc
    cases hc
  · intro id c _ hc
    cases hc
  · cases h

theorem once_create : Once AlertHost.create.manager.episodes AlertHost.create.scheduler :=
  ⟨List.nodup_nil, fun _ h => (List.not_mem_nil h).elim, fun _ h => (List.not_mem_nil h).elim⟩

theorem follows_run (ops : List (HostOp P)) : (Steps.run (step R) create ops).Follows :=
  Steps.run_invariant (I := Follows) (fun _ op hf => (step_spec R hf op).1) ops _ follows_create

theorem once_run (ops : List (HostOp P)) (h : Steps.Along (step R) (fun h op => ¬ HostOp.Replays h op) create ops) :
    Once (Steps.run (step R) create ops).manager.episodes (Steps.run (step R) create ops).scheduler := by
  have hrun := Steps.run_invariant_along (I := fun h : AlertHost => h.Follows ∧ Once h.manager.episodes h.scheduler)
    (fun h op hnot hi => ⟨(step_spec R hi.1 op).1, (step_spec R hi.1 op).2.2.2 hnot hi.2⟩) ops create h
    ⟨follows_create, once_create⟩
  exact hrun.2

/-- **Each episode is delivered at most once to a sink, while it rings, while the sink is on and while nothing blocks it**,
in every run in which no Session is promoted while it rings.  The timers fire in any order and however late. -/
theorem delivered_once (ops : List (HostOp P)) (op : HostOp P)
    (h : Steps.Along (step R) (fun h op => ¬ HostOp.Replays h op) create (ops ++ [op])) :
    let before := Steps.run (step R) create ops
    let after := before.step R op
    (after.scheduler.delivered.map (fun d => (d.episodeId, d.sink))).Nodup ∧
      ∃ new, after.scheduler.delivered = before.scheduler.delivered ++ new ∧
        ∀ d ∈ new, (before.manager.getState d.id).episode.map (·.id) = some d.episodeId ∧
          AlertSink.enabled (before.scheduler.policy d.id) d.sink = true ∧
          AlertSink.blocked before.manager d.id d.sink = false := by
  have honce := (once_run R (ops ++ [op]) h).nodup
  rw [Steps.run_append] at honce
  exact ⟨honce, (step_spec R (follows_run R ops) op).2.2.1⟩

/-! A Session rings and is spoken for; it becomes a helper and is promoted again, and is spoken for again. -/

def spokenSettings : AlertSettings := ⟨true, 1000, false, 20000⟩

def spokenReport : Json := .obj [(units "source", .str (units "OSC 9")), (units "body", .str (units "done"))]

def rungPane : List (HostOp ⟨Unit, Unit, Unit, Unit, Unit⟩) :=
  [.setDefaults spokenSettings, .alert (.notifyFromProtocol (units "p") spokenReport 0) 0 nofun, .fire 0 .speech 1000]

def promotedPane : List (HostOp ⟨Unit, Unit, Unit, Unit, Unit⟩) :=
  rungPane ++ [.alert (.setHelper (units "p") true) 2000 nofun, .alert (.setHelper (units "p") false) 3000 nofun,
    .fire 1 .speech 3000]

theorem promoted_pane_delivered_twice :
    ¬ ((Steps.run (step plainReaders) create promotedPane).scheduler.delivered.map
      (fun d => (d.episodeId, d.sink))).Nodup := by
  decide +kernel

theorem rung_pane_delivered :
    (Steps.run (step plainReaders) create rungPane).scheduler.delivered.map (fun d => (d.episodeId, d.sink)) =
        [(0, AlertSink.speech)] ∧
      ((Steps.run (step plainReaders) create rungPane).scheduler.delivered.map (fun d => (d.episodeId, d.sink))).Nodup := by
  refine ⟨by decide +kernel, ?_⟩
  refine (delivered_once plainReaders (rungPane.take 2) (.fire 0 .speech 1000) ⟨?_, ?_, ?_, trivial⟩).1
  · rintro ⟨a, now, alive, h, -⟩
    cases h
  · rintro ⟨a, now, alive, h, id, helper, ha, -⟩
    cases h
    cases ha
  · rintro ⟨a, now, alive, h, -⟩
    cases h

end AlertHost

end Alert
end Dormouse

import Dormouse.AlertRun
import Dormouse.AlertTold
/-!
# AlertHeard — no listener is left behind

A manager is `Steady` between operations: every Session is current, no await parks where no entry is, and every ring is an
episode of its own.  Every operation
keeps that, and what it announces under a Session is news, ends with what the Session shows, and is silent only where
nothing that shows has changed (`Publishes`).  The last section follows what a listener has heard over a whole run.
-/
namespace Dormouse
namespace Alert

open Bulletin (own Carries)

structure Steady (m : AlertManager) : Prop where
  parked   : ∀ id, m.waitersOf id ≠ [] → id ∈ m.entries
  current  : ∀ id, Current m id
  numbered : Numbered m

/-- **What the announcements `l` of an operation are**: each is news, the last of a Session is what it shows, and one of
which nothing is said shows what it showed. -/
structure Publishes (m m' : AlertManager) (l : List (SessionId × AlertState)) : Prop where
  emitted : m'.emitted = m.emitted ++ l
  fresh   : ∀ id, List.IsChain (fun a b => a.seen ≠ b.seen) ((m.lastEmitted.lookup id).toList ++ own id l)
  kept    : ∀ id, id ∈ m'.entries → m'.lastEmitted.lookup id = ((m.lastEmitted.lookup id).toList ++ own id l).getLast?
  voiced  : ∀ id s, (own id l).getLast? = some s → s.seen = (m'.getState id).seen
  silent  : ∀ id, own id l = [] → (m'.getState id).seen = (m.getState id).seen

/-- **What the announcements of an operation show of rings**: a Session that comes to ring rings in a new episode. -/
def Opens (m : AlertManager) (l : List (SessionId × AlertState)) : Prop :=
  ∀ id, Opening m.episodes (toldEpisode m id) (own id l)

/-- What is told of a Session in a steady manager is what it rings in, unless it is a helper. -/
theorem Steady.led {m : AlertManager} (hs : Steady m) (n : Nat) (id : SessionId) : Led n m id := by
  by_cases hh : id ∈ m.helpers
  · exact .inl hh
  · refine .inr (.inr (.inl ?_))
    have h : ((m.lastEmitted.lookup id).getD defaultAlertState).episodeId = (m.getState id).episodeId :=
      congrArg (fun t => t.2.2.2.2.1) (hs.current id)
    rw [← AlertManager.episodeId_getState hh, ← h]
    unfold toldEpisode
    cases m.lastEmitted.lookup id with
    | none => rfl
    | some s => rfl

variable {m m' : AlertManager}

/-- Announcements that carry the memory of one steady manager to that of another, but for entries that went. -/
theorem publishes_of {l : List (SessionId × AlertState)} {last : SessionId → Option AlertState} (hs : Steady m)
    (hs' : Steady m') (hx : m'.emitted = m.emitted ++ l)
    (hc : Carries AlertState.seen (fun k => m.lastEmitted.lookup k) last l)
    (hkept : ∀ id, id ∈ m'.entries → m'.lastEmitted.lookup id = last id)
    (hlast : ∀ id, ((last id).getD defaultAlertState).seen = ((m'.lastEmitted.lookup id).getD defaultAlertState).seen) :
    Publishes m m' l := by
  refine ⟨hx, hc.fresh, fun id hp => (hkept id hp).trans (hc.remembered id), fun id s hown => ?_, fun id hown => ?_⟩
  · have := hlast id
    rw [hc.last_own hown] at this
    exact this.trans (hs'.current id)
  · have := hlast id
    rw [hc.last_silent hown] at this
    exact (hs'.current id).symm.trans (this.symm.trans (hs.current id))

/-- An operation on any number of Sessions, which drops no entry. -/
structure Logs (m m' : AlertManager) : Prop where
  present : ∀ id, id ∈ m.entries → id ∈ m'.entries
  parked  : (∀ id, m.waitersOf id ≠ [] → id ∈ m.entries) → ∀ id, m'.waitersOf id ≠ [] → id ∈ m'.entries
  counted : m.episodes ≤ m'.episodes
  rings   : Numbered m → Numbered m'
  logs    : ∃ l, m'.emitted = m.emitted ++ l ∧
    Carries AlertState.seen (fun k => m.lastEmitted.lookup k) (fun k => m'.lastEmitted.lookup k) l ∧
    ∀ id n, n ≤ m.episodes → Led n m id → Led n m' id ∧ Opening n (toldEpisode m id) (own id l)

theorem Logs.quiet (he : m'.entries = m.entries) (ha : m'.awaits = m.awaits) (hh : m'.helpers = m.helpers)
    (hl : m'.lastEmitted = m.lastEmitted) (hx : m'.emitted = m.emitted) (hc : m'.episodes = m.episodes) : Logs m m' := by
  have hring : ∀ id, ringingEpisode m' id = ringingEpisode m id := fun id => by
    unfold ringingEpisode
    rw [he]
  refine ⟨fun id h => he ▸ h, fun hp id hn => ?_, le_of_eq hc.symm, fun hn => ?_, [], ?_, ?_, fun id => ?_⟩
  · rw [he]
    refine hp id ?_
    unfold AlertManager.waitersOf at hn ⊢
    rwa [ha] at hn
  · refine ⟨fun id k hk => ?_, fun id id' k hk hk' => ?_⟩
    · rw [hring] at hk
      rw [hc]
      exact hn.counted id k hk
    · rw [hring] at hk hk'
      exact hn.distinct id id' k hk hk'
  · rw [hx, List.append_nil]
  · rw [hl]
    exact .refl _
  · exact Touches.led_quiet hh hl (.inr (.inl (hring id)))

theorem Logs.refl (m : AlertManager) : Logs m m := .quiet rfl rfl rfl rfl rfl rfl

theorem Logs.trans {m m' m'' : AlertManager} (h : Logs m m') (h' : Logs m' m'') : Logs m m'' := by
  obtain ⟨l, hx, hc, hr⟩ := h.logs
  obtain ⟨l', hx', hc', hr'⟩ := h'.logs
  refine ⟨fun id hp => h'.present id (h.present id hp), fun hp => h'.parked (h.parked hp),
    le_trans h.counted h'.counted, fun hn => h'.rings (h.rings hn), l ++ l', ?_, hc.trans hc', fun id n hn hled => ?_⟩
  · rw [hx', hx, List.append_assoc]
  · obtain ⟨hled', ho⟩ := hr id n hn hled
    obtain ⟨hled'', ho'⟩ := hr' id n (le_trans hn h.counted) hled'
    refine ⟨hled'', ?_⟩
    rw [Bulletin.own_append]
    rw [Touches.told_resume hc id] at ho'
    exact opening_append ho ho'

theorem Touches.toLogs {id : SessionId} (h : Touches id m m') : Logs m m' := by
  obtain ⟨l, hx, hown, hc, hr⟩ := h.logs
  have hpresent : ∀ k, k ∈ m.entries → k ∈ m'.entries := by
    intro k hk
    by_cases hkid : k = id
    · exact hkid ▸ h.present (hkid ▸ hk)
    · rw [← AList.lookup_isSome, h.entries k hkid, AList.lookup_isSome]
      exact hk
  refine ⟨hpresent, fun hp k hn => ?_, h.counted, h.numbered, l, hx, hc, fun k n hn hled => ?_⟩
  · by_cases hkid : k = id
    · subst hkid
      exact h.parked (hp k) hn
    · rw [h.waiters k hkid] at hn
      exact hpresent k (hp k hn)
  · by_cases hkid : k = id
    · subst hkid
      exact hr n hn hled
    · rw [hown k hkid]
      refine ⟨?_, trivial⟩
      unfold Led ringingEpisode toldEpisode at hled ⊢
      rw [h.helpers k hkid, h.entries k hkid, h.last_ne hkid]
      exact hled

/-- What an operation makes of a steady manager: a steady one, and its announcements, which open no episode again. -/
def Publication (m m' : AlertManager) : Prop :=
  Steady m' ∧ m.episodes ≤ m'.episodes ∧ ∃ l, Publishes m m' l ∧ Opens m l

theorem Logs.publishes (h : Logs m m') (hs : Steady m) (hc : ∀ id, Current m' id) :
    Publication m m' := by
  obtain ⟨l, hx, hl, hr⟩ := h.logs
  have hs' : Steady m' := ⟨h.parked hs.parked, hc, h.rings hs.numbered⟩
  exact ⟨hs', h.counted, l, publishes_of hs hs' hx hl (fun _ _ => rfl) (fun _ => rfl),
    fun id => (hr id m.episodes (le_refl _) (hs.led _ id)).2⟩

/-- **An operation that leaves nothing untold keeps a manager steady.** -/
theorem Told.publishes {id : SessionId} {m m' : AlertManager} (h : Told id m m') (hs : Steady m) : Publication m m' := by
  refine h.toTouches.toLogs.publishes hs (fun k => ?_)
  by_cases hk : k = id
  · exact hk ▸ h.current (hs.current id)
  · exact h.current_ne hk (hs.current k)

namespace AlertManager

/-! ## Operations on many Sessions -/

theorem getState_reads (m m' : AlertManager) (he : m'.entries = m.entries) (hh : m'.helpers = m.helpers)
    (hw : m'.watchedCommands = m.watchedCommands) (ha : m'.awaits = m.awaits) {id : SessionId}
    (hv : m'.isEngaged id = m.isEngaged id) : m'.getState id = m.getState id := by
  refine getState_congr (by rw [he]) (by rw [hh]) hw hv ?_
  unfold waitersOf
  rw [ha]

/-- A write and a publish for each of some Sessions: these are current, and the others as they were. -/
theorem logs_publishEach {f : SessionId → AlertEntry → AlertEntry} (hf : ∀ id e, AlertEntry.KeepsRing e (f id e)) :
    ∀ (ids : List SessionId) (m : AlertManager), (∀ id ∈ ids, id ∈ m.entries) →
      Logs m (ids.foldl (fun m id => (m.modifyEntry id (f id)).notify id) m) ∧
        ∀ id, id ∈ ids ∨ Current m id → Current (ids.foldl (fun m id => (m.modifyEntry id (f id)).notify id) m) id
  | [], m, _ => ⟨.refl m, fun _ h => h.resolve_left List.not_mem_nil⟩
  | id :: ids, m, hp => by
    have h : Told id m ((m.modifyEntry id (f id)).notify id) := told_write (hp id List.mem_cons_self) (hf id)
    obtain ⟨hl, hc⟩ := logs_publishEach hf ids ((m.modifyEntry id (f id)).notify id)
      (fun k hk => h.toTouches.toLogs.present k (hp k (List.mem_cons_of_mem _ hk)))
    refine ⟨h.toTouches.toLogs.trans hl, fun k hk => hc k ?_⟩
    by_cases hkid : k = id
    · rw [hkid]
      exact .inr (current_notify ((m.mem_modifyEntry id id _).mpr (hp id List.mem_cons_self)))
    · rcases hk with hk | hk
      · exact .inl ((List.mem_cons.mp hk).resolve_left hkid)
      · exact .inr (h.current_ne hkid hk)

variable {m : AlertManager}

theorem publishes_setWatchedCommands (hs : Steady m) (names : Finset JsString) :
    Publication m (m.setWatchedCommands names) := by
  unfold setWatchedCommands
  split
  · exact (Told.refl [] m).publishes hs
  · obtain ⟨hl, hc⟩ := logs_publishEach
      (fun _ e => e.keepsRing_invalidateWatching (fun key => (watchRuleFor names (some key)).isNone))
      m.entries.keys { m with watchedCommands := names } (fun id h => AList.mem_keys.mpr h)
    have hrules : Logs m { m with watchedCommands := names } := .quiet rfl rfl rfl rfl rfl rfl
    refine (hrules.trans hl).publishes hs (fun id => hc id ?_)
    by_cases hp : id ∈ m.entries
    · exact .inl (AList.mem_keys.mp hp)
    · -- a Session without an entry shows the default state, whatever the rules
      refine .inr ?_
      have hcur := hs.current id
      have hp' : id ∉ ({ m with watchedCommands := names } : AlertManager).entries := hp
      unfold Current at hcur ⊢
      rw [getState_absent hp']
      rwa [getState_absent hp] at hcur

/-- A Session that the reports touched is settled: told, and current where it was engaged or disengaged. -/
theorem settleEngagement_spec (m : AlertManager) (id : SessionId) (was moved : Bool) (lapse : Option EngagementLapse)
    (now : Int) : Told id m (m.settleEngagement id was moved lapse now) ∧
      (id ∈ m.entries → id ∉ m.helpers → m.isEngaged id ≠ was → Current (m.settleEngagement id was moved lapse now) id) := by
  unfold settleEngagement
  split
  · rename_i h
    exact ⟨.refl id m, fun hp hh hw => (h.elim (· hp) (·.elim hh hw)).elim⟩
  · rename_i h
    have hp : id ∈ m.entries := by
      by_contra hp
      exact h (.inl hp)
    have hpublish : ∀ {m' : AlertManager}, Touches id m m' → Told id m (m'.notify id) ∧
        (id ∈ m.entries → id ∉ m.helpers → m.isEngaged id ≠ was → Current (m'.notify id) id) :=
      fun ht => ⟨ht.publish hp, fun _ _ _ => current_notify (ht.present hp)⟩
    split
    · refine hpublish (Touches.trans (m.touches_modify id ?_) (touches_modify _ id ?_))
      · exact fun _ => .inr rfl
      · exact fun _ => .inr rfl
    split
    · refine hpublish (m.touches_modify id ?_)
      exact fun _ => .inr rfl
    split
    · exact hpublish (told_escalateHeld hp now).toTouches
    · refine hpublish (m.touches_modify id ?_)
      exact fun _ => .inr rfl

/-- **The Sessions a report touches are settled one by one**; until its turn comes, one that was engaged or disengaged may
be behind. -/
theorem logs_settleEach (was : SessionId → Bool) (moved : Bool) (lapse : Option EngagementLapse) (now : Int) :
    ∀ (ids : List SessionId) (m : AlertManager),
      (∀ id, Current m id ∨ (id ∈ ids ∧ id ∈ m.entries ∧ id ∉ m.helpers ∧ m.isEngaged id ≠ was id)) →
      Logs m ((ids.map (fun id => (id, was id))).foldl (fun m t => m.settleEngagement t.1 t.2 moved lapse now) m) ∧
        ∀ id, Current ((ids.map (fun id => (id, was id))).foldl (fun m t => m.settleEngagement t.1 t.2 moved lapse now) m) id
  | [], m, hc => ⟨.refl m, fun id => (hc id).resolve_right (fun h => List.not_mem_nil h.1)⟩
  | id :: ids, m, hc => by
    obtain ⟨ht, hcur⟩ := m.settleEngagement_spec id (was id) moved lapse now
    have hnext : ∀ k, Current (m.settleEngagement id (was id) moved lapse now) k ∨
        (k ∈ ids ∧ k ∈ (m.settleEngagement id (was id) moved lapse now).entries ∧
          k ∉ (m.settleEngagement id (was id) moved lapse now).helpers ∧
          (m.settleEngagement id (was id) moved lapse now).isEngaged k ≠ was k) := by
      intro k
      by_cases hk : k = id
      · subst hk
        exact .inl ((hc k).elim ht.current (fun h => hcur h.2.1 h.2.2.1 h.2.2.2))
      · refine (hc k).imp (ht.current_ne hk) (fun ⟨hmem, hp, hh, hw⟩ => ⟨(List.mem_cons.mp hmem).resolve_left hk, ?_, ?_, ?_⟩)
        · exact ht.toTouches.toLogs.present k hp
        · rw [ht.helpers k hk]
          exact hh
        · rw [ht.isEngaged k]
          exact hw
    obtain ⟨hl, hcs⟩ := logs_settleEach was moved lapse now ids _ hnext
    exact ⟨ht.toTouches.toLogs.trans hl, hcs⟩

/-- A report engages or disengages no Session but those its viewer points at, before or after. -/
theorem isEngaged_reported_of_untouched {viewerId : ViewerId} {after : Option (Option SessionId)} {id : SessionId}
    (hb : m.viewers.lookup viewerId ≠ some (some id)) (ha : after ≠ some (some id)) :
    (m.reported viewerId after).isEngaged id = m.isEngaged id := by
  rw [Bool.eq_iff_iff, isEngaged_iff, isEngaged_iff]
  constructor
  · rintro ⟨v, hv⟩
    by_cases hvv : v = viewerId
    · subst hvv
      rw [lookup_reported] at hv
      exact absurd hv ha
    · exact ⟨v, by rwa [m.lookup_reported_ne hvv] at hv⟩
  · rintro ⟨v, hv⟩
    have hvv : v ≠ viewerId := by
      rintro rfl
      exact hb hv
    exact ⟨v, by rwa [m.lookup_reported_ne hvv]⟩

theorem publishes_setViewer (hs : Steady m) (viewerId : ViewerId) (after : Option (Option SessionId))
    (lapse : Option EngagementLapse) (now : Int) :
    Publication m (m.setViewer viewerId after lapse now) := by
  unfold setViewer
  dsimp only
  split
  · exact (Told.refl [] m).publishes hs
  · have hstart : ∀ id, Current (m.reported viewerId after) id ∨
        (id ∈ (m.viewers.lookup viewerId).join.toList ++ after.join.toList ∧ id ∈ (m.reported viewerId after).entries ∧
          id ∉ (m.reported viewerId after).helpers ∧ (m.reported viewerId after).isEngaged id ≠ m.isEngaged id) := by
      intro id
      have hcur := hs.current id
      by_cases hp : id ∈ m.entries
      · by_cases hh : id ∈ m.helpers
        · have hh' : id ∈ (m.reported viewerId after).helpers := hh
          refine .inl ?_
          unfold Current at hcur ⊢
          rw [getState_helper hh']
          rwa [getState_helper hh] at hcur
        · by_cases hen : (m.reported viewerId after).isEngaged id = m.isEngaged id
          · refine .inl ?_
            have hsame : (m.reported viewerId after).getState id = m.getState id :=
              getState_reads m (m.reported viewerId after) rfl rfl rfl rfl hen
            unfold Current
            rw [hsame]
            exact hcur
          · refine .inr ⟨?_, hp, hh, hen⟩
            by_contra hmem
            rw [List.mem_append, not_or] at hmem
            refine hen (isEngaged_reported_of_untouched (fun hb => hmem.1 ?_) (fun ha => hmem.2 ?_))
            · rw [hb]
              exact List.mem_singleton_self id
            · rw [ha]
              exact List.mem_singleton_self id
      · have hp' : id ∉ (m.reported viewerId after).entries := hp
        refine .inl ?_
        unfold Current at hcur ⊢
        rw [getState_absent hp']
        rwa [getState_absent hp] at hcur
    obtain ⟨hl, hc⟩ := logs_settleEach m.isEngaged after.isSome lapse now _ (m.reported viewerId after) hstart
    have hreport : Logs m (m.reported viewerId after) := .quiet rfl rfl rfl rfl rfl rfl
    exact (hreport.trans hl).publishes hs hc

/-! ## Entries that go -/

/-- A steady manager without one of its Sessions, nobody awaiting it and the default state told of it. -/
theorem steady_gone {m m' gone : AlertManager} {id : SessionId} (hs : Steady m) (h : Touches id m m')
    (hnone : m'.waitersOf id = []) (he : gone.entries = m'.entries.erase id) (ha : gone.awaits = m'.awaits)
    (hh : gone.helpers = m'.helpers.erase id) (hw : gone.watchedCommands = m'.watchedCommands)
    (hv : gone.viewers = m'.viewers) (hc : gone.episodes = m'.episodes)
    (hl : ∀ k, k ≠ id → gone.lastEmitted.lookup k = m'.lastEmitted.lookup k)
    (hid : ((gone.lastEmitted.lookup id).getD defaultAlertState).seen = defaultAlertState.seen) : Steady gone := by
  have hwaiters : ∀ k, gone.waitersOf k = m'.waitersOf k := fun k => by
    unfold waitersOf
    rw [ha]
  have hring : ∀ k j, ringingEpisode gone k = some j → ringingEpisode m' k = some j := by
    intro k j hj
    unfold ringingEpisode at hj ⊢
    rw [he] at hj
    by_cases hk : k = id
    · rw [hk, AList.lookup_erase] at hj
      cases hj
    · rwa [AList.lookup_erase_ne hk] at hj
  have hn' := h.numbered hs.numbered
  refine ⟨fun k hn => ?_, fun k => ?_, fun k j hj => ?_, fun k k' j hj hj' => ?_⟩
  · rw [hwaiters] at hn
    have hk : k ≠ id := by
      rintro rfl
      exact hn hnone
    rw [he, AList.mem_erase]
    exact ⟨hk, h.toLogs.parked hs.parked k hn⟩
  · unfold Current
    by_cases hk : k = id
    · subst hk
      have hgone : k ∉ gone.entries := by
        rw [he, AList.mem_erase]
        exact fun h => h.1 rfl
      rw [getState_absent hgone]
      exact hid
    · have hsame : gone.getState k = m'.getState k := by
        refine getState_congr (by rw [he, AList.lookup_erase_ne hk]) ?_ hw (isEngaged_of_viewers hv k) (by rw [hwaiters])
        rw [hh, Finset.mem_erase]
        exact and_iff_right hk
      rw [hsame, hl k hk]
      exact h.current_ne hk (hs.current k)
  · rw [hc]
    exact hn'.counted k j (hring k j hj)
  · exact hn'.distinct k k' j (hring k j hj) (hring k' j hj')

theorem getState_unhelped {m m' : AlertManager} {id k : SessionId} (hp : id ∉ m.entries) (he : m'.entries = m.entries)
    (hh : m'.helpers = m.helpers.erase id) (hw : m'.watchedCommands = m.watchedCommands) (ha : m'.awaits = m.awaits)
    (hv : m'.viewers = m.viewers) : m'.getState k = m.getState k := by
  by_cases hk : k = id
  · subst hk
    have hp' : k ∉ m'.entries := by
      rw [he]
      exact hp
    rw [getState_absent hp, getState_absent hp']
  · refine getState_congr (by rw [he]) ?_ hw (isEngaged_of_viewers hv k) ?_
    · rw [hh, Finset.mem_erase]
      exact and_iff_right hk
    · unfold waitersOf
      rw [ha]

theorem publishes_discard (hs : Steady m) (id : SessionId) (now : Int) :
    Publication m (m.discard id now) := by
  unfold discard
  extract_lets m1 m2 m3
  by_cases hp : id ∈ m.entries
  · -- the awaits are settled, the entry goes, and its going is told
    have hm1 : Touches id m m1 := by
      have h : Touches id m { m with removed := insert id m.removed } := .aside rfl rfl rfl rfl rfl rfl rfl rfl
      exact h.trans (told_settleWaiters (m := { m with removed := insert id m.removed }) hp .died now).toTouches
    have hm2 : Touches id m m2 := hm1.trans (.aside rfl rfl rfl rfl rfl rfl rfl rfl)
    have hnone : m2.waitersOf id = [] := waitersOf_settleWaiters _ id .died now
    obtain ⟨l, hx, hc, hr⟩ := hm2.toLogs.logs
    have hopens : Opens m l := fun k => (hr k m.episodes (le_refl _) (hs.led _ k)).2
    have hm3 : m3 = ({ m2 with entries := m2.entries.erase id } : AlertManager).notify id := if_pos (hm2.present hp)
    have hgone : id ∉ ({ m2 with entries := m2.entries.erase id } : AlertManager).entries := fun h =>
      (AList.mem_erase.mp h).1 rfl
    rw [hm3]
    rcases notify_cases { m2 with entries := m2.entries.erase id } id with ⟨hsilent, hcur⟩ | ⟨hnews, htold⟩
    · rw [hsilent]
      unfold Current at hcur
      rw [getState_absent hgone] at hcur
      have hs' : Steady { m2 with entries := m2.entries.erase id, helpers := m2.helpers.erase id } :=
        steady_gone hs hm2 hnone rfl rfl rfl rfl rfl rfl (fun _ _ => rfl) hcur
      exact ⟨hs', hm2.counted, l, publishes_of hs hs' hx hc (fun _ _ => rfl) (fun _ => rfl), hopens⟩
    · rw [getState_absent hgone, if_neg hgone] at htold
      rw [getState_absent hgone] at hnews
      rw [htold]
      have hs' : Steady
          { m2 with
            entries := m2.entries.erase id, helpers := m2.helpers.erase id, lastEmitted := m2.lastEmitted.erase id
            emitted := m2.emitted ++ [(id, defaultAlertState)] } :=
        steady_gone hs hm2 hnone rfl rfl rfl rfl rfl rfl (fun k hk => AList.lookup_erase_ne hk)
          (by rw [AList.lookup_erase]; rfl)
      -- what is told last is forgotten at once, for the entry is gone
      have hlast : Carries AlertState.seen (fun k => m2.lastEmitted.lookup k)
          (fun k => if k = id then some defaultAlertState else m2.lastEmitted.lookup k) [(id, defaultAlertState)] :=
        .single (if_pos rfl) (fun k hk => if_neg hk) hnews
      refine ⟨hs', hm2.counted, l ++ [(id, defaultAlertState)],
        publishes_of hs hs' ?_ (hc.trans hlast) (fun k hk => ?_) (fun k => ?_), fun k => ?_⟩
      · rw [← List.append_assoc, ← hx]
      · have hne : k ≠ id := (AList.mem_erase.mp hk).1
        rw [if_neg hne]
        exact AList.lookup_erase_ne hne
      · by_cases hk : k = id
        · rw [if_pos hk, hk]
          show _ = (((m2.lastEmitted.erase id).lookup id).getD defaultAlertState).seen
          rw [AList.lookup_erase]
          rfl
        · rw [if_neg hk]
          show _ = (((m2.lastEmitted.erase id).lookup k).getD defaultAlertState).seen
          rw [AList.lookup_erase_ne hk]
      · rw [Bulletin.own_append]
        refine opening_append (hopens k) ?_
        by_cases hk : k = id
        · rw [hk, Bulletin.own_self]
          exact ⟨.inl rfl, trivial⟩
        · rw [Bulletin.own_ne hk]
          trivial
  · have hnone : m.waitersOf id = [] := not_not.mp (fun h => hp (hs.parked id h))
    have hm1 : m1 = { m with removed := insert id m.removed } :=
      settleWaiters_none (m := { m with removed := insert id m.removed }) hnone .died now
    have hm2 : m2 = { m with removed := insert id m.removed, claimants := m.claimants.erase id } := by
      unfold m2
      rw [hm1]
    have hp2 : id ∉ m2.entries := by
      rw [hm2]
      exact hp
    have hm3 : m3 = m2 := if_neg hp2
    rw [hm3, hm2]
    have hs' : Steady
        { m with
          removed := insert id m.removed
          claimants := m.claimants.erase id
          helpers := m.helpers.erase id } := by
      refine ⟨hs.parked, fun k => ?_, ⟨hs.numbered.counted, hs.numbered.distinct⟩⟩
      refine (hs.current k).trans (congrArg AlertState.seen (Eq.symm ?_))
      exact getState_unhelped hp rfl rfl rfl rfl rfl
    exact ⟨hs', le_refl _, [], publishes_of hs hs' (List.append_nil _).symm (.refl _) (fun _ _ => rfl) (fun _ => rfl),
      fun _ => trivial⟩

theorem publishes_restart (hs : Steady m) (id : SessionId) (now : Int) :
    Publication m (m.restart id now) := by
  obtain ⟨hs', hcounted, l, h, hopens⟩ := publishes_discard hs id now
  have hsame : ∀ k, (m.restart id now).getState k = (m.discard id now).getState k := fun k =>
    getState_reads (m.discard id now) _ rfl rfl rfl rfl rfl
  refine ⟨⟨hs'.parked, fun k => ?_, ⟨hs'.numbered.counted, hs'.numbered.distinct⟩⟩, hcounted, l,
    ⟨h.emitted, h.fresh, h.kept, fun k s hk => ?_, fun k hk => ?_⟩, hopens⟩
  · unfold Current
    rw [hsame]
    exact hs'.current k
  · rw [hsame]
    exact h.voiced k s hk
  · rw [hsame]
    exact h.silent k hk

/-- A Session is promoted that rings: it shows an episode that may have been told before. -/
def Replays (m : AlertManager) (id : SessionId) (helper : Bool) : Prop :=
  helper = false ∧ id ∈ m.helpers ∧ (ringingEpisode m id).isSome = true

/-- A Session that becomes a helper, or is one no longer, is published; no episode opens again, unless it rings then. -/
theorem publishes_setHelper (hs : Steady m) (id : SessionId) (helper : Bool) :
    Steady (m.setHelper id helper) ∧ m.episodes ≤ (m.setHelper id helper).episodes ∧
      ∃ l, Publishes m (m.setHelper id helper) l ∧ (¬ m.Replays id helper → Opens m l) := by
  unfold setHelper
  extract_lets m'
  have hhelpers : ∀ k, k ≠ id → (k ∈ m'.helpers ↔ k ∈ m.helpers) := by
    intro k hk
    show k ∈ (if helper then insert id m.helpers else m.helpers.erase id) ↔ _
    split
    · rw [Finset.mem_insert]
      exact or_iff_right hk
    · rw [Finset.mem_erase]
      exact and_iff_right hk
  have hothers : ∀ k, k ≠ id → m'.getState k = m.getState k := fun k hk =>
    getState_congr rfl (hhelpers k hk) rfl rfl rfl
  by_cases hp : id ∈ m.entries
  · rw [if_pos hp]
    have hp' : id ∈ m'.entries := hp
    have ht := touches_notify hp'
    obtain ⟨l, hx, hown, hc, hr⟩ := ht.logs
    have hn' : Numbered m' := ⟨hs.numbered.counted, hs.numbered.distinct⟩
    have hs' : Steady (m'.notify id) := by
      refine ⟨fun k hn => ?_, fun k => ?_, ht.numbered hn'⟩
      · rw [notify_waitersOf] at hn
        rw [notify_entries]
        exact hs.parked k hn
      · by_cases hk : k = id
        · rw [hk]
          exact current_notify hp'
        · have hcur := hs.current k
          refine ht.current_ne hk ?_
          unfold Current at hcur ⊢
          rw [hothers k hk]
          exact hcur
    refine ⟨hs', ht.counted, l, publishes_of hs hs' hx hc (fun _ _ => rfl) (fun _ => rfl), fun hnot k => ?_⟩
    by_cases hk : k = id
    · subst hk
      refine (hr m.episodes (le_refl _) ?_).2
      -- it shows what it rings in only when it stops being a helper, and then it does not ring
      by_cases hh : k ∈ m.helpers
      · by_cases hring : (ringingEpisode m k).isSome = true
        · have hhelper : helper = true := by
            by_contra hfalse
            exact hnot ⟨Bool.eq_false_iff.mpr hfalse, hh, hring⟩
          refine .inl ?_
          show k ∈ (if helper then insert k m.helpers else m.helpers.erase k)
          rw [if_pos hhelper]
          exact Finset.mem_insert_self k _
        · refine .inr (.inl ?_)
          rw [Option.not_isSome_iff_eq_none] at hring
          exact hring
      · rcases hs.led m.episodes k with h | h
        · exact absurd h hh
        · exact .inr h
    · rw [hown k hk]
      trivial
  · have hs' : Steady m' := by
      refine ⟨hs.parked, fun k => ?_, ⟨hs.numbered.counted, hs.numbered.distinct⟩⟩
      have hcur := hs.current k
      unfold Current at hcur ⊢
      by_cases hk : k = id
      · have hp' : k ∉ m.entries := by
          rw [hk]
          exact hp
        have hp'' : k ∉ m'.entries := hp'
        rw [getState_absent hp'']
        rwa [getState_absent hp'] at hcur
      · rw [hothers k hk]
        exact hcur
    have heq : (if id ∈ m'.entries then m'.notify id else m') = m' := if_neg hp
    rw [heq]
    exact ⟨hs', le_refl _, [], publishes_of hs hs' (List.append_nil _).symm (.refl _) (fun _ _ => rfl) (fun _ => rfl),
      fun _ _ => trivial⟩

/-- Every await is settled while the listeners are there; then nothing is left to be behind on. -/
theorem publishes_dispose (hs : Steady m) (now : Int) :
    Steady (m.dispose now) ∧ m.episodes ≤ (m.dispose now).episodes ∧ ∃ l, (m.dispose now).emitted = m.emitted ++ l ∧
      ∀ id, List.IsChain (fun a b => a.seen ≠ b.seen) ((m.lastEmitted.lookup id).toList ++ own id l) := by
  have hfold : ∀ (ids : List SessionId) (m : AlertManager), (∀ id, m.waitersOf id ≠ [] → id ∈ m.entries) →
      Logs m (ids.foldl (fun m id => m.settleWaiters id .cancelled now) m) := by
    intro ids
    induction ids with
    | nil => exact fun m _ => .refl m
    | cons id ids ih =>
      intro m hp
      have h : Logs m (m.settleWaiters id .cancelled now) := by
        by_cases hpid : id ∈ m.entries
        · exact (told_settleWaiters hpid .cancelled now).toTouches.toLogs
        · rw [settleWaiters_none (not_not.mp (fun h => hpid (hp id h)))]
          exact .refl m
      exact h.trans (ih _ (h.parked hp))
  have hlogs := hfold m.awaits.keys m hs.parked
  obtain ⟨l, hx, hc, -⟩ := hlogs.logs
  refine ⟨⟨fun id h => (h rfl).elim, fun id => rfl, ⟨fun id k hk => ?_, fun id id' k hk => ?_⟩⟩,
    hlogs.counted, l, hx, hc.fresh⟩
  · cases hk
  · cases hk

end AlertManager

/-! ## One operation -/

section Runs

variable {P : Term.Payloads} (R : AlertReaders)

theorem publication_step {m : AlertManager} (hs : Steady m) (op : AlertOp P) (hop : ∀ now, op ≠ .dispose now)
    (hhelper : ∀ id helper, op ≠ .setHelper id helper) : Publication m (m.step R op) := by
  cases op with
  | setHelper id helper => exact absurd rfl (hhelper id helper)
  | onData id now => exact (AlertManager.told_onData (hs.parked id) now).publishes hs
  | onExit id exitCode now => exact (AlertManager.told_onExit R (hs.parked id) exitCode now).publishes hs
  | onWrite id data userInput now => exact (AlertManager.told_onWrite R (hs.parked id) data userInput now).publishes hs
  | setWatchedCommands names => exact AlertManager.publishes_setWatchedCommands hs names
  | setCommandWatched name watched =>
    unfold AlertManager.step AlertManager.setCommandWatched
    dsimp only
    split
    · exact (Told.refl [] m).publishes hs
    · exact AlertManager.publishes_setWatchedCommands hs _
  | registerCompletionClaimant id claims =>
    refine Told.publishes (.of_same (?_ : Touches id m _) rfl ?_) hs
    · exact .aside rfl rfl rfl rfl rfl rfl rfl rfl
    · exact AlertManager.getState_congr rfl Iff.rfl rfl rfl rfl
  | unregisterClaimant id handle => exact (m.told_dropClaimant id id _).publishes hs
  | awaitCompletion id until' timeoutMs now =>
    exact (AlertManager.told_awaitCompletion (hs.parked id) until' timeoutMs now).publishes hs
  | cancelAwait id handle now => exact (AlertManager.told_endAwait (hs.parked id) handle _ now).publishes hs
  | notifyFromProtocol id notification now =>
    exact (AlertManager.told_notifyFromProtocol R (hs.parked id) notification now).publishes hs
  | updateProtocolProgress id state percent now =>
    exact (AlertManager.told_updateProtocolProgress (hs.parked id) state percent now).publishes hs
  | applyTerminalSemanticEvents id events now =>
    exact (AlertManager.told_applyTerminalSemanticEvents R (hs.parked id) events now).publishes hs
  | setViewer viewerId after lapse now => exact AlertManager.publishes_setViewer hs viewerId after lapse now
  | removeViewer viewerId now => exact AlertManager.publishes_setViewer hs viewerId none _ now
  | acknowledge id input now => exact (m.told_acknowledge R id input now).publishes hs
  | dismissAlert id => exact (m.told_dismissAlert id).publishes hs
  | toggleTodo id => exact (AlertManager.told_toggleTodo (hs.parked id)).publishes hs
  | clearTodo id => exact (AlertManager.told_clearTodo (hs.parked id)).publishes hs
  | silenceRun id => exact (m.told_silenceRun id).publishes hs
  | remove id now => exact AlertManager.publishes_discard hs id now
  | restart id now => exact AlertManager.publishes_restart hs id now
  | seed id todo notification => exact (AlertManager.told_seed (hs.parked id) todo notification).publishes hs
  | dispose now => exact absurd rfl (hop now)
  | detectorFires id kind now => exact (m.told_detectorFires R id kind now).publishes hs
  | progressEndFires id now => exact (m.told_progressEndFires R id now).publishes hs
  | leaveGraceFires id now => exact (m.told_leaveGraceFires id now).publishes hs
  | awaitGraceFires id handle now => exact (AlertManager.told_awaitGraceFires (hs.parked id) handle now).publishes hs
  | awaitTimeoutFires id handle now => exact (AlertManager.told_endAwait (hs.parked id) handle _ now).publishes hs

def AlertOp.Replays (m : AlertManager) (op : AlertOp P) : Prop :=
  ∃ id helper, op = .setHelper id helper ∧ m.Replays id helper

/-- **Every operation but the last publishes what it changed**, and none but a promotion shows an episode again. -/
theorem publishes_step {m : AlertManager} (hs : Steady m) (op : AlertOp P) (hop : ∀ now, op ≠ .dispose now) :
    Steady (m.step R op) ∧ m.episodes ≤ (m.step R op).episodes ∧
      ∃ l, Publishes m (m.step R op) l ∧ (¬ op.Replays m → Opens m l) := by
  by_cases hhelper : ∃ id helper, op = .setHelper id helper
  · obtain ⟨id, helper, rfl⟩ := hhelper
    obtain ⟨hs', hc, l, hp, ho⟩ := AlertManager.publishes_setHelper hs id helper
    exact ⟨hs', hc, l, hp, fun hnot => ho (fun hr => hnot ⟨id, helper, rfl, hr⟩)⟩
  · obtain ⟨hs', hc, l, hp, ho⟩ := publication_step R hs op hop (fun id helper h => hhelper ⟨id, helper, h⟩)
    exact ⟨hs', hc, l, hp, fun _ => ho⟩

theorem steady_create : Steady .create := by
  refine ⟨fun _ h => (h rfl).elim, fun _ => rfl, ⟨fun id k hk => ?_, fun id id' k hk => ?_⟩⟩
  · cases hk
  · cases hk

/-! ## What a listener has heard -/

/-- A manager, and the last state a listener was told of each Session since its entry came or went. -/
structure Hearing where
  manager : AlertManager
  heard   : SessionId → Option AlertState

def announced (m m' : AlertManager) (id : SessionId) : List AlertState := own id (m'.emitted.drop m.emitted.length)

/-- What a listener has heard behind an operation.  The entries that `dispose` drops go after its last announcement; any
other entry comes before what is announced of it, and goes before its going is. -/
def Hearing.hear (h : Hearing) (op : AlertOp P) (m' : AlertManager) (id : SessionId) : Option AlertState :=
  match op with
  | .dispose _ => none
  | _          =>
    match (announced h.manager m' id).getLast? with
    | some s => some s
    | none   => if id ∈ h.manager.entries ↔ id ∈ m'.entries then h.heard id else none

def Hearing.step (h : Hearing) (op : AlertOp P) : Hearing :=
  ⟨h.manager.step R op, h.hear op (h.manager.step R op)⟩

def Hearing.create : Hearing := ⟨.create, fun _ => none⟩

/-- What was heard is what is shown, and while an entry is there what was heard of it is what the manager remembers. -/
structure Hearing.UpToDate (h : Hearing) : Prop where
  steady     : Steady h.manager
  shown      : ∀ id, ((h.heard id).getD defaultAlertState).seen = (h.manager.getState id).seen
  remembered : ∀ id, id ∈ h.manager.entries → ∀ s, h.heard id = some s → h.manager.lastEmitted.lookup id = some s

theorem announced_of {m m' : AlertManager} {l : List (SessionId × AlertState)} (h : m'.emitted = m.emitted ++ l)
    (id : SessionId) : announced m m' id = own id l := by
  unfold announced
  rw [h, List.drop_left]

theorem Hearing.hear_of {h : Hearing} {op : AlertOp P} (hop : ∀ now, op ≠ .dispose now) (m' : AlertManager) (id : SessionId) :
    h.hear op m' id = ((announced h.manager m' id).getLast?).or
      (if id ∈ h.manager.entries ↔ id ∈ m'.entries then h.heard id else none) := by
  cases op with
  | dispose now => exact absurd rfl (hop now)
  | _ =>
    unfold Hearing.hear
    cases (announced h.manager m' id).getLast? with
    | none => rfl
    | some s => rfl

theorem Hearing.upToDate_step {h : Hearing} (hu : h.UpToDate) (op : AlertOp P) : (h.step R op).UpToDate := by
  by_cases hop : ∃ now, op = .dispose now
  · obtain ⟨now, rfl⟩ := hop
    exact ⟨(AlertManager.publishes_dispose hu.steady now).1, fun _ => rfl, fun _ _ s hs => by cases hs⟩
  · have hop : ∀ now, op ≠ .dispose now := fun now h => hop ⟨now, h⟩
    obtain ⟨hs', -, l, hp, -⟩ := publishes_step R hu.steady op hop
    have hheard := fun id => Hearing.hear_of (h := h) hop (h.manager.step R op) id
    refine ⟨hs', fun id => ?_, fun id hmem s hs => ?_⟩
    · show ((h.hear op (h.manager.step R op) id).getD defaultAlertState).seen = ((h.manager.step R op).getState id).seen
      rw [hheard, announced_of hp.emitted]
      cases hown : (own id l).getLast? with
      | some s => exact hp.voiced id s hown
      | none =>
        have hnil := List.getLast?_eq_none_iff.mp hown
        rw [Option.none_or]
        by_cases hsame : id ∈ h.manager.entries ↔ id ∈ (h.manager.step R op).entries
        · rw [if_pos hsame, hp.silent id hnil]
          exact hu.shown id
        · -- an entry that came in silence, or went in silence, shows the default state
          rw [if_neg hsame]
          by_cases hmem : id ∈ h.manager.entries
          · have hgone : id ∉ (h.manager.step R op).entries := fun hmem' => hsame ⟨fun _ => hmem', fun _ => hmem⟩
            rw [AlertManager.getState_absent hgone]
            rfl
          · rw [hp.silent id hnil, AlertManager.getState_absent hmem]
            rfl
    · have hs : h.hear op (h.manager.step R op) id = some s := hs
      rw [hheard, announced_of hp.emitted] at hs
      have hkept := hp.kept id hmem
      show (h.manager.step R op).lastEmitted.lookup id = some s
      rw [hkept, List.getLast?_append]
      cases hown : (own id l).getLast? with
      | some s' =>
        rw [hown] at hs
        exact hs
      | none =>
        rw [hown, Option.none_or] at hs
        by_cases hsame : id ∈ h.manager.entries ↔ id ∈ (h.manager.step R op).entries
        · rw [if_pos hsame] at hs
          rw [hu.remembered id (hsame.mpr hmem) s hs]
          rfl
        · rw [if_neg hsame] at hs
          cases hs

/-- What an operation announces of a Session is news, and the first of it news to who heard of its entry before. -/
theorem Hearing.fresh_step {h : Hearing} (hu : h.UpToDate) (op : AlertOp P) (id : SessionId) :
    List.IsChain (fun a b => alertStatesEqual a b = false)
      ((if id ∈ h.manager.entries then (h.heard id).toList else []) ++ announced h.manager (h.manager.step R op) id) := by
  have hchain : ∃ l, (h.manager.step R op).emitted = h.manager.emitted ++ l ∧
      ∀ id, List.IsChain (fun a b => a.seen ≠ b.seen) ((h.manager.lastEmitted.lookup id).toList ++ own id l) := by
    by_cases hop : ∃ now, op = .dispose now
    · obtain ⟨now, rfl⟩ := hop
      exact (AlertManager.publishes_dispose hu.steady now).2.2
    · obtain ⟨-, -, l, hp, -⟩ := publishes_step R hu.steady op (fun now h => hop ⟨now, h⟩)
      exact ⟨l, hp.emitted, hp.fresh⟩
  obtain ⟨l, hx, hl⟩ := hchain
  rw [announced_of hx]
  refine List.IsChain.imp (fun a b hab => ?_) (?_ : List.IsChain (fun a b => a.seen ≠ b.seen) _)
  · rw [← Bool.not_eq_true, alertStatesEqual_iff]
    exact hab
  · by_cases hmem : id ∈ h.manager.entries
    · rw [if_pos hmem]
      cases hh : h.heard id with
      | none => exact (hl id).right_of_append
      | some s =>
        have := hl id
        rwa [hu.remembered id hmem s hh] at this
    · rw [if_neg hmem]
      exact (hl id).right_of_append

end Runs

end Alert
end Dormouse

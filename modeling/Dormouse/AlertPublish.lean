import Dormouse.AlertKeep
import Dormouse.Bulletin
/-!
# AlertPublish — what an operation shows, and what it publishes

Every operation works on one Session (`Touches`): it leaves what the others show, it lets no await park where no entry is,
and what it announces is news.  A Session is `Current` when the last state told of it is the one `getState` gives.  A part
of an operation may leave it behind; one that does not is `Told`.  Publishing makes it current whatever came before, so an
operation is told when it ends by publishing, or when it touches nothing that shows.
-/
namespace Dormouse
namespace Alert

open Bulletin (own Carries)

/-! ## What shows -/

/-- What `alertStatesEqual` compares. -/
def AlertState.seen (s : AlertState) :
    SessionStatus × Bool × Bool × Bool × Option Nat × Option ActivityNotification :=
  (s.status, s.watchingEnabled, s.todo, s.awaited, s.episode.map (·.id), s.notification)

theorem alertStatesEqual_iff (a b : AlertState) : alertStatesEqual a b = true ↔ a.seen = b.seen := by
  simp [alertStatesEqual, AlertState.seen, and_assoc]

/-- What `getState` reads of an entry: of the detector, its status while a command runs. -/
def AlertEntry.shown (e : AlertEntry) :
    Option (ActivityNotification × AlertEpisode) × Bool × Option (Option JsString × Bool × QuiesceStatus) × Bool ×
      Option ActivityNotification :=
  (e.ring.map (fun r => (r.detail, r.episode)), e.progress.isSome,
    e.commandExitWatch.map (fun w => (w.watchKey, w.seen, e.detector.status)), e.todo, e.notification)

namespace AlertManager

theorem awaited_eq (m : AlertManager) (id : SessionId) :
    (m.awaits.lookup id).any (fun waiters => !waiters.isEmpty) = !(m.waitersOf id).isEmpty := by
  unfold waitersOf
  cases m.awaits.lookup id with
  | none => rfl
  | some waiters => rfl

/-- **What a Session shows follows from what shows of its entry**, from its awaits, from who looks and from the rules. -/
theorem getState_congr {m m' : AlertManager} {id : SessionId}
    (he : (m'.entries.lookup id).map (·.shown) = (m.entries.lookup id).map (·.shown))
    (hh : id ∈ m'.helpers ↔ id ∈ m.helpers) (hw : m'.watchedCommands = m.watchedCommands)
    (hv : m'.isEngaged id = m.isEngaged id) (ha : (m'.waitersOf id).isEmpty = (m.waitersOf id).isEmpty) :
    m'.getState id = m.getState id := by
  unfold getState
  rw [m.awaited_eq, m'.awaited_eq, ha]
  cases h : m.entries.lookup id with
  | none =>
    rw [h] at he
    rw [Option.map_eq_none_iff.mp he]
  | some e =>
    rw [h] at he
    obtain ⟨e', he', hs⟩ := Option.map_eq_some_iff.mp he
    rw [he']
    simp only [AlertEntry.shown, Prod.mk.injEq] at hs
    obtain ⟨hr, hp, hc, ht, hn⟩ := hs
    have hring : e'.ring.isSome = e.ring.isSome := by
      rw [← Option.isSome_map, hr, Option.isSome_map]
    have hdetail : e'.ring.map (·.detail) = e.ring.map (·.detail) := by
      have := congrArg (Option.map Prod.fst) hr
      simpa only [Option.map_map, Function.comp_def] using this
    have hepisode : e'.ring.map (·.episode) = e.ring.map (·.episode) := by
      have := congrArg (Option.map Prod.snd) hr
      simpa only [Option.map_map, Function.comp_def] using this
    have hkey : e'.commandExitWatch.bind (·.watchKey) = e.commandExitWatch.bind (·.watchKey) := by
      have := congrArg (fun o => Option.bind o Prod.fst) hc
      simpa only [Option.bind_map, Function.comp_def] using this
    have hseen : e'.commandExitWatch.any (·.seen) = e.commandExitWatch.any (·.seen) := by
      have := congrArg (fun o => Option.any (fun w => w.2.1) o) hc
      simpa only [Option.any_map, Function.comp_def] using this
    have hwatching : m'.isWatching e' = m.isWatching e := by
      unfold isWatching
      rw [hw, hkey]
    -- the detector is read where a command is watched, and there the two agree
    have hd : m.isWatching e = true → e'.detector.status = e.detector.status := by
      intro hm
      cases hw : e.commandExitWatch with
      | none =>
        unfold isWatching at hm
        rw [hw] at hm
        cases hm
      | some w =>
        rw [hw] at hc
        obtain ⟨w', -, hw'⟩ := Option.map_eq_some_iff.mp hc
        exact congrArg (fun t => t.2.2) hw'
    have hstatus : m'.getProjectedStatus id e' = m.getProjectedStatus id e := by
      unfold getProjectedStatus
      rw [hring, hp, hwatching, hseen, hv]
      by_cases hm : m.isWatching e = true
      · rw [hd hm]
      · simp only [hm, Bool.false_eq_true, if_false]
    dsimp only
    rw [hstatus, hwatching, ht, hn, hdetail, hepisode]
    by_cases hm : id ∈ m.helpers
    · rw [if_pos (hh.mpr hm), if_pos hm]
    · rw [if_neg (fun h => hm (hh.mp h)), if_neg hm]

theorem getState_absent {m : AlertManager} {id : SessionId} (h : id ∉ m.entries) : m.getState id = defaultAlertState := by
  unfold getState
  rw [AList.lookup_eq_none.mpr h]

theorem getState_helper {m : AlertManager} {id : SessionId} (h : id ∈ m.helpers) : m.getState id = defaultAlertState := by
  unfold getState
  cases m.entries.lookup id with
  | none => rfl
  | some e => exact if_pos h

theorem isEngaged_of_viewers {m m' : AlertManager} (h : m'.viewers = m.viewers) (id : SessionId) :
    m'.isEngaged id = m.isEngaged id := by
  unfold isEngaged
  rw [h]

end AlertManager

/-! ## What is told -/

def Current (m : AlertManager) (id : SessionId) : Prop :=
  ((m.lastEmitted.lookup id).getD defaultAlertState).seen = (m.getState id).seen

def AlertEntry.episodeId (e : AlertEntry) : Option Nat := e.ring.map (·.episode.id)

/-- A write to an entry opened no ring: none is left, or the one there was. -/
def AlertEntry.KeepsRing (e e' : AlertEntry) : Prop := e'.episodeId = none ∨ e'.episodeId = e.episodeId

def AlertState.episodeId (s : AlertState) : Option Nat := s.episode.map (·.id)

def ringingEpisode (m : AlertManager) (id : SessionId) : Option Nat := (m.entries.lookup id).bind (·.episodeId)

def toldEpisode (m : AlertManager) (id : SessionId) : Option Nat := (m.lastEmitted.lookup id).bind (·.episodeId)

/-- A Session rings, if it rings, in the episode last told of it or in one from the `n`th on.  What rings in a helper is not
told. -/
def Led (n : Nat) (m : AlertManager) (id : SessionId) : Prop :=
  id ∈ m.helpers ∨ ringingEpisode m id = none ∨ ringingEpisode m id = toldEpisode m id ∨
    ∃ k, ringingEpisode m id = some k ∧ n ≤ k

structure Numbered (m : AlertManager) : Prop where
  counted  : ∀ id k, ringingEpisode m id = some k → k < m.episodes
  distinct : ∀ id id' k, ringingEpisode m id = some k → ringingEpisode m id' = some k → id = id'

/-- What is told of a Session, state by state, shows no episode, or the one before, or one from the `n`th on. -/
def Opening (n : Nat) : Option Nat → List AlertState → Prop
  | _,      []     => True
  | before, s :: l =>
    (s.episodeId = none ∨ s.episodeId = before ∨ ∃ k, s.episodeId = some k ∧ n ≤ k) ∧ Opening n s.episodeId l

theorem opening_append {n : Nat} : ∀ {before : Option Nat} {l l' : List AlertState}, Opening n before l →
    Opening n ((l.getLast?.map (·.episodeId)).getD before) l' → Opening n before (l ++ l')
  | _, [], _, _, h' => h'
  | _, [_], _, h, h' => ⟨h.1, h'⟩
  | _, _ :: t :: l, _, h, h' => by
    refine ⟨h.1, opening_append h.2 ?_⟩
    rw [List.getLast?_cons_cons] at h'
    cases hl : (t :: l).getLast? with
    | none => exact absurd (List.getLast?_eq_none_iff.mp hl) (List.cons_ne_nil t l)
    | some u =>
      rw [hl] at h'
      exact h'

/-- An operation on one Session: the others show what they showed, no await parks without an entry, what is announced is of
this Session, and news, and a new ring is a new episode. -/
structure Touches (id : SessionId) (m m' : AlertManager) : Prop where
  viewers : m'.viewers = m.viewers
  watched : m'.watchedCommands = m.watchedCommands
  helpers : ∀ other, other ≠ id → (other ∈ m'.helpers ↔ other ∈ m.helpers)
  entries : ∀ other, other ≠ id → m'.entries.lookup other = m.entries.lookup other
  waiters : ∀ other, other ≠ id → m'.waitersOf other = m.waitersOf other
  present : id ∈ m.entries → id ∈ m'.entries
  parked  : (m.waitersOf id ≠ [] → id ∈ m.entries) → m'.waitersOf id ≠ [] → id ∈ m'.entries
  counted : m.episodes ≤ m'.episodes
  rings   : ringingEpisode m' id = none ∨ ringingEpisode m' id = ringingEpisode m id ∨
    ∃ k, ringingEpisode m' id = some k ∧ m.episodes ≤ k ∧ k < m'.episodes
  logs    : ∃ l, m'.emitted = m.emitted ++ l ∧ (∀ other, other ≠ id → own other l = []) ∧
    Carries AlertState.seen (fun k => m.lastEmitted.lookup k) (fun k => m'.lastEmitted.lookup k) l ∧
    ∀ n, n ≤ m.episodes → Led n m id → Led n m' id ∧ Opening n (toldEpisode m id) (own id l)

namespace Touches

variable {id : SessionId} {m m' m'' : AlertManager}

theorem led_quiet (hh : m'.helpers = m.helpers) (hl : m'.lastEmitted = m.lastEmitted)
    (hr : ringingEpisode m' id = none ∨ ringingEpisode m' id = ringingEpisode m id ∨
      ringingEpisode m' id = some m.episodes) :
    ∀ n, n ≤ m.episodes → Led n m id → Led n m' id ∧ Opening n (toldEpisode m id) [] := by
  intro n hn h
  refine ⟨?_, trivial⟩
  have ht : toldEpisode m' id = toldEpisode m id := by
    unfold toldEpisode
    rw [hl]
  unfold Led at h ⊢
  rw [hh, ht]
  rcases hr with hr | hr | hr
  · exact .inr (.inl hr)
  · rw [hr]
    exact h
  · exact .inr (.inr (.inr ⟨_, hr, hn⟩))

theorem quiet (hv : m'.viewers = m.viewers) (hw : m'.watchedCommands = m.watchedCommands) (hh : m'.helpers = m.helpers)
    (he : ∀ other, other ≠ id → m'.entries.lookup other = m.entries.lookup other) (hp : id ∈ m.entries → id ∈ m'.entries)
    (ha : m'.awaits = m.awaits) (hl : m'.lastEmitted = m.lastEmitted) (hx : m'.emitted = m.emitted)
    (hc : m.episodes ≤ m'.episodes)
    (hr : ringingEpisode m' id = none ∨ ringingEpisode m' id = ringingEpisode m id ∨
      (ringingEpisode m' id = some m.episodes ∧ m.episodes < m'.episodes)) : Touches id m m' := by
  have hwaiters : ∀ k, m'.waitersOf k = m.waitersOf k := fun k => by
    unfold AlertManager.waitersOf
    rw [ha]
  refine ⟨hv, hw, fun other _ => by rw [hh], he, fun other _ => hwaiters other, hp, fun h hn => hp (h ?_), hc, ?_, [], ?_,
    fun _ _ => rfl, ?_, led_quiet hh hl (hr.imp_right (·.imp_right (·.1)))⟩
  · rwa [hwaiters] at hn
  · exact hr.imp_right (·.imp_right (fun h => ⟨_, h.1, le_refl _, h.2⟩))
  · rw [hx, List.append_nil]
  · rw [hl]
    exact .refl _

theorem aside (hv : m'.viewers = m.viewers) (hw : m'.watchedCommands = m.watchedCommands) (hh : m'.helpers = m.helpers)
    (he : m'.entries = m.entries) (ha : m'.awaits = m.awaits) (hl : m'.lastEmitted = m.lastEmitted)
    (hx : m'.emitted = m.emitted) (hc : m'.episodes = m.episodes) : Touches id m m' := by
  refine quiet hv hw hh (fun _ _ => by rw [he]) (fun h => he ▸ h) ha hl hx (le_of_eq hc.symm) (.inr (.inl ?_))
  unfold ringingEpisode
  rw [he]

theorem refl (id : SessionId) (m : AlertManager) : Touches id m m := aside rfl rfl rfl rfl rfl rfl rfl rfl

theorem told_resume {m m' : AlertManager} {l : List (SessionId × AlertState)}
    (hc : Carries AlertState.seen (fun k => m.lastEmitted.lookup k) (fun k => m'.lastEmitted.lookup k) l) (id : SessionId) :
    toldEpisode m' id = ((own id l).getLast?.map (·.episodeId)).getD (toldEpisode m id) := by
  unfold toldEpisode
  rw [hc.remembered id, List.getLast?_append, Bulletin.getLast?_toList]
  cases (own id l).getLast? with
  | none => rfl
  | some s => rfl

theorem trans (h : Touches id m m') (h' : Touches id m' m'') : Touches id m m'' := by
  obtain ⟨l, hx, hown, hc, hr⟩ := h.logs
  obtain ⟨l', hx', hown', hc', hr'⟩ := h'.logs
  refine ⟨h'.viewers.trans h.viewers, h'.watched.trans h.watched, fun k hk => (h'.helpers k hk).trans (h.helpers k hk),
    fun k hk => (h'.entries k hk).trans (h.entries k hk), fun k hk => (h'.waiters k hk).trans (h.waiters k hk),
    fun hp => h'.present (h.present hp), fun hp => h'.parked (h.parked hp), le_trans h.counted h'.counted, ?_, l ++ l', ?_,
    fun k hk => ?_, hc.trans hc', fun n hn hled => ?_⟩
  · rcases h'.rings with h1 | h1 | ⟨k, h1, h2, h3⟩
    · exact .inl h1
    · rw [h1]
      exact h.rings.imp_right (·.imp_right (fun ⟨k, hk, h2, h3⟩ => ⟨k, hk, h2, lt_of_lt_of_le h3 h'.counted⟩))
    · exact .inr (.inr ⟨k, h1, le_trans h.counted h2, h3⟩)
  · rw [hx', hx, List.append_assoc]
  · rw [Bulletin.own_append, hown k hk, hown' k hk, List.append_nil]
  · obtain ⟨hled', ho⟩ := hr n hn hled
    obtain ⟨hled'', ho'⟩ := hr' n (le_trans hn h.counted) hled'
    refine ⟨hled'', ?_⟩
    rw [Bulletin.own_append]
    rw [told_resume hc id] at ho'
    exact opening_append ho ho'

theorem isEngaged (h : Touches id m m') (k : SessionId) : m'.isEngaged k = m.isEngaged k :=
  AlertManager.isEngaged_of_viewers h.viewers k

theorem getState_ne (h : Touches id m m') {other : SessionId} (hne : other ≠ id) : m'.getState other = m.getState other :=
  AlertManager.getState_congr (by rw [h.entries other hne]) (h.helpers other hne) h.watched (h.isEngaged other)
    (by rw [h.waiters other hne])

theorem last_ne (h : Touches id m m') {other : SessionId} (hne : other ≠ id) :
    m'.lastEmitted.lookup other = m.lastEmitted.lookup other := by
  obtain ⟨l, -, hown, hc, -⟩ := h.logs
  exact hc.last_silent (hown other hne)

theorem current_ne (h : Touches id m m') {other : SessionId} (hne : other ≠ id) (hc : Current m other) :
    Current m' other := by
  unfold Current
  rw [h.last_ne hne, h.getState_ne hne]
  exact hc

theorem numbered (h : Touches id m m') (hn : Numbered m) : Numbered m' := by
  have hother : ∀ k, k ≠ id → ringingEpisode m' k = ringingEpisode m k := fun k hk => by
    unfold ringingEpisode
    rw [h.entries k hk]
  have hnew : ∀ j k, j ≠ id → ringingEpisode m' j = some k → ringingEpisode m' id ≠ some k := by
    intro j k hj hjk hid
    rw [hother j hj] at hjk
    rcases h.rings with h1 | h1 | ⟨k', h1, h2, -⟩
    · rw [h1] at hid
      cases hid
    · rw [h1] at hid
      exact hj (hn.distinct j id k hjk hid)
    · rw [h1] at hid
      cases hid
      exact absurd (hn.counted j k hjk) (Nat.not_lt.mpr h2)
  refine ⟨fun j k hk => ?_, fun j j' k hj hj' => ?_⟩
  · by_cases hjid : j = id
    · subst hjid
      rcases h.rings with h1 | h1 | ⟨k', h1, -, h3⟩
      · rw [h1] at hk
        cases hk
      · rw [h1] at hk
        exact lt_of_lt_of_le (hn.counted j k hk) h.counted
      · rw [h1] at hk
        cases hk
        exact h3
    · rw [hother j hjid] at hk
      exact lt_of_lt_of_le (hn.counted j k hk) h.counted
  · by_cases hjid : j = id
    · by_cases hjid' : j' = id
      · rw [hjid, hjid']
      · rw [hjid] at hj
        exact absurd hj (hnew j' k hjid' hj')
    · by_cases hjid' : j' = id
      · rw [hjid'] at hj'
        exact absurd hj' (hnew j k hjid hj)
      · rw [hother j hjid] at hj
        rw [hother j' hjid'] at hj'
        exact hn.distinct j j' k hj hj'

theorem foldl {β : Type} {f : AlertManager → β → AlertManager} (hp : id ∈ m.entries)
    (hf : ∀ m b, id ∈ m.entries → Touches id m (f m b)) (l : List β) : Touches id m (l.foldl f m) := by
  induction l generalizing m with
  | nil => exact refl id m
  | cons b l ih => exact (hf m b hp).trans (ih ((hf m b hp).present hp))

end Touches

structure Told (id : SessionId) (m m' : AlertManager) : Prop extends Touches id m m' where
  current : Current m id → Current m' id

namespace Told

variable {id : SessionId} {m m' m'' : AlertManager}

theorem refl (id : SessionId) (m : AlertManager) : Told id m m := ⟨.refl id m, fun h => h⟩

theorem trans (h : Told id m m') (h' : Told id m' m'') : Told id m m'' :=
  ⟨h.toTouches.trans h'.toTouches, fun hc => h'.current (h.current hc)⟩

theorem of_same (h : Touches id m m') (hl : m'.lastEmitted = m.lastEmitted) (hs : m'.getState id = m.getState id) :
    Told id m m' := by
  refine ⟨h, fun hc => ?_⟩
  unfold Current
  rw [hl, hs]
  exact hc

theorem foldl {β : Type} {f : AlertManager → β → AlertManager} (hp : id ∈ m.entries)
    (hf : ∀ m b, id ∈ m.entries → Told id m (f m b)) (l : List β) : Told id m (l.foldl f m) := by
  induction l generalizing m with
  | nil => exact refl id m
  | cons b l ih => exact (hf m b hp).trans (ih ((hf m b hp).present hp))

theorem foldl_fst {β γ : Type} {f : AlertManager × γ → β → AlertManager × γ}
    (hf : ∀ r b, id ∈ r.1.entries → Told id r.1 (f r b).1) (l : List β) (r : AlertManager × γ) (hp : id ∈ r.1.entries) :
    Told id r.1 (l.foldl f r).1 := by
  induction l generalizing r with
  | nil => exact refl id r.1
  | cons b l ih => exact (hf r b hp).trans (ih (f r b) ((hf r b hp).present hp))

end Told

namespace AlertManager

/-! ## Publishing -/

theorem notify_same (m : AlertManager) (id : SessionId) :
    (m.notify id).helpers = m.helpers ∧ (m.notify id).watchedCommands = m.watchedCommands ∧
      (m.notify id).awaits = m.awaits := by
  unfold notify
  dsimp only
  split <;> split <;> exact ⟨rfl, rfl, rfl⟩

variable {m : AlertManager} {id : SessionId}

theorem episodeId_getState (hh : id ∉ m.helpers) :
    (m.getState id).episodeId = ringingEpisode m id := by
  unfold getState ringingEpisode
  cases m.entries.lookup id with
  | none => rfl
  | some e =>
    dsimp only
    rw [if_neg hh]
    exact Option.map_map ..

@[simp] theorem notify_waitersOf (m : AlertManager) (id k : SessionId) : (m.notify id).waitersOf k = m.waitersOf k := by
  unfold waitersOf
  rw [(m.notify_same id).2.2]

@[simp] theorem getState_notify (m : AlertManager) (id k : SessionId) : (m.notify id).getState k = m.getState k :=
  getState_congr (by rw [notify_entries]) (by rw [(m.notify_same id).1]) (m.notify_same id).2.1
    (isEngaged_of_viewers (m.notify_viewers id) k) (by rw [notify_waitersOf])

/-- **What publishing does**: nothing, where the last state told is the one shown, or else it tells it. -/
theorem notify_cases (m : AlertManager) (id : SessionId) :
    (m.notify id = m ∧ Current m id) ∨
    ((∀ last, m.lastEmitted.lookup id = some last → last.seen ≠ (m.getState id).seen) ∧
      m.notify id =
        { m with
          lastEmitted := if id ∈ m.entries then m.lastEmitted.insert id (m.getState id) else m.lastEmitted.erase id
          emitted := m.emitted ++ [(id, m.getState id)] }) := by
  unfold notify Current
  dsimp only
  cases hl : m.lastEmitted.lookup id with
  | none =>
    by_cases hh : id ∈ m.helpers
    · refine .inl ⟨?_, ?_⟩
      · simp only [hh, decide_true, if_true]
      · rw [getState_helper hh, Option.getD_none]
    · refine .inr ⟨fun last h => (Option.some_ne_none last h.symm).elim, ?_⟩
      simp only [hh, decide_false, Bool.false_eq_true, if_false]
  | some last =>
    by_cases he : alertStatesEqual last (m.getState id) = true
    · exact .inl ⟨by rw [if_pos he], (alertStatesEqual_iff _ _).mp he⟩
    · refine .inr ⟨?_, by rw [if_neg he]⟩
      intro last' h
      cases h
      exact fun h => he ((alertStatesEqual_iff _ _).mpr h)

theorem touches_notify (hp : id ∈ m.entries) : Touches id m (m.notify id) := by
  rcases m.notify_cases id with ⟨h, -⟩ | ⟨hn, h⟩
  · rw [h]
    exact .refl id m
  · rw [h, if_pos hp]
    refine ⟨rfl, rfl, fun _ _ => Iff.rfl, fun _ _ => rfl, fun _ _ => rfl, fun h => h, fun h => h, le_refl _,
      .inr (.inl rfl), [(id, m.getState id)], rfl, fun other hne => Bulletin.own_ne hne _, ?_, fun n _ hled => ?_⟩
    · exact .single (AList.lookup_insert _) (fun k hk => AList.lookup_insert_ne hk) hn
    · rw [Bulletin.own_self]
      by_cases hh : id ∈ m.helpers
      · exact ⟨.inl hh, .inl (by rw [getState_helper hh]; rfl), trivial⟩
      · refine ⟨.inr (.inr (.inl ?_)), ?_, trivial⟩
        · show ringingEpisode m id = ((m.lastEmitted.insert id (m.getState id)).lookup id).bind (·.episodeId)
          rw [AList.lookup_insert]
          exact (episodeId_getState hh).symm
        · rw [episodeId_getState hh]
          exact hled.resolve_left hh

/-- **A Session that is published is current.** -/
theorem current_notify (hp : id ∈ m.entries) : Current (m.notify id) id := by
  have hs := m.getState_notify id id
  rcases m.notify_cases id with ⟨h, hc⟩ | ⟨-, h⟩
  · rw [h]
    exact hc
  · unfold Current
    rw [hs, h, if_pos hp, AList.lookup_insert]
    rfl

theorem told_notify (hp : id ∈ m.entries) : Told id m (m.notify id) :=
  ⟨touches_notify hp, fun _ => current_notify hp⟩

end AlertManager

theorem Touches.publish {id : SessionId} {m m' : AlertManager} (h : Touches id m m') (hp : id ∈ m.entries) :
    Told id m (m'.notify id) :=
  ⟨h.trans (AlertManager.touches_notify (h.present hp)), fun _ => AlertManager.current_notify (h.present hp)⟩

namespace AlertManager

/-! ## Entries -/

theorem modifyEntry_same (m : AlertManager) (id : SessionId) (f : AlertEntry → AlertEntry) :
    (m.modifyEntry id f).helpers = m.helpers ∧ (m.modifyEntry id f).watchedCommands = m.watchedCommands ∧
      (m.modifyEntry id f).awaits = m.awaits ∧ (m.modifyEntry id f).lastEmitted = m.lastEmitted ∧
      (m.modifyEntry id f).emitted = m.emitted ∧ (m.modifyEntry id f).episodes = m.episodes := by
  unfold modifyEntry
  split <;> exact ⟨rfl, rfl, rfl, rfl, rfl, rfl⟩

variable {m : AlertManager} {id : SessionId}

theorem mem_iff_lookup : id ∈ m.entries ↔ ∃ e, m.entries.lookup id = some e := by
  rw [← AList.lookup_isSome, Option.isSome_iff_exists]

@[simp] theorem mem_modifyEntry (m : AlertManager) (id k : SessionId) (f : AlertEntry → AlertEntry) :
    k ∈ (m.modifyEntry id f).entries ↔ k ∈ m.entries := by
  rw [← AList.lookup_isSome, ← AList.lookup_isSome]
  by_cases h : k = id
  · subst h
    rw [lookup_modifyEntry, Option.isSome_map]
  · rw [lookup_modifyEntry_ne m h]

variable {f : AlertEntry → AlertEntry}

theorem touches_modify_of (m : AlertManager) (id : SessionId) (hf : ∀ e, m.entries.lookup id = some e → e.KeepsRing (f e)) :
    Touches id m (m.modifyEntry id f) := by
  obtain ⟨hh, hw, ha, hl, hx, hc⟩ := m.modifyEntry_same id f
  refine .quiet (m.modifyEntry_viewers id f) hw hh (fun k hk => m.lookup_modifyEntry_ne hk f)
    (fun hp => (m.mem_modifyEntry id id f).mpr hp) ha hl hx (le_of_eq hc.symm) ?_
  unfold ringingEpisode
  rw [lookup_modifyEntry]
  cases he : m.entries.lookup id with
  | none => exact .inl rfl
  | some e => exact (hf e he).imp (fun h => h) .inl

theorem touches_modify (m : AlertManager) (id : SessionId) (hf : ∀ e : AlertEntry, e.KeepsRing (f e)) :
    Touches id m (m.modifyEntry id f) :=
  m.touches_modify_of id (fun e _ => hf e)

theorem episodeId_of_shown {e e' : AlertEntry} (h : e'.shown = e.shown) : e'.episodeId = e.episodeId := by
  have := congrArg (fun t => t.1.map (fun r => r.2.id)) h
  unfold AlertEntry.shown at this
  unfold AlertEntry.episodeId
  simpa only [Option.map_map, Function.comp_def] using this

theorem told_modify_of (m : AlertManager) (id : SessionId) (hf : ∀ e, m.entries.lookup id = some e → (f e).shown = e.shown) :
    Told id m (m.modifyEntry id f) := by
  obtain ⟨hh, hw, ha, hl, -, -⟩ := m.modifyEntry_same id f
  refine .of_same (m.touches_modify_of id (fun e he => .inr (episodeId_of_shown (hf e he)))) hl
    (getState_congr ?_ (by rw [hh]) hw ?_ ?_)
  · rw [lookup_modifyEntry, Option.map_map]
    exact Option.map_congr (fun e he => hf e he)
  · exact isEngaged_of_viewers (m.modifyEntry_viewers id f) id
  · unfold waitersOf
    rw [ha]

theorem told_modify (m : AlertManager) (id : SessionId) (hf : ∀ e, (f e).shown = e.shown) :
    Told id m (m.modifyEntry id f) :=
  m.told_modify_of id (fun e _ => hf e)

theorem mem_getOrCreateEntry (m : AlertManager) (id : SessionId) : id ∈ (m.getOrCreateEntry id).entries := by
  unfold getOrCreateEntry
  split
  · assumption
  · rw [AList.mem_insert]
    exact .inl rfl

/-- **A new entry shows the default state**: nobody awaits what is not there. -/
theorem told_getOrCreateEntry (hw : m.waitersOf id ≠ [] → id ∈ m.entries) :
    Told id m (m.getOrCreateEntry id) := by
  unfold getOrCreateEntry
  split
  · exact .refl id m
  · rename_i hp
    refine .of_same (.quiet rfl rfl rfl (fun k hk => AList.lookup_insert_ne hk) (fun h => absurd h hp) rfl rfl rfl
      (le_refl _) (.inl ?_)) rfl ?_
    · unfold ringingEpisode
      rw [AList.lookup_insert]
      rfl
    have hnone : m.waitersOf id = [] := by
      by_contra h
      exact hp (hw h)
    rw [getState_absent hp]
    unfold getState
    rw [awaited_eq, AList.lookup_insert]
    show (if id ∈ m.helpers then _ else _) = _
    split
    · rfl
    · have : ({ m with entries := m.entries.insert id .create } : AlertManager).waitersOf id = [] := hnone
      rw [this]
      rfl

theorem told_reportedEntry (hw : m.waitersOf id ≠ [] → id ∈ m.entries) :
    Told id m (m.reportedEntry id) := by
  have h : Told id m { m with removed := m.removed.erase id } :=
    .of_same (.aside rfl rfl rfl rfl rfl rfl rfl rfl) rfl (getState_congr rfl Iff.rfl rfl rfl rfl)
  unfold reportedEntry
  refine h.trans ?_
  exact told_getOrCreateEntry (m := { m with removed := m.removed.erase id }) hw

theorem mem_reportedEntry (m : AlertManager) (id : SessionId) : id ∈ (m.reportedEntry id).entries :=
  mem_getOrCreateEntry _ id

theorem told_streamEntry {m m' : AlertManager} (hw : m.waitersOf id ≠ [] → id ∈ m.entries) (h : m.streamEntry id = some m') :
    Told id m m' ∧ id ∈ m'.entries := by
  unfold streamEntry at h
  split at h
  · cases h
  · cases h
    exact ⟨told_getOrCreateEntry hw, m.mem_getOrCreateEntry id⟩

/-! ## Awaits -/

theorem told_dropClaimant (m : AlertManager) (id k : SessionId) (keep : Claimant → Bool) :
    Told id m (m.dropClaimant k keep) := by
  unfold dropClaimant
  split
  · exact .refl id m
  · exact .of_same (.aside rfl rfl rfl rfl rfl rfl rfl rfl) rfl (getState_congr rfl Iff.rfl rfl rfl rfl)

theorem waitersOf_dropClaimant (m : AlertManager) (k id : SessionId) (keep : Claimant → Bool) :
    (m.dropClaimant k keep).waitersOf id = m.waitersOf id := by
  unfold dropClaimant
  split
  · rfl
  · rfl

theorem touches_awaits {m m' : AlertManager} (hv : m'.viewers = m.viewers) (hw : m'.watchedCommands = m.watchedCommands)
    (hh : m'.helpers = m.helpers) (he : m'.entries = m.entries) (ha : ∀ k, k ≠ id → m'.awaits.lookup k = m.awaits.lookup k)
    (hl : m'.lastEmitted = m.lastEmitted) (hx : m'.emitted = m.emitted) (hc : m'.episodes = m.episodes)
    (hp : m'.waitersOf id ≠ [] → m.waitersOf id ≠ [] ∨ id ∈ m.entries) : Touches id m m' := by
  have hr : ringingEpisode m' id = ringingEpisode m id := by
    unfold ringingEpisode
    rw [he]
  refine ⟨hv, hw, fun _ _ => by rw [hh], fun _ _ => by rw [he], fun k hk => ?_, fun h => he ▸ h, fun h hn => ?_,
    le_of_eq hc.symm, .inr (.inl hr), [], ?_, fun _ _ => rfl, ?_, Touches.led_quiet hh hl (.inr (.inl hr))⟩
  · unfold waitersOf
    rw [ha k hk]
  · rw [he]
    exact (hp hn).elim h (fun h => h)
  · rw [hx, List.append_nil]
  · rw [hl]
    exact .refl _

theorem waitersOf_dropWaiter (m : AlertManager) (id : SessionId) (handle : Nat) :
    (m.dropWaiter id handle).waitersOf id = (m.waitersOf id).filter (fun w => w.handle ≠ handle) := by
  unfold dropWaiter
  cases h : m.awaits.lookup id with
  | none =>
    show m.waitersOf id = _
    unfold waitersOf
    rw [h]
    rfl
  | some waiters =>
    have hw : m.waitersOf id = waiters := by
      unfold waitersOf
      rw [h]
      rfl
    rw [hw]
    dsimp only
    split
    · rename_i hlen
      rw [hw]
      exact (List.filter_eq_self.mpr (List.length_filter_eq_length_iff.mp hlen)).symm
    · split
      · unfold waitersOf
        rw [AList.lookup_insert]
        rfl
      · rename_i hne
        rw [waitersOf_dropClaimant]
        unfold waitersOf
        rw [AList.lookup_erase]
        rw [Bool.not_eq_true', Bool.not_eq_false, List.isEmpty_iff] at hne
        rw [hne]
        rfl

theorem touches_dropWaiter (m : AlertManager) (id : SessionId) (handle : Nat) : Touches id m (m.dropWaiter id handle) := by
  have hp : (m.dropWaiter id handle).waitersOf id ≠ [] → m.waitersOf id ≠ [] ∨ id ∈ m.entries := by
    intro h
    refine .inl (fun hn => h ?_)
    rw [waitersOf_dropWaiter, hn]
    rfl
  revert hp
  unfold dropWaiter
  split
  · exact fun _ => .refl id m
  · dsimp only
    split
    · exact fun _ => .refl id m
    · split
      · exact touches_awaits rfl rfl rfl rfl (fun k hk => AList.lookup_insert_ne hk) rfl rfl rfl
      · intro hp
        rw [waitersOf_dropClaimant] at hp
        have h : Touches id m { m with awaits := m.awaits.erase id } :=
          touches_awaits rfl rfl rfl rfl (fun k hk => AList.lookup_erase_ne hk) rfl rfl rfl hp
        exact h.trans (told_dropClaimant _ id id _).toTouches

theorem told_settleWaiter (hp : id ∈ m.entries) (handle : Nat) (outcome : AwaitOutcome) :
    Told id m (m.settleWaiter id handle outcome) := by
  unfold settleWaiter
  extract_lets dropped
  have h : Touches id m dropped := m.touches_dropWaiter id handle
  refine Touches.publish (h.trans ?_) hp
  exact .aside rfl rfl rfl rfl rfl rfl rfl rfl

theorem told_settleWaiters (hp : id ∈ m.entries) (outcome : Int → AwaitOutcome) (now : Int) :
    Told id m (m.settleWaiters id outcome now) := by
  unfold settleWaiters
  exact .foldl hp (fun m w hp => told_settleWaiter hp w.handle _) _

theorem settleWaiters_none (h : m.waitersOf id = []) (outcome : Int → AwaitOutcome) (now : Int) :
    m.settleWaiters id outcome now = m := by
  unfold settleWaiters
  rw [h]
  rfl

theorem waitersOf_settleWaiters (m : AlertManager) (id : SessionId) (outcome : Int → AwaitOutcome) (now : Int) :
    (m.settleWaiters id outcome now).waitersOf id = [] := by
  have hfold : ∀ (l : List AwaitWaiter) (m : AlertManager),
      (l.foldl (fun m w => m.settleWaiter id w.handle (outcome (now - w.startedAt))) m).waitersOf id =
        (m.waitersOf id).filter (fun w => w.handle ∉ l.map (·.handle)) := by
    intro l
    induction l with
    | nil =>
      intro m
      exact (List.filter_eq_self.mpr (fun _ _ => rfl)).symm
    | cons w l ih =>
      intro m
      rw [List.foldl_cons, ih]
      have hw : (m.settleWaiter id w.handle (outcome (now - w.startedAt))).waitersOf id =
          (m.waitersOf id).filter (fun x => x.handle ≠ w.handle) := by
        unfold settleWaiter
        rw [notify_waitersOf]
        exact m.waitersOf_dropWaiter id w.handle
      rw [hw, List.filter_filter]
      refine List.filter_congr (fun x _ => ?_)
      rw [List.map_cons, ← Bool.decide_and, decide_eq_decide, List.mem_cons, not_or, and_comm]
  unfold settleWaiters
  rw [hfold]
  refine List.filter_eq_nil_iff.mpr (fun w hw h => ?_)
  exact of_decide_eq_true h (List.mem_map_of_mem hw)

theorem told_clearGraces (m : AlertManager) (id : SessionId) (ends : AwaitWaiter → Bool) :
    Told id m (m.clearGraces id ends) := by
  unfold clearGraces
  cases h : m.awaits.lookup id with
  | none => exact .refl id m
  | some waiters =>
    have hw : m.waitersOf id = waiters := by
      unfold waitersOf
      rw [h]
      rfl
    dsimp only
    generalize hm : ({ m with awaits := m.awaits.insert id (waiters.map (fun w => { w with grace := w.grace && !ends w })) } :
      AlertManager) = m'
    have hw' : m'.waitersOf id = waiters.map (fun w => { w with grace := w.grace && !ends w }) := by
      subst hm
      unfold waitersOf
      rw [AList.lookup_insert]
      rfl
    subst hm
    refine .of_same (touches_awaits rfl rfl rfl rfl (fun k hk => AList.lookup_insert_ne hk) rfl rfl rfl ?_) rfl
      (getState_congr rfl Iff.rfl rfl rfl ?_)
    · intro hn
      refine .inl (fun h => hn ?_)
      rw [hw', ← hw, h]
      rfl
    · rw [hw', hw, List.isEmpty_map]

theorem told_offerWaiters (hp : id ∈ m.entries) (event : CompletionEvent) (now : Int) :
    Told id m (m.offerWaiters id event now).1 := by
  refine Told.foldl_fst (fun r w hp => ?_) _ (m, false) hp
  split
  · exact .refl id r.1
  · exact told_settleWaiter hp w.handle _

theorem told_offerClaimants {id : SessionId} (event : CompletionEvent) (now : Int) :
    ∀ (cs : List Claimant) {m : AlertManager}, id ∈ m.entries → Told id m (offerClaimants id event now cs m).1
  | [], m, _ => .refl id m
  | .external _ claims :: cs, m, hp => by
    have h : Told id m { m with offers := m.offers + 1 } :=
      .of_same (.aside rfl rfl rfl rfl rfl rfl rfl rfl) rfl (getState_congr rfl Iff.rfl rfl rfl rfl)
    unfold offerClaimants
    split
    · exact h
    · exact h.trans (told_offerClaimants event now cs hp)
  | .awaits :: cs, m, hp => by
    have h := told_offerWaiters hp event now
    unfold offerClaimants
    split
    · rename_i m' heq
      rw [heq] at h
      exact h
    · rename_i m' heq
      rw [heq] at h
      exact h.trans (told_offerClaimants event now cs (h.present hp))

end AlertManager

end Alert
end Dormouse

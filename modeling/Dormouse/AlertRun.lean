import Dormouse.AlertKeep
import Dormouse.Steps
/-!
# AlertRun — the alert manager over whole runs

Every public operation and every timer, one lemma each: all but a viewer's report, the leave grace and `dispose` are
`Moves`.  Two invariants follow.  The relations within an entry hold in every state (`alert_entries_sound`).  An alert
is held only for a Session that is engaged or that waits out its leave grace (`Attended`), except that a viewer's report
passes over a helper: a Session that holds an alert, is demoted and is then left keeps it for nobody (`Deserted`).
-/
namespace Dormouse
namespace Alert

namespace AlertManager

/-! ## The operations -/

theorem moves_setHelper (m : AlertManager) (id : SessionId) (helper : Bool) : Moves m (m.setHelper id helper) := by
  unfold setHelper
  dsimp only
  split
  · exact (moves_notify _ id).after rfl rfl
  · exact .of_same rfl rfl

theorem step_detector (engaged : Bool) (e : AlertEntry) (d : QuiesceDetector) :
    EntryStep engaged e { e with detector := d } :=
  .of_same rfl rfl rfl rfl rfl rfl

theorem moves_stir (m : AlertManager) (id : SessionId) (s : Stirred) : Moves m (m.stir id s) := by
  unfold stir
  refine Moves.trans (Moves.foldl (fun m d => ?_) _ m) (moves_modify _ id (fun b e => step_detector b e _))
  exact (m.moves_modify id (fun b e => step_detector b e d)).trans (moves_notify _ id)

theorem moves_noteWork (m : AlertManager) (id : SessionId) : Moves m (m.noteWork id) :=
  (m.moves_modify id (fun b e => e.step_noteWork b)).trans (moves_clearGraces _ id _)

theorem moves_onData (m : AlertManager) (id : SessionId) (now : Int) : Moves m (m.onData id now) := by
  unfold onData
  split
  · exact .refl m
  · rename_i m' hm'
    refine (moves_streamEntry hm').trans ?_
    split
    · exact .refl m'
    · split
      · exact .refl m'
      · dsimp only
        split
        · exact (m'.moves_stir id _).trans (moves_noteWork _ id)
        · exact m'.moves_stir id _

theorem moves_onExit (R : AlertReaders) (m : AlertManager) (id : SessionId) (exitCode : Option Int) (now : Int) :
    Moves m (m.onExit R id exitCode now) := by
  unfold onExit
  refine Moves.trans ?_ (moves_settleWaiters _ id .died now)
  have h := m.moves_finishCommandExitWatch R id exitCode now
  split
  · dsimp only
    split
    · exact h.trans (moves_notify _ id)
    · exact h
  · exact .refl m

theorem moves_setTodoForUser (m : AlertManager) (id : SessionId) (todo : Bool) : Moves m (m.setTodoForUser id todo) :=
  (m.moves_modify id (fun b e => e.step_setTodo b todo)).trans (moves_notify _ id)

theorem moves_lookAt (m : AlertManager) (id : SessionId) : Moves m ((m.modifyEntry id (·.lookAt)).notify id) :=
  (m.moves_modify id (fun b e => e.step_lookAt b)).trans (moves_notify _ id)

theorem moves_acknowledge (R : AlertReaders) (m : AlertManager) (id : SessionId) (input : Bool) (now : Int) :
    Moves m (m.acknowledge R id input now) := by
  unfold acknowledge
  split
  · exact .refl m
  · extract_lets m₁ m₂
    have h₁ : Moves m m₁ := by
      show Moves m (if input = true then _ else _)
      split
      · exact m.moves_modify id (fun b e => .of_same rfl rfl rfl rfl rfl rfl)
      · exact .refl m
    have h₂ : Moves m m₂ := h₁.trans (m₁.moves_modify id (fun b e => e.step_markSeen b))
    split
    · exact h₁
    split
    · refine (h₂.trans (m₂.moves_settleProgressEnd R id now)).trans ?_
      exact (moves_modify _ id (fun b e => e.step_clearRingForUser b)).trans (moves_setTodoForUser _ id false)
    · exact h₂.trans (m₂.moves_lookAt id)

theorem moves_onWrite (R : AlertReaders) (m : AlertManager) (id : SessionId) (data : JsString) (userInput : Bool)
    (now : Int) : Moves m (m.onWrite R id data userInput now) := by
  unfold onWrite
  extract_lets m₁
  have h₁ : Moves m m₁ := by
    show Moves m (if userInput = true then _ else _)
    split
    · exact m.moves_acknowledge R id true now
    · exact .refl m
  refine h₁.trans ?_
  split
  · split
    · exact .refl m₁
    · rename_i m₂ hm₂
      exact (moves_streamEntry hm₂).trans (m₂.moves_modify id (fun b e => step_detector b e _))
  · exact .refl m₁

theorem moves_setWatchedCommands (m : AlertManager) (names : Finset JsString) : Moves m (m.setWatchedCommands names) := by
  unfold setWatchedCommands
  split
  · exact .refl m
  · refine (Moves.foldl (fun m id => ?_) _ _).after rfl rfl
    exact (m.moves_modify id (fun b e => e.step_invalidateWatching b _)).trans (moves_notify _ id)

theorem moves_setCommandWatched (m : AlertManager) (name : JsString) (watched : Bool) :
    Moves m (m.setCommandWatched name watched) := by
  unfold setCommandWatched
  dsimp only
  split
  · exact .refl m
  · exact m.moves_setWatchedCommands _

theorem moves_awaitCompletion (m : AlertManager) (id : SessionId) (until' : AwaitUntil) (timeoutMs : JsNum) (now : Int) :
    Moves m (m.awaitCompletion id until' timeoutMs now) := by
  have hover : ∀ (m : AlertManager) (outcome : AwaitOutcome), Moves m (m.settledAwait outcome) :=
    fun _ _ => .of_same rfl rfl
  unfold awaitCompletion
  split
  · exact hover m _
  split
  · split
    · exact hover m _
    split
    · exact hover m _
    · extract_lets m₁ grace
      have h₁ : Moves m m₁ := m.moves_getOrCreateEntry id
      refine h₁.trans ?_
      split
      · rename_i e' cause hc
        refine Moves.trans ?_ (hover _ _)
        refine Moves.trans ?_ (moves_notify _ id)
        obtain ⟨e, he, hce⟩ := Option.bind_eq_some_iff.mp hc
        exact m₁.moves_replace id he (e.step_consumeAwaitableRing _ hce)
      · exact (m₁.moves_addWaiter id _).trans ((moves_notify _ id).after rfl rfl)
  · exact hover m _

theorem moves_notifyFromProtocol (R : AlertReaders) (m : AlertManager) (id : SessionId) (notification : Json) (now : Int) :
    Moves m (m.notifyFromProtocol R id notification now) := by
  unfold notifyFromProtocol
  split
  · exact .refl m
  · refine (m.moves_reportedEntry id).trans ?_
    dsimp only
    split
    · exact .refl _
    · exact moves_dispatchCompletion R _ id _ now

theorem moves_updateProtocolProgress (m : AlertManager) (id : SessionId) (state : Term.ProgressState)
    (percent : Option JsNum) (now : Int) : Moves m (m.updateProtocolProgress id state percent now) := by
  have hprogress : ∀ (b : Bool) (e : AlertEntry) (p : Option ActiveProtocolProgress),
      EntryStep b e { e with progress := p } := fun _ _ _ => .of_same rfl rfl rfl rfl rfl rfl
  unfold updateProtocolProgress
  split
  · exact .refl m
  · refine (m.moves_reportedEntry id).trans ?_
    extract_lets m₁ live m₂ m₃
    have h₂ : Moves m₁ m₂ := (m₁.moves_modify id (fun b e => e.step_cancelProgressEnd b)).trans (moves_noteWork _ id)
    have h₃ : Moves m₁ m₃ := h₂.trans (m₂.moves_modify id (fun b e => step_detector b e _))
    clear_value live
    split
    · split
      · exact .refl m₁
      · split
        · exact .refl m₁
        · exact m₁.moves_modify id (fun b e => hprogress b e _)
    · split
      · exact h₃
      · exact h₃.trans ((m₃.moves_modify id (fun b e => hprogress b e _)).trans (moves_notify _ id))

theorem moves_applyTerminalSemanticEvent {P : Term.Payloads} (R : AlertReaders) (m : AlertManager) (id : SessionId)
    (event : Term.SemanticEvent P) (now : Int) : Moves m (m.applyTerminalSemanticEvent R id event now).1 := by
  cases event with
  | commandLine commandLine => exact m.moves_modify id (fun b e => .of_same rfl rfl rfl rfl rfl rfl)
  | commandStart _ => exact m.moves_startCommandExitWatch R id now
  | commandFinish exitCode => exact m.moves_finishCommandExitWatch R id exitCode now
  | promptStart => exact m.moves_finishCommandExitWatch R id none now
  | promptEnd => exact m.moves_finishCommandExitWatch R id none now
  | cwd _ => exact .refl m
  | title _ _ => exact .refl m

theorem moves_applyTerminalSemanticEvents {P : Term.Payloads} (R : AlertReaders) (m : AlertManager) (id : SessionId)
    (events : List (Term.SemanticEvent P)) (now : Int) : Moves m (m.applyTerminalSemanticEvents R id events now) := by
  unfold applyTerminalSemanticEvents
  split
  · exact .refl m
  · extract_lets r
    have h : Moves m r.1 := by
      refine (m.moves_reportedEntry id).trans ?_
      refine Moves.foldl_fst (fun r event => ?_) events (m.reportedEntry id, false)
      exact r.1.moves_applyTerminalSemanticEvent R id event now
    split
    · exact h.trans (moves_notify _ id)
    · exact h

theorem moves_dismissAlert (m : AlertManager) (id : SessionId) : Moves m (m.dismissAlert id) := by
  unfold dismissAlert
  split
  · exact m.moves_lookAt id
  · exact .refl m

theorem moves_toggleTodo (m : AlertManager) (id : SessionId) : Moves m (m.toggleTodo id) := by
  unfold toggleTodo
  split
  · exact .refl m
  · exact (m.moves_getOrCreateEntry id).trans (moves_setTodoForUser _ id _)

theorem moves_clearTodo (m : AlertManager) (id : SessionId) : Moves m (m.clearTodo id) := by
  unfold clearTodo
  split
  · exact .refl m
  · exact (m.moves_getOrCreateEntry id).trans (moves_setTodoForUser _ id _)

theorem moves_silenceRun (m : AlertManager) (id : SessionId) : Moves m (m.silenceRun id) := by
  unfold silenceRun
  split
  · refine Moves.trans (m.moves_modify id (fun b e => ?_)) (moves_notify _ id)
    exact .of_same rfl rfl rfl rfl rfl rfl
  · exact .refl m

theorem moves_eraseEntry (m : AlertManager) (id : SessionId) : Moves m { m with entries := m.entries.erase id } := by
  refine ⟨rfl, fun other e' he' => ?_⟩
  by_cases h : other = id
  · subst h
    rw [AList.lookup_erase] at he'
    cases he'
  · rw [AList.lookup_erase_ne h] at he'
    exact ⟨e', .inl he', .refl _ e'⟩

theorem moves_discard (m : AlertManager) (id : SessionId) (now : Int) : Moves m (m.discard id now) := by
  unfold discard
  extract_lets m₁ m₂ m₃
  have h₁ : Moves m m₁ := (moves_settleWaiters _ id .died now).after rfl rfl
  have h₂ : Moves m m₂ := h₁.trans (.of_same rfl rfl)
  have h₃ : Moves m m₃ := by
    refine h₂.trans ?_
    show Moves m₂ (if id ∈ m₂.entries then _ else _)
    split
    · exact (m₂.moves_eraseEntry id).trans (moves_notify _ id)
    · exact .refl m₂
  exact h₃.trans (.of_same rfl rfl)

theorem moves_restart (m : AlertManager) (id : SessionId) (now : Int) : Moves m (m.restart id now) :=
  (m.moves_discard id now).trans (.of_same rfl rfl)

theorem moves_seed (m : AlertManager) (id : SessionId) (todo : Json) (notification : Option Json) :
    Moves m (m.seed id todo notification) := by
  unfold seed
  split
  · exact .refl m
  · refine (m.moves_getOrCreateEntry id).trans (Moves.trans ?_ (moves_notify _ id))
    exact moves_modify _ id (fun b e => e.step_seedEntry b todo notification)

theorem moves_detectorFires (R : AlertReaders) (m : AlertManager) (id : SessionId) (kind : DetectorTimer) (now : Int) :
    Moves m (m.detectorFires R id kind now) := by
  unfold detectorFires
  split
  · exact .refl m
  · rename_i e he
    split
    · exact .refl m
    · extract_lets r m₁ d settled
      have h₁ : Moves m m₁ := m.moves_stir id r.1
      have hd : Moves m₁ d.1 := m₁.moves_dispatchCompletion R id .settled now
      have hs : Moves m₁ settled := by
        show Moves m₁ (if e.progress.isSome = true then _ else if d.2 = true then _ else _)
        split
        · exact .refl m₁
        split
        · exact hd.trans ((moves_modify _ id (fun b e => e.step_invalidateWatching b _)).trans (moves_notify _ id))
        · exact hd
      split
      · exact h₁.trans (hs.trans (moves_notify _ id))
      · exact h₁

theorem moves_awaitGraceFires (m : AlertManager) (id : SessionId) (handle : Nat) (now : Int) :
    Moves m (m.awaitGraceFires id handle now) := by
  unfold awaitGraceFires
  split
  · exact m.moves_endAwait id handle _ now
  · exact .refl m

end AlertManager

/-! ## A viewer's report, the leave grace and `dispose` -/

def EntriesSound (m : AlertManager) : Prop := ∀ id e, m.entries.lookup id = some e → e.Sound

/-- Every alert that is held is held for a Session that is engaged or whose leave grace runs. -/
def Attended (m : AlertManager) : Prop :=
  ∀ id e, m.entries.lookup id = some e → e.held.isSome = true → m.isEngaged id = true ∨ e.leaveGrace = true

theorem Moves.attended {m m' : AlertManager} (h : Moves m m') (ha : Attended m) : Attended m' := by
  intro id e' he' hh'
  obtain ⟨e, he | rfl, hs⟩ := h.entries id e' he'
  · rw [h.isEngaged, hs.grace]
    exact (hs.held hh').elim (ha id e he) .inl
  · rw [h.isEngaged]
    exact (hs.held hh').elim nofun .inl

namespace AlertManager

theorem isEngaged_iff (m : AlertManager) (id : SessionId) :
    m.isEngaged id = true ↔ ∃ v, m.viewers.lookup v = some (some id) := by
  unfold isEngaged
  rw [List.any_eq_true]
  constructor
  · rintro ⟨⟨v, focus⟩, hmem, hfocus⟩
    exact ⟨v, by rw [← of_decide_eq_true hfocus]; exact AList.mem_lookup_iff.mpr hmem⟩
  · rintro ⟨v, hv⟩
    exact ⟨⟨v, some id⟩, AList.mem_lookup_iff.mp hv, decide_eq_true rfl⟩

/-- The manager once a viewer's report is written down, before any Session it touches is settled. -/
def reported (m : AlertManager) (viewerId : ViewerId) (after : Option (Option SessionId)) : AlertManager :=
  { m with viewers := match after with
    | none       => m.viewers.erase viewerId
    | some focus => m.viewers.insert viewerId focus }

theorem lookup_reported (m : AlertManager) (viewerId : ViewerId) (after : Option (Option SessionId)) :
    (m.reported viewerId after).viewers.lookup viewerId = after := by
  cases after with
  | none => exact AList.lookup_erase _ _
  | some focus => exact AList.lookup_insert _

theorem lookup_reported_ne (m : AlertManager) {viewerId other : ViewerId} (h : other ≠ viewerId)
    (after : Option (Option SessionId)) :
    (m.reported viewerId after).viewers.lookup other = m.viewers.lookup other := by
  cases after with
  | none => exact AList.lookup_erase_ne h
  | some focus => exact AList.lookup_insert_ne h

variable {m : AlertManager} {viewerId : ViewerId} {id : SessionId}

theorem isEngaged_reported (h : m.isEngaged id = true) (hne : m.viewers.lookup viewerId ≠ some (some id))
    (after : Option (Option SessionId)) :
    (m.reported viewerId after).isEngaged id = true := by
  obtain ⟨v, hv⟩ := (m.isEngaged_iff id).mp h
  have hvne : v ≠ viewerId := by
    rintro rfl
    exact hne hv
  exact (isEngaged_iff _ id).mpr ⟨v, by rw [m.lookup_reported_ne hvne, hv]⟩

/-! ### One Session that a report touches -/

theorem settleEngagement_viewers (m : AlertManager) (id : SessionId) (was moved : Bool) (lapse : Option EngagementLapse)
    (now : Int) : (m.settleEngagement id was moved lapse now).viewers = m.viewers := by
  unfold settleEngagement
  split
  · rfl
  split
  · simp [endLeaveGrace]
  split
  · simp
  split
  · rw [notify_viewers]
    exact (m.moves_escalateHeld id now).viewers
  · simp [startLeaveGrace]

theorem sound_modify {f : AlertEntry → AlertEntry} (hf : ∀ e, e.Sound → (f e).Sound) (hs : EntriesSound m) :
    EntriesSound (m.modifyEntry id f) := by
  intro other e' he'
  by_cases h : other = id
  · subst h
    rw [lookup_modifyEntry] at he'
    obtain ⟨e, he, rfl⟩ := Option.map_eq_some_iff.mp he'
    exact hf e (hs other e he)
  · rw [m.lookup_modifyEntry_ne h] at he'
    exact hs other e' he'

theorem sound_leaveGrace {e : AlertEntry} (h : e.Sound) (grace : Bool) : { e with leaveGrace := grace }.Sound :=
  ⟨h.ring, h.held, h.acked, h.todo⟩

theorem sound_settleEngagement (hs : EntriesSound m) (id : SessionId) (was moved : Bool) (lapse : Option EngagementLapse)
    (now : Int) : EntriesSound (m.settleEngagement id was moved lapse now) := by
  unfold settleEngagement
  split
  · exact hs
  split
  · have hend : EntriesSound (m.endLeaveGrace id) := sound_modify (fun e h => sound_leaveGrace h _) hs
    exact ((moves_modify _ id (fun b e => e.step_markSeen b)).trans (moves_notify _ id)).sound hend
  split
  · exact ((m.moves_modify id (fun b e => e.step_unhold b)).trans (moves_notify _ id)).sound hs
  split
  · exact ((m.moves_escalateHeld id now).trans (moves_notify _ id)).sound hs
  · have hstart : EntriesSound (m.startLeaveGrace id) := sound_modify (fun e h => sound_leaveGrace h _) hs
    exact (moves_notify _ id).sound hstart

variable {id other : SessionId}

theorem lookup_holdOrDeliver_ne (m : AlertManager) (h : other ≠ id) (source : RingSource) (detail : ActivityNotification)
    (held : Option Nat) (now : Int) :
    (m.holdOrDeliver id source detail held now).entries.lookup other = m.entries.lookup other := by
  unfold holdOrDeliver
  extract_lets arrived m' acked opens
  split
  · rw [notify_entries, m'.lookup_modifyEntry_ne h]
  split
  · rw [notify_entries]
    split
    · rfl
    · rw [m'.lookup_modifyEntry_ne h]
  · rw [notify_entries]
    exact m'.lookup_modifyEntry_ne h _

theorem lookup_escalateHeld_ne (m : AlertManager) (h : other ≠ id) (now : Int) :
    (m.escalateHeld id now).entries.lookup other = m.entries.lookup other := by
  unfold escalateHeld
  split
  · rfl
  · rename_i held _
    rw [← m.lookup_modifyEntry_ne h (fun e => { e with held := none })]
    generalize m.modifyEntry id (fun e => { e with held := none }) = m'
    induction held.eachSource generalizing m' with
    | nil => rfl
    | cons source rest ih =>
      rw [List.foldl_cons, ih, m'.lookup_holdOrDeliver_ne h]

theorem lookup_settleEngagement_ne (m : AlertManager) (h : other ≠ id) (was moved : Bool) (lapse : Option EngagementLapse)
    (now : Int) :
    (m.settleEngagement id was moved lapse now).entries.lookup other = m.entries.lookup other := by
  unfold settleEngagement
  split
  · rfl
  split
  · rw [notify_entries, lookup_modifyEntry_ne _ h]
    exact m.lookup_modifyEntry_ne h _
  split
  · rw [notify_entries, m.lookup_modifyEntry_ne h]
  split
  · rw [notify_entries, m.lookup_escalateHeld_ne h]
  · rw [notify_entries]
    exact m.lookup_modifyEntry_ne h _

theorem held_escalateHeld (hen : m.isEngaged id = false) (now : Int) {e : AlertEntry}
    (he : (m.escalateHeld id now).entries.lookup id = some e) : e.held = none := by
  unfold escalateHeld at he
  split at he
  · rename_i hnone
    rw [he] at hnone
    exact hnone
  · rename_i held _
    have hmove := Moves.foldl (fun m source => m.moves_holdOrDeliver id source held.detail (some held.arrived) now)
      held.eachSource (m.modifyEntry id (fun e => { e with held := none }))
    refine hmove.unheld ?_ (fun e' he' => ?_) e he
    · rw [(m.moves_modify id (fun b e => e.step_unhold b)).isEngaged]
      exact hen
    · rw [lookup_modifyEntry] at he'
      obtain ⟨e₀, -, rfl⟩ := Option.map_eq_some_iff.mp he'
      rfl

/-- **What settling leaves to a Session**: unless it is passed over, nothing is held for nobody. -/
theorem attended_settleEngagement (m : AlertManager) (id : SessionId) (was moved : Bool) (lapse : Option EngagementLapse)
    (now : Int)
    (hskip : id ∈ m.helpers ∨ m.isEngaged id = was → ∀ e, m.entries.lookup id = some e → e.held.isSome = true →
      m.isEngaged id = true ∨ e.leaveGrace = true)
    {e : AlertEntry} (he : (m.settleEngagement id was moved lapse now).entries.lookup id = some e)
    (hh : e.held.isSome = true) : m.isEngaged id = true ∨ e.leaveGrace = true := by
  unfold settleEngagement at he
  split at he
  · rename_i hout
    rcases hout with hno | hpass
    · rw [AList.lookup_eq_none.mpr hno] at he
      cases he
    · exact hskip hpass e he hh
  · rename_i hin
    push Not at hin
    cases hen : m.isEngaged id with
    | true => exact .inl rfl
    | false =>
      have hwas : was = true := by
        cases was with
        | true => rfl
        | false => exact absurd hen hin.2.2
      subst hwas
      refine .inr ?_
      rw [if_neg (by decide)] at he
      split at he
      · rw [notify_entries, lookup_modifyEntry] at he
        obtain ⟨e₀, -, rfl⟩ := Option.map_eq_some_iff.mp he
        cases hh
      split at he
      · rw [notify_entries] at he
        rw [held_escalateHeld hen now he] at hh
        cases hh
      · rw [notify_entries] at he
        unfold startLeaveGrace at he
        rw [lookup_modifyEntry] at he
        obtain ⟨e₀, -, rfl⟩ := Option.map_eq_some_iff.mp he
        exact hh

/-! ### The report -/

theorem sound_setViewer (hs : EntriesSound m) (viewerId : ViewerId) (after : Option (Option SessionId))
    (lapse : Option EngagementLapse) (now : Int) :
    EntriesSound (m.setViewer viewerId after lapse now) := by
  unfold setViewer
  dsimp only
  split
  · exact hs
  · refine List.foldlRecOn _ _ ?_ (fun m' hm' t _ => sound_settleEngagement hm' t.1 t.2 _ lapse now)
    exact hs

def settleLeft (m : AlertManager) (viewerId : ViewerId) (after : Option (Option SessionId))
    (lapse : Option EngagementLapse) (now : Int) : AlertManager :=
  match m.viewers.lookup viewerId with
  | some (some id) => (m.reported viewerId after).settleEngagement id (m.isEngaged id) after.isSome lapse now
  | _              => m.reported viewerId after

/-- The second half: the Session that the viewer points at now, which was engaged as it was in `before`. -/
def settleEntered (m before : AlertManager) (after : Option (Option SessionId)) (lapse : Option EngagementLapse)
    (now : Int) : AlertManager :=
  match after with
  | some (some id) => m.settleEngagement id (before.isEngaged id) true lapse now
  | _              => m

variable {after : Option (Option SessionId)}

theorem setViewer_eq (hne : m.viewers.lookup viewerId ≠ after) (lapse : Option EngagementLapse) (now : Int) :
    m.setViewer viewerId after lapse now = (m.settleLeft viewerId after lapse now).settleEntered m after lapse now := by
  unfold setViewer settleLeft settleEntered
  dsimp only
  rw [if_neg hne]
  clear hne
  generalize m.viewers.lookup viewerId = before
  rcases before with _ | _ | b <;> rcases after with _ | _ | a <;> rfl

/-- A viewer leaves a helper that holds an alert, with no grace running and nobody else looking. -/
def Deserted (m : AlertManager) (viewerId : ViewerId) (after : Option (Option SessionId)) : Prop :=
  ∃ id e, m.viewers.lookup viewerId = some (some id) ∧ after ≠ some (some id) ∧
    (∀ other, other ≠ viewerId → m.viewers.lookup other ≠ some (some id)) ∧ id ∈ m.helpers ∧
    m.entries.lookup id = some e ∧ e.held.isSome = true ∧ e.leaveGrace = false

theorem isEngaged_reported_eq_false (hafter : after ≠ some (some id))
    (hothers : ∀ other, other ≠ viewerId → m.viewers.lookup other ≠ some (some id)) :
    (m.reported viewerId after).isEngaged id = false := by
  rw [← Bool.not_eq_true, isEngaged_iff]
  rintro ⟨v, hv⟩
  by_cases h : v = viewerId
  · subst h
    rw [lookup_reported] at hv
    exact hafter hv
  · rw [m.lookup_reported_ne h] at hv
    exact hothers v h hv

theorem settleLeft_viewers (m : AlertManager) (viewerId : ViewerId) (after : Option (Option SessionId))
    (lapse : Option EngagementLapse) (now : Int) :
    (m.settleLeft viewerId after lapse now).viewers = (m.reported viewerId after).viewers := by
  unfold settleLeft
  split
  · exact settleEngagement_viewers _ _ _ _ lapse now
  · rfl

theorem isEngaged_congr {m m' : AlertManager} (h : m'.viewers = m.viewers) (id : SessionId) :
    m'.isEngaged id = m.isEngaged id := by
  unfold isEngaged
  rw [h]

/-- **The Session a viewer leaves is settled**, if it is not deserted. -/
theorem attended_settleLeft (ha : Attended m) (hne : m.viewers.lookup viewerId ≠ after) (hd : ¬ Deserted m viewerId after)
    (lapse : Option EngagementLapse) (now : Int) : Attended (m.settleLeft viewerId after lapse now) := by
  intro id e he hh
  rw [isEngaged_congr (m.settleLeft_viewers viewerId after lapse now)]
  by_cases hleft : m.viewers.lookup viewerId = some (some id)
  · have hwas : m.isEngaged id = true := (m.isEngaged_iff id).mpr ⟨viewerId, hleft⟩
    have hafter : after ≠ some (some id) := fun h => hne (hleft.trans h.symm)
    unfold settleLeft at he
    rw [hleft] at he
    dsimp only at he
    refine attended_settleEngagement _ id _ _ lapse now (fun hpass e₀ he₀ hh₀ => ?_) he hh
    by_contra hcon
    rw [not_or, Bool.not_eq_true, Bool.not_eq_true] at hcon
    rcases hpass with hhelper | hsame
    · refine hd ⟨id, e₀, hleft, hafter, fun other hother hl => ?_, hhelper, he₀, hh₀, hcon.2⟩
      have : (m.reported viewerId after).isEngaged id = true :=
        (isEngaged_iff _ id).mpr ⟨other, (m.lookup_reported_ne hother after).trans hl⟩
      rw [hcon.1] at this
      cases this
    · rw [hcon.1, hwas] at hsame
      cases hsame
  · have he' : m.entries.lookup id = some e := by
      unfold settleLeft at he
      split at he
      · rename_i b hb
        have hidb : id ≠ b := by
          rintro rfl
          exact hleft hb
        rw [lookup_settleEngagement_ne _ hidb] at he
        exact he
      · exact he
    exact (ha id e he' hh).imp (fun hen => isEngaged_reported hen hleft after) (fun hg => hg)

theorem attended_setViewer (ha : Attended m) (hd : ¬ Deserted m viewerId after) (lapse : Option EngagementLapse)
    (now : Int) :
    Attended (m.setViewer viewerId after lapse now) := by
  by_cases hne : m.viewers.lookup viewerId = after
  · unfold setViewer
    rw [if_pos hne]
    exact ha
  · have hleft := attended_settleLeft ha hne hd lapse now
    rw [setViewer_eq hne]
    unfold settleEntered
    split
    · rename_i a
      intro id e he hh
      rw [isEngaged_congr (settleEngagement_viewers _ a _ _ lapse now)]
      by_cases h : id = a
      · subst h
        exact attended_settleEngagement _ id _ _ lapse now (fun _ => hleft id) he hh
      · rw [lookup_settleEngagement_ne _ h] at he
        exact hleft id e he hh
    · exact hleft

/-- **A deserted helper keeps its alert**, and nothing is left that would release it. -/
theorem not_attended_of_deserted (hd : Deserted m viewerId after) (lapse : Option EngagementLapse) (now : Int) :
    ¬ Attended (m.setViewer viewerId after lapse now) := by
  obtain ⟨id, e, hleft, hafter, hothers, hhelper, he, hh, hgrace⟩ := hd
  have hne : m.viewers.lookup viewerId ≠ after := fun h => hafter (h.symm.trans hleft)
  have hoff := isEngaged_reported_eq_false hafter hothers
  have hpassed : m.settleLeft viewerId after lapse now = m.reported viewerId after := by
    unfold settleLeft
    rw [hleft]
    exact if_pos (.inr (.inl hhelper))
  have hend : (m.setViewer viewerId after lapse now).entries.lookup id = some e ∧
      (m.setViewer viewerId after lapse now).viewers = (m.reported viewerId after).viewers := by
    rw [setViewer_eq hne, hpassed]
    unfold settleEntered
    split
    · rename_i a
      have hida : id ≠ a := by
        rintro rfl
        exact hafter rfl
      rw [lookup_settleEngagement_ne _ hida, settleEngagement_viewers]
      exact ⟨he, rfl⟩
    · exact ⟨he, rfl⟩
  intro ha
  rcases ha id e hend.1 hh with hen | hg
  · rw [isEngaged_congr hend.2, hoff] at hen
    cases hen
  · rw [hgrace] at hg
    cases hg

/-! ### The leave grace -/

/-- **A leave grace that runs out leaves nothing held.** -/
theorem held_leaveGraceFires {e e' : AlertEntry} (now : Int) (he : m.entries.lookup id = some e) (hg : e.leaveGrace = true)
    (he' : (m.leaveGraceFires id now).entries.lookup id = some e') : e'.held = none := by
  unfold leaveGraceFires at he'
  rw [he] at he'
  dsimp only at he'
  rw [hg, if_neg (by decide)] at he'
  split at he'
  · rename_i hempty
    refine held_escalateHeld ?_ now he'
    unfold isEngaged
    rw [List.isEmpty_iff.mp hempty]
    rfl
  · rw [lookup_modifyEntry] at he'
    obtain ⟨e₀, -, rfl⟩ := Option.map_eq_some_iff.mp he'
    rfl

theorem sound_leaveGraceFires (hs : EntriesSound m) (id : SessionId) (now : Int) :
    EntriesSound (m.leaveGraceFires id now) := by
  unfold leaveGraceFires
  split
  · exact hs
  · dsimp only
    have hend : EntriesSound (m.endLeaveGrace id) := sound_modify (fun e h => sound_leaveGrace h _) hs
    split
    · exact hs
    split
    · exact (moves_escalateHeld _ id now).sound hend
    · exact (moves_modify _ id (fun b e => e.step_unhold b)).sound hend

theorem attended_leaveGraceFires (ha : Attended m) (id : SessionId) (now : Int) :
    Attended (m.leaveGraceFires id now) := by
  cases he : m.entries.lookup id with
  | none =>
    unfold leaveGraceFires
    rw [he]
    exact ha
  | some e =>
    cases hg : e.leaveGrace with
    | false =>
      unfold leaveGraceFires
      rw [he]
      dsimp only
      rw [hg]
      exact ha
    | true =>
      intro other e' he' hh'
      by_cases h : other = id
      · subst h
        rw [held_leaveGraceFires now he hg he'] at hh'
        cases hh'
      · have hsame : (m.leaveGraceFires id now).viewers = m.viewers ∧
            (m.leaveGraceFires id now).entries.lookup other = m.entries.lookup other := by
          unfold leaveGraceFires
          rw [he]
          dsimp only
          rw [hg, if_neg (by decide)]
          split
          · rw [(moves_escalateHeld _ id now).viewers, lookup_escalateHeld_ne _ h]
            exact ⟨m.modifyEntry_viewers id _, m.lookup_modifyEntry_ne h _⟩
          · rw [modifyEntry_viewers, lookup_modifyEntry_ne _ h]
            exact ⟨m.modifyEntry_viewers id _, m.lookup_modifyEntry_ne h _⟩
        rw [isEngaged_congr hsame.1]
        rw [hsame.2] at he'
        exact ha other e' he' hh'

end AlertManager

/-! ## Runs -/

section Runs

variable {P : Term.Payloads} (R : AlertReaders)

def AlertOp.report : AlertOp P → Option (ViewerId × Option (Option SessionId))
  | .setViewer viewerId after _ _ => some (viewerId, after)
  | .removeViewer viewerId _      => some (viewerId, none)
  | _                             => none

/-- **What an operation can be**: it moves entries, is a viewer's report, is the end of a leave grace, or drops every
entry. -/
theorem step_cases (m : AlertManager) (op : AlertOp P) :
    (op.report = none ∧ Moves m (m.step R op)) ∨
    (∃ viewerId after lapse now, op.report = some (viewerId, after) ∧
      m.step R op = m.setViewer viewerId after lapse now) ∨
    (op.report = none ∧ ∃ id now, m.step R op = m.leaveGraceFires id now) ∨
    (op.report = none ∧ (m.step R op).entries = ∅) := by
  cases op with
  | setHelper id helper => exact .inl ⟨rfl, m.moves_setHelper id helper⟩
  | onData id now => exact .inl ⟨rfl, m.moves_onData id now⟩
  | onExit id exitCode now => exact .inl ⟨rfl, m.moves_onExit R id exitCode now⟩
  | onWrite id data userInput now => exact .inl ⟨rfl, m.moves_onWrite R id data userInput now⟩
  | setWatchedCommands names => exact .inl ⟨rfl, m.moves_setWatchedCommands names⟩
  | setCommandWatched name watched => exact .inl ⟨rfl, m.moves_setCommandWatched name watched⟩
  | registerCompletionClaimant id claims => exact .inl ⟨rfl, .of_same rfl rfl⟩
  | unregisterClaimant id handle => exact .inl ⟨rfl, m.moves_dropClaimant id _⟩
  | awaitCompletion id until' timeoutMs now => exact .inl ⟨rfl, m.moves_awaitCompletion id until' timeoutMs now⟩
  | cancelAwait id handle now => exact .inl ⟨rfl, m.moves_endAwait id handle .cancelled now⟩
  | notifyFromProtocol id notification now => exact .inl ⟨rfl, m.moves_notifyFromProtocol R id notification now⟩
  | updateProtocolProgress id state percent now =>
    exact .inl ⟨rfl, m.moves_updateProtocolProgress id state percent now⟩
  | applyTerminalSemanticEvents id events now =>
    exact .inl ⟨rfl, m.moves_applyTerminalSemanticEvents R id events now⟩
  | setViewer viewerId after lapse now => exact .inr (.inl ⟨viewerId, after, lapse, now, rfl, rfl⟩)
  | removeViewer viewerId now => exact .inr (.inl ⟨viewerId, none, some .leave, now, rfl, rfl⟩)
  | acknowledge id input now => exact .inl ⟨rfl, m.moves_acknowledge R id input now⟩
  | dismissAlert id => exact .inl ⟨rfl, m.moves_dismissAlert id⟩
  | toggleTodo id => exact .inl ⟨rfl, m.moves_toggleTodo id⟩
  | clearTodo id => exact .inl ⟨rfl, m.moves_clearTodo id⟩
  | silenceRun id => exact .inl ⟨rfl, m.moves_silenceRun id⟩
  | remove id now => exact .inl ⟨rfl, m.moves_discard id now⟩
  | restart id now => exact .inl ⟨rfl, m.moves_restart id now⟩
  | seed id todo notification => exact .inl ⟨rfl, m.moves_seed id todo notification⟩
  | dispose now => exact .inr (.inr (.inr ⟨rfl, rfl⟩))
  | detectorFires id kind now => exact .inl ⟨rfl, m.moves_detectorFires R id kind now⟩
  | progressEndFires id now => exact .inl ⟨rfl, m.moves_settleProgressEnd R id now⟩
  | leaveGraceFires id now => exact .inr (.inr (.inl ⟨rfl, id, now, rfl⟩))
  | awaitGraceFires id handle now => exact .inl ⟨rfl, m.moves_awaitGraceFires id handle now⟩
  | awaitTimeoutFires id handle now => exact .inl ⟨rfl, m.moves_endAwait id handle .timeout now⟩

theorem sound_init : EntriesSound .create := by
  intro id e he
  cases he

theorem attended_init : Attended .create := by
  intro id e he
  cases he

theorem sound_step {m : AlertManager} (hs : EntriesSound m) (op : AlertOp P) : EntriesSound (m.step R op) := by
  rcases step_cases R m op with ⟨-, hm⟩ | ⟨viewerId, after, lapse, now, -, heq⟩ | ⟨-, id, now, heq⟩ | ⟨-, hempty⟩
  · exact hm.sound hs
  · rw [heq]
    exact AlertManager.sound_setViewer hs viewerId after lapse now
  · rw [heq]
    exact AlertManager.sound_leaveGraceFires hs id now
  · intro id e he
    rw [hempty, AList.lookup_empty] at he
    cases he

/-- **Every entry of every reachable manager is sound**: what rings and what is held has sources, each once; a Session
whose quiet was acknowledged does not ring; a Session with a notification or a held alert is a TODO. -/
theorem alert_entries_sound (ops : List (AlertOp P)) : EntriesSound (Steps.run (AlertManager.step R) .create ops) :=
  Steps.run_invariant (I := EntriesSound) (fun _ op hs => sound_step R hs op) ops _ sound_init

def Deserts (m : AlertManager) (op : AlertOp P) : Prop :=
  ∃ viewerId after, op.report = some (viewerId, after) ∧ AlertManager.Deserted m viewerId after

/-- **A step keeps every held alert attended exactly when it deserts nobody.** -/
theorem attended_step {m : AlertManager} (ha : Attended m) (op : AlertOp P) :
    Attended (m.step R op) ↔ ¬ Deserts m op := by
  have hquiet : op.report = none → ¬ Deserts m op := by
    rintro hnone ⟨viewerId, after, hrep, -⟩
    rw [hnone] at hrep
    cases hrep
  rcases step_cases R m op with ⟨hq, hm⟩ | ⟨viewerId, after, lapse, now, hrep, heq⟩ | ⟨hq, id, now, heq⟩ | ⟨hq, hempty⟩
  · exact iff_of_true (hm.attended ha) (hquiet hq)
  · rw [heq]
    constructor
    · rintro hatt ⟨viewerId', after', hrep', hd⟩
      rw [hrep] at hrep'
      cases hrep'
      exact AlertManager.not_attended_of_deserted hd lapse now hatt
    · intro hno
      exact AlertManager.attended_setViewer ha (fun hd => hno ⟨viewerId, after, hrep, hd⟩) lapse now
  · rw [heq]
    exact iff_of_true (AlertManager.attended_leaveGraceFires ha id now) (hquiet hq)
  · refine iff_of_true (fun id e he => ?_) (hquiet hq)
    rw [hempty, AList.lookup_empty] at he
    cases he

/-- **An alert is held only for someone who may be looking**, in every state of a run, exactly when no step of the run
deserts a helper; and a leave grace that runs out leaves nothing held. -/
theorem held_alerts_attended (ops : List (AlertOp P)) :
    ((∀ k, Attended (Steps.run (AlertManager.step R) .create (ops.take k))) ↔
      Steps.Along (AlertManager.step R) (fun m op => ¬ Deserts m op) .create ops) ∧
    ∀ (m : AlertManager) (id : SessionId) (e e' : AlertEntry) (now : Int), m.entries.lookup id = some e →
      e.leaveGrace = true → (m.leaveGraceFires id now).entries.lookup id = some e' → e'.held = none := by
  refine ⟨?_, fun m id e e' now he hg he' => AlertManager.held_leaveGraceFires now he hg he'⟩
  exact Steps.states_iff_along (I := Attended) (fun _ op ha => attended_step R ha op) ops _ attended_init

end Runs

def plainReaders : AlertReaders := ⟨fun _ => none, id, fun _ _ => false, fun _ => []⟩

/-- A Session in view reports and is demoted; its one viewer leaves, and it is promoted again. -/
def desertedRun : List (AlertOp ⟨Unit, Unit, Unit, Unit, Unit⟩) :=
  let pane := units "pane"
  [ .setViewer (units "window") (some (some pane)) none 0,
    .notifyFromProtocol pane (.obj [(units "source", .str (units "BEL")), (units "title", .str (units "Bell"))]) 1,
    .setHelper pane true,
    .removeViewer (units "window") 2,
    .setHelper pane false ]

theorem deserted_alert_unattended : ¬ Attended (Steps.run (AlertManager.step plainReaders) .create desertedRun) := by
  have hkept : ((Steps.run (AlertManager.step plainReaders) .create desertedRun).entries.lookup (units "pane")).any
      (fun e => e.held.isSome && !e.leaveGrace) = true := by decide +kernel
  have hoff : (Steps.run (AlertManager.step plainReaders) .create desertedRun).isEngaged (units "pane") = false := by
    decide +kernel
  obtain ⟨e, he, hh⟩ := (Option.any_eq_true _ _).mp hkept
  rw [Bool.and_eq_true, Bool.not_eq_true'] at hh
  intro ha
  rcases ha (units "pane") e he hh.1 with hen | hg
  · rw [hoff] at hen
    cases hen
  · rw [hh.2] at hg
    cases hg

end Alert
end Dormouse

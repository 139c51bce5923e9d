import Dormouse.AlertPublish
/-!
# AlertTold — every operation of the alert manager publishes what it changed

One lemma an operation or a part of one, in the order of `AlertManager`.  The parts that may leave a Session behind return
a flag or are followed by a publish; what each leaves is said where it is.
-/
namespace Dormouse
namespace Alert

/-! ## What keeps a ring -/

namespace AlertEntry

variable {e e' : AlertEntry}

theorem keepsRing_of_ring (h : e'.ring = e.ring) : e.KeepsRing e' := by
  refine .inr ?_
  unfold episodeId
  rw [h]

theorem KeepsRing.trans {e e' e'' : AlertEntry} (h : e.KeepsRing e') (h' : e'.KeepsRing e'') : e.KeepsRing e'' := by
  rcases h' with h' | h'
  · exact .inl h'
  · unfold KeepsRing
    rw [h']
    exact h

theorem keepsRing_updateReceipt (e : AlertEntry) (detail : ActivityNotification) : e.KeepsRing (e.updateReceipt detail) := by
  unfold updateReceipt
  split
  · exact .inr rfl
  · exact .inr rfl

theorem keepsRing_invalidateWatching (e : AlertEntry) (voids : JsString → Bool) :
    e.KeepsRing (e.invalidateWatching voids) := by
  unfold KeepsRing episodeId invalidateWatching
  dsimp only
  cases e.ring with
  | none => exact .inl rfl
  | some ring =>
    rw [Option.bind_some]
    unfold Ring.voidWatching
    split
    · cases ring.dropWatching with
      | none => exact .inl rfl
      | some set => exact .inr rfl
    · exact .inr rfl

theorem keepsRing_withdrawListed {source : ListedRingSource} (h : e.withdrawListed source = some e') :
    e.KeepsRing e' := by
  unfold withdrawListed at h
  cases hring : e.ring with
  | none =>
    rw [hring] at h
    cases h
  | some ring =>
    rw [hring] at h
    dsimp only at h
    split at h
    · cases h
      unfold KeepsRing episodeId
      rw [hring]
      dsimp only
      split
      · exact .inl rfl
      · exact .inr rfl
    · cases h

theorem keepsRing_withdrawWatching (h : e.withdrawWatching = some e') : e.KeepsRing e' := by
  unfold withdrawWatching at h
  cases hring : e.ring with
  | none =>
    rw [hring] at h
    cases h
  | some ring =>
    rw [hring] at h
    dsimp only at h
    split at h
    · cases h
    · cases h
      unfold KeepsRing episodeId answeredWatching
      rw [hring]
      dsimp only
      cases ring.dropWatching with
      | none => exact .inl rfl
      | some set => exact .inr rfl

theorem keepsRing_consumeAwaitableRing {until' : AwaitUntil} {cause : AwaitCause}
    (h : e.consumeAwaitableRing until' = some (e', cause)) : e.KeepsRing e' := by
  unfold consumeAwaitableRing at h
  dsimp only at h
  split at h
  · rename_i hreport
    cases h
    split at hreport
    · exact keepsRing_withdrawListed hreport
    · cases hreport
  · rename_i hexit
    cases h
    split at hexit
    · exact keepsRing_withdrawListed hexit
    · cases hexit
  · rename_i hwatching
    cases h
    split at hwatching
    · exact keepsRing_withdrawWatching hwatching
    · cases hwatching
  · cases h

theorem keepsRing_clearRingForUser (e : AlertEntry) : e.KeepsRing e.clearRingForUser.1 := by
  unfold clearRingForUser
  split
  · exact .inr rfl
  · dsimp only
    split
    · exact .inl rfl
    · exact .inl rfl

theorem ring_ringToTodo (e : AlertEntry) (ring : Option Ring) : (e.ringToTodo ring).ring = e.ring := by
  cases ring with
  | none => rfl
  | some r => rfl

theorem keepsRing_lookAt (e : AlertEntry) : e.KeepsRing e.lookAt :=
  e.keepsRing_clearRingForUser.trans (keepsRing_of_ring (ring_ringToTodo _ _))

theorem keepsRing_setTodo (e : AlertEntry) (todo : Bool) : e.KeepsRing (e.setTodo todo) := by
  refine e.keepsRing_clearRingForUser.trans (keepsRing_of_ring ?_)
  unfold setTodo
  dsimp only
  split
  · exact ring_ringToTodo _ _
  · rfl

theorem episodeId_raiseRing (e : AlertEntry) (source : RingSource) (detail : ActivityNotification) (arrived : Nat)
    (episode : AlertEpisode) :
    (e.raiseRing source detail arrived episode).episodeId = if e.ring.isNone then some episode.id else e.episodeId := by
  unfold raiseRing episodeId
  cases e.ring with
  | none => rfl
  | some ring => rfl

end AlertEntry

namespace AlertManager

/-! ## Completions -/

theorem touches_raise (m : AlertManager) (id : SessionId) (source : RingSource) (detail : ActivityNotification)
    (arrived : Nat) (now : Int) :
    Touches id m
      { m.modifyEntry id (·.raiseRing source detail arrived ⟨m.episodes, now⟩) with
        episodes := if (m.entries.lookup id).any (fun e => e.ring.isNone) then m.episodes + 1 else m.episodes } := by
  obtain ⟨hh, hw, ha, hl, hx, -⟩ := m.modifyEntry_same id (·.raiseRing source detail arrived ⟨m.episodes, now⟩)
  refine .quiet (m.modifyEntry_viewers id _) hw hh (fun k hk => m.lookup_modifyEntry_ne hk _)
    (fun hp => (m.mem_modifyEntry id id _).mpr hp) ha hl hx ?_ ?_
  · show m.episodes ≤ if _ then m.episodes + 1 else m.episodes
    split
    · exact Nat.le_succ _
    · exact le_refl _
  · unfold ringingEpisode
    rw [lookup_modifyEntry]
    cases he : m.entries.lookup id with
    | none => exact .inl rfl
    | some e =>
      rw [Option.map_some, Option.bind_some, Option.bind_some, AlertEntry.episodeId_raiseRing]
      by_cases hring : e.ring.isNone = true
      · refine .inr (.inr ⟨by rw [if_pos hring], ?_⟩)
        show m.episodes < if (some e).any (fun e => e.ring.isNone) = true then m.episodes + 1 else m.episodes
        rw [Option.any_some, if_pos hring]
        exact Nat.lt_succ_self _
      · exact .inr (.inl (by rw [if_neg hring]))

variable {m : AlertManager} {id : SessionId}

theorem publishes_holdOrDeliver (hp : id ∈ m.entries) (source : RingSource) (detail : ActivityNotification)
    (held : Option Nat) (now : Int) :
    Touches id m (m.holdOrDeliver id source detail held now) ∧ Current (m.holdOrDeliver id source detail held now) id := by
  unfold holdOrDeliver
  extract_lets arrived m' acked opens
  have h : Touches id m m' := .aside rfl rfl rfl rfl rfl rfl rfl rfl
  split
  · have h' : Touches id m (m'.modifyEntry id (·.hold source detail arrived)) :=
      h.trans (m'.touches_modify id (fun _ => .inr rfl))
    exact ⟨(h'.publish hp).toTouches, current_notify (h'.present hp)⟩
  split
  · have h' : Touches id m (if held.isSome then m' else m'.modifyEntry id (·.updateReceipt detail)) := by
      split
      · exact h
      · exact h.trans (m'.touches_modify id (fun e => e.keepsRing_updateReceipt detail))
    exact ⟨(h'.publish hp).toTouches, current_notify (h'.present hp)⟩
  · have h' := h.trans (m'.touches_raise id source detail arrived now)
    exact ⟨(h'.publish hp).toTouches, current_notify (h'.present hp)⟩

theorem told_holdOrDeliver (hp : id ∈ m.entries) (source : RingSource) (detail : ActivityNotification) (held : Option Nat)
    (now : Int) :
    Told id m (m.holdOrDeliver id source detail held now) :=
  ⟨(publishes_holdOrDeliver hp source detail held now).1, fun _ => (publishes_holdOrDeliver hp source detail held now).2⟩

theorem told_deliver (R : AlertReaders) (hp : id ∈ m.entries) (e : AlertEntry) (event : CompletionEvent) (now : Int) :
    Told id m (m.deliver R id e event now) := by
  unfold deliver
  split
  · split
    · exact .refl id m
    split
    · exact .refl id m
    · exact told_holdOrDeliver hp _ _ _ now
  · split
    · exact told_holdOrDeliver hp _ _ _ now
    · exact .refl id m
  · exact told_holdOrDeliver hp _ _ _ now

theorem told_dispatchCompletion (R : AlertReaders) (hp : id ∈ m.entries) (event : CompletionEvent) (now : Int) :
    Told id m (m.dispatchCompletion R id event now).1 := by
  have h := told_offerClaimants event now ((m.claimants.lookup id).getD []) hp
  unfold dispatchCompletion
  split
  · exact .refl id m
  split
  · rename_i heq
    rw [heq] at h
    exact h
  · rename_i m' heq
    rw [heq] at h
    split
    · exact h
    split
    · exact h.trans (told_notify (h.present hp))
    · exact h.trans (told_deliver R (h.present hp) _ event now)

/-- A report that nobody claims is published, whatever was left untold before, unless it is a helper's. -/
theorem current_dispatch_notification (R : AlertReaders) (hp : id ∈ m.entries) (hh : id ∉ m.helpers)
    (notification : ActivityNotification) (now : Int)
    (hr : (m.dispatchCompletion R id (.notification notification) now).2 = false) :
    Current (m.dispatchCompletion R id (.notification notification) now).1 id := by
  have h := told_offerClaimants (.notification notification) now ((m.claimants.lookup id).getD []) hp
  revert hr
  unfold dispatchCompletion
  rw [if_neg hh]
  split
  · intro hr
    cases hr
  · rename_i m' heq
    rw [heq] at h
    have hp' := h.present hp
    intro _
    split
    · rename_i hnone
      exact absurd hp' (AList.lookup_eq_none.mp hnone)
    split
    · exact current_notify hp'
    · exact (publishes_holdOrDeliver hp' _ _ _ now).2

theorem dispatch_helper (R : AlertReaders) (hh : id ∈ m.helpers) (event : CompletionEvent) (now : Int) :
    m.dispatchCompletion R id event now = (m, false) := by
  unfold dispatchCompletion
  rw [if_pos hh]

theorem told_modify_helper (hh : id ∈ m.helpers) {f : AlertEntry → AlertEntry} (hf : ∀ e : AlertEntry, e.KeepsRing (f e)) :
    Told id m (m.modifyEntry id f) := by
  obtain ⟨hh', -, -, hl, -, -⟩ := m.modifyEntry_same id f
  refine .of_same (m.touches_modify id hf) hl ?_
  rw [getState_helper hh, getState_helper (hh' ▸ hh)]

theorem told_escalateHeld (hp : id ∈ m.entries) (now : Int) :
    Told id m (m.escalateHeld id now) := by
  unfold escalateHeld
  split
  · exact .refl id m
  · have h : Told id m (m.modifyEntry id (fun e => { e with held := none })) := m.told_modify id (fun _ => rfl)
    exact h.trans (.foldl (h.present hp) (fun m source hp => told_holdOrDeliver hp source _ _ now) _)

/-! ## Progress and commands -/

theorem told_settleProgressEnd (R : AlertReaders) (hp : id ∈ m.entries) (now : Int) :
    Told id m (m.settleProgressEnd R id now) := by
  unfold settleProgressEnd
  split
  · exact .refl id m
  split
  · exact .refl id m
  · extract_lets body r
    have h : Touches id m (m.modifyEntry id (·.endRun)) := m.touches_modify id (fun _ => .inr rfl)
    have hr : Touches id m r.1 := h.trans (told_dispatchCompletion R (h.present hp) _ now).toTouches
    split
    · exact hr.publish hp
    · rename_i hunclaimed
      by_cases hh : id ∈ m.helpers
      · have hh' : id ∈ (m.modifyEntry id (·.endRun)).helpers := (m.modifyEntry_same id _).1 ▸ hh
        have heq : r = (m.modifyEntry id (·.endRun), false) := dispatch_helper R hh' _ now
        rw [heq]
        exact told_modify_helper hh (fun _ => .inr rfl)
      · have hh' : id ∉ (m.modifyEntry id (·.endRun)).helpers := (m.modifyEntry_same id _).1 ▸ hh
        exact ⟨hr, fun _ => current_dispatch_notification R (h.present hp) hh' _ now (Bool.eq_false_iff.mpr hunclaimed)⟩

theorem touches_endRunAtBoundary (R : AlertReaders) (hp : id ∈ m.entries) (now : Int) :
    Touches id m (m.endRunAtBoundary R id now).1 :=
  (told_settleProgressEnd R hp now).toTouches.trans (touches_modify _ id (fun _ => .inr rfl))

theorem touches_startCommandExitWatch (R : AlertReaders) (hp : id ∈ m.entries) (now : Int) :
    Touches id m (m.startCommandExitWatch R id now) := by
  unfold startCommandExitWatch
  refine (touches_endRunAtBoundary R hp now).trans (Touches.trans (touches_modify _ id ?_) (told_clearGraces _ id _).toTouches)
  exact fun _ => .inr rfl

/-- **What ends a command**, and when it says that nothing changed, nothing did. -/
theorem finishCommandExitWatch_spec (R : AlertReaders) (hp : id ∈ m.entries) (exitCode : Option Int) (now : Int) :
    Touches id m (m.finishCommandExitWatch R id exitCode now).1 ∧
      ((m.finishCommandExitWatch R id exitCode now).2 = false → Current m id →
        Current (m.finishCommandExitWatch R id exitCode now).1 id) := by
  have h := told_settleProgressEnd R hp now
  unfold finishCommandExitWatch endRunAtBoundary
  extract_lets m'
  have hm' : Told id m m' := h
  have hp' := hm'.present hp
  obtain ⟨e, he⟩ := mem_iff_lookup.mp hp'
  rw [he]
  dsimp only
  rw [lookup_modifyEntry, he]
  have ht : Touches id m' ((m'.modifyEntry id (·.endRun)).modifyEntry id
      (fun e => { e with commandExitWatch := none, pendingCommandLine := none })) := by
    refine Touches.trans (m'.touches_modify id ?_) (touches_modify _ id ?_)
    · exact fun _ => .inr rfl
    · exact fun _ => .inr rfl
  have hwatch : (Option.map (·.endRun) (some e)).bind (·.commandExitWatch) = e.commandExitWatch := rfl
  rw [hwatch]
  cases hw : e.commandExitWatch with
  | none =>
    refine ⟨hm'.toTouches.trans ht, fun hprogress hc => ?_⟩
    have hend : Told id m' (m'.modifyEntry id (·.endRun)) := by
      refine m'.told_modify_of id (fun e' he' => ?_)
      rw [he] at he'
      cases he'
      have hnone : e.progress.isSome = false := hprogress
      unfold AlertEntry.shown AlertEntry.endRun
      rw [hw, hnone]
      rfl
    have hforget : Told id (m'.modifyEntry id (·.endRun))
        ((m'.modifyEntry id (·.endRun)).modifyEntry id
          (fun e => { e with commandExitWatch := none, pendingCommandLine := none })) := by
      refine told_modify_of _ id (fun e' he' => ?_)
      rw [lookup_modifyEntry, he] at he'
      cases he'
      unfold AlertEntry.shown AlertEntry.endRun
      simp only [hw, Option.map_none]
    exact hforget.current (hend.current (hm'.current hc))
  | some w =>
    refine ⟨hm'.toTouches.trans (ht.trans (told_dispatchCompletion R (ht.present hp') _ now).toTouches), ?_⟩
    intro hf
    cases hf

end AlertManager

/-! ## The detector -/

/-- What was announced last has the status it ended with; where nothing was, the status it began with. -/
def Stirred.Voiced (d : QuiesceDetector) (s : Stirred) : Prop := s.detector.status = (s.published.getLast?.getD d).status

namespace Stirred

theorem Voiced.map {d : QuiesceDetector} {s : Stirred} (h : s.Voiced d) {f : QuiesceDetector → QuiesceDetector}
    (hf : ∀ d, (f d).status = d.status) : (s.map f).Voiced d := by
  show (f s.detector).status = _
  rw [hf]
  exact h

theorem Voiced.setStatus {d : QuiesceDetector} {s : Stirred} (h : s.Voiced d) (status : QuiesceStatus) :
    (s.setStatus status).Voiced d := by
  unfold Stirred.setStatus
  split
  · exact h
  · unfold Voiced
    rw [List.getLast?_concat]
    rfl

theorem Voiced.enterMightBeBusy {d : QuiesceDetector} {s : Stirred} (h : s.Voiced d) (now : Int) :
    (s.enterMightBeBusy now).Voiced d := by
  refine Voiced.map (Voiced.setStatus (Voiced.map h ?_) _) ?_
  · exact fun _ => rfl
  · exact fun _ => rfl

theorem Voiced.enterBusy {d : QuiesceDetector} {s : Stirred} (h : s.Voiced d) (now : Int) : (s.enterBusy now).Voiced d := by
  refine Voiced.map (Voiced.setStatus (Voiced.map h ?_) _) ?_
  · exact fun _ => rfl
  · exact fun _ => rfl

theorem Voiced.startBusyCandidateTimer {d : QuiesceDetector} {s : Stirred} (h : s.Voiced d) (now : Int) :
    (s.startBusyCandidateTimer now).Voiced d := by
  unfold Stirred.startBusyCandidateTimer
  split
  · exact h
  · exact h.map (fun _ => rfl)

theorem Voiced.handleNothingToShowOutput {d : QuiesceDetector} {s : Stirred} (h : s.Voiced d) (now : Int) :
    (s.handleNothingToShowOutput now).Voiced d := by
  unfold Stirred.handleNothingToShowOutput
  split
  · refine Voiced.startBusyCandidateTimer (Voiced.map h ?_) now
    exact fun _ => rfl
  · extract_lets counted
    have hc : counted.Voiced d := Voiced.map h (fun _ => rfl)
    split
    · exact hc.enterMightBeBusy now
    · exact hc

theorem Voiced.seedFromLatestOutput {d : QuiesceDetector} {s : Stirred} (h : s.Voiced d) (now : Int) :
    (s.seedFromLatestOutput now).Voiced d := by
  unfold Stirred.seedFromLatestOutput
  split
  · exact Voiced.map h (fun _ => rfl)
  · refine Voiced.startBusyCandidateTimer (Voiced.map h ?_) now
    exact fun _ => rfl

end Stirred

namespace QuiesceDetector

theorem voiced_expireHistory (d : QuiesceDetector) (now : Int) : (d.expireHistory now).Voiced d := by
  unfold expireHistory
  split
  · split
    · have h : (Stirred.ofDetector d.clearTimers.resetOutputTracking).Voiced d := rfl
      exact h.setStatus _
    · exact rfl
  · exact rfl

theorem voiced_onData (d : QuiesceDetector) (now : Int) : (d.onData now).1.Voiced d := by
  have h := d.voiced_expireHistory now
  unfold onData
  dsimp only
  split
  · exact h
  · have h' : ((d.expireHistory now).map (fun d => { d with lastOutputAt := some now })).Voiced d := h.map (fun _ => rfl)
    dsimp only
    split
    · exact h'.handleNothingToShowOutput now
    · exact h'.enterBusy now
    · exact h'.map (fun _ => rfl)
    · exact h'.enterBusy now

theorem voiced_fire (d : QuiesceDetector) (kind : DetectorTimer) (now : Int) (h : (d.fire kind now).2 = false) :
    (d.fire kind now).1.Voiced d := by
  have h0 : (Stirred.ofDetector { d with timers := d.timers.erase kind }).Voiced d := rfl
  revert h
  unfold fire
  dsimp only
  split
  · intro _
    dsimp only
    split
    · exact h0.enterMightBeBusy now
    · exact h0
  · intro _
    dsimp only
    split
    · exact (h0.seedFromLatestOutput now).setStatus _
    · exact h0
  · intro _
    split
    · exact (h0.setStatus _).map (fun _ => rfl)
    · exact h0
  · split
    · intro h
      cases h
    · exact fun _ => h0

end QuiesceDetector

namespace AlertManager

theorem told_write {m : AlertManager} {id : SessionId} {f : AlertEntry → AlertEntry} (hp : id ∈ m.entries)
    (hf : ∀ e : AlertEntry, e.KeepsRing (f e)) : Told id m ((m.modifyEntry id f).notify id) :=
  (m.touches_modify id hf).publish hp

theorem touches_stir {m : AlertManager} {id : SessionId} (hp : id ∈ m.entries) (s : Stirred) :
    Touches id m (m.stir id s) := by
  unfold stir
  refine Touches.trans (.foldl hp (fun m d hp => ?_) _) (touches_modify _ id (fun _ => .inr rfl))
  refine (told_write hp ?_).toTouches
  exact fun _ => .inr rfl

/-- **A detector that announces what it changed leaves its Session told.** -/
theorem told_stir {m : AlertManager} {id : SessionId} {e : AlertEntry} (he : m.entries.lookup id = some e) {s : Stirred}
    (hs : s.Voiced e.detector) : Told id m (m.stir id s) := by
  have hp : id ∈ m.entries := mem_iff_lookup.mpr ⟨e, he⟩
  refine ⟨touches_stir hp s, ?_⟩
  unfold Stirred.Voiced at hs
  unfold stir
  rcases List.eq_nil_or_concat s.published with hnil | ⟨init, d, hcat⟩
  · rw [hnil] at hs ⊢
    refine (m.told_modify_of id (fun e' he' => ?_)).current
    rw [he] at he'
    cases he'
    unfold AlertEntry.shown
    dsimp only
    rw [hs]
    rfl
  · rw [List.concat_eq_append] at hcat
    rw [hcat, List.getLast?_concat] at hs
    rw [hcat, List.foldl_append, List.foldl_cons, List.foldl_nil]
    generalize hf : init.foldl (fun m d => (m.modifyEntry id (fun e => { e with detector := d })).notify id) m = m'
    have hp' : id ∈ m'.entries := by
      rw [← hf]
      refine (Touches.foldl hp (fun m d hp => ?_) init).present hp
      refine (told_write hp ?_).toTouches
      exact fun _ => .inr rfl
    -- the last announcement told the status it ended with
    have hc : Current ((m'.modifyEntry id (fun e => { e with detector := d })).notify id) id :=
      current_notify ((m'.mem_modifyEntry id id _).mpr hp')
    intro _
    refine (told_modify_of _ id (fun e' he' => ?_)).current hc
    rw [notify_entries, lookup_modifyEntry] at he'
    obtain ⟨e'', -, rfl⟩ := Option.map_eq_some_iff.mp he'
    unfold AlertEntry.shown
    dsimp only
    rw [hs]
    rfl

theorem told_noteWork (m : AlertManager) (id : SessionId) : Told id m (m.noteWork id) := by
  refine (m.told_modify id (fun e => ?_)).trans (told_clearGraces _ id _)
  unfold AlertEntry.shown AlertEntry.noteWork
  dsimp only
  rw [Option.map_map]
  rfl

/-! ## The public operations

Each under the invariant that no await parks where no entry is. -/

section Operations

variable {m : AlertManager} {id : SessionId}

theorem told_onData (hw : m.waitersOf id ≠ [] → id ∈ m.entries) (now : Int) : Told id m (m.onData id now) := by
  unfold onData
  split
  · exact .refl id m
  · rename_i m' hs
    obtain ⟨h, hp⟩ := told_streamEntry hw hs
    split
    · exact h
    · rename_i e he
      split
      · exact h
      · dsimp only
        have hstir := h.trans (told_stir he (e.detector.voiced_onData now))
        split
        · exact hstir.trans (told_noteWork _ id)
        · exact hstir

theorem told_onExit (R : AlertReaders) (hw : m.waitersOf id ≠ [] → id ∈ m.entries) (exitCode : Option Int) (now : Int) :
    Told id m (m.onExit R id exitCode now) := by
  unfold onExit
  dsimp only
  by_cases hp : id ∈ m.entries
  · rw [if_pos hp]
    obtain ⟨ht, hc⟩ := finishCommandExitWatch_spec R hp exitCode now
    have h : Told id m (if (m.finishCommandExitWatch R id exitCode now).2 then
        (m.finishCommandExitWatch R id exitCode now).1.notify id else (m.finishCommandExitWatch R id exitCode now).1) := by
      split
      · exact ht.publish hp
      · rename_i hf
        exact ⟨ht, hc (Bool.eq_false_iff.mpr hf)⟩
    exact h.trans (told_settleWaiters (h.present hp) .died now)
  · rw [if_neg hp, settleWaiters_none (not_not.mp (fun h => hp (hw h)))]
    exact .refl id m

theorem told_acknowledge (R : AlertReaders) (m : AlertManager) (id : SessionId) (input : Bool) (now : Int) :
    Told id m (m.acknowledge R id input now) := by
  unfold acknowledge
  split
  · exact .refl id m
  · rename_i hp
    have hp := not_not.mp hp
    extract_lets m' m''
    have h : Told id m m' := by
      unfold m'
      split
      · exact m.told_modify id (fun _ => rfl)
      · exact .refl id m
    split
    · exact h
    · have h' : Touches id m m'' := h.toTouches.trans (m'.touches_modify id (fun _ => .inr rfl))
      split
      · have hs := h'.trans (told_settleProgressEnd R (h'.present hp) now).toTouches
        refine Touches.publish (hs.trans (Touches.trans (touches_modify _ id ?_) (touches_modify _ id ?_))) hp
        · exact fun e => e.keepsRing_clearRingForUser
        · exact fun e => e.keepsRing_setTodo false
      · exact Touches.publish (h'.trans (touches_modify _ id (fun e => e.keepsRing_lookAt))) hp

theorem told_onWrite (R : AlertReaders) (hw : m.waitersOf id ≠ [] → id ∈ m.entries) (data : JsString) (userInput : Bool)
    (now : Int) : Told id m (m.onWrite R id data userInput now) := by
  unfold onWrite
  extract_lets m'
  have h : Told id m m' := by
    unfold m'
    split
    · exact m.told_acknowledge R id true now
    · exact .refl id m
  split
  · split
    · exact h
    · rename_i m'' hs
      exact (h.trans (told_streamEntry (h.parked hw) hs).1).trans (told_modify _ id (fun _ => rfl))
  · exact h

theorem told_awaitCompletion (hw : m.waitersOf id ≠ [] → id ∈ m.entries) (until' : AwaitUntil) (timeoutMs : JsNum)
    (now : Int) : Told id m (m.awaitCompletion id until' timeoutMs now) := by
  have hsettled : ∀ (m : AlertManager) (outcome : AwaitOutcome), Told id m (m.settledAwait outcome) :=
    fun m outcome => .of_same (.aside rfl rfl rfl rfl rfl rfl rfl rfl) rfl (getState_congr rfl Iff.rfl rfl rfl rfl)
  unfold awaitCompletion
  split
  · exact hsettled m _
  split
  · split
    · exact hsettled m _
    split
    · exact hsettled m _
    · extract_lets m' grace m''
      have h : Told id m m' := told_getOrCreateEntry hw
      have hp : id ∈ m'.entries := m.mem_getOrCreateEntry id
      split
      · rename_i e' cause hconsume
        have hkeeps : Touches id m' (m'.modifyEntry id (fun _ => e')) := by
          refine m'.touches_modify_of id (fun e he => ?_)
          rw [he] at hconsume
          exact AlertEntry.keepsRing_consumeAwaitableRing hconsume
        exact h.trans ((hkeeps.publish hp).trans (hsettled _ _))
      · refine h.trans (Touches.publish ?_ hp)
        refine Touches.trans (?_ : Touches id m' m'') (.aside rfl rfl rfl rfl rfl rfl rfl rfl)
        unfold m'' addWaiter
        split
        · exact touches_awaits rfl rfl rfl rfl (fun k hk => AList.lookup_insert_ne hk) rfl rfl rfl (fun _ => .inr hp)
        · exact touches_awaits rfl rfl rfl rfl (fun k hk => AList.lookup_insert_ne hk) rfl rfl rfl (fun _ => .inr hp)
  · exact hsettled m _

theorem told_endAwait (hw : m.waitersOf id ≠ [] → id ∈ m.entries) (handle : Nat) (outcome : Int → AwaitOutcome)
    (now : Int) : Told id m (m.endAwait id handle outcome now) := by
  unfold endAwait
  split
  · exact .refl id m
  · rename_i w hfind
    exact told_settleWaiter (hw (List.ne_nil_of_mem (List.mem_of_find?_eq_some hfind))) handle _

theorem told_notifyFromProtocol (R : AlertReaders) (hw : m.waitersOf id ≠ [] → id ∈ m.entries) (notification : Json)
    (now : Int) : Told id m (m.notifyFromProtocol R id notification now) := by
  unfold notifyFromProtocol
  split
  · exact .refl id m
  · extract_lets m'
    have h : Told id m m' := told_reportedEntry hw
    split
    · exact h
    · exact h.trans (told_dispatchCompletion R (m.mem_reportedEntry id) _ now)

theorem told_updateProtocolProgress (hw : m.waitersOf id ≠ [] → id ∈ m.entries) (state : Term.ProgressState)
    (percent : Option JsNum) (now : Int) : Told id m (m.updateProtocolProgress id state percent now) := by
  unfold updateProtocolProgress
  split
  · exact .refl id m
  · extract_lets m' live worked expecting
    have h : Told id m m' := told_reportedEntry hw
    have hp : id ∈ m'.entries := m.mem_reportedEntry id
    have hlive : (m'.entries.lookup id).bind (·.progress) = live := rfl
    clear_value live
    split
    · cases live with
      | none => exact h
      | some running =>
        dsimp only
        split
        · exact h
        · -- a cycle that ends still shows until its grace is over
          refine h.trans (m'.told_modify_of id (fun e he => ?_))
          have hrunning : e.progress = some running := by
            rwa [he] at hlive
          unfold AlertEntry.shown
          rw [hrunning]
          rfl
    · have hcancel : Told id m' (m'.modifyEntry id (·.cancelProgressEnd)) := by
        refine m'.told_modify id (fun e => ?_)
        unfold AlertEntry.shown AlertEntry.cancelProgressEnd
        dsimp only
        rw [Option.isSome_map]
      have hworked : Told id m' worked := hcancel.trans (told_noteWork _ id)
      have hexpecting : Told id m' expecting := hworked.trans (worked.told_modify id (fun _ => rfl))
      split
      · exact h.trans hexpecting
      · refine h.trans (hexpecting.trans (told_write (hexpecting.present hp) ?_))
        exact fun _ => .inr rfl

/-- **What one event of a terminal does**, and when it says that nothing changed, nothing did. -/
theorem applyTerminalSemanticEvent_spec {P : Term.Payloads} (R : AlertReaders) (hp : id ∈ m.entries)
    (event : Term.SemanticEvent P) (now : Int) :
    Touches id m (m.applyTerminalSemanticEvent R id event now).1 ∧
      ((m.applyTerminalSemanticEvent R id event now).2 = false → Current m id →
        Current (m.applyTerminalSemanticEvent R id event now).1 id) := by
  unfold applyTerminalSemanticEvent
  split
  · rename_i commandLine
    have h : Told id m (m.modifyEntry id (fun e => { e with pendingCommandLine := some commandLine })) :=
      m.told_modify id (fun _ => rfl)
    exact ⟨h.toTouches, fun _ => h.current⟩
  · exact ⟨touches_startCommandExitWatch R hp now, fun h => by cases h⟩
  · exact finishCommandExitWatch_spec R hp _ now
  · exact finishCommandExitWatch_spec R hp none now
  · exact finishCommandExitWatch_spec R hp none now
  · exact ⟨.refl id m, fun _ h => h⟩
  · exact ⟨.refl id m, fun _ h => h⟩

theorem foldl_applyTerminalSemanticEvent {P : Term.Payloads} (R : AlertReaders) (events : List (Term.SemanticEvent P))
    (now : Int) (r : AlertManager × Bool) (hp : id ∈ r.1.entries) :
    let r' := events.foldl
      (fun (r : AlertManager × Bool) event =>
        let next := r.1.applyTerminalSemanticEvent R id event now
        (next.1, next.2 || r.2)) r
    Touches id r.1 r'.1 ∧ (r'.2 = false → r.2 = false ∧ (Current r.1 id → Current r'.1 id)) := by
  induction events generalizing r with
  | nil => exact ⟨.refl id r.1, fun h => ⟨h, fun h => h⟩⟩
  | cons event events ih =>
    obtain ⟨ht, hc⟩ := applyTerminalSemanticEvent_spec R hp event now
    obtain ⟨ht', hc'⟩ := ih ((r.1.applyTerminalSemanticEvent R id event now).1,
      (r.1.applyTerminalSemanticEvent R id event now).2 || r.2) (ht.present hp)
    refine ⟨ht.trans ht', fun h => ?_⟩
    obtain ⟨hflag, hcur⟩ := hc' h
    rw [Bool.or_eq_false_iff] at hflag
    exact ⟨hflag.2, fun h => hcur (hc hflag.1 h)⟩

theorem told_applyTerminalSemanticEvents {P : Term.Payloads} (R : AlertReaders)
    (hw : m.waitersOf id ≠ [] → id ∈ m.entries) (events : List (Term.SemanticEvent P)) (now : Int) :
    Told id m (m.applyTerminalSemanticEvents R id events now) := by
  unfold applyTerminalSemanticEvents
  split
  · exact .refl id m
  · extract_lets r
    have h : Told id m (m.reportedEntry id) := told_reportedEntry hw
    have hp : id ∈ (m.reportedEntry id).entries := m.mem_reportedEntry id
    obtain ⟨ht, hc⟩ := foldl_applyTerminalSemanticEvent R events now (m.reportedEntry id, false) hp
    split
    · exact h.trans (Touches.publish ht hp)
    · rename_i hf
      exact h.trans ⟨ht, (hc (Bool.eq_false_iff.mpr hf)).2⟩

theorem told_dismissAlert (m : AlertManager) (id : SessionId) : Told id m (m.dismissAlert id) := by
  unfold dismissAlert
  split
  · rename_i hp
    exact told_write hp (fun e => e.keepsRing_lookAt)
  · exact .refl id m

theorem told_setTodoForUser (hp : id ∈ m.entries) (todo : Bool) : Told id m (m.setTodoForUser id todo) :=
  told_write hp (fun e => e.keepsRing_setTodo todo)

theorem told_toggleTodo (hw : m.waitersOf id ≠ [] → id ∈ m.entries) : Told id m (m.toggleTodo id) := by
  unfold toggleTodo
  split
  · exact .refl id m
  · exact (told_getOrCreateEntry hw).trans (told_setTodoForUser (m.mem_getOrCreateEntry id) _)

theorem told_clearTodo (hw : m.waitersOf id ≠ [] → id ∈ m.entries) : Told id m (m.clearTodo id) := by
  unfold clearTodo
  split
  · exact .refl id m
  · exact (told_getOrCreateEntry hw).trans (told_setTodoForUser (m.mem_getOrCreateEntry id) false)

theorem told_silenceRun (m : AlertManager) (id : SessionId) : Told id m (m.silenceRun id) := by
  unfold silenceRun
  split
  · rename_i hp
    exact told_write hp (fun _ => .inr rfl)
  · exact .refl id m

theorem told_seed (hw : m.waitersOf id ≠ [] → id ∈ m.entries) (todo : Json) (notification : Option Json) :
    Told id m (m.seed id todo notification) := by
  unfold seed
  split
  · exact .refl id m
  · exact (told_getOrCreateEntry hw).trans (told_write (m.mem_getOrCreateEntry id) (fun _ => .inl rfl))

theorem told_detectorFires (R : AlertReaders) (m : AlertManager) (id : SessionId) (kind : DetectorTimer) (now : Int) :
    Told id m (m.detectorFires R id kind now) := by
  unfold detectorFires
  split
  · exact .refl id m
  · rename_i e he
    have hp : id ∈ m.entries := mem_iff_lookup.mpr ⟨e, he⟩
    split
    · exact .refl id m
    · extract_lets r m' d settled
      have h : Touches id m m' := touches_stir hp _
      split
      · refine Touches.publish (?_ : Touches id m settled) hp
        unfold settled
        split
        · exact h
        · have hd : Touches id m d.1 := h.trans (told_dispatchCompletion R (h.present hp) _ now).toTouches
          split
          · exact (Touches.publish (hd.trans (touches_modify _ id (fun e => e.keepsRing_invalidateWatching _))) hp).toTouches
          · exact hd
      · rename_i hunsettled
        exact told_stir he (e.detector.voiced_fire kind now (Bool.eq_false_iff.mpr hunsettled))

theorem told_leaveGraceFires (m : AlertManager) (id : SessionId) (now : Int) : Told id m (m.leaveGraceFires id now) := by
  unfold leaveGraceFires
  split
  · exact .refl id m
  · rename_i e he
    have hp : id ∈ m.entries := mem_iff_lookup.mpr ⟨e, he⟩
    split
    · exact .refl id m
    · extract_lets m'
      have h : Told id m m' := m.told_modify id (fun _ => rfl)
      split
      · exact h.trans (told_escalateHeld (h.present hp) now)
      · exact h.trans (m'.told_modify id (fun _ => rfl))

theorem told_awaitGraceFires (hw : m.waitersOf id ≠ [] → id ∈ m.entries) (handle : Nat) (now : Int) :
    Told id m (m.awaitGraceFires id handle now) := by
  unfold awaitGraceFires
  split
  · exact told_endAwait hw handle _ now
  · exact .refl id m

theorem told_progressEndFires (R : AlertReaders) (m : AlertManager) (id : SessionId) (now : Int) :
    Told id m (m.progressEndFires R id now) := by
  by_cases hp : id ∈ m.entries
  · exact told_settleProgressEnd R hp now
  · unfold progressEndFires settleProgressEnd
    rw [AList.lookup_eq_none.mpr hp]
    exact .refl id m

end Operations

end AlertManager

end Alert
end Dormouse

import Dormouse.OneTimeRuntime
/-!
# OneTimeRun — what every run of a one-time runtime keeps

Most stretches neither reserve the link, surface a request, answer one nor promote a session (`Plain`): they send, move the
session, or end the runtime, which takes everything it holds.  The few others are the ceremony itself, one lemma each.
Once ended, the runtime is inert (`Closed`).
-/
namespace Dormouse
namespace OneTime

open Burrow (Ref)
open Direct (DirectPath DirectSignal)

namespace Event

def isReserved : Event → Bool
  | reserved _ => true
  | _          => false

def isPromoted : Event → Bool
  | promoted _ _ => true
  | _            => false

def answers (phone : Ref) : Event → Bool
  | approved p _ _ => p == phone
  | denied p       => p == phone
  | _              => false

def plain : Event → Bool
  | dismissed            => true
  | sent _               => true
  | handled _ .channel _ => true
  | pathRefused _        => true
  | opened _             => true
  | announced _          => true
  | _                    => false

theorem isReserved_of_plain {e : Event} (h : e.plain = true) : e.isReserved = false := by
  cases e with
  | reserved _ => cases h
  | _ => rfl

theorem isPromoted_of_plain {e : Event} (h : e.plain = true) : e.isPromoted = false := by
  cases e with
  | promoted _ _ => cases h
  | _ => rfl

theorem answers_of_plain {e : Event} (h : e.plain = true) (phone : Ref) : e.answers phone = false := by
  cases e with
  | approved _ _ _ => cases h
  | denied _ => cases h
  | _ => rfl

end Event

namespace OneTimeRuntime

def Live (s : OneTimeRuntime) : Prop :=
  ∀ ref e, s.sessions.get ref = some e → e.disposed = false → s.established = some ref

def DirectOnly (s : OneTimeRuntime) : Prop := ∀ ref e, s.sessions.get ref = some e → e.directOnlyBy.isSome = true

structure Emptied (s : OneTimeRuntime) : Prop where
  reading     : s.reading = false
  pinging     : s.pinging = false
  keyPair     : s.keyPair = none
  reserved    : s.reserved = none
  established : s.established = none
  work        : s.work = []

def Cleared (s : OneTimeRuntime) : Prop := s.state.isEnded = true → Emptied s

structure Plain (s s' : OneTimeRuntime) : Prop where
  keyPair     : s'.keyPair = s.keyPair ∨ s'.keyPair = none
  minting     : s'.minting = s.minting
  idle        : s'.state = .idle → s.state = .idle
  link        : s'.link = s.link
  reserved    : s'.reserved = s.reserved ∨ s'.reserved = none
  established : s'.established = s.established ∨ s'.established = none
  directOnly  : DirectOnly s → DirectOnly s'
  live        : Live s → Live s'
  cleared     : Cleared s → Cleared s'
  log         : ∃ l, s'.log = s.log ++ l ∧ ∀ e ∈ l, e.plain = true

namespace Plain

theorem refl (s : OneTimeRuntime) : Plain s s where
  keyPair := .inl rfl
  minting := rfl
  idle h := h
  link := rfl
  reserved := .inl rfl
  established := .inl rfl
  directOnly h := h
  live h := h
  cleared h := h
  log := ⟨[], (List.append_nil _).symm, fun _ h => absurd h List.not_mem_nil⟩

theorem trans {s s' s'' : OneTimeRuntime} (h : Plain s s') (h' : Plain s' s'') : Plain s s'' where
  keyPair := h'.keyPair.elim (fun he => h.keyPair.imp he.trans he.trans) .inr
  minting := h'.minting.trans h.minting
  idle hi := h.idle (h'.idle hi)
  link := h'.link.trans h.link
  reserved := h'.reserved.elim (fun he => h.reserved.imp he.trans he.trans) .inr
  established := h'.established.elim (fun he => h.established.imp he.trans he.trans) .inr
  directOnly hd := h'.directOnly (h.directOnly hd)
  live hl := h'.live (h.live hl)
  cleared hc := h'.cleared (h.cleared hc)
  log := by
    obtain ⟨l, hl, hp⟩ := h.log
    obtain ⟨l', hl', hp'⟩ := h'.log
    refine ⟨l ++ l', by rw [hl', hl, List.append_assoc], fun e he => ?_⟩
    rcases List.mem_append.1 he with he | he
    · exact hp e he
    · exact hp' e he

theorem foldl {α : Type} {f : OneTimeRuntime → α → OneTimeRuntime} (h : ∀ s a, Plain s (f s a)) :
    ∀ (l : List α) (s : OneTimeRuntime), Plain s (l.foldl f s)
  | [], s => refl s
  | a :: l, s => (h s a).trans (foldl h l (f s a))

end Plain

/-! ## What a session and the socket do -/

/-- The sessions grow older: what one may be carried by stays, and none comes back to life. -/
def Ages (m m' : OrdMap Ref EstablishedE2eSession) : Prop :=
  ∀ ref e', m'.get ref = some e' →
    ∃ e, m.get ref = some e ∧ e'.directOnlyBy = e.directOnlyBy ∧ (e'.disposed = false → e.disposed = false)

theorem Ages.refl (m : OrdMap Ref EstablishedE2eSession) : Ages m m := fun _ e' h => ⟨e', h, rfl, fun h => h⟩

theorem Ages.trans {m m' m'' : OrdMap Ref EstablishedE2eSession} (h : Ages m m') (h' : Ages m' m'') : Ages m m'' := by
  intro ref e'' he''
  obtain ⟨e', he', hd', hl'⟩ := h' ref e'' he''
  obtain ⟨e, he, hd, hl⟩ := h ref e' he'
  exact ⟨e, he, hd'.trans hd, fun h => hl (hl' h)⟩

structure Mute (s s' : OneTimeRuntime) : Prop where
  eq   : s' = { s with sessions := s'.sessions, log := s'.log }
  ages : Ages s.sessions s'.sessions
  log  : ∃ l, s'.log = s.log ++ l ∧ ∀ e ∈ l, e.plain = true

theorem Mute.refl (s : OneTimeRuntime) : Mute s s :=
  ⟨rfl, .refl _, [], (List.append_nil _).symm, fun _ h => absurd h List.not_mem_nil⟩

theorem Mute.trans {s s' s'' : OneTimeRuntime} (h : Mute s s') (h' : Mute s' s'') : Mute s s'' where
  eq := by
    rw [h'.eq, h.eq]
  ages := h.ages.trans h'.ages
  log := by
    obtain ⟨l, hl, hp⟩ := h.log
    obtain ⟨l', hl', hp'⟩ := h'.log
    refine ⟨l ++ l', by rw [hl', hl, List.append_assoc], fun e he => ?_⟩
    rcases List.mem_append.1 he with he | he
    · exact hp e he
    · exact hp' e he

theorem Plain.of_mute {s s' : OneTimeRuntime} (h : Mute s s') : Plain s s' := by
  have heq := h.eq
  have hages := h.ages
  obtain ⟨l, hl, hp⟩ := h.log
  generalize s'.sessions = m at heq hages
  generalize s'.log = log at heq hl
  subst heq
  exact
    { keyPair := .inl rfl, minting := rfl, idle := fun h => h, link := rfl, reserved := .inl rfl, established := .inl rfl
      directOnly := fun hd ref e' he' => by
        obtain ⟨e, he, heq, -⟩ := hages ref e' he'
        rw [heq]
        exact hd ref e he
      live := fun hlive ref e' he' hdis => by
        obtain ⟨e, he, -, himp⟩ := hages ref e' he'
        exact hlive ref e he (himp hdis)
      cleared := fun hc hend => ⟨(hc hend).reading, (hc hend).pinging, (hc hend).keyPair, (hc hend).reserved,
        (hc hend).established, (hc hend).work⟩
      log := ⟨l, hl, hp⟩ }

theorem mute_note (s : OneTimeRuntime) {e : Event} (h : e.plain = true) : Mute s (s.note e) :=
  ⟨rfl, .refl _, [e], rfl, fun x hx => by rw [List.mem_singleton.1 hx]; exact h⟩

theorem mute_sendFrame (s : OneTimeRuntime) : Mute s s.sendFrame := by
  unfold sendFrame
  split
  · exact mute_note s rfl
  · exact .refl s

theorem mute_modifySession (s : OneTimeRuntime) (ref : Ref) {f : EstablishedE2eSession → EstablishedE2eSession}
    (hd : ∀ e, (f e).directOnlyBy = e.directOnlyBy) (hl : ∀ e, (f e).disposed = false → e.disposed = false) :
    Mute s (s.modifySession ref f) := by
  unfold modifySession
  cases hget : s.sessions.get ref with
  | none => exact .refl s
  | some e =>
    refine ⟨rfl, fun ref' e' he' => ?_, [], (List.append_nil _).symm, fun _ h => absurd h List.not_mem_nil⟩
    rw [OrdMap.get_set] at he'
    split at he'
    · rename_i href
      obtain rfl := Option.some.inj he'
      exact ⟨e, by rw [href]; exact hget, hd e, hl e⟩
    · exact ⟨e', he', rfl, fun h => h⟩

theorem mute_directSend (s : OneTimeRuntime) (ref : Ref) : Mute s (s.directSend ref) := by
  unfold directSend
  split
  · exact .refl s
  · split
    · split
      · exact mute_note s rfl
      · exact .refl s
    · exact mute_sendFrame s

theorem mute_endSession (s : OneTimeRuntime) (ref : Ref) (seals : Bool) : Mute s (s.endSession ref seals) := by
  unfold endSession
  split
  · exact .refl s
  · split
    · exact .refl s
    · refine Mute.trans ?_ (mute_modifySession _ ref (f := ({ · with disposed := true, peer := false })) (fun _ => rfl)
        (fun _ h => nomatch h))
      split
      · exact mute_directSend s ref
      · exact .refl s

theorem mute_disposeSession (s : OneTimeRuntime) (ref : Ref) : Mute s (s.disposeSession ref) := by
  refine mute_modifySession s ref (fun e => ?_) (fun e h => ?_)
  · split
    · rfl
    · rfl
  · split at h
    · exact h
    · cases h

variable {s : OneTimeRuntime}

theorem disposed_of_disposeSession {ref : Ref} {e : EstablishedE2eSession}
    (h : (s.disposeSession ref).sessions.get ref = some e) : e.disposed = true := by
  unfold disposeSession modifySession at h
  cases hget : s.sessions.get ref with
  | none => rw [hget] at h; simp only [hget] at h; cases h
  | some x =>
    rw [hget] at h
    simp only [OrdMap.get_set_self] at h
    obtain rfl := Option.some.inj h
    split
    · assumption
    · rfl

theorem mute_dismiss (s : OneTimeRuntime) (previous : OneTimeState) : Mute s (s.dismiss previous) := by
  unfold dismiss
  split
  · exact .refl s
  · exact mute_note s rfl
  · exact .refl s

/-! ## The owner is told, and the runtime ends -/

theorem plain_resolveOpen (s : OneTimeRuntime) (previous : OneTimeState) : Plain s (s.resolveOpen previous) := by
  unfold resolveOpen
  split
  · refine Plain.trans ?_ (.of_mute (mute_note { s with opening := false } rfl))
    exact
      { keyPair := .inl rfl, minting := rfl, idle := fun h => h, link := rfl, reserved := .inl rfl, established := .inl rfl
        directOnly := fun h => h, live := fun h => h
        log := ⟨[], (List.append_nil _).symm, fun _ h => absurd h List.not_mem_nil⟩
        cleared := fun h he => ⟨(h he).reading, (h he).pinging, (h he).keyPair, (h he).reserved, (h he).established,
          (h he).work⟩ }
  · exact .refl s

theorem plain_announce (s : OneTimeRuntime) (previous : OneTimeState) : Plain s (s.announce previous) :=
  ((Plain.of_mute (mute_dismiss s previous)).trans (plain_resolveOpen _ previous)).trans (.of_mute (mute_note _ rfl))

theorem plain_setState (s : OneTimeRuntime) {next : OneTimeState} (hi : next ≠ .idle) (he : next.isEnded = false) :
    Plain s (s.setState next) := by
  unfold setState
  split
  · exact .refl s
  · refine Plain.trans ?_ (plain_announce { s with state := next } s.state)
    exact
      { keyPair := .inl rfl, minting := rfl, idle := fun h => absurd h hi, link := rfl, reserved := .inl rfl
        established := .inl rfl, directOnly := fun h => h, live := fun h => h
        cleared := fun _ h => by rw [he] at h; cases h
        log := ⟨[], (List.append_nil _).symm, fun _ h => absurd h List.not_mem_nil⟩ }

theorem letGo_spec (s : OneTimeRuntime) (reason : OneTimeEndReason) (seals : Bool) :
    ∃ m l, s.letGo reason seals =
        { s with established := none, reading := false, pinging := false, sessions := m, log := s.log ++ l } ∧
      Ages s.sessions m ∧ (∀ ref e, s.established = some ref → m.get ref = some e → e.disposed = true) ∧
      ∀ e ∈ l, e.plain = true := by
  unfold letGo
  cases hest : s.established with
  | none =>
    refine ⟨s.sessions, [], ?_, .refl _, fun _ _ h => (nomatch h), fun _ h => absurd h List.not_mem_nil⟩
    rw [List.append_nil]
    rfl
  | some ref =>
    simp only
    have hsaid : Mute { s with established := none } (if endsWithGoodbye reason then
        endSession { s with established := none } ref seals else { s with established := none }) := by
      split
      · exact mute_endSession _ ref seals
      · exact .refl _
    generalize (if endsWithGoodbye reason then
      endSession { s with established := none } ref seals else { s with established := none }) = t at hsaid ⊢
    have hend := mute_disposeSession t.closeRendezvous ref
    have hdisposed := @disposed_of_disposeSession t.closeRendezvous ref
    generalize t.closeRendezvous.disposeSession ref = u at hend hdisposed ⊢
    obtain ⟨l, hl, hp⟩ := hsaid.log
    obtain ⟨l', hl', hp'⟩ := hend.log
    refine ⟨u.sessions, l ++ l', ?_, hsaid.ages.trans hend.ages, fun ref' e href he => ?_, fun e he => ?_⟩
    · rw [hend.eq, hl', closeRendezvous, hsaid.eq]
      simp only [hl, List.append_assoc]
    · obtain rfl := Option.some.inj href
      exact hdisposed he
    · rcases List.mem_append.1 he with he | he
      · exact hp e he
      · exact hp' e he

/-- **An ending takes everything the runtime holds.** -/
theorem plain_end' (s : OneTimeRuntime) (reason : OneTimeEndReason) (refusal : Option PathRefusal) (seals : Bool) :
    Plain s (s.end' reason refusal seals) := by
  unfold end'
  split
  · exact .refl s
  · dsimp only
    obtain ⟨m, l, heq, hages, hdisposed, hp⟩ := letGo_spec { s with state := .ended reason refusal, work := [] } reason seals
    rw [heq]
    refine Plain.trans ?_ (plain_announce _ s.state)
    exact
      { keyPair := .inr rfl, minting := rfl, idle := fun h => (nomatch h), link := rfl, reserved := .inr rfl
        established := .inr rfl
        directOnly := fun hd ref e' he' => by
          obtain ⟨e, he, heq, -⟩ := hages ref e' he'
          rw [heq]
          exact hd ref e he
        live := fun hlive ref e' he' hdis => by
          obtain ⟨e, he, -, himp⟩ := hages ref e' he'
          have htrue := hdisposed ref e' (hlive ref e he (himp hdis)) he'
          rw [hdis] at htrue
          cases htrue
        cleared := fun _ _ => ⟨rfl, rfl, rfl, rfl, rfl, rfl⟩
        log := ⟨l, rfl, hp⟩ }

theorem announce_state (s : OneTimeRuntime) (previous : OneTimeState) : (s.announce previous).state = s.state := by
  have hdismiss : (s.dismiss previous).state = s.state := by rw [(mute_dismiss s previous).eq]
  unfold announce resolveOpen
  split
  · exact hdismiss
  · exact hdismiss

theorem isEnded_end' (s : OneTimeRuntime) (reason : OneTimeEndReason) (refusal : Option PathRefusal) (seals : Bool) :
    (s.end' reason refusal seals).state.isEnded = true := by
  unfold end'
  split
  · assumption
  · dsimp only
    obtain ⟨m, l, heq, -⟩ := letGo_spec { s with state := .ended reason refusal, work := [] } reason seals
    rw [heq, announce_state]
    rfl

/-! ## The session's reports, and its direct path -/

theorem plain_fatal (s : OneTimeRuntime) (ref : Ref) (seals : Bool) : Plain s (s.fatal ref seals) := by
  unfold fatal
  split
  · exact .refl s
  · split
    · exact .refl s
    · unfold onSessionFatal
      split
      · exact .refl s
      · split
        · exact plain_end' s _ _ seals
        · exact plain_end' s _ _ seals

theorem plain_onDirectOnlyBroken (s : OneTimeRuntime) (ref : Ref) (reason : DirectOnlyBreak) (seals : Bool) :
    Plain s (s.onDirectOnlyBroken ref reason seals) := by
  unfold onDirectOnlyBroken
  split
  · exact .refl s
  · split
    · exact plain_end' s _ _ seals
    · split
      · exact plain_end' s _ _ seals
      · exact (Plain.of_mute (mute_note s rfl)).trans (plain_end' _ _ _ seals)

theorem plain_breakDirectOnly (K : Config) (s : OneTimeRuntime) (ref : Ref) (reason : DirectOnlyBreak)
    (refused : Option RefusedEnd) (now : Int) (seals : Bool) : Plain s (breakDirectOnly K s ref reason refused now seals) := by
  unfold breakDirectOnly
  split
  · exact .refl s
  · split
    · exact .refl s
    · dsimp only
      have hrecord : ∀ p : Prop, [Decidable p] → Plain s (if p then
          s.modifySession ref ({ · with pathRefusal := some ⟨now, reason, refused⟩ }) else s) := by
        intro p _
        split
        · exact .of_mute (mute_modifySession s ref (f := ({ · with pathRefusal := some ⟨now, reason, refused⟩ }))
            (fun _ => rfl) (fun _ h => h))
        · exact .refl s
      split
      · exact (hrecord _).trans (plain_onDirectOnlyBroken _ ref reason seals)
      · exact hrecord _

theorem plain_onTransportChanged (s : OneTimeRuntime) (ref : Ref) (path : DirectPath) (now : Int) :
    Plain s (s.onTransportChanged ref path now) := by
  unfold onTransportChanged
  split
  · exact .refl s
  · split
    · refine Plain.trans ?_ (plain_setState _ (fun h => nomatch h) rfl)
      exact
        { keyPair := .inl rfl, minting := rfl, idle := fun h => h, link := rfl, reserved := .inl rfl
          established := .inl rfl, directOnly := fun h => h, live := fun h => h
          cleared := fun h he => ⟨rfl, rfl, (h he).keyPair, (h he).reserved, (h he).established, rfl⟩
          log := ⟨[], (List.append_nil _).symm, fun _ h => absurd h List.not_mem_nil⟩ }
    · exact .refl s

theorem plain_settle (s : OneTimeRuntime) (ref : Ref) (now : Int) : Plain s (s.settle ref now) := by
  unfold settle
  split
  · exact .refl s
  · split
    · exact plain_onTransportChanged s ref .direct now
    · exact .refl s

theorem plain_sendSignal (s : OneTimeRuntime) (seals : Bool) : Plain s (s.sendSignal seals).1 := by
  unfold sendSignal
  dsimp only
  split
  · exact .of_mute (mute_sendFrame s)
  · exact .refl s

theorem plain_giveUp (s : OneTimeRuntime) (ref : Ref) (seals : Bool) : Plain s (s.giveUp ref seals).1 := by
  unfold giveUp
  split
  · exact .refl s
  · rename_i e _
    split
    · exact plain_fatal s ref seals
    · exact .of_mute (mute_modifySession s ref
        (f := ({ · with peer := false, attempt := .abandoned, givingUp := e.directOnlyBy.isSome })) (fun _ => rfl)
        (fun _ h => h))

theorem plain_decline (s : OneTimeRuntime) (ref : Ref) (seals : Bool) : Plain s (s.decline ref seals) := by
  have hgive := (Plain.of_mute (mute_modifySession s ref (f := ({ · with owesAnswer := false })) (fun _ => rfl)
    (fun _ h => h))).trans (plain_giveUp _ ref seals)
  unfold decline
  split
  · rename_i s' heq
    rw [heq] at hgive
    exact hgive.trans (plain_sendSignal s' seals)
  · rename_i s' heq
    rw [heq] at hgive
    exact hgive

theorem plain_answer (s : OneTimeRuntime) (ref : Ref) (builds seals : Bool) : Plain s (s.answer ref builds seals) := by
  unfold answer
  split
  · exact .refl s
  · split
    · exact .refl s
    · split
      · exact .of_mute (mute_modifySession s ref
          (f := ({ · with attempt := .attempting, owesAnswer := true, attempted := true, peer := true })) (fun _ => rfl)
          (fun _ h => h))
      · exact (Plain.of_mute (mute_modifySession s ref (f := ({ · with attempt := .attempting, owesAnswer := true }))
          (fun _ => rfl) (fun _ h => h))).trans (plain_decline _ ref seals)

theorem plain_described (s : OneTimeRuntime) (ref : Ref) (sdp seals : Bool) : Plain s (s.described ref sdp seals) := by
  have hsent := (Plain.of_mute (mute_modifySession s ref (f := ({ · with owesAnswer := false })) (fun _ => rfl)
    (fun _ h => h))).trans (plain_sendSignal _ seals)
  unfold described
  split
  · exact .refl s
  · split
    · exact plain_decline s ref seals
    · split
      · rename_i s' heq
        rw [heq] at hsent
        exact hsent
      · rename_i s' heq
        rw [heq] at hsent
        exact hsent.trans (plain_giveUp s' ref seals)

theorem plain_onOpen (s : OneTimeRuntime) (ref : Ref) (now : Int) (seals : Bool) : Plain s (s.onOpen ref now seals) := by
  have hsent := plain_sendSignal s seals
  unfold onOpen
  split
  · exact .refl s
  · split
    · rename_i s' heq
      rw [heq] at hsent
      exact (hsent.trans (.of_mute (mute_modifySession s' ref (f := ({ · with outbound := .direct })) (fun _ => rfl)
        (fun _ h => h)))).trans (plain_settle _ ref now)
    · rename_i s' heq
      rw [heq] at hsent
      exact hsent.trans (plain_giveUp s' ref seals)

theorem plain_onClosed (s : OneTimeRuntime) (ref : Ref) (seals : Bool) : Plain s (s.onClosed ref seals) := by
  unfold onClosed
  split
  · exact .refl s
  · split
    · exact .refl s
    · split
      · exact plain_decline s ref seals
      · exact plain_giveUp s ref seals

theorem plain_onViolation (K : Config) (s : OneTimeRuntime) (ref : Ref) (pathRefused : Bool) (refused : Option RefusedEnd)
    (now : Int) (seals : Bool) : Plain s (onViolation K s ref pathRefused refused now seals) := by
  unfold onViolation
  split
  · exact .refl s
  · split
    · exact plain_breakDirectOnly K s ref _ refused now seals
    · exact plain_fatal s ref seals

theorem plain_handoffExpired (s : OneTimeRuntime) (ref : Ref) (seals : Bool) : Plain s (s.handoffExpired ref seals) := by
  unfold handoffExpired
  split
  · exact plain_fatal s ref seals
  · exact .refl s

/-! ## What the session reads and sends -/

theorem plain_apiCall (s : OneTimeRuntime) (ref : Ref) (seals : Bool) (call : ApiCall) :
    Plain s (s.apiCall ref seals call) := by
  have hchunk : ∀ (t : OneTimeRuntime) (_ : Nat), Plain t (if t.alive ref then t.directSend ref else t) := by
    intro t _
    split
    · exact .of_mute (mute_directSend t ref)
    · exact .refl t
  cases call with
  | endSession =>
    unfold apiCall
    dsimp only
    split
    · exact plain_end' s _ _ seals
    · exact .refl s
  | send sealing =>
    unfold apiCall sendApp
    cases sealing with
    | refused => exact .refl s
    | poisoned => exact plain_fatal s ref seals
    | sealed chunks lost =>
      dsimp only
      have hsent := Plain.foldl hchunk (List.range chunks) s
      split
      · exact hsent.trans (plain_onClosed _ ref seals)
      · exact hsent

theorem plain_handleAll (ref : Ref) (seals : Bool) :
    ∀ (messages : List AppMessage) (s : OneTimeRuntime), Plain s (s.handleAll ref .channel seals messages)
  | [], s => .refl s
  | m :: messages, s => by
    unfold handleAll
    split
    · exact plain_handleAll ref seals messages s
    · rename_i text _
      dsimp only
      have hcalls := (Plain.of_mute (mute_note s (e := .handled ref .channel text) rfl)).trans
        (Plain.foldl (fun t call => plain_apiCall t ref seals call) m.calls _)
      split
      · exact hcalls.trans (plain_handleAll ref seals messages _)
      · exact hcalls

theorem plain_receive (K : Config) {ref : Ref} {carrier : Carrier}
    (h : carrier = .channel ∨ ((s.sessions.get ref).bind (·.directOnlyBy)).isSome = true) (receipt : Receipt) (now : Int)
    (seals : Bool) : Plain s (receive K s ref carrier receipt now seals) := by
  have hactive : Plain s (s.modifySession ref ({ · with lastClientActivityAt := now })) :=
    .of_mute (mute_modifySession s ref (f := ({ · with lastClientActivityAt := now })) (fun _ => rfl) (fun _ h => h))
  unfold receive
  cases receipt with
  | failed => exact plain_fatal s ref seals
  | keepalive => exact hactive
  | control v => exact hactive
  | app messages =>
    dsimp only
    split
    · exact plain_breakDirectOnly K s ref _ none now seals
    · rename_i hnot
      rcases h with rfl | hd
      · exact hactive.trans (plain_handleAll ref seals messages _)
      · cases carrier with
        | relay => exact absurd ⟨rfl, hd⟩ hnot
        | channel => exact hactive.trans (plain_handleAll ref seals messages _)

theorem plain_onSignal (s : OneTimeRuntime) (ref : Ref) (builds : Bool) (now : Int) (seals : Bool) (signal : DirectSignal) :
    Plain s (s.onSignal ref builds now seals signal) := by
  unfold onSignal
  split
  · exact .refl s
  · split
    · exact plain_answer s ref builds seals
    · split
      · exact plain_fatal s ref seals
      · exact (Plain.of_mute (mute_modifySession s ref (f := ({ · with inbound := .direct })) (fun _ => rfl)
          (fun _ h => h))).trans (plain_settle _ ref now)
    · exact .refl s

theorem plain_deliver (K : Config) {ref : Ref} {carrier : Carrier}
    (h : carrier = .channel ∨ ((s.sessions.get ref).bind (·.directOnlyBy)).isSome = true) (builds : Bool) (now : Int)
    (seals : Bool) (receipt : Receipt) : Plain s (deliver K s ref carrier builds now seals receipt) := by
  have hread := plain_receive K h receipt now seals
  unfold deliver
  dsimp only
  split
  · split
    · exact hread.trans (plain_onSignal _ ref builds now seals _)
    · exact hread
  · exact hread

theorem plain_deliverHeld (K : Config) (s : OneTimeRuntime) (ref : Ref) (builds : Bool) (now : Int) (seals : Bool)
    (held : List Receipt) : Plain s (deliverHeld K s ref builds now seals held) := by
  refine Plain.foldl (fun t receipt => ?_) held s
  split
  · exact plain_deliver K (.inl rfl) builds now seals receipt
  · exact .refl t

theorem plain_onRelayFrame (K : Config) (hd : DirectOnly s) (ref : Ref) (decodes builds : Bool) (now : Int) (seals : Bool)
    (receipt : Receipt) (held : List Receipt) :
    Plain s (onRelayFrame K s ref decodes builds now seals receipt held) := by
  unfold onRelayFrame
  cases hget : s.sessions.get ref with
  | none => exact .refl s
  | some e =>
    dsimp only
    split
    · exact .refl s
    · split
      · exact plain_fatal s ref seals
      · have hread : Plain s (deliver K s ref .relay builds now seals receipt) := by
          refine plain_deliver K (.inr ?_) builds now seals receipt
          rw [hget]
          exact hd ref e hget
        split
        · exact hread.trans (plain_deliverHeld K _ ref builds now seals held)
        · exact hread

theorem plain_onChannelFrame (K : Config) (s : OneTimeRuntime) (ref : Ref) (overflows builds : Bool) (now : Int)
    (seals : Bool) (receipt : Receipt) : Plain s (onChannelFrame K s ref overflows builds now seals receipt) := by
  unfold onChannelFrame
  split
  · exact .refl s
  · split
    · exact .refl s
    · split
      · exact plain_deliver K (.inl rfl) builds now seals receipt
      · split
        · exact plain_fatal s ref seals
        · exact .refl s

end OneTimeRuntime
end OneTime
end Dormouse

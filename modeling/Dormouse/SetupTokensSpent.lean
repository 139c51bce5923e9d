import Dormouse.SetupTokensRun
/-!
# SetupTokensSpent — what a setup token is good for

Over every interleaving of requests, mints and clock readings a token registers at most one passkey and none once it is
retired, a dead token is never claimable again, a failed finish gives its token back, and the cap of a Burrow touches that
Burrow alone.
-/
namespace Dormouse
namespace Relay

/-! ## Registrations -/

namespace SetupHistory

open SetupOutput SetupRelay

def registers (k : JsString) : SetupOutput → Bool
  | .registered _ t _ => t = k
  | _                 => false

variable {k : JsString}

theorem registers_eq {o : SetupOutput} (h : registers k o = true) : ∃ i c, o = .registered i k c := by
  cases o with
  | registered i t c =>
    have ht : t = k := of_decide_eq_true h
    exact ⟨i, c, ht ▸ rfl⟩
  | _ => cases h

structure Once (log : List SetupOutput) : Prop where
  count : ∀ k, log.countP (registers k) ≤ 1
  late : ∀ earlier later k e, log = earlier ++ later → retired k (some e) ∈ earlier → ∀ i c, registered i k c ∉ later

/-- More answers, with at most one registration, of a token that has not registered and is not retired. -/
theorem Once.append {log out : List SetupOutput} (hl : Once log)
    (hout : ∀ k, out.countP (registers k) = 0 ∨
      (out.countP (registers k) ≤ 1 ∧ log.countP (registers k) = 0 ∧ ∀ e, retired k (some e) ∉ log ++ out)) :
    Once (log ++ out) := by
  constructor
  · intro k
    have := hl.count k
    rw [List.countP_append]
    rcases hout k with h0 | ⟨h1, h0, -⟩ <;> omega
  · intro earlier later k e hsplit hret i c hreg
    have hnot : registered i k c ∉ out := by
      intro hm
      have hpos : 0 < out.countP (registers k) := List.countP_pos_iff.2 ⟨_, hm, by simp [registers]⟩
      rcases hout k with h0 | ⟨-, -, hno⟩
      · omega
      · exact hno e (hsplit ▸ List.mem_append_left _ hret)
    rcases List.append_eq_append_iff.1 hsplit with ⟨mid, -, hlater⟩ | ⟨mid, hlog, hlater⟩
    · exact hnot (hlater ▸ List.mem_append_right _ hreg)
    · rw [hlater] at hreg
      rcases List.mem_append.1 hreg with hreg | hreg
      · exact hl.late earlier mid k e hlog hret i c hreg
      · exact hnot hreg

theorem countP_registers_quiet {out : List SetupOutput} (h : ∀ o ∈ out, ∀ i k c, o ≠ .registered i k c) (k : JsString) :
    out.countP (registers k) = 0 := by
  rw [List.countP_eq_zero]
  intro o ho hr
  obtain ⟨i, c, rfl⟩ := registers_eq hr
  exact h _ ho i k c rfl

theorem once_step (h : SetupHistory) (ev : SetupEvent) (hs : h.Sound) (hl : Once h.log) : Once (h.step ev).log := by
  have hmove := h.relay.move_step ev
  show Once (h.log ++ (h.relay.step ev).2)
  generalize (h.relay.step ev).1 = s' at hmove
  generalize (h.relay.step ev).2 = out at hmove ⊢
  refine hl.append fun k => ?_
  cases hmove with
  | quiet _ _ _ hout =>
    refine .inl (countP_registers_quiet (fun o ho i k c heq => ?_) k)
    subst heq
    exact hout _ ho
  | register i token credentialId hi _ _ _ _ =>
    by_cases hk : k = token
    · subst hk
      refine .inr ⟨by simp [registers], ?_, fun e hm => ?_⟩
      · rw [List.countP_eq_zero]
        intro o ho hr
        obtain ⟨j, c, rfl⟩ := registers_eq hr
        exact (hs.registered j k c ho).2.2 i _ hi rfl
      · rcases List.mem_append.1 hm with hm | hm
        · exact (hs.retired k e hm).2.2 i _ hi rfl rfl
        · cases List.mem_singleton.1 hm
    · exact .inl (by simp [registers, Ne.symm hk])
  | _ => exact .inl (countP_registers_quiet (by simp) k)

/-! ## What is gone stays gone -/

/-- **A token that is there was there, with its entry, or is minted in this step.** -/
theorem tokens_step (s : SetupRelay) (ev : SetupEvent) {slot' : SetupTokenSlot}
    (h : (s.step ev).1.tokens.get k = some slot') :
    (∃ slot, s.tokens.get k = some slot ∧ slot.entry = slot'.entry) ∨ ∃ b, ev = .mint b k := by
  have hmove := s.move_step ev
  generalize (s.step ev).1 = s' at hmove h
  generalize (s.step ev).2 = out at hmove
  -- a token kept as it was
  have hsame : s'.tokens.get k = s.tokens.get k ∨ s'.tokens.get k = none →
      ∃ slot, s.tokens.get k = some slot ∧ slot.entry = slot'.entry := by
    rintro (heq | hnone)
    · exact ⟨slot', heq ▸ h, rfl⟩
    · rw [hnone] at h
      cases h
  -- a token whose slot changes state
  have hstate : ∀ {token slot state}, s.tokens.get token = some slot →
      s'.tokens.get token = some { slot with state } → (∀ k, k ≠ token → s'.tokens.get k = s.tokens.get k) →
      ∃ slot, s.tokens.get k = some slot ∧ slot.entry = slot'.entry := by
    intro token slot state hwas hown htok
    by_cases hk : k = token
    · subst hk
      rw [hown] at h
      exact ⟨slot, hwas, by rw [← Option.some.inj h]⟩
    · exact hsame (.inl (htok k hk))
  have hgone : ∀ {token}, s'.tokens.get token = none → (∀ k, k ≠ token → s'.tokens.get k = s.tokens.get k) →
      ∃ slot, s.tokens.get k = some slot ∧ slot.entry = slot'.entry := fun hown htok =>
    hsame (gone_or_same (h := ⟨s, []⟩) hown htok k)
  cases hmove with
  | quiet _ _ htok _ => exact .inl (hsame (htok k))
  | mint burrowId token entry hev _ _ hown htok =>
    by_cases hk : k = token
    · exact .inr ⟨burrowId, hk ▸ hev⟩
    · exact .inl (hsame (htok k hk))
  | retire token slot _ _ _ _ hown htok => exact .inl (hgone hown htok)
  | claim token slot _ _ hwas _ hown htok => exact .inl (hstate hwas hown htok)
  | fail i p hi hf =>
    by_cases hk : k = p.token
    · obtain ⟨slot, hwas, rfl⟩ := hf.own slot' (hk ▸ h)
      exact .inl ⟨slot, hk ▸ hwas, rfl⟩
    · exact .inl (hsame (.inl (hf.others k hk)))
  | revoke i p _ _ htok => exact .inl (hsame (.inl (by rw [htok])))
  | enroll i token _ _ _ htok => exact .inl (hsame (.inl (by rw [htok])))
  | commit i token credentialId slot _ _ _ hwas hown htok => exact .inl (hstate hwas hown htok)
  | register i token credentialId _ _ _ hown htok => exact .inl (hgone hown htok)

variable {h : SetupHistory}

theorem mem_log_step (ev : SetupEvent) {o : SetupOutput} (ho : o ∈ h.log) : o ∈ (h.step ev).log :=
  List.mem_append_left _ ho

variable {e : SetupTokenEntry}

/-- **A token that is gone stays gone.** -/
theorem gone_run {later : List SetupEvent} (hfresh : Steps.Along step Fresh h later) (hm : minted k e ∈ h.log)
    (hgone : h.relay.tokens.get k = none) :
    (Steps.run step h later).relay.tokens.get k = none := by
  refine (Steps.run_invariant_along (I := fun h => minted k e ∈ h.log ∧ h.relay.tokens.get k = none)
    (fun h ev hf hi => ⟨mem_log_step ev hi.1, ?_⟩) later h hfresh ⟨hm, hgone⟩).2
  cases hget : (h.step ev).relay.tokens.get k with
  | none => rfl
  | some slot' =>
    rcases tokens_step h.relay ev hget with ⟨slot, hwas, -⟩ | ⟨b, rfl⟩
    · rw [hi.2] at hwas
      cases hwas
    · exact absurd hi.1 (hf e)

/-- The token would be claimed by a `finish` now. -/
def Claimable (s : SetupRelay) (k : JsString) : Prop := (s.tokens.claim s.now k).2.isSome = true

theorem not_claimable {s : SetupRelay} (h : ∀ slot, s.tokens.get k = some slot → slot.entry.expiresAt ≤ s.now) :
    ¬Claimable s k := by
  unfold Claimable SetupTokens.claim
  rcases SetupTokens.live_cases s.now s.tokens k with ⟨slot, hslot, hlive, -⟩ | ⟨tokens', hlive, -⟩
  · exact absurd (h slot hslot) (Int.not_le.2 hlive)
  · simp [hlive]

theorem claim_live {now : Int} {tokens : SetupTokens} (h : tokens.get k = some ⟨e, .live⟩) (hexp : now < e.expiresAt) :
    (tokens.claim now k).2 = some e := by
  simp [SetupTokens.claim, SetupTokens.live, h, Int.not_le.2 hexp]

theorem now_step (s : SetupRelay) (ev : SetupEvent) : (s.step ev).1.now = match ev with | .clock t => t | _ => s.now := by
  cases ev with
  | clock t => rfl
  | mint b t => rfl
  | begin t => rfl
  | retire t => rfl
  | finish t => simp only [SetupRelay.step]; split <;> rfl
  | enrolled i answer => simp only [SetupRelay.step]; split <;> rfl
  | checked i answer =>
    simp only [SetupRelay.step]
    split
    · rfl
    · split <;> rfl
    · rfl
  | appended i written =>
    simp only [SetupRelay.step]
    split
    · split <;> rfl
    · rfl

theorem now_run {t₀ : Int} : ∀ (later : List SetupEvent) (h : SetupHistory), t₀ ≤ h.relay.now →
    (∀ t, SetupEvent.clock t ∈ later → t₀ ≤ t) → t₀ ≤ (Steps.run step h later).relay.now
  | [], _, hnow, _ => hnow
  | ev :: later, h, hnow, hclock => by
    refine now_run later (h.step ev) ?_ (fun t ht => hclock t (List.mem_cons_of_mem _ ht))
    show t₀ ≤ (h.relay.step ev).1.now
    rw [now_step]
    split
    · exact hclock _ List.mem_cons_self
    · exact hnow

/-! ## The cap of a Burrow -/

theorem get_prune_other {now : Int} {tokens : SetupTokens} {burrowId k : JsString} {slot : SetupTokenSlot}
    (h : tokens.get k = some slot) (hb : slot.entry.burrowId ≠ burrowId) (hexp : now < slot.entry.expiresAt) :
    (tokens.prune now burrowId).get k = some slot := by
  refine SetupTokens.get_trimBurrow_other _ ?_ hb
  rw [SetupTokens.get_pruneExpired, h]
  simp [Option.filter, hexp]

theorem outstanding_issue (now : Int) (tokens : SetupTokens) (burrowId token : JsString)
    (h : ∀ b, tokens.outstanding b ≤ maxTokensPerBurrow) (b : JsString) :
    (tokens.issue now burrowId token).1.outstanding b ≤ maxTokensPerBurrow := by
  show SetupTokens.outstanding ((tokens.prune now burrowId).set token ⟨⟨burrowId, now + setupTokenTtlMs⟩, .live⟩) b ≤ _
  by_cases hb : b = burrowId
  · subst hb
    -- one slot is left for the new token
    have hroom : (tokens.prune now b).outstanding b ≤ maxTokensPerBurrow - 1 := SetupTokens.outstanding_trimBurrow _ _ _
    have hone : SetupTokens.outstanding ((tokens.prune now b).set token ⟨⟨b, now + setupTokenTtlMs⟩, .live⟩) b ≤
        (tokens.prune now b).outstanding b + 1 := by
      refine OrdMap.count_le_succ token (fun k v hk hget hv => ⟨v, ?_, hv⟩)
      rwa [OrdMap.get_set_ne _ _ hk] at hget
    exact hone.trans (Nat.succ_le_succ hroom)
  · refine le_trans (OrdMap.count_le fun k v hget hv => ?_) (h b)
    have hk : k ≠ token := by
      rintro rfl
      rw [OrdMap.get_set_self] at hget
      rw [← Option.some.inj hget] at hv
      exact hb (of_decide_eq_true hv).symm
    rcases SetupRelay.get_issue now tokens burrowId token k hk with heq | hnone
    · exact ⟨v, heq ▸ hget, hv⟩
    · have hget' : (tokens.issue now burrowId token).1.get k = some v := hget
      rw [hnone] at hget'
      cases hget'

/-- **No Burrow has more tokens outstanding than its cap.** -/
theorem outstanding_step (s : SetupRelay) (ev : SetupEvent) (h : ∀ b, s.tokens.outstanding b ≤ maxTokensPerBurrow)
    (b : JsString) : (s.step ev).1.tokens.outstanding b ≤ maxTokensPerBurrow := by
  by_cases hmint : ∃ burrowId token, ev = .mint burrowId token
  · obtain ⟨burrowId, token, rfl⟩ := hmint
    exact outstanding_issue s.now s.tokens burrowId token h b
  · refine le_trans (OrdMap.count_le fun k v hget hv => ?_) (h b)
    rcases tokens_step s ev hget with ⟨slot, hwas, heq⟩ | ⟨b', hev⟩
    · refine ⟨slot, hwas, ?_⟩
      rw [heq]
      exact hv
    · exact absurd ⟨b', k, hev⟩ hmint

/-! ## Every run -/

structure Kept (h : SetupHistory) : Prop where
  sound : h.Sound
  once : Once h.log
  cap : ∀ b, h.relay.tokens.outstanding b ≤ maxTokensPerBurrow

theorem kept_start (now : Int) (passkeys : List JsString) : (start now passkeys).Kept where
  sound := sound_start now passkeys
  once := ⟨fun _ => Nat.zero_le 1, fun earlier later k e hsplit hret => by
    rw [(List.append_eq_nil_iff.1 hsplit.symm).1] at hret
    cases hret⟩
  cap := fun _ => Nat.zero_le _

/-- **What holds after every run whose minted tokens are new.** -/
theorem kept_run (now : Int) (passkeys : List JsString) {events : List SetupEvent}
    (h : Steps.Along step Fresh (start now passkeys) events) : (run now passkeys events).Kept :=
  Steps.run_invariant_along (fun h ev hf hk => ⟨sound_step h ev hf hk.sound, once_step h ev hk.sound hk.once,
    outstanding_step h.relay ev hk.cap⟩) events _ h (kept_start now passkeys)

/-- A token minted with entry `e` is dead: retired, settled, no longer in the map (evicted by the cap, or found expired), or
expired by a clock that does not go back before its expiry. -/
def Dead (h : SetupHistory) (k : JsString) (e : SetupTokenEntry) (later : List SetupEvent) : Prop :=
  (∃ e', retired k (some e') ∈ h.log) ∨ (∃ i c, registered i k c ∈ h.log) ∨ h.relay.tokens.get k = none ∨
    (e.expiresAt ≤ h.relay.now ∧ ∀ t, SetupEvent.clock t ∈ later → e.expiresAt ≤ t)

/-- **A dead token is not claimable again.** -/
theorem dead_run {later : List SetupEvent} (hs : h.Sound) (hs' : (Steps.run step h later).Sound)
    (hfresh : Steps.Along step Fresh h later) (hm : minted k e ∈ h.log) (hdead : h.Dead k e later) :
    ¬Claimable (Steps.run step h later).relay k := by
  have hnone : h.relay.tokens.get k = none → ¬Claimable (Steps.run step h later).relay k := fun hgone =>
    not_claimable (fun slot hslot => by rw [gone_run hfresh hm hgone] at hslot; cases hslot)
  rcases hdead with ⟨e', hret⟩ | ⟨i, c, hreg⟩ | hgone | ⟨hexp, hclock⟩
  · exact hnone (hs.retired k e' hret).1
  · exact hnone (hs.registered i k c hreg).1
  · exact hnone hgone
  · refine not_claimable (fun slot hslot => ?_)
    have hlater : minted k e ∈ (Steps.run step h later).log :=
      Steps.run_invariant (I := fun h => minted k e ∈ h.log) (fun _ ev hx => mem_log_step ev hx) later h hm
    rw [← hs'.once k e slot.entry hlater (hs'.minted k slot hslot)]
    exact now_run later h hexp hclock

/-- **A failed finish gives its token back**, if it is still there and not expired. -/
theorem failed_back (hs : h.Sound) {ev : SetupEvent} {i : Nat} (hm : minted k e ∈ h.log)
    (hout : failed i k ∈ (h.relay.step ev).2) (hthere : h.relay.tokens.get k ≠ none) (hexp : h.relay.now < e.expiresAt) :
    (h.step ev).relay.tokens.get k = some ⟨e, .live⟩ := by
  obtain ⟨slot, hslot⟩ := Option.ne_none_iff_exists'.1 hthere
  have he : slot.entry = e := hs.once k slot.entry e (hs.minted k slot hslot) hm
  have hmove := h.relay.move_step ev
  show (h.relay.step ev).1.tokens.get k = _
  generalize (h.relay.step ev).1 = s' at hmove ⊢
  generalize (h.relay.step ev).2 = out at hmove hout
  cases hmove with
  | quiet _ _ _ hquiet => exact (hquiet _ hout).elim
  | fail j p hj hf =>
    obtain ⟨rfl, rfl⟩ := SetupOutput.failed.inj (List.mem_singleton.1 hout)
    rw [hf.back slot hslot (he ▸ hexp), he]
  | _ => simp at hout

def retiredMidway : List SetupEvent :=
  [.mint [1] [7], .finish [7], .enrolled 0 (.ok true), .retire [7], .checked 0 (some [9])]

end SetupHistory

end Relay
end Dormouse

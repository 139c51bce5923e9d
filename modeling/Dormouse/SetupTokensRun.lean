import Dormouse.SetupTokens
/-!
# SetupTokensRun — every token registers at most once

What a step of the Relay can do to its tokens and finishes is said once (`Move`).  From it: at most one finish holds a
token, and the slot it holds is claimed, or committed while it writes (`Sound`); a token that is gone stays gone.
-/
namespace Dormouse
namespace Relay

namespace SetupTokens

theorem get_deleteAll (tokens : SetupTokens) (gone : List JsString) (k : JsString) :
    (tokens.deleteAll gone).get k = if k ∈ gone then none else tokens.get k := by
  unfold deleteAll
  induction gone generalizing tokens with
  | nil => simp
  | cons t gone ih =>
    rw [List.foldl_cons, ih, OrdMap.get_delete]
    by_cases hk : k = t
    · simp [hk]
    · simp [hk]

/-- **What `#live` does**: a slot it answers is there and unexpired, and otherwise the token is gone. -/
theorem live_cases (now : Int) (tokens : SetupTokens) (token : JsString) :
    (∃ slot, tokens.get token = some slot ∧ now < slot.entry.expiresAt ∧ live now tokens token = (tokens, some slot)) ∨
      ∃ tokens', live now tokens token = (tokens', none) ∧
        (∀ k, tokens'.get k = if k = token then none else tokens.get k) ∧
        ∀ slot, tokens.get token = some slot → slot.entry.expiresAt ≤ now := by
  unfold live
  cases hget : tokens.get token with
  | none =>
    refine .inr ⟨tokens, rfl, fun k => ?_, fun _ h => by cases h⟩
    by_cases hk : k = token
    · rw [if_pos hk, hk, hget]
    · rw [if_neg hk]
  | some slot =>
    by_cases hexp : slot.entry.expiresAt ≤ now
    · refine .inr ⟨tokens.delete token, by simp [hexp], OrdMap.get_delete tokens token, fun _ h => ?_⟩
      cases h
      exact hexp
    · exact .inl ⟨slot, rfl, Int.not_le.1 hexp, by simp [hexp]⟩

theorem get_restore (now : Int) (tokens : SetupTokens) (token k : JsString) :
    (tokens.restore now token).get k =
      if k = token then (tokens.get token).bind (fun slot =>
        if slot.entry.expiresAt ≤ now then none else some { slot with state := .live })
      else tokens.get k := by
  unfold restore
  cases hget : tokens.get token with
  | none =>
    by_cases hk : k = token
    · simp [hk, hget]
    · simp [hk]
  | some slot =>
    by_cases hexp : slot.entry.expiresAt ≤ now
    · simp [hexp, OrdMap.get_delete]
    · simp [hexp, mark, OrdMap.get_set]

theorem get_pruneExpired (now : Int) (tokens : SetupTokens) (k : JsString) :
    (tokens.pruneExpired now).get k = (tokens.get k).filter (fun slot => now < slot.entry.expiresAt) := by
  rw [pruneExpired, get_deleteAll]
  cases hget : tokens.get k with
  | none => simp
  | some slot =>
    have hmem : k ∈ (tokens.entries.filter (fun e => e.2.entry.expiresAt ≤ now)).map Prod.fst ↔
        slot.entry.expiresAt ≤ now := by
      rw [List.mem_map]
      constructor
      · rintro ⟨⟨k', slot'⟩, he, rfl⟩
        obtain ⟨he, hexp⟩ := List.mem_filter.1 he
        have : tokens.get k' = some slot' := OrdMap.mem_entries.1 he
        rw [hget] at this
        cases this
        exact of_decide_eq_true hexp
      · intro hexp
        exact ⟨(k, slot), List.mem_filter.2 ⟨OrdMap.mem_entries.2 hget, decide_eq_true hexp⟩, rfl⟩
    by_cases hexp : slot.entry.expiresAt ≤ now
    · rw [if_pos (hmem.2 hexp)]
      simp [Option.filter, Int.not_lt.2 hexp]
    · rw [if_neg (fun h => hexp (hmem.1 h))]
      simp [Option.filter, Int.not_le.1 hexp]

theorem mem_own {tokens : SetupTokens} {burrowId k : JsString} {slot : SetupTokenSlot} :
    (k, slot) ∈ tokens.own burrowId ↔ tokens.get k = some slot ∧ slot.entry.burrowId = burrowId := by
  unfold own
  rw [List.mem_mergeSort, List.mem_filter, OrdMap.mem_entries, decide_eq_true_eq]

theorem get_trimBurrow_other {tokens : SetupTokens} {burrowId k : JsString} {slot : SetupTokenSlot} (limit : Nat)
    (h : tokens.get k = some slot) (hb : slot.entry.burrowId ≠ burrowId) :
    (tokens.trimBurrow burrowId limit).get k = some slot := by
  rw [trimBurrow, get_deleteAll, if_neg, h]
  intro hk
  obtain ⟨⟨k', slot'⟩, he, rfl⟩ := List.mem_map.1 hk
  obtain ⟨hget, hb'⟩ := mem_own.1 (List.mem_of_mem_take he)
  rw [h] at hget
  cases hget
  exact hb hb'

def outstanding (tokens : SetupTokens) (burrowId : JsString) : Nat :=
  tokens.count (fun slot => slot.entry.burrowId = burrowId)

/-- **Trimming a Burrow leaves it no more tokens than the limit.** -/
theorem outstanding_trimBurrow (tokens : SetupTokens) (burrowId : JsString) (limit : Nat) :
    (tokens.trimBurrow burrowId limit).outstanding burrowId ≤ limit := by
  unfold outstanding
  rw [OrdMap.count_eq_holders]
  have hsub : (tokens.trimBurrow burrowId limit).holders (fun slot => slot.entry.burrowId = burrowId) ⊆
      ((tokens.own burrowId).drop ((tokens.own burrowId).length - limit)).map Prod.fst := by
    intro k hk
    obtain ⟨slot, hget, hb⟩ := OrdMap.mem_holders.1 hk
    rw [trimBurrow, get_deleteAll] at hget
    split at hget
    · cases hget
    · rename_i hkeep
      have hown := mem_own.2 ⟨hget, of_decide_eq_true hb⟩
      rw [← List.take_append_drop ((tokens.own burrowId).length - limit) (tokens.own burrowId)] at hown
      rcases List.mem_append.1 hown with htake | hdrop
      · exact absurd (List.mem_map_of_mem (f := Prod.fst) htake) hkeep
      · exact List.mem_map_of_mem (f := Prod.fst) hdrop
  have hlen := (List.subperm_of_subset (OrdMap.nodup_holders _ _) hsub).length_le
  rw [List.length_map, List.length_drop] at hlen
  omega

end SetupTokens

/-! ## What a step can do -/

/-- An answer that says nothing of a mint, a retired token or the end of a finish. -/
def SetupOutput.Quiet : SetupOutput → Prop
  | .minted _ _         => False
  | .retired _ (some _) => False
  | .registered _ _ _   => False
  | .failed _ _         => False
  | _                   => True

namespace SetupRelay

/-- `fail` after tokens that were removed. -/
structure Fails (s : SetupRelay) (i : Nat) (token : JsString) (s' : SetupRelay) : Prop where
  next : s'.next = s.next
  finishes : s'.finishes = s.finishes.delete i
  others : ∀ k, k ≠ token → s'.tokens.get k = s.tokens.get k
  own : ∀ slot', s'.tokens.get token = some slot' → ∃ slot, s.tokens.get token = some slot ∧
    slot' = { slot with state := .live }
  back : ∀ slot, s.tokens.get token = some slot → s.now < slot.entry.expiresAt →
    s'.tokens.get token = some { slot with state := .live }

inductive Move (s : SetupRelay) (ev : SetupEvent) : SetupRelay → List SetupOutput → Prop
  /-- Tokens are removed at most. -/
  | quiet {s' : SetupRelay} {out : List SetupOutput} (next : s'.next = s.next) (finishes : s'.finishes = s.finishes)
      (tokens : ∀ k, s'.tokens.get k = s.tokens.get k ∨ s'.tokens.get k = none) (said : ∀ o ∈ out, o.Quiet) : Move s ev s' out
  | mint {s' : SetupRelay} (burrowId token : JsString) (entry : SetupTokenEntry) (event : ev = .mint burrowId token)
      (next : s'.next = s.next)
      (finishes : s'.finishes = s.finishes) (own : s'.tokens.get token = some ⟨entry, .live⟩)
      (tokens : ∀ k, k ≠ token → s'.tokens.get k = s.tokens.get k ∨ s'.tokens.get k = none) :
      Move s ev s' [.minted token entry]
  | retire {s' : SetupRelay} (token : JsString) (slot : SetupTokenSlot) (next : s'.next = s.next)
      (finishes : s'.finishes = s.finishes) (was : s.tokens.get token = some slot) (state : slot.state ≠ .committed)
      (own : s'.tokens.get token = none) (tokens : ∀ k, k ≠ token → s'.tokens.get k = s.tokens.get k) :
      Move s ev s' [.retired token (some slot.entry)]
  | claim {s' : SetupRelay} (token : JsString) (slot : SetupTokenSlot) (next : s'.next = s.next + 1)
      (finishes : s'.finishes = s.finishes.set s.next (.gated token)) (was : s.tokens.get token = some slot)
      (state : slot.state = .live) (own : s'.tokens.get token = some { slot with state := .claimed })
      (tokens : ∀ k, k ≠ token → s'.tokens.get k = s.tokens.get k) : Move s ev s' [.claimed s.next token slot.entry]
  | fail {s' : SetupRelay} (i : Nat) (p : SetupFinish) (was : s.finishes.get i = some p) (fails : s.Fails i p.token s') :
      Move s ev s' [.failed i p.token]
  /-- The minter is found revoked. -/
  | revoke {s' : SetupRelay} (i : Nat) (p : SetupFinish) (next : s'.next = s.next)
      (finishes : s'.finishes = s.finishes.delete i) (tokens : s'.tokens = s.tokens) : Move s ev s' [.revoked i p.token]
  | enroll {s' : SetupRelay} (i : Nat) (token : JsString) (was : s.finishes.get i = some (.gated token))
      (next : s'.next = s.next) (finishes : s'.finishes = s.finishes.set i (.checking token))
      (tokens : s'.tokens = s.tokens) : Move s ev s' []
  | commit {s' : SetupRelay} (i : Nat) (token credentialId : JsString) (slot : SetupTokenSlot)
      (was : s.finishes.get i = some (.checking token)) (next : s'.next = s.next)
      (finishes : s'.finishes = s.finishes.set i (.writing token credentialId)) (slotWas : s.tokens.get token = some slot)
      (own : s'.tokens.get token = some { slot with state := .committed })
      (tokens : ∀ k, k ≠ token → s'.tokens.get k = s.tokens.get k) : Move s ev s' []
  | register {s' : SetupRelay} (i : Nat) (token credentialId : JsString)
      (was : s.finishes.get i = some (.writing token credentialId)) (next : s'.next = s.next)
      (finishes : s'.finishes = s.finishes.delete i) (own : s'.tokens.get token = none)
      (tokens : ∀ k, k ≠ token → s'.tokens.get k = s.tokens.get k) : Move s ev s' [.registered i token credentialId]

theorem removed_of_live {tokens tokens' : SetupTokens} {token : JsString}
    (h : ∀ k, tokens'.get k = if k = token then none else tokens.get k) (k : JsString) :
    tokens'.get k = tokens.get k ∨ tokens'.get k = none := by
  rw [h]
  by_cases hk : k = token
  · exact .inr (if_pos hk)
  · exact .inl (if_neg hk)

theorem fails_fail (s : SetupRelay) (i : Nat) (token : JsString) {tokens : SetupTokens}
    (h : ∀ k, tokens.get k = s.tokens.get k ∨
      (k = token ∧ tokens.get k = none ∧ ∀ slot, s.tokens.get token = some slot → slot.entry.expiresAt ≤ s.now)) :
    s.Fails i token ({ s with tokens }.fail i token).1 := by
  refine ⟨rfl, rfl, fun k hk => ?_, fun slot' hget => ?_, fun slot hslot hexp => ?_⟩
  · show (tokens.restore s.now token).get k = _
    rw [SetupTokens.get_restore, if_neg hk]
    rcases h k with h | h
    · exact h
    · exact absurd h.1 hk
  · have hget' : (tokens.restore s.now token).get token = some slot' := hget
    rw [SetupTokens.get_restore, if_pos rfl, Option.bind_eq_some_iff] at hget'
    obtain ⟨slot, hslot, hlive⟩ := hget'
    by_cases hexp : slot.entry.expiresAt ≤ s.now
    · rw [if_pos hexp] at hlive
      cases hlive
    · rw [if_neg hexp] at hlive
      refine ⟨slot, ?_, (Option.some.inj hlive).symm⟩
      rcases h token with h | h
      · rw [← h]
        exact hslot
      · rw [h.2.1] at hslot
        cases hslot
  · show (tokens.restore s.now token).get token = _
    rw [SetupTokens.get_restore, if_pos rfl]
    rcases h token with h | h
    · rw [h, hslot]
      exact if_neg (Int.not_le.2 hexp)
    · exact absurd (h.2.2 slot hslot) (Int.not_le.2 hexp)

theorem get_issue (now : Int) (tokens : SetupTokens) (burrowId token k : JsString) (hk : k ≠ token) :
    (tokens.issue now burrowId token).1.get k = tokens.get k ∨ (tokens.issue now burrowId token).1.get k = none := by
  show ((tokens.prune now burrowId).set token _).get k = _ ∨ ((tokens.prune now burrowId).set token _).get k = _
  rw [OrdMap.get_set_ne _ _ hk, SetupTokens.prune, SetupTokens.trimBurrow, SetupTokens.get_deleteAll,
    SetupTokens.get_pruneExpired]
  split
  · exact .inr rfl
  · cases hget : tokens.get k with
    | none => exact .inl rfl
    | some slot =>
      by_cases hexp : now < slot.entry.expiresAt
      · simp [Option.filter, hexp]
      · simp [Option.filter, hexp]

theorem move_step (s : SetupRelay) (ev : SetupEvent) : s.Move ev (s.step ev).1 (s.step ev).2 := by
  cases ev with
  | clock now => exact .quiet rfl rfl (fun _ => .inl rfl) (by simp [step])
  | mint burrowId token =>
    exact .mint burrowId token _ rfl rfl rfl (OrdMap.get_set_self ..) (fun k hk => get_issue s.now s.tokens burrowId token k hk)
  | begin token =>
    simp only [step, SetupTokens.peek]
    rcases SetupTokens.live_cases s.now s.tokens token with ⟨slot, -, -, hlive⟩ | ⟨tokens', hlive, hget, -⟩
    · rw [hlive]
      exact .quiet rfl rfl (fun _ => .inl rfl) (by simp [SetupOutput.Quiet])
    · rw [hlive]
      exact .quiet rfl rfl (removed_of_live hget) (by simp [SetupOutput.Quiet])
  | retire token =>
    simp only [step, SetupTokens.retire]
    rcases SetupTokens.live_cases s.now s.tokens token with ⟨slot, hslot, -, hlive⟩ | ⟨tokens', hlive, hget, -⟩
    · rw [hlive]
      dsimp only
      by_cases hstate : slot.state = .committed
      · rw [if_pos hstate]
        refine .quiet rfl rfl (removed_of_live (fun k => OrdMap.get_delete s.tokens token k)) ?_
        simp [SetupOutput.Quiet]
      · rw [if_neg hstate]
        exact .retire token slot rfl rfl hslot hstate (OrdMap.get_delete_self ..)
          (fun k hk => OrdMap.get_delete_ne _ hk)
    · rw [hlive]
      exact .quiet rfl rfl (removed_of_live hget) (by simp [SetupOutput.Quiet])
  | finish token =>
    simp only [step, SetupTokens.claim]
    rcases SetupTokens.live_cases s.now s.tokens token with ⟨slot, hslot, -, hlive⟩ | ⟨tokens', hlive, hget, -⟩
    · rw [hlive]
      dsimp only
      by_cases hstate : slot.state = .live
      · rw [if_pos hstate]
        exact .claim token slot rfl rfl hslot hstate (OrdMap.get_set_self ..) (fun k hk => OrdMap.get_set_ne _ _ hk)
      · rw [if_neg hstate]
        exact .quiet rfl rfl (fun _ => .inl rfl) (by simp [SetupOutput.Quiet])
    · rw [hlive]
      exact .quiet rfl rfl (removed_of_live hget) (by simp [SetupOutput.Quiet])
  | enrolled i answer =>
    simp only [step]
    split
    · rename_i token _ hi
      exact .fail i (.gated token) hi (fails_fail s i token (fun _ => .inl rfl))
    · rename_i token hi
      exact .revoke i (.gated token) rfl rfl rfl
    · rename_i token hi
      exact .enroll i token hi rfl rfl rfl
    · exact .quiet rfl rfl (fun _ => .inl rfl) (by simp)
  | checked i answer =>
    simp only [step]
    split
    · rename_i token hi
      exact .fail i (.checking token) hi (fails_fail s i token (fun _ => .inl rfl))
    · rename_i token credentialId hi
      unfold SetupTokens.commit
      rcases SetupTokens.live_cases s.now s.tokens token with ⟨slot, hslot, -, hlive⟩ | ⟨tokens', hlive, hget, hexp⟩
      · rw [hlive]
        dsimp only
        by_cases hstate : slot.state = .claimed
        · rw [if_pos hstate]
          exact .commit i token credentialId slot hi rfl rfl hslot (OrdMap.get_set_self ..)
            (fun k hk => OrdMap.get_set_ne _ _ hk)
        · rw [if_neg hstate]
          exact .fail i (.checking token) hi (fails_fail s i token (fun _ => .inl rfl))
      · rw [hlive]
        refine .fail i (.checking token) hi (fails_fail s i token fun k => ?_)
        rw [hget]
        by_cases hk : k = token
        · exact .inr ⟨hk, if_pos hk, hexp⟩
        · exact .inl (if_neg hk)
    · exact .quiet rfl rfl (fun _ => .inl rfl) (by simp)
  | appended i written =>
    simp only [step]
    split
    · rename_i token credentialId hi
      by_cases hwrite : written = true ∧ credentialId ∉ s.passkeys
      · rw [if_pos hwrite]
        exact .register i token credentialId hi rfl rfl (OrdMap.get_delete_self ..)
          (fun k hk => OrdMap.get_delete_ne _ hk)
      · rw [if_neg hwrite]
        exact .fail i (.writing token credentialId) hi (fails_fail s i token (fun _ => .inl rfl))
    · exact .quiet rfl rfl (fun _ => .inl rfl) (by simp)

end SetupRelay


/-! ## What holds after every run -/

namespace SetupHistory

open SetupOutput SetupRelay

/-- Finishes and slots agree, and what has been answered is kept. -/
structure Sound (h : SetupHistory) : Prop where
  next : ∀ i p, h.relay.finishes.get i = some p → i < h.relay.next
  minted : ∀ k slot, h.relay.tokens.get k = some slot → minted k slot.entry ∈ h.log
  once : ∀ k e e', SetupOutput.minted k e ∈ h.log → SetupOutput.minted k e' ∈ h.log → e = e'
  holder : ∀ i p, h.relay.finishes.get i = some p → ∃ e, SetupOutput.minted p.token e ∈ h.log
  /-- One finish at most holds a token. -/
  unique : ∀ i j p q, h.relay.finishes.get i = some p → h.relay.finishes.get j = some q → p.token = q.token → i = j
  /-- The slot a finish holds is claimed, or committed while it writes. -/
  holds : ∀ i p slot, h.relay.finishes.get i = some p → h.relay.tokens.get p.token = some slot → slot.state = p.holds
  registered : ∀ i k c, registered i k c ∈ h.log → h.relay.tokens.get k = none ∧ (∃ e, SetupOutput.minted k e ∈ h.log) ∧
    ∀ j p, h.relay.finishes.get j = some p → p.token ≠ k
  retired : ∀ k e, retired k (some e) ∈ h.log → h.relay.tokens.get k = none ∧ SetupOutput.minted k e ∈ h.log ∧
    ∀ j p, h.relay.finishes.get j = some p → p.token = k → p.holds ≠ .committed

theorem sound_start (now : Int) (passkeys : List JsString) : (start now passkeys).Sound := by
  constructor <;> simp [start, SetupRelay.start]

section
variable {h : SetupHistory} {s' : SetupRelay}

theorem sound_less (hs : h.Sound) (hnext : s'.next = h.relay.next)
    (hfin : ∀ i p, s'.finishes.get i = some p → h.relay.finishes.get i = some p)
    (htok : ∀ k, s'.tokens.get k = h.relay.tokens.get k ∨ s'.tokens.get k = none) : Sound ⟨s', h.log⟩ := by
  have hget : ∀ k slot, s'.tokens.get k = some slot → h.relay.tokens.get k = some slot := by
    intro k slot hk
    rcases htok k with heq | hnone
    · rw [← heq]
      exact hk
    · rw [hnone] at hk
      cases hk
  have hnone : ∀ k, h.relay.tokens.get k = none → s'.tokens.get k = none := fun k hk =>
    (htok k).elim (fun heq => heq.trans hk) id
  refine ⟨fun i p hi => hnext ▸ hs.next i p (hfin i p hi), fun k slot hk => hs.minted k slot (hget k slot hk), hs.once,
    fun i p hi => hs.holder i p (hfin i p hi), fun i j p q hi hj => hs.unique i j p q (hfin i p hi) (hfin j q hj),
    fun i p slot hi hk => hs.holds i p slot (hfin i p hi) (hget _ _ hk), fun i k c hm => ?_, fun k e hm => ?_⟩
  · obtain ⟨hgone, hminted, hfree⟩ := hs.registered i k c hm
    exact ⟨hnone k hgone, hminted, fun j p hj => hfree j p (hfin j p hj)⟩
  · obtain ⟨hgone, hminted, hfree⟩ := hs.retired k e hm
    exact ⟨hnone k hgone, hminted, fun j p hj => hfree j p (hfin j p hj)⟩

theorem Sound.answer (hs : h.Sound) {o : SetupOutput} (hmint : ∀ k e, o ≠ .minted k e)
    (hreg : ∀ i k c, o = .registered i k c → h.relay.tokens.get k = none ∧ (∃ e, SetupOutput.minted k e ∈ h.log) ∧
      ∀ j p, h.relay.finishes.get j = some p → p.token ≠ k)
    (hret : ∀ k e, o = .retired k (some e) → h.relay.tokens.get k = none ∧ SetupOutput.minted k e ∈ h.log ∧
      ∀ j p, h.relay.finishes.get j = some p → p.token = k → p.holds ≠ .committed) :
    Sound ⟨h.relay, h.log ++ [o]⟩ := by
  have hmem : ∀ {x}, x ∈ h.log → x ∈ h.log ++ [o] := fun hx => List.mem_append_left _ hx
  have hlog : ∀ {x}, x ∈ h.log ++ [o] → x ∈ h.log ∨ o = x := fun hx =>
    (List.mem_append.1 hx).imp id (fun hx => (List.mem_singleton.1 hx).symm)
  have hminted : ∀ {k e}, SetupOutput.minted k e ∈ h.log ++ [o] → SetupOutput.minted k e ∈ h.log := fun hx =>
    (hlog hx).elim id (fun ho => absurd ho (hmint _ _))
  refine ⟨hs.next, fun k slot hk => hmem (hs.minted k slot hk), fun k e e' he he' => hs.once k e e' (hminted he) (hminted he'),
    fun i p hi => (hs.holder i p hi).imp (fun _ he => hmem he), hs.unique, hs.holds, fun i k c hm => ?_, fun k e hm => ?_⟩
  · obtain ⟨hgone, ⟨e, he⟩, hfree⟩ := (hlog hm).elim (hs.registered i k c) (hreg i k c)
    exact ⟨hgone, ⟨e, hmem he⟩, hfree⟩
  · obtain ⟨hgone, he, hfree⟩ := (hlog hm).elim (hs.retired k e) (hret k e)
    exact ⟨hgone, hmem he, hfree⟩

theorem Sound.quiet (hs : h.Sound) {o : SetupOutput} (ho : o.Quiet ∨ ∃ i k, o = .failed i k) :
    Sound ⟨h.relay, h.log ++ [o]⟩ := by
  refine hs.answer ?_ ?_ ?_
  · rintro k e rfl
    simp [Quiet] at ho
  · rintro i k c rfl
    simp [Quiet] at ho
  · rintro k e rfl
    simp [Quiet] at ho

theorem Sound.quiets : ∀ {out : List SetupOutput} {h : SetupHistory}, h.Sound → (∀ o ∈ out, o.Quiet) →
    Sound ⟨h.relay, h.log ++ out⟩
  | [], h, hs, _ => by simpa using hs
  | o :: out, h, hs, hout => by
    have hone := hs.quiet (.inl (hout o List.mem_cons_self))
    have hrest := hone.quiets (fun x hx => hout x (List.mem_cons_of_mem _ hx))
    rw [List.append_assoc, List.singleton_append] at hrest
    exact hrest

theorem get_of_delete {finishes : OrdMap Nat SetupFinish} {i j : Nat} {p : SetupFinish}
    (h : (finishes.delete i).get j = some p) : j ≠ i ∧ finishes.get j = some p := by
  rw [OrdMap.get_delete] at h
  by_cases hj : j = i
  · rw [if_pos hj] at h
    cases h
  · rw [if_neg hj] at h
    exact ⟨hj, h⟩

theorem get_of_set {finishes : OrdMap Nat SetupFinish} {i j : Nat} {p q : SetupFinish}
    (h : (finishes.set i p).get j = some q) : (j = i ∧ q = p) ∨ (j ≠ i ∧ finishes.get j = some q) := by
  rw [OrdMap.get_set] at h
  by_cases hj : j = i
  · rw [if_pos hj] at h
    exact .inl ⟨hj, (Option.some.inj h).symm⟩
  · rw [if_neg hj] at h
    exact .inr ⟨hj, h⟩

theorem sound_phase (hs : h.Sound) {i : Nat} {p : SetupFinish} (p' : SetupFinish) (hi : h.relay.finishes.get i = some p)
    (htoken : p'.token = p.token) (hnext : s'.next = h.relay.next) (hfin : s'.finishes = h.relay.finishes.set i p')
    (hown : (h.relay.tokens.get p.token = none ∧ s'.tokens.get p.token = none ∧ p'.holds = p.holds) ∨
      ∃ slot, h.relay.tokens.get p.token = some slot ∧ s'.tokens.get p.token = some { slot with state := p'.holds })
    (htok : ∀ k, k ≠ p.token → s'.tokens.get k = h.relay.tokens.get k) : Sound ⟨s', h.log⟩ := by
  -- every finish is the one it was, but for `i`, which keeps its token
  have hold : ∀ j q, s'.finishes.get j = some q →
      (j = i ∧ q = p') ∨ (j ≠ i ∧ h.relay.finishes.get j = some q) := fun j q hj => get_of_set (hfin ▸ hj)
  have hsame : ∀ j q, s'.finishes.get j = some q → ∃ q', h.relay.finishes.get j = some q' ∧ q'.token = q.token := by
    intro j q hj
    rcases hold j q hj with ⟨rfl, rfl⟩ | ⟨-, hj⟩
    · exact ⟨p, hi, htoken.symm⟩
    · exact ⟨q, hj, rfl⟩
  have hnone : ∀ k, h.relay.tokens.get k = none → s'.tokens.get k = none := by
    intro k hk
    by_cases hkp : k = p.token
    · rcases hown with ⟨-, hgone, -⟩ | ⟨slot, hslot, -⟩
      · rw [hkp]
        exact hgone
      · rw [← hkp, hk] at hslot
        cases hslot
    · rw [htok k hkp]
      exact hk
  refine ⟨fun j q hj => ?_, fun k slot hk => ?_, hs.once, fun j q hj => ?_, fun j l q r hj hl heq => ?_,
    fun j q slot hj hk => ?_, fun l k c hm => ?_, fun k e hm => ?_⟩
  · obtain ⟨q', hq', -⟩ := hsame j q hj
    exact hnext ▸ hs.next j q' hq'
  · by_cases hkp : k = p.token
    · rcases hown with ⟨-, hgone, -⟩ | ⟨old, hslot, hnew⟩
      · rw [hkp, hgone] at hk
        cases hk
      · rw [hkp, hnew] at hk
        rw [hkp, ← Option.some.inj hk]
        exact hs.minted p.token old hslot
    · exact hs.minted k slot (by rw [← htok k hkp]; exact hk)
  · obtain ⟨q', hq', heq⟩ := hsame j q hj
    exact heq ▸ hs.holder j q' hq'
  · obtain ⟨q', hq', hq⟩ := hsame j q hj
    obtain ⟨r', hr', hr⟩ := hsame l r hl
    exact hs.unique j l q' r' hq' hr' (hq.trans (heq.trans hr.symm))
  · rcases hold j q hj with ⟨rfl, rfl⟩ | ⟨hne, hj⟩
    · rw [htoken] at hk
      rcases hown with ⟨-, hgone, -⟩ | ⟨old, -, hnew⟩
      · rw [hgone] at hk
        cases hk
      · rw [hnew] at hk
        rw [← Option.some.inj hk]
    · have hne' : q.token ≠ p.token := fun heq => hne (hs.unique j i q p hj hi heq)
      exact hs.holds j q slot hj (by rw [← htok _ hne']; exact hk)
  · obtain ⟨hgone, hminted, hfree⟩ := hs.registered l k c hm
    refine ⟨hnone k hgone, hminted, fun j q hj => ?_⟩
    obtain ⟨q', hq', heq⟩ := hsame j q hj
    exact heq ▸ hfree j q' hq'
  · obtain ⟨hgone, hminted, hfree⟩ := hs.retired k e hm
    refine ⟨hnone k hgone, hminted, fun j q hj heq => ?_⟩
    rcases hold j q hj with ⟨rfl, rfl⟩ | ⟨-, hj⟩
    · rcases hown with ⟨-, -, hholds⟩ | ⟨slot, hslot, -⟩
      · rw [hholds]
        exact hfree j p hi (htoken ▸ heq)
      · rw [← htoken, heq, hgone] at hslot
        cases hslot
    · exact hfree j q hj heq

variable {token : JsString}

theorem sound_mint (hs : h.Sound) {entry : SetupTokenEntry} (hfresh : ∀ entry, SetupOutput.minted token entry ∉ h.log)
    (hnext : s'.next = h.relay.next) (hfin : s'.finishes = h.relay.finishes)
    (hown : s'.tokens.get token = some ⟨entry, .live⟩)
    (htok : ∀ k, k ≠ token → s'.tokens.get k = h.relay.tokens.get k ∨ s'.tokens.get k = none) :
    Sound ⟨s', h.log ++ [.minted token entry]⟩ := by
  have hmem : ∀ {o}, o ∈ h.log → o ∈ h.log ++ [.minted token entry] := fun ho => List.mem_append_left _ ho
  have hlog : ∀ {o}, o ∈ h.log ++ [.minted token entry] → o ∈ h.log ∨ o = .minted token entry := fun ho =>
    (List.mem_append.1 ho).imp id List.mem_singleton.1
  have hget : ∀ k slot, k ≠ token → s'.tokens.get k = some slot → h.relay.tokens.get k = some slot := by
    intro k slot hk hslot
    rcases htok k hk with heq | hnone
    · rw [← heq]
      exact hslot
    · rw [hnone] at hslot
      cases hslot
  have hnone : ∀ k, k ≠ token → h.relay.tokens.get k = none → s'.tokens.get k = none := fun k hk hgone =>
    (htok k hk).elim (fun heq => heq.trans hgone) id
  -- a token said to be minted, and a token held, is another one
  have hother : ∀ {k}, (∃ e, SetupOutput.minted k e ∈ h.log) → k ≠ token := by
    rintro k ⟨e, he⟩ rfl
    exact hfresh e he
  refine ⟨fun i p hi => ?_, fun k slot hk => ?_, fun k e e' he he' => ?_, fun i p hi => ?_,
    fun i j p q hi hj => ?_, fun i p slot hi hk => ?_, fun i k c hm => ?_, fun k e hm => ?_⟩
  · exact hnext ▸ hs.next i p (hfin ▸ hi)
  · by_cases hkt : k = token
    · rw [hkt, hown] at hk
      rw [hkt, ← Option.some.inj hk]
      exact List.mem_append_right _ (List.mem_singleton.2 rfl)
    · exact hmem (hs.minted k slot (hget k slot hkt hk))
  · rcases hlog he with he | he <;> rcases hlog he' with he' | he'
    · exact hs.once k e e' he he'
    · cases he'
      exact absurd he (hfresh e)
    · cases he
      exact absurd he' (hfresh e')
    · cases he
      cases he'
      rfl
  · obtain ⟨e, he⟩ := hs.holder i p (hfin ▸ hi)
    exact ⟨e, hmem he⟩
  · exact hs.unique i j p q (hfin ▸ hi) (hfin ▸ hj)
  · have hi' : h.relay.finishes.get i = some p := hfin ▸ hi
    exact hs.holds i p slot hi' (hget _ _ (hother (hs.holder i p hi')) hk)
  · rcases hlog hm with hm | hm
    · obtain ⟨hgone, ⟨e, he⟩, hfree⟩ := hs.registered i k c hm
      exact ⟨hnone k (hother ⟨e, he⟩) hgone, ⟨e, hmem he⟩, fun j p hj => hfree j p (hfin ▸ hj)⟩
    · cases hm
  · rcases hlog hm with hm | hm
    · obtain ⟨hgone, he, hfree⟩ := hs.retired k e hm
      exact ⟨hnone k (hother ⟨e, he⟩) hgone, hmem he, fun j p hj => hfree j p (hfin ▸ hj)⟩
    · cases hm

theorem gone_or_same (hown : s'.tokens.get token = none) (htok : ∀ k, k ≠ token → s'.tokens.get k = h.relay.tokens.get k)
    (k : JsString) :
    s'.tokens.get k = h.relay.tokens.get k ∨ s'.tokens.get k = none := by
  by_cases hk : k = token
  · exact .inr (hk ▸ hown)
  · exact .inl (htok k hk)

theorem sound_retire (hs : h.Sound) {slot : SetupTokenSlot} (hnext : s'.next = h.relay.next)
    (hfin : s'.finishes = h.relay.finishes) (hwas : h.relay.tokens.get token = some slot) (hstate : slot.state ≠ .committed)
    (hown : s'.tokens.get token = none) (htok : ∀ k, k ≠ token → s'.tokens.get k = h.relay.tokens.get k) :
    Sound ⟨s', h.log ++ [.retired token (some slot.entry)]⟩ := by
  have hless : Sound ⟨s', h.log⟩ := sound_less hs hnext (fun i p hi => hfin ▸ hi) (gone_or_same hown htok)
  refine hless.answer (fun _ _ ho => by cases ho) (fun _ _ _ ho => by cases ho) (fun k e ho => ?_)
  cases ho
  refine ⟨hown, hs.minted token slot hwas, fun j p hj heq => ?_⟩
  have hj' : h.relay.finishes.get j = some p := hfin ▸ hj
  rw [← hs.holds j p slot hj' (heq ▸ hwas)]
  exact hstate

theorem sound_claim (hs : h.Sound) {slot : SetupTokenSlot} (hnext : s'.next = h.relay.next + 1)
    (hfin : s'.finishes = h.relay.finishes.set h.relay.next (.gated token)) (hwas : h.relay.tokens.get token = some slot)
    (hstate : slot.state = .live) (hown : s'.tokens.get token = some { slot with state := .claimed })
    (htok : ∀ k, k ≠ token → s'.tokens.get k = h.relay.tokens.get k) : Sound ⟨s', h.log⟩ := by
  have hold : ∀ j q, s'.finishes.get j = some q →
      (j = h.relay.next ∧ q = .gated token) ∨ (j ≠ h.relay.next ∧ h.relay.finishes.get j = some q) := fun j q hj =>
    get_of_set (hfin ▸ hj)
  have hfree : ∀ j q, h.relay.finishes.get j = some q → q.token ≠ token := by
    intro j q hj heq
    have := hs.holds j q slot hj (heq ▸ hwas)
    rw [hstate] at this
    cases q <;> cases this
  have hnone : ∀ k, h.relay.tokens.get k = none → k ≠ token ∧ s'.tokens.get k = none := by
    intro k hk
    have hkt : k ≠ token := by
      rintro rfl
      rw [hk] at hwas
      cases hwas
    exact ⟨hkt, (htok k hkt).trans hk⟩
  refine ⟨fun j q hj => ?_, fun k slot' hk => ?_, hs.once, fun j q hj => ?_, fun j l q r hj hl heq => ?_,
    fun j q slot' hj hk => ?_, fun l k c hm => ?_, fun k e hm => ?_⟩
  · rw [hnext]
    rcases hold j q hj with ⟨rfl, -⟩ | ⟨-, hj⟩
    · exact Nat.lt_succ_self _
    · exact Nat.lt_succ_of_lt (hs.next j q hj)
  · by_cases hkt : k = token
    · rw [hkt, hown] at hk
      rw [hkt, ← Option.some.inj hk]
      exact hs.minted token slot hwas
    · exact hs.minted k slot' (by rw [← htok k hkt]; exact hk)
  · rcases hold j q hj with ⟨-, rfl⟩ | ⟨-, hj⟩
    · exact ⟨slot.entry, hs.minted token slot hwas⟩
    · exact hs.holder j q hj
  · rcases hold j q hj with ⟨rfl, rfl⟩ | ⟨-, hj⟩ <;> rcases hold l r hl with ⟨rfl, rfl⟩ | ⟨-, hl⟩
    · rfl
    · exact absurd heq.symm (hfree l r hl)
    · exact absurd heq (hfree j q hj)
    · exact hs.unique j l q r hj hl heq
  · rcases hold j q hj with ⟨-, rfl⟩ | ⟨-, hj⟩
    · have hk' : s'.tokens.get token = some slot' := hk
      rw [hown] at hk'
      rw [← Option.some.inj hk']
      rfl
    · exact hs.holds j q slot' hj (by rw [← htok _ (hfree j q hj)]; exact hk)
  · obtain ⟨hgone, hminted, hheld⟩ := hs.registered l k c hm
    refine ⟨(hnone k hgone).2, hminted, fun j q hj => ?_⟩
    rcases hold j q hj with ⟨-, rfl⟩ | ⟨-, hj⟩
    · exact (hnone k hgone).1.symm
    · exact hheld j q hj
  · obtain ⟨hgone, hminted, hheld⟩ := hs.retired k e hm
    refine ⟨(hnone k hgone).2, hminted, fun j q hj heq => ?_⟩
    rcases hold j q hj with ⟨-, rfl⟩ | ⟨-, hj⟩
    · exact absurd heq.symm (hnone k hgone).1
    · exact hheld j q hj heq

theorem sound_fail (hs : h.Sound) {i : Nat} {p : SetupFinish} (hi : h.relay.finishes.get i = some p)
    (hf : h.relay.Fails i p.token s') : Sound ⟨s', h.log⟩ := by
  have hold : ∀ j q, s'.finishes.get j = some q → h.relay.finishes.get j = some q ∧ q.token ≠ p.token := by
    intro j q hj
    rw [hf.finishes] at hj
    obtain ⟨hne, hj⟩ := get_of_delete hj
    exact ⟨hj, fun heq => hne (hs.unique j i q p hj hi heq)⟩
  have hnone : ∀ k, h.relay.tokens.get k = none → s'.tokens.get k = none := by
    intro k hk
    by_cases hkp : k = p.token
    · cases hslot : s'.tokens.get k with
      | none => rfl
      | some slot' =>
        obtain ⟨slot, hwas, -⟩ := hf.own slot' (hkp ▸ hslot)
        rw [← hkp, hk] at hwas
        cases hwas
    · exact (hf.others k hkp).trans hk
  refine ⟨fun j q hj => hf.next ▸ hs.next j q (hold j q hj).1, fun k slot' hk => ?_, hs.once,
    fun j q hj => hs.holder j q (hold j q hj).1, fun j l q r hj hl => hs.unique j l q r (hold j q hj).1 (hold l r hl).1,
    fun j q slot' hj hk => ?_, fun l k c hm => ?_, fun k e hm => ?_⟩
  · by_cases hkp : k = p.token
    · obtain ⟨slot, hwas, rfl⟩ := hf.own slot' (hkp ▸ hk)
      exact hs.minted k slot (hkp ▸ hwas)
    · exact hs.minted k slot' (by rw [← hf.others k hkp]; exact hk)
  · obtain ⟨hj', hne⟩ := hold j q hj
    exact hs.holds j q slot' hj' (by rw [← hf.others _ hne]; exact hk)
  · obtain ⟨hgone, hminted, hheld⟩ := hs.registered l k c hm
    exact ⟨hnone k hgone, hminted, fun j q hj => hheld j q (hold j q hj).1⟩
  · obtain ⟨hgone, hminted, hheld⟩ := hs.retired k e hm
    exact ⟨hnone k hgone, hminted, fun j q hj => hheld j q (hold j q hj).1⟩

theorem sound_register (hs : h.Sound) {i : Nat} {token credentialId : JsString}
    (hi : h.relay.finishes.get i = some (.writing token credentialId)) (hnext : s'.next = h.relay.next)
    (hfin : s'.finishes = h.relay.finishes.delete i) (hown : s'.tokens.get token = none)
    (htok : ∀ k, k ≠ token → s'.tokens.get k = h.relay.tokens.get k) :
    Sound ⟨s', h.log ++ [.registered i token credentialId]⟩ := by
  have hold : ∀ j q, s'.finishes.get j = some q → j ≠ i ∧ h.relay.finishes.get j = some q := fun j q hj =>
    get_of_delete (hfin ▸ hj)
  have hless : Sound ⟨s', h.log⟩ := sound_less hs hnext (fun j q hj => (hold j q hj).2) (gone_or_same hown htok)
  refine hless.answer (fun _ _ ho => by cases ho) (fun l k c ho => ?_) (fun _ _ ho => by cases ho)
  cases ho
  refine ⟨hown, hs.holder i _ hi, fun j q hj heq => ?_⟩
  exact (hold j q hj).1 (hs.unique j i q _ (hold j q hj).2 hi heq)

end

theorem sound_step (h : SetupHistory) (ev : SetupEvent) (hfresh : h.Fresh ev) (hs : h.Sound) : (h.step ev).Sound := by
  have hmove := h.relay.move_step ev
  unfold step
  generalize (h.relay.step ev).1 = s' at hmove ⊢
  generalize (h.relay.step ev).2 = out at hmove ⊢
  cases hmove with
  | quiet hnext hfin htok hout => exact (sound_less hs hnext (fun i p hi => hfin ▸ hi) htok).quiets hout
  | mint burrowId token entry hev hnext hfin hown htok =>
    subst hev
    exact sound_mint hs hfresh hnext hfin hown htok
  | retire token slot hnext hfin hwas hstate hown htok => exact sound_retire hs hnext hfin hwas hstate hown htok
  | claim token slot hnext hfin hwas hstate hown htok =>
    exact (sound_claim hs hnext hfin hwas hstate hown htok).quiet (.inl trivial)
  | fail i p hi hf => exact (sound_fail hs hi hf).quiet (.inr ⟨i, p.token, rfl⟩)
  | revoke i p hnext hfin htok =>
    refine (sound_less hs hnext (fun j q hj => ?_) (fun k => .inl (by rw [htok]))).quiet (.inl trivial)
    exact (get_of_delete (hfin ▸ hj)).2
  | enroll i token hi hnext hfin htok =>
    rw [List.append_nil]
    refine sound_phase hs (.checking token) hi rfl hnext hfin ?_ (fun k _ => by rw [htok])
    rw [htok]
    cases hget : h.relay.tokens.get token with
    | none => exact .inl ⟨hget, hget, rfl⟩
    | some slot =>
      refine .inr ⟨slot, hget, ?_⟩
      show h.relay.tokens.get token = some { slot with state := .claimed }
      have hstate : slot.state = .claimed := hs.holds i _ slot hi hget
      rw [hget, ← hstate]
  | commit i token credentialId slot hi hnext hfin hwas hown htok =>
    rw [List.append_nil]
    exact sound_phase hs (.writing token credentialId) hi rfl hnext hfin (.inr ⟨slot, hwas, hown⟩) htok
  | register i token credentialId hi hnext hfin hown htok => exact sound_register hs hi hnext hfin hown htok

end SetupHistory

end Relay
end Dormouse

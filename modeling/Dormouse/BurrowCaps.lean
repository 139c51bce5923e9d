import Dormouse.BurrowMoves
/-!
# BurrowCaps — the bounds a Burrow holds its clients to

A stretch that adds nothing to what the clients hold (`Steady`) keeps every bound: each pairing, connection and session
after it was there before.  What is added is added in three places, and each makes room first: a pairing and a connection
by evicting the oldest of their kind until one is free, a session by ending the one its Client static holds, or by
refusing when the others fill the cap.
-/
namespace Dormouse
namespace Burrow

def Event.consumedFrom (connection : Ref) : Event → Bool
  | .consumed c _ _ _ => c == connection
  | _                 => false

/-- The same connection, whatever its offer: a raise of the policy takes the offer back. -/
def PendingConnectionSession.Same (c c' : PendingConnectionSession) : Prop := c = { c' with offer := c.offer }

namespace PendingConnectionSession.Same

theorem refl (c : PendingConnectionSession) : c.Same c := rfl

theorem trans {c c' c'' : PendingConnectionSession} (h : c.Same c') (h' : c'.Same c'') : c.Same c'' := by
  unfold PendingConnectionSession.Same at *
  rw [h, h']

theorem ref_eq {c c' : PendingConnectionSession} (h : c.Same c') : c.ref = c'.ref := by
  rw [h]

end PendingConnectionSession.Same

def EstablishedSession.Same (e e' : EstablishedSession) : Prop :=
  e.ref = e'.ref ∧ e.connectionId = e'.connectionId ∧ e.clientStaticPublicKey = e'.clientStaticPublicKey ∧
    e.passkeyCredentialId = e'.passkeyCredentialId

theorem EstablishedSession.Same.refl (e : EstablishedSession) : e.Same e := ⟨rfl, rfl, rfl, rfl⟩

def EstablishedSession.AuthorizedBy (e : EstablishedSession) (acl : BurrowAcl) : Prop :=
  ∃ r, acl.Active r ∧ r.passkeyCredentialId = e.passkeyCredentialId ∧ r.clientStaticPublicKey = e.clientStaticPublicKey

theorem EstablishedSession.Same.authorizedBy {e e' : EstablishedSession} (h : e.Same e') {acl : BurrowAcl} :
    e.AuthorizedBy acl ↔ e'.AuthorizedBy acl := by
  unfold AuthorizedBy
  rw [h.2.2.1, h.2.2.2]

namespace BurrowRuntime

/-- **Nothing is added to what the clients hold**, and a session that stays is authorized as before. -/
structure Steady (s s' : BurrowRuntime) : Prop where
  filled      : Filled s → Filled s'
  nextRef     : s.nextRef ≤ s'.nextRef
  pairing     : ∀ id, (s'.stateOf id).pairing.isSome → (s.stateOf id).pairing.isSome
  connection  : ∀ id c', (s'.stateOf id).connection = some c' → ∃ c, (s.stateOf id).connection = some c ∧ c.Same c'
  established : ∀ id e', (s'.stateOf id).established = some e' → ∃ e, (s.stateOf id).established = some e ∧ e.Same e'
  authorized  : ∀ id e', (s'.stateOf id).established = some e' → e'.AuthorizedBy s.acl → e'.AuthorizedBy s'.acl
  trace       : ∃ l, s'.trace = s.trace ++ l ∧ (∀ p, Event.promoted p ∉ l) ∧ ∀ e ∈ l, ∀ ref, e.consumedFrom ref = true →
    ∃ id c, (s.stateOf id).connection = some c ∧ c.ref = ref ∧ (s'.stateOf id).connection = none

namespace Steady

variable {s s' : BurrowRuntime}

theorem of_sheds (h : Sheds s s') : Steady s s' where
  filled := h.filled
  nextRef := h.nextRef.ge
  pairing id hp := by
    obtain ⟨p, hp⟩ := Option.isSome_iff_exists.1 hp
    rw [h.pairing_some hp]
    rfl
  connection _ c' hc := ⟨c', h.connection_some hc, .refl c'⟩
  established _ e' he := ⟨e', h.established_some he, .refl e'⟩
  authorized _ _ _ ha := by rw [h.acl]; exact ha
  trace := by
    obtain ⟨l, hl, hlc⟩ := h.trace
    refine ⟨l, hl, fun p hp => ?_, fun e he ref href => ?_⟩
    · obtain ⟨_, _, _, _, -, -, heq⟩ := hlc _ hp
      cases heq
    · obtain ⟨id, c, _, _, hc, hgone, rfl⟩ := hlc e he
      exact ⟨id, c, hc, beq_iff_eq.1 href, hgone⟩

theorem refl (s : BurrowRuntime) : Steady s s := of_sheds (.refl s)

theorem trans {s s' s'' : BurrowRuntime} (h : Steady s s') (h' : Steady s' s'') : Steady s s'' where
  filled hf := h'.filled (h.filled hf)
  nextRef := h.nextRef.trans h'.nextRef
  pairing id hp := h.pairing id (h'.pairing id hp)
  connection id c'' hc := by
    obtain ⟨c', hc', hr'⟩ := h'.connection id c'' hc
    obtain ⟨c, hc, hr⟩ := h.connection id c' hc'
    exact ⟨c, hc, hr.trans hr'⟩
  established id e'' he := by
    obtain ⟨e', he', ha', hb', hc', hd'⟩ := h'.established id e'' he
    obtain ⟨e, he, ha, hb, hc, hd⟩ := h.established id e' he'
    exact ⟨e, he, ha.trans ha', hb.trans hb', hc.trans hc', hd.trans hd'⟩
  authorized id e'' he ha := by
    obtain ⟨e', he', hsame⟩ := h'.established id e'' he
    exact h'.authorized id e'' he (hsame.authorizedBy.1 (h.authorized id e' he' (hsame.authorizedBy.2 ha)))
  trace := by
    obtain ⟨l, hl, hp, hc⟩ := h.trace
    obtain ⟨l', hl', hp', hc'⟩ := h'.trace
    refine ⟨l ++ l', by rw [hl', hl, List.append_assoc], fun p hmem => ?_, fun e he ref href => ?_⟩
    · exact (List.mem_append.1 hmem).elim (hp p) (hp' p)
    · rcases List.mem_append.1 he with he | he
      · obtain ⟨id, c, hcon, hr, hgone⟩ := hc e he ref href
        refine ⟨id, c, hcon, hr, ?_⟩
        cases hc'' : (s''.stateOf id).connection with
        | none => rfl
        | some c'' =>
          obtain ⟨c', hc', -⟩ := h'.connection id c'' hc''
          rw [hgone] at hc'
          cases hc'
      · obtain ⟨id, c', hcon', hr', hgone⟩ := hc' e he ref href
        obtain ⟨c, hcon, hr⟩ := h.connection id c' hcon'
        exact ⟨id, c, hcon, hr.ref_eq.trans hr', hgone⟩

theorem of_clients (hc : s'.clients = s.clients) (hn : s.nextRef ≤ s'.nextRef)
    (ha : ∀ id e', (s'.stateOf id).established = some e' → e'.AuthorizedBy s.acl → e'.AuthorizedBy s'.acl) (l : List Event)
    (ht : s'.trace = s.trace ++ l) (hl : ∀ e ∈ l, e.ofConnection = false) : Steady s s' := by
  have hst : ∀ id, s'.stateOf id = s.stateOf id := fun id => by unfold stateOf; rw [hc]
  refine
    { filled := fun hf id st h => hf id st (hc ▸ h), nextRef := hn
      pairing := fun id h => by rw [← hst]; exact h
      connection := fun id c' h => ⟨c', by rw [← hst]; exact h, .refl c'⟩
      established := fun id e' h => ⟨e', by rw [← hst]; exact h, .refl e'⟩
      authorized := ha
      trace := ⟨l, ht, ⟨fun p hp => ?_, fun e he ref href => ?_⟩⟩ }
  · cases hl _ hp
  cases e with
  | consumed c ch held now => cases hl _ he
  | _ => cases href

theorem of_fields (hc : s'.clients = s.clients) (hn : s.nextRef ≤ s'.nextRef) (ha : s'.acl = s.acl)
    (ht : s'.trace = s.trace) : Steady s s' :=
  of_clients hc hn (fun _ _ _ h => by rw [ha]; exact h) [] (by rw [ht, List.append_nil])
    (fun _ he => absurd he List.not_mem_nil)

end Steady

theorem steady_modifyClient (s : BurrowRuntime) (id : ClientId) {f : ClientState → ClientState} (hid : id ∈ s.clients.keys)
    (hp : ∀ st, (f st).pairing.isSome = st.pairing.isSome)
    (hc : ∀ st, (f st).connection = st.connection)
    (he : ∀ st e', (f st).established = some e' → ∃ e, st.established = some e ∧ e.Same e')
    (he' : ∀ st, (f st).established.isSome = st.established.isSome) :
    Steady s (s.modifyClient id f) := by
  have hst := stateOf_modifyClient s id
  refine
    { filled := fun hf id' st h => ?_, nextRef := le_rfl
      pairing := fun id' h => ?_, connection := fun id' c' h => ?_, established := fun id' e' h => ?_
      authorized := fun _ _ _ ha => ha
      trace := ⟨[], (List.append_nil _).symm, fun _ => List.not_mem_nil, fun _ hmem => absurd hmem List.not_mem_nil⟩ }
  · by_cases hne : id' = id
    · subst hne
      obtain ⟨st₀, hst₀⟩ := OrdMap.mem_keys.1 hid
      have hold := hf id' st₀ hst₀
      have hnew : (s.modifyClient id' f).clients.get id' = some (f ((s.clients.get id').getD {})) :=
        OrdMap.get_set_self _ _ _
      rw [hst₀, Option.getD_some, h] at hnew
      obtain rfl : st = f st₀ := Option.some.inj hnew
      unfold ClientState.isEmpty at hold ⊢
      rw [← Option.not_isSome, ← Option.not_isSome, ← Option.not_isSome] at hold ⊢
      rw [hp, hc, he']
      exact hold
    · exact filled_of_modify hf hne h
  · rw [hst] at h
    split at h
    · rename_i hid'
      rw [hid', ← hp]
      exact h
    · exact h
  · rw [hst] at h
    split at h
    · rename_i hid'
      rw [hc] at h
      exact ⟨c', hid' ▸ h, .refl c'⟩
    · exact ⟨c', h, .refl c'⟩
  · rw [hst] at h
    split at h
    · rename_i hid'
      rw [hid']
      exact he _ e' h
    · exact ⟨e', h, .refl e'⟩

variable {s : BurrowRuntime} {id : ClientId} {p : ClientState → Bool}

theorem get_of_stateOf (hp : p {} = false) (h : p (s.stateOf id) = true) :
    ∃ st, s.clients.get id = some st ∧ p st = true := by
  unfold stateOf at h
  cases hg : s.clients.get id with
  | none => rw [hg, Option.getD_none, hp] at h; cases h
  | some st => rw [hg, Option.getD_some] at h; exact ⟨st, rfl, h⟩

theorem mem_keys_of_stateOf (hp : p {} = false) (h : p (s.stateOf id) = true) : id ∈ s.clients.keys := by
  obtain ⟨st, hst, -⟩ := get_of_stateOf hp h
  exact OrdMap.mem_keys.2 ⟨st, hst⟩

theorem steady_modifyPairing (h : (s.stateOf id).pairing.isSome) (f : PendingPairingSession → PendingPairingSession) :
    Steady s (s.modifyPairing id f) :=
  steady_modifyClient s id (f := fun st => { st with pairing := st.pairing.map f })
    (mem_keys_of_stateOf (p := (·.pairing.isSome)) rfl h)
    (fun _ => Option.isSome_map) (fun _ => rfl) (fun _ e' he => ⟨e', he, .refl e'⟩) (fun _ => rfl)

theorem steady_modifySession (s : BurrowRuntime) (id : ClientId) (session : Ref)
    {f : EstablishedSession → EstablishedSession} (hf : ∀ e : EstablishedSession, e.Same (f e))
    : Steady s (s.modifySession id session f) := by
  unfold modifySession
  split
  · rename_i h
    refine steady_modifyClient s id (f := fun st => { st with established := st.established.map f })
      (mem_keys_of_stateOf (p := (·.established.isSome)) rfl ?_) (fun _ => rfl) (fun _ => rfl) (fun st e' he => ?_)
      (fun _ => Option.isSome_map)
    · rw [establishedOf_eq] at h
      obtain ⟨e, he, -⟩ := Option.map_eq_some_iff.1 h
      rw [he]
      rfl
    · obtain ⟨e, hold, rfl⟩ := Option.map_eq_some_iff.1 he
      exact ⟨e, hold, hf e⟩
  · exact .refl s

theorem steady_raisePolicy (s : BurrowRuntime) (requireUserVerification : Bool) :
    Steady s (s.raisePolicy requireUserVerification) := by
  unfold raisePolicy
  split
  · exact .refl s
  · have hst : ∀ id, ({ s with
        policy := { s.policy with requireUserVerification := true }
        presenceWindows := .clear
        clients := s.clients.mapValues (fun st =>
          { st with connection := st.connection.map ({ · with offer := none }) }) } : BurrowRuntime).stateOf id =
        { s.stateOf id with connection := (s.stateOf id).connection.map ({ · with offer := none }) } :=
      stateOf_mapValues (s := s) (f := fun st => { st with connection := st.connection.map ({ · with offer := none }) })
        rfl rfl
    refine
      { filled := fun hf id st h => ?_, nextRef := le_rfl
        pairing := fun id h => by rw [hst] at h; exact h
        connection := fun id c' h => ?_
        established := fun id e' h => ⟨e', by rw [hst] at h; exact h, .refl e'⟩
        authorized := fun _ _ _ ha => ha
        trace := ⟨[], (List.append_nil _).symm, fun _ => List.not_mem_nil, fun _ hmem => absurd hmem List.not_mem_nil⟩ }
    · rw [OrdMap.get_mapValues] at h
      obtain ⟨st₀, hst₀, rfl⟩ := Option.map_eq_some_iff.1 h
      have hold := hf id st₀ hst₀
      unfold ClientState.isEmpty at hold ⊢
      simp only [Option.isNone_map]
      exact hold
    · rw [hst] at h
      obtain ⟨c, hc, rfl⟩ := Option.map_eq_some_iff.1 h
      exact ⟨c, hc, rfl⟩

/-! ## The bounds -/

def holding (s : BurrowRuntime) (p : ClientState → Bool) : Nat := s.clients.count p

theorem stateOf_of_get {st : ClientState} (h : s.clients.get id = some st) :
    s.stateOf id = st := by
  rw [stateOf, h, Option.getD_some]

variable {s s' : BurrowRuntime}

theorem holding_le (hp : p {} = false) (h : ∀ id, p (s'.stateOf id) = true → p (s.stateOf id) = true) :
    s'.holding p ≤ s.holding p := by
  refine OrdMap.count_le (fun id st hst hpst => get_of_stateOf hp (h id ?_))
  rw [stateOf_of_get hst]
  exact hpst

theorem holding_le_succ (hp : p {} = false) (id₀ : ClientId)
    (h : ∀ id, id ≠ id₀ → p (s'.stateOf id) = true → p (s.stateOf id) = true) : s'.holding p ≤ s.holding p + 1 := by
  refine OrdMap.count_le_succ id₀ (fun id st hne hst hpst => get_of_stateOf hp (h id hne ?_))
  rw [stateOf_of_get hst]
  exact hpst

theorem holding_lt (hp : p {} = false) (id₀ : ClientId) (h₀ : p (s.stateOf id₀) = true)
    (h : ∀ id, p (s'.stateOf id) = true → id ≠ id₀ ∧ p (s.stateOf id) = true) : s'.holding p < s.holding p := by
  obtain ⟨st₀, hst₀, hpst₀⟩ := get_of_stateOf hp h₀
  refine OrdMap.count_lt hst₀ hpst₀ (fun id st hst hpst => ?_)
  have hs : p (s'.stateOf id) = true := by rw [stateOf_of_get hst]; exact hpst
  exact ⟨(h id hs).1, get_of_stateOf hp (h id hs).2⟩

/-- **The bounds**: no entry is empty, a Client static has at most one session, and each kind is within its cap. -/
structure Capped (s : BurrowRuntime) : Prop where
  filled      : Filled s
  single      : ∀ id id' e e', (s.stateOf id).established = some e → (s.stateOf id').established = some e' →
    e.clientStaticPublicKey = e'.clientStaticPublicKey → id = id'
  sessions    : s.holding (·.established.isSome) ≤ maxEstablishedE2eSessions
  connections : s.holding (·.connection.isSome) ≤ maxPendingConnectionHandshakes
  pairings    : s.holding (·.pairing.isSome) ≤ maxPendingPairings

theorem Steady.connection_isSome (h : Steady s s') (id : ClientId) (hc : (s'.stateOf id).connection.isSome = true) :
    (s.stateOf id).connection.isSome = true := by
  obtain ⟨c', hc'⟩ := Option.isSome_iff_exists.1 hc
  obtain ⟨c, hc, -⟩ := h.connection id c' hc'
  rw [hc]
  rfl

theorem Steady.established_isSome (h : Steady s s') (id : ClientId) (he : (s'.stateOf id).established.isSome = true) :
    (s.stateOf id).established.isSome = true := by
  obtain ⟨e', he'⟩ := Option.isSome_iff_exists.1 he
  obtain ⟨e, he, -⟩ := h.established id e' he'
  rw [he]
  rfl

theorem Capped.steady (h : Capped s) (hs : Steady s s') : Capped s' where
  filled := hs.filled h.filled
  single id id' e₁ e₂ h₁ h₂ hst := by
    obtain ⟨e, he, -, -, hk, -⟩ := hs.established id e₁ h₁
    obtain ⟨e', he', -, -, hk', -⟩ := hs.established id' e₂ h₂
    exact h.single id id' e e' he he' (hk.trans (hst.trans hk'.symm))
  sessions := (holding_le rfl hs.established_isSome).trans h.sessions
  connections := (holding_le rfl hs.connection_isSome).trans h.connections
  pairings := (holding_le rfl hs.pairing).trans h.pairings

/-! ## Making room -/

def keepOldest (age : ClientState → Option Int) (best : Option (ClientId × Int)) (e : ClientId × ClientState) :
    Option (ClientId × Int) :=
  match age e.2, best with
  | none, best               => best
  | some t, none             => some (e.1, t)
  | some t, some (id, since) => if t < since then some (e.1, t) else some (id, since)

theorem foldl_keepOldest (age : ClientState → Option Int) :
    ∀ (l : List (ClientId × ClientState)) (best : Option (ClientId × Int)),
      (∀ id t, l.foldl (keepOldest age) best = some (id, t) →
        best = some (id, t) ∨ ∃ st, (id, st) ∈ l ∧ age st = some t) ∧
      (l.foldl (keepOldest age) best = none → best = none ∧ ∀ e ∈ l, age e.2 = none)
  | [], best => ⟨fun _ _ h => .inl h, fun h => ⟨h, fun _ he => absurd he List.not_mem_nil⟩⟩
  | e :: l, best => by
    obtain ⟨hsome, hnone⟩ := foldl_keepOldest age l (keepOldest age best e)
    unfold keepOldest at hsome hnone
    refine ⟨fun id t h => ?_, fun h => ?_⟩
    · rcases hsome id t h with hb | ⟨st, hst, ht⟩
      · split at hb
        · exact .inl hb
        · obtain ⟨rfl, rfl⟩ := Prod.mk.inj (Option.some.inj hb)
          exact .inr ⟨e.2, List.mem_cons_self .., by assumption⟩
        · split at hb
          · obtain ⟨rfl, rfl⟩ := Prod.mk.inj (Option.some.inj hb)
            exact .inr ⟨e.2, List.mem_cons_self .., by assumption⟩
          · exact .inl hb
      · exact .inr ⟨st, List.mem_cons_of_mem _ hst, ht⟩
    · obtain ⟨hb, hl⟩ := hnone h
      split at hb
      · rename_i hage
        exact ⟨hb, fun x hx => (List.mem_cons.1 hx).elim (fun heq => heq ▸ hage) (hl x)⟩
      · cases hb
      · split at hb
        · cases hb
        · cases hb

theorem exists_oldest (age : ClientState → Option Int) (h : 0 < s.holding (fun st => (age st).isSome)) :
    ∃ id t, s.oldest age = some (id, t) ∧ age (s.stateOf id) = some t := by
  obtain ⟨hsome, hnone⟩ := foldl_keepOldest age s.clients.entries none
  cases ho : s.oldest age with
  | none =>
    obtain ⟨e, he, hage⟩ := List.countP_pos_iff.1 h
    simp only [(hnone ho).2 e he, Option.isSome_none, Bool.false_eq_true] at hage
  | some best =>
    obtain ⟨id, t⟩ := best
    rcases hsome id t ho with hb | ⟨st, hst, ht⟩
    · cases hb
    · exact ⟨id, t, rfl, by rw [stateOf_of_get (OrdMap.mem_entries.1 hst)]; exact ht⟩

/-- **Evicting the oldest makes room**, where each eviction takes the work away and gives none. -/
theorem holding_evictOldestIfFull {age : ClientState → Option Int} (hage : age {} = none) {cap : Nat} (hcap : 0 < cap)
    {evict : BurrowRuntime → ClientId → BurrowRuntime}
    (hgone : ∀ s id, age ((evict s id).stateOf id) = none)
    (hkept : ∀ s id id', (age ((evict s id).stateOf id')).isSome → (age (s.stateOf id')).isSome) :
    ∀ (fuel : Nat) (s : BurrowRuntime), s.holding (fun st => (age st).isSome) ≤ fuel →
      (evictOldestIfFull age cap evict fuel s).holding (fun st => (age st).isSome) < cap
  | 0, s, h => by
    unfold evictOldestIfFull
    omega
  | fuel + 1, s, h => by
    unfold evictOldestIfFull
    split
    · assumption
    · rename_i hfull
      obtain ⟨id, t, ho, ht⟩ := exists_oldest (s := s) age (hcap.trans_le (Nat.not_lt.1 hfull))
      rw [ho]
      refine holding_evictOldestIfFull hage hcap hgone hkept fuel (evict s id) (Nat.le_of_lt_succ (Nat.lt_of_lt_of_le ?_ h))
      refine holding_lt (by rw [hage]; rfl) id (by rw [ht]; rfl) (fun id' hid' => ⟨?_, hkept s id id' hid'⟩)
      rintro rfl
      rw [hgone] at hid'
      cases hid'

theorem pairingAge_isSome : (fun st => (pairingAge st).isSome) = (·.pairing.isSome) :=
  funext fun _ => Option.isSome_map

theorem connectionAge_isSome : (fun st => (connectionAge st).isSome) = (·.connection.isSome) :=
  funext fun _ => Option.isSome_map

theorem holding_evictOldestPairing (s : BurrowRuntime) :
    s.evictOldestPairingIfFull.holding (·.pairing.isSome) < maxPendingPairings := by
  rw [← pairingAge_isSome]
  refine holding_evictOldestIfFull rfl (by decide) (fun s id => ?_) (fun s id id' h => ?_) _ s List.countP_le_length
  · rw [finishPairing, stateOf_disposePairing, if_pos rfl]
    rfl
  · rw [finishPairing, stateOf_disposePairing] at h
    split at h
    · cases h
    · exact h

theorem holding_evictOldestConnection (s : BurrowRuntime) (now : Int) :
    (s.evictOldestConnectionIfFull now).holding (·.connection.isSome) < maxPendingConnectionHandshakes := by
  rw [← connectionAge_isSome]
  refine holding_evictOldestIfFull rfl (by decide) (fun s id => ?_) (fun s id id' h => ?_) _ s List.countP_le_length
  · rw [stateOf_disposeConnection, if_pos rfl]
    rfl
  · rw [stateOf_disposeConnection] at h
    split at h
    · cases h
    · exact h

/-! ## Promotion -/

def keepEstablished (staticKey : JsString) (exceptClientId : Option ClientId) (acc : Option ClientId × Nat)
    (e : ClientId × ClientState) : Option ClientId × Nat :=
  match e.2.established with
  | none         => acc
  | some session => (if session.clientStaticPublicKey = staticKey then some e.1 else acc.1,
      if some e.1 ≠ exceptClientId then acc.2 + 1 else acc.2)

def ofStatic (staticKey : JsString) (st : ClientState) : Bool :=
  st.established.any (·.clientStaticPublicKey == staticKey)

theorem foldl_keepEstablished_fst (staticKey : JsString) (except : Option ClientId) :
    ∀ (l : List (ClientId × ClientState)) (acc : Option ClientId × Nat),
      (∀ id, (l.foldl (keepEstablished staticKey except) acc).1 = some id →
        acc.1 = some id ∨ ∃ st, (id, st) ∈ l ∧ ofStatic staticKey st = true) ∧
      ((l.foldl (keepEstablished staticKey except) acc).1 = none →
        acc.1 = none ∧ ∀ e ∈ l, ofStatic staticKey e.2 = false)
  | [], acc => ⟨fun _ h => .inl h, fun h => ⟨h, fun _ he => absurd he List.not_mem_nil⟩⟩
  | e :: l, acc => by
    obtain ⟨hsome, hnone⟩ := foldl_keepEstablished_fst staticKey except l (keepEstablished staticKey except acc e)
    have hhead : (∀ id, (keepEstablished staticKey except acc e).1 = some id →
          acc.1 = some id ∨ id = e.1 ∧ ofStatic staticKey e.2 = true) ∧
        ((keepEstablished staticKey except acc e).1 = none → acc.1 = none ∧ ofStatic staticKey e.2 = false) := by
      unfold keepEstablished ofStatic
      cases e.2.established with
      | none => exact ⟨fun _ h => .inl h, fun h => ⟨h, rfl⟩⟩
      | some session =>
        simp only [Option.any_some, beq_iff_eq, beq_eq_false_iff_ne]
        by_cases hs : session.clientStaticPublicKey = staticKey
        · rw [if_pos hs]
          exact ⟨fun id h => .inr ⟨(Option.some.inj h).symm, hs⟩, fun h => nomatch h⟩
        · rw [if_neg hs]
          exact ⟨fun id h => .inl h, fun h => ⟨h, hs⟩⟩
    refine ⟨fun id h => ?_, fun h => ?_⟩
    · rcases hsome id h with h | ⟨st, hst, hs⟩
      · rcases hhead.1 id h with h | ⟨rfl, hs⟩
        · exact .inl h
        · exact .inr ⟨e.2, List.mem_cons_self .., hs⟩
      · exact .inr ⟨st, List.mem_cons_of_mem _ hst, hs⟩
    · obtain ⟨hacc, hl⟩ := hnone h
      obtain ⟨hacc, he⟩ := hhead.2 hacc
      exact ⟨hacc, fun x hx => (List.mem_cons.1 hx).elim (fun heq => heq ▸ he) (hl x)⟩

theorem foldl_keepEstablished_snd (staticKey : JsString) (id : ClientId) :
    ∀ (l : List (ClientId × ClientState)) (acc : Option ClientId × Nat),
      (l.foldl (keepEstablished staticKey (some id)) acc).2 =
        acc.2 + (l.filter (fun e => e.1 ≠ id)).countP (fun e => e.2.established.isSome)
  | [], acc => rfl
  | e :: l, acc => by
    rw [List.foldl_cons, foldl_keepEstablished_snd staticKey id l]
    have hhead : (keepEstablished staticKey (some id) acc e).2 =
        acc.2 + if e.1 ≠ id ∧ e.2.established.isSome = true then 1 else 0 := by
      unfold keepEstablished
      cases e.2.established with
      | none => simp
      | some session =>
        by_cases hid : e.1 = id
        · simp [hid]
        · simp [hid]
    by_cases hid : e.1 = id
    · rw [hhead, List.filter_cons_of_neg (by simp [hid]), if_neg (fun h => h.1 hid), Nat.add_zero]
    · rw [hhead, List.filter_cons_of_pos (by simp [hid]), List.countP_cons]
      by_cases he : e.2.established.isSome = true
      · simp only [he, hid, ne_eq, not_false_eq_true, and_self, if_true]
        omega
      · simp only [he, Bool.false_eq_true, and_false, if_false]
        omega

theorem establishedFor_snd (s : BurrowRuntime) (staticKey : JsString) (id : ClientId) :
    (s.establishedFor staticKey (some id)).2 = (s.clients.delete id).count (·.established.isSome) := by
  have h := foldl_keepEstablished_snd staticKey id s.clients.entries (none, 0)
  rw [Nat.zero_add] at h
  exact h

theorem establishedFor_some {staticKey : JsString} {except : Option ClientId}
    (h : (s.establishedFor staticKey except).1 = some id) :
    ∃ e, (s.stateOf id).established = some e ∧ e.clientStaticPublicKey = staticKey := by
  rcases (foldl_keepEstablished_fst staticKey except s.clients.entries (none, 0)).1 id h with h | ⟨st, hst, hs⟩
  · cases h
  · obtain ⟨e, he, hk⟩ := (Option.any_eq_true _ _).1 hs
    exact ⟨e, by rw [stateOf_of_get (OrdMap.mem_entries.1 hst)]; exact he, beq_iff_eq.1 hk⟩

variable {e : EstablishedSession}

theorem establishedFor_none {staticKey : JsString} {except : Option ClientId}
    (h : (s.establishedFor staticKey except).1 = none) (he : (s.stateOf id).established = some e) :
    e.clientStaticPublicKey ≠ staticKey := by
  intro hk
  have hof : ofStatic staticKey (s.stateOf id) = true := by
    rw [ofStatic, he, Option.any_some, hk, beq_self_eq_true]
  obtain ⟨st, hst, hs⟩ := get_of_stateOf rfl hof
  have hno := ((foldl_keepEstablished_fst staticKey except s.clients.entries (none, 0)).2 h).2 (id, st)
    (OrdMap.mem_entries.2 hst)
  rw [hno] at hs
  cases hs

/-- What a promotion leaves before it gives the client its session. -/
def cleared (s : BurrowRuntime) (id : ClientId) (incumbent : Option ClientId) : BurrowRuntime :=
  ((s.modifyClient id ({ · with connection := none })).displaceIncumbent id incumbent).clearEstablished id

theorem stateOf_displaceIncumbent (s : BurrowRuntime) (id : ClientId) (incumbent : Option ClientId) (id' : ClientId) :
    (s.displaceIncumbent id incumbent).stateOf id' =
      if incumbent = some id' ∧ id' ≠ id then { s.stateOf id' with established := none } else s.stateOf id' := by
  unfold displaceIncumbent
  cases incumbent with
  | none => rw [if_neg (fun h => nomatch h.1)]
  | some i =>
    by_cases hi : i = id
    · simp only [hi, ne_eq, not_true_eq_false, if_false]
      rw [if_neg (fun h => h.2 (Option.some.inj h.1).symm)]
    · simp only [ne_eq, hi, not_false_eq_true, if_true]
      rw [stateOf_disposeEstablished]
      by_cases hid : id' = i
      · rw [if_pos hid, if_pos ⟨by rw [hid], by rw [hid]; exact hi⟩, hid]
      · rw [if_neg hid, if_neg (fun h => hid (Option.some.inj h.1).symm)]

theorem stateOf_cleared (s : BurrowRuntime) (id : ClientId) (incumbent : Option ClientId) (id' : ClientId) :
    (s.cleared id incumbent).stateOf id' =
      if id' = id then { s.stateOf id with connection := none, established := none }
      else if incumbent = some id' then { s.stateOf id' with established := none } else s.stateOf id' := by
  unfold cleared
  rw [stateOf_clearEstablished]
  by_cases hid : id' = id
  · rw [if_pos hid, if_pos hid, stateOf_displaceIncumbent, if_neg (fun h => h.2 rfl), stateOf_modifyClient, if_pos rfl]
  · rw [if_neg hid, if_neg hid, stateOf_displaceIncumbent, stateOf_modifyClient, if_neg hid]
    simp only [ne_eq, hid, not_false_eq_true, and_true]

theorem clearEstablished_fields (s : BurrowRuntime) (id : ClientId) :
    (s.clearEstablished id).acl = s.acl ∧ (s.clearEstablished id).nextRef = s.nextRef ∧
      (s.clearEstablished id).trace = s.trace ∧ (s.clearEstablished id).handling = s.handling := by
  unfold clearEstablished
  cases s.establishedOf id with
  | none => exact ⟨rfl, rfl, rfl, rfl⟩
  | some _ => exact ⟨rfl, rfl, rfl, rfl⟩

theorem displaceIncumbent_fields (s : BurrowRuntime) (id : ClientId) (incumbent : Option ClientId) :
    (s.displaceIncumbent id incumbent).acl = s.acl ∧ (s.displaceIncumbent id incumbent).nextRef = s.nextRef ∧
      (s.displaceIncumbent id incumbent).trace = s.trace ∧ (s.displaceIncumbent id incumbent).handling = s.handling := by
  unfold displaceIncumbent disposeEstablished
  cases incumbent with
  | none => exact ⟨rfl, rfl, rfl, rfl⟩
  | some i =>
    simp only
    split
    · cases s.establishedOf i with
      | none => exact ⟨rfl, rfl, rfl, rfl⟩
      | some _ =>
        simp only
        rw [pruneClient_fields]
        exact clearEstablished_fields s i
    · exact ⟨rfl, rfl, rfl, rfl⟩

theorem cleared_fields (s : BurrowRuntime) (id : ClientId) (incumbent : Option ClientId) :
    (s.cleared id incumbent).acl = s.acl ∧ (s.cleared id incumbent).nextRef = s.nextRef ∧
      (s.cleared id incumbent).trace = s.trace ∧ (s.cleared id incumbent).handling = s.handling := by
  obtain ⟨ha, hn, ht, hh⟩ :=
    clearEstablished_fields ((s.modifyClient id ({ · with connection := none })).displaceIncumbent id incumbent) id
  obtain ⟨ha', hn', ht', hh'⟩ := displaceIncumbent_fields (s.modifyClient id ({ · with connection := none })) id incumbent
  exact ⟨ha.trans ha', hn.trans hn', ht.trans ht', hh.trans hh'⟩

def FilledBut (id : ClientId) (s : BurrowRuntime) : Prop :=
  ∀ id' st, id' ≠ id → s.clients.get id' = some st → st.isEmpty = false

theorem get_clearEstablished_ne (s : BurrowRuntime) {id id' : ClientId} (h : id' ≠ id) :
    (s.clearEstablished id).clients.get id' = s.clients.get id' := by
  unfold clearEstablished
  cases s.establishedOf id with
  | none => rfl
  | some _ => exact OrdMap.get_set_ne s.clients _ h

theorem FilledBut.displaceIncumbent {s : BurrowRuntime} {id : ClientId} (h : FilledBut id s)
    (incumbent : Option ClientId) : FilledBut id (s.displaceIncumbent id incumbent) := by
  unfold BurrowRuntime.displaceIncumbent disposeEstablished
  cases incumbent with
  | none => exact h
  | some i =>
    simp only
    split
    · cases s.establishedOf i with
      | none => exact h
      | some _ =>
        intro id' st hne hst
        rw [get_pruneClient] at hst
        split at hst
        · cases hst
        · rename_i hkeep
          by_cases hi : id' = i
          · subst hi
            have hs := stateOf_of_get hst
            rw [← hs]
            exact Bool.eq_false_iff.2 (fun he => hkeep ⟨rfl, he⟩)
          · rw [get_clearEstablished_ne s hi] at hst
            exact h id' st hne hst
    · exact h

theorem filledBut_cleared (h : Filled s) (id : ClientId) (incumbent : Option ClientId) :
    FilledBut id (s.cleared id incumbent) := by
  have hmod : FilledBut id (s.modifyClient id ({ · with connection := none })) :=
    fun _ _ hne hst => filled_of_modify h hne hst
  intro id' st hne hst
  unfold cleared at hst
  rw [get_clearEstablished_ne _ hne] at hst
  exact hmod.displaceIncumbent incumbent id' st hne hst

/-- **One promotion**: the client's connection becomes its session, and the session of the same static goes. -/
structure Promotes (s s' : BurrowRuntime) (id : ClientId) (π : Promotion) (e : EstablishedSession) : Prop where
  acl         : s'.acl = s.acl
  nextRef     : s'.nextRef = s.nextRef + 1
  trace       : s'.trace = s.trace ++ [.promoted π]
  filled      : Filled s → Filled s'
  pairing     : ∀ id', (s'.stateOf id').pairing = (s.stateOf id').pairing
  connection  : ∀ id', (s'.stateOf id').connection = if id' = id then none else (s.stateOf id').connection
  own         : (s'.stateOf id).established = some e
  others      : ∀ id' e', id' ≠ id → (s'.stateOf id').established = some e' → (s.stateOf id').established = some e' ∧
    (s.establishedFor e.clientStaticPublicKey (some id)).1 ≠ some id'
  busy        : (s.establishedFor e.clientStaticPublicKey (some id)).1 = none →
    (s.establishedFor e.clientStaticPublicKey (some id)).2 < maxEstablishedE2eSessions

theorem promotes_establish {K : Config} (hK : K.hasSession = true) {pending : PendingConnectionSession}
    {record : BurrowAclRecord} {presence : Presence} {now : Int}
    (hbusy : ¬ ((s.establishedFor pending.clientStaticPublicKey (some id)).1 = none ∧ (s.establishedFor pending.clientStaticPublicKey (some id)).2 ≥ maxEstablishedE2eSessions)) :
    
    Promotes s (establish K (s.cleared id (s.establishedFor pending.clientStaticPublicKey (some id)).1) id
        ⟨s.nextRef, pending, presence, record, s.acl⟩ now) id ⟨s.nextRef, pending, presence, record, s.acl⟩
      (sessionOf K s.nextRef pending record now) := by
  have hst := stateOf_cleared s id (s.establishedFor pending.clientStaticPublicKey (some id)).1
  obtain ⟨hacl, hnext, htrace, -⟩ := cleared_fields s id (s.establishedFor pending.clientStaticPublicKey (some id)).1
  have hfill := fun hf : Filled s => filledBut_cleared hf id (s.establishedFor pending.clientStaticPublicKey (some id)).1
  have hkey : (sessionOf K s.nextRef pending record now).clientStaticPublicKey = pending.clientStaticPublicKey := rfl
  unfold establish
  rw [hK]
  simp only [Bool.not_true, Bool.false_eq_true, if_false]
  rw [← hkey] at hst hbusy hacl hnext htrace hfill ⊢
  generalize s.cleared id (s.establishedFor
    (sessionOf K s.nextRef pending record now).clientStaticPublicKey (some id)).1 = t at hst hacl hnext htrace hfill ⊢
  have hnew : ∀ id', ({ t with
        clients := (t.modifyClient id (fun st => { st with
          established := some (sessionOf K s.nextRef pending record now) })).clients
        nextRef := t.nextRef + 1
        trace := t.trace ++ [.promoted ⟨s.nextRef, pending, presence, record, s.acl⟩] } : BurrowRuntime).stateOf id' =
      if id' = id then { t.stateOf id with established := some (sessionOf K s.nextRef pending record now) }
      else t.stateOf id' :=
    fun id' => stateOf_modifyClient t id id'
      (fun st => { st with established := some (sessionOf K s.nextRef pending record now) })
  refine
    { acl := hacl, nextRef := by rw [← hnext], trace := by rw [← htrace]
      filled := fun hf id' st h => ?_, pairing := fun id' => ?_, connection := fun id' => ?_, own := ?_
      others := fun id' e' hne h => ?_, busy := fun h => Nat.lt_of_not_le (fun hle => hbusy ⟨h, hle⟩) }
  · by_cases hid : id' = id
    · subst hid
      have hget := stateOf_of_get h
      rw [hnew, if_pos rfl] at hget
      rw [← hget]
      simp [ClientState.isEmpty]
    · exact hfill hf id' st hid (by rw [← h]; exact (OrdMap.get_set_ne t.clients _ hid).symm)
  · rw [hnew]
    split
    · rename_i hid
      rw [hst, if_pos rfl, hid]
    · rename_i hid
      rw [hst, if_neg hid]
      split <;> rfl
  · rw [hnew]
    split
    · rename_i hid
      rw [hst, if_pos rfl]
    · rename_i hid
      rw [hst, if_neg hid]
      split <;> rfl
  · rw [hnew, if_pos rfl]
  · rw [hnew, if_neg hne, hst, if_neg hne] at h
    split at h
    · cases h
    · exact ⟨h, by assumption⟩

/-- Without a remote api the connection goes and so does the session of its static, and nothing comes. -/
theorem steady_cleared (s : BurrowRuntime) (id : ClientId) (incumbent : Option ClientId) :
    Steady s ((s.cleared id incumbent).pruneClient id) := by
  have hst : ∀ id', ((s.cleared id incumbent).pruneClient id).stateOf id' = _ := fun id' =>
    (stateOf_pruneClient _ id id').trans (stateOf_cleared s id incumbent id')
  obtain ⟨hacl, hnext, htrace, -⟩ := cleared_fields s id incumbent
  refine
    { filled := fun hf => filled_pruneClient (filledBut_cleared hf id incumbent), nextRef := ?_
      pairing := fun id' h => ?_, connection := fun id' c' h => ?_, established := fun id' e' h => ?_
      authorized := fun _ _ _ ha => ?_
      trace := ⟨[], ?_, fun _ => List.not_mem_nil, fun _ hmem => absurd hmem List.not_mem_nil⟩ }
  · rw [pruneClient_fields]
    exact hnext.ge
  · rw [hst] at h
    split at h
    · rename_i hid
      rw [hid]
      exact h
    · split at h
      · exact h
      · exact h
  · rw [hst] at h
    split at h
    · cases h
    · split at h
      · exact ⟨c', h, .refl c'⟩
      · exact ⟨c', h, .refl c'⟩
  · rw [hst] at h
    split at h
    · cases h
    · split at h
      · cases h
      · exact ⟨e', h, .refl e'⟩
  · rw [pruneClient_fields]
    exact hacl ▸ ha
  · rw [pruneClient_fields, List.append_nil]
    exact htrace

/-! ## What the additions keep -/

theorem filled_install {s t : BurrowRuntime} (h : Filled s) {f : ClientState → ClientState}
    (hc : t.clients = (s.modifyClient id f).clients) (hf : ∀ st, (f st).isEmpty = false) : Filled t := by
  intro id' st hst
  rw [hc] at hst
  by_cases hid : id' = id
  · subst hid
    have hget := stateOf_of_get (s := s.modifyClient id' f) hst
    rw [stateOf_modifyClient, if_pos rfl] at hget
    rw [← hget]
    exact hf _
  · exact filled_of_modify h hid hst

theorem stateOf_installConnection (s : BurrowRuntime) (id id' : ClientId) (c : PendingConnectionSession) :
    (s.installConnection id c).stateOf id' =
      if id' = id then { s.stateOf id with connection := some c } else s.stateOf id' :=
  stateOf_modifyClient s id id' ({ · with connection := some c })

theorem Capped.installPairing {s : BurrowRuntime} (h : Capped s) (hroom : s.holding (·.pairing.isSome) < maxPendingPairings)
    (id : ClientId) (p : PendingPairingSession) : Capped (s.installPairing id p) := by
  have hst : ∀ id', (s.installPairing id p).stateOf id' =
      if id' = id then { s.stateOf id with pairing := some p } else s.stateOf id' :=
    fun id' => stateOf_modifyClient s id id' ({ · with pairing := some p })
  have hcon : ∀ id', ((s.installPairing id p).stateOf id').connection = (s.stateOf id').connection := by
    intro id'
    rw [hst]
    split
    · rename_i hid
      rw [hid]
    · rfl
  have hest : ∀ id', ((s.installPairing id p).stateOf id').established = (s.stateOf id').established := by
    intro id'
    rw [hst]
    split
    · rename_i hid
      rw [hid]
    · rfl
  refine
    { filled := filled_install h.filled (f := ({ · with pairing := some p })) rfl (fun _ => rfl)
      single := fun id₁ id₂ e₁ e₂ h₁ h₂ => ?_, sessions := ?_, connections := ?_, pairings := ?_ }
  · rw [hest] at h₁ h₂
    exact h.single id₁ id₂ e₁ e₂ h₁ h₂
  · exact (holding_le rfl (fun id' hid' => by rw [hest] at hid'; exact hid')).trans h.sessions
  · exact (holding_le rfl (fun id' hid' => by rw [hcon] at hid'; exact hid')).trans h.connections
  · refine (holding_le_succ rfl id (fun id' hne hid' => ?_)).trans hroom
    rw [hst, if_neg hne] at hid'
    exact hid'

theorem Capped.installConnection {s : BurrowRuntime} (h : Capped s)
    (hroom : s.holding (·.connection.isSome) < maxPendingConnectionHandshakes) (id : ClientId)
    (c : PendingConnectionSession) : Capped (s.installConnection id c) := by
  have hst := fun id' => stateOf_installConnection s id id' c
  have hpair : ∀ id', ((s.installConnection id c).stateOf id').pairing = (s.stateOf id').pairing := by
    intro id'
    rw [hst]
    split
    · rename_i hid
      rw [hid]
    · rfl
  have hest : ∀ id', ((s.installConnection id c).stateOf id').established = (s.stateOf id').established := by
    intro id'
    rw [hst]
    split
    · rename_i hid
      rw [hid]
    · rfl
  refine
    { filled := filled_install h.filled (f := ({ · with connection := some c })) rfl (fun st => by simp [ClientState.isEmpty])
      single := fun id₁ id₂ e₁ e₂ h₁ h₂ => ?_, sessions := ?_, connections := ?_, pairings := ?_ }
  · rw [hest] at h₁ h₂
    exact h.single id₁ id₂ e₁ e₂ h₁ h₂
  · exact (holding_le rfl (fun id' hid' => by rw [hest] at hid'; exact hid')).trans h.sessions
  · refine (holding_le_succ rfl id (fun id' hne hid' => ?_)).trans hroom
    rw [hst, if_neg hne] at hid'
    exact hid'
  · exact (holding_le rfl (fun id' hid' => by rw [hpair] at hid'; exact hid')).trans h.pairings

theorem Promotes.established_isSome {π : Promotion} (h : Promotes s s' id π e) {id' : ClientId} (hne : id' ≠ id)
    (hid' : (s'.stateOf id').established.isSome = true) :
    (s.stateOf id').established.isSome = true ∧ (s.establishedFor e.clientStaticPublicKey (some id)).1 ≠ some id' := by
  obtain ⟨e', he'⟩ := Option.isSome_iff_exists.1 hid'
  obtain ⟨hold, hinc⟩ := h.others id' e' hne he'
  exact ⟨by rw [hold]; rfl, hinc⟩

/-- **A promotion never exceeds the cap**: the client's own session is replaced, or that of the static under another
client goes, or the others leave room. -/
theorem Promotes.holding_le {s s' : BurrowRuntime} {id : ClientId} {π : Promotion} {e : EstablishedSession}
    (h : Promotes s s' id π e) (hs : s.holding (·.established.isSome) ≤ maxEstablishedE2eSessions) :
    s'.holding (·.established.isSome) ≤ maxEstablishedE2eSessions := by
  cases hinc : (s.establishedFor e.clientStaticPublicKey (some id)).1 with
  | none =>
    have hroom := h.busy hinc
    rw [establishedFor_snd] at hroom
    refine (OrdMap.count_le_succ id (fun id' st hne hst hp => ?_)).trans hroom
    have hid' : (s'.stateOf id').established.isSome = true := by rw [stateOf_of_get hst]; exact hp
    rw [OrdMap.get_delete_ne _ hne]
    exact get_of_stateOf rfl (h.established_isSome hne hid').1
  | some i =>
    obtain ⟨ei, hei, -⟩ := establishedFor_some hinc
    have hi : (s.stateOf i).established.isSome = true := by rw [hei]; rfl
    by_cases hid : i = id
    · refine (BurrowRuntime.holding_le rfl (fun id' hid' => ?_)).trans hs
      by_cases hne : id' = id
      · rw [hne, ← hid]
        exact hi
      · exact (h.established_isSome hne hid').1
    · -- the sessions of the others, the displaced one apart, and then one more
      have hlt : (s.clients.delete i).count (·.established.isSome) < s.holding (·.established.isSome) := by
        obtain ⟨st, hst, hp⟩ := get_of_stateOf (p := (·.established.isSome)) rfl hi
        refine OrdMap.count_lt hst hp (fun id' st' hst' hp' => ?_)
        rw [OrdMap.get_delete] at hst'
        split at hst'
        · cases hst'
        · exact ⟨by assumption, st', hst', hp'⟩
      refine (OrdMap.count_le_succ (m := s.clients.delete i) id (fun id' st hne hst hp => ?_)).trans
        ((Nat.succ_le_of_lt hlt).trans hs)
      have hid' : (s'.stateOf id').established.isSome = true := by rw [stateOf_of_get hst]; exact hp
      obtain ⟨hold, hnot⟩ := h.established_isSome hne hid'
      rw [OrdMap.get_delete_ne _ (fun heq => hnot (by rw [hinc, heq]))]
      exact get_of_stateOf rfl hold

theorem Capped.promotes {π : Promotion} (h : Capped s) (hp : Promotes s s' id π e) : Capped s' := by
  -- another session of the static was the incumbent's, by uniqueness, and the incumbent's is gone
  have halone : ∀ id' e', id' ≠ id → (s'.stateOf id').established = some e' →
      e'.clientStaticPublicKey ≠ e.clientStaticPublicKey := by
    intro id' e' hne he' hk
    obtain ⟨hold, hnot⟩ := hp.others id' e' hne he'
    cases hinc : (s.establishedFor e.clientStaticPublicKey (some id)).1 with
    | none => exact establishedFor_none hinc hold hk
    | some i =>
      obtain ⟨ei, hei, hki⟩ := establishedFor_some hinc
      exact hnot (by rw [hinc, h.single i id' ei e' hei hold (hki.trans hk.symm)])
  refine
    { filled := hp.filled h.filled, single := fun id₁ id₂ e₁ e₂ h₁ h₂ hk => ?_, sessions := hp.holding_le h.sessions
      connections := (BurrowRuntime.holding_le rfl (fun id' hid' => ?_)).trans h.connections
      pairings := (BurrowRuntime.holding_le rfl (fun id' hid' => ?_)).trans h.pairings }
  · by_cases hid₁ : id₁ = id
    · by_cases hid₂ : id₂ = id
      · rw [hid₁, hid₂]
      · rw [hid₁, hp.own] at h₁
        cases h₁
        exact absurd hk.symm (halone id₂ e₂ hid₂ h₂)
    · by_cases hid₂ : id₂ = id
      · rw [hid₂, hp.own] at h₂
        cases h₂
        exact absurd hk (halone id₁ e₁ hid₁ h₁)
      · exact h.single id₁ id₂ e₁ e₂ (hp.others id₁ e₁ hid₁ h₁).1 (hp.others id₂ e₂ hid₂ h₂).1 hk
  · rw [hp.connection] at hid'
    split at hid'
    · cases hid'
    · exact hid'
  · rw [hp.pairing] at hid'
    exact hid'

end BurrowRuntime
end Burrow
end Dormouse

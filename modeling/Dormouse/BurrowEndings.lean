import Dormouse.BurrowRuntime
/-!
# BurrowEndings — what ending something leaves alone

Most of a Burrow's stretches end something: a deadline passes, a client goes, a socket drops, a cap is met.  All of them
only take pairings, connections and sessions away, and each connection that goes takes its challenge with it; the rest of
the state is left alone (`Sheds`).  What a client holds is read through `stateOf`, under which a client with no entry and
one with an empty entry are alike; that no entry is empty is kept beside (`Filled`).
-/
namespace Dormouse
namespace Burrow
namespace BurrowRuntime

def stateOf (s : BurrowRuntime) (id : ClientId) : ClientState := (s.clients.get id).getD {}

theorem pairingOf_eq (s : BurrowRuntime) (id : ClientId) : s.pairingOf id = (s.stateOf id).pairing := by
  unfold pairingOf stateOf
  cases s.clients.get id <;> rfl

theorem connectionOf_eq (s : BurrowRuntime) (id : ClientId) : s.connectionOf id = (s.stateOf id).connection := by
  unfold connectionOf stateOf
  cases s.clients.get id <;> rfl

theorem establishedOf_eq (s : BurrowRuntime) (id : ClientId) : s.establishedOf id = (s.stateOf id).established := by
  unfold establishedOf stateOf
  cases s.clients.get id <;> rfl

theorem isEmpty_iff {st : ClientState} : st.isEmpty = true ↔ st = {} := by
  obtain ⟨p, c, e⟩ := st
  simp [ClientState.isEmpty, and_assoc]

def Filled (s : BurrowRuntime) : Prop := ∀ id st, s.clients.get id = some st → st.isEmpty = false

theorem stateOf_modifyClient (s : BurrowRuntime) (id id' : ClientId) (f : ClientState → ClientState) :
    (s.modifyClient id f).stateOf id' = if id' = id then f (s.stateOf id) else s.stateOf id' := by
  unfold stateOf modifyClient
  rw [OrdMap.get_set]
  split
  · rfl
  · rfl

theorem get_pruneClient (s : BurrowRuntime) (id id' : ClientId) :
    (s.pruneClient id).clients.get id' = if id' = id ∧ (s.stateOf id).isEmpty then none else s.clients.get id' := by
  have hget : s.stateOf id = (s.clients.get id).getD {} := rfl
  unfold pruneClient
  cases h : s.clients.get id with
  | none =>
    simp only
    split
    · rename_i hc
      rw [hc.1, h]
    · rfl
  | some st =>
    rw [hget, h]
    simp only [Option.getD_some]
    by_cases he : st.isEmpty = true
    · rw [if_pos he]
      simp only [he, and_true]
      exact OrdMap.get_delete s.clients id id'
    · rw [if_neg he, if_neg (fun hc => he hc.2)]

theorem stateOf_pruneClient (s : BurrowRuntime) (id id' : ClientId) :
    (s.pruneClient id).stateOf id' = s.stateOf id' := by
  conv_lhs => unfold stateOf
  rw [get_pruneClient]
  split
  · rename_i h
    rw [h.1, isEmpty_iff.1 h.2]
    rfl
  · rfl

theorem filled_pruneClient {s : BurrowRuntime} {id : ClientId}
    (h : ∀ id' st, id' ≠ id → s.clients.get id' = some st → st.isEmpty = false) : Filled (s.pruneClient id) := by
  intro id' st hst
  rw [get_pruneClient] at hst
  split at hst
  · cases hst
  · rename_i hne
    by_cases hid : id' = id
    · have hs : s.stateOf id = st := by rw [stateOf, ← hid, hst]; rfl
      rw [← hs]
      exact Bool.eq_false_iff.2 (fun he => hne ⟨hid, he⟩)
    · exact h id' st hid hst

/-- **Only endings**: some pairings, connections and sessions are gone, and the challenges of the connections that went
were asked for; the lists, the approval queue and the frame in hand are as they were. -/
structure Sheds (s s' : BurrowRuntime) : Prop where
  policy      : s'.policy = s.policy
  acl         : s'.acl = s.acl
  saving      : s'.saving = s.saving
  saves       : s'.saves = s.saves
  revocations : s'.revocations = s.revocations
  handling    : s'.handling = s.handling
  nextRef     : s'.nextRef = s.nextRef
  pairing     : ∀ id, (s'.stateOf id).pairing = none ∨ (s'.stateOf id).pairing = (s.stateOf id).pairing
  connection  : ∀ id, (s'.stateOf id).connection = none ∨ (s'.stateOf id).connection = (s.stateOf id).connection
  established : ∀ id, (s'.stateOf id).established = none ∨ (s'.stateOf id).established = (s.stateOf id).established
  filled      : Filled s → Filled s'
  trace       : ∃ l, s'.trace = s.trace ++ l ∧ ∀ e ∈ l, ∃ id c held now, (s.stateOf id).connection = some c ∧
    (s'.stateOf id).connection = none ∧ e = .consumed c.ref c.challenge held now

namespace Sheds

variable {s s' : BurrowRuntime}

theorem of_eq (hp : s'.policy = s.policy) (ha : s'.acl = s.acl) (hs : s'.saving = s.saving) (hq : s'.saves = s.saves)
    (hr : s'.revocations = s.revocations) (hh : s'.handling = s.handling) (hn : s'.nextRef = s.nextRef)
    (hc : s'.clients = s.clients) (ht : s'.trace = s.trace) : Sheds s s' := by
  have hst : ∀ id, s'.stateOf id = s.stateOf id := fun id => by unfold stateOf; rw [hc]
  exact
    { policy := hp, acl := ha, saving := hs, saves := hq, revocations := hr, handling := hh, nextRef := hn
      pairing := fun id => .inr (by rw [hst]), connection := fun id => .inr (by rw [hst])
      established := fun id => .inr (by rw [hst])
      filled := fun hf id st h => hf id st (hc ▸ h)
      trace := ⟨[], by rw [ht, List.append_nil], fun _ he => absurd he List.not_mem_nil⟩ }

theorem refl (s : BurrowRuntime) : Sheds s s := of_eq rfl rfl rfl rfl rfl rfl rfl rfl rfl

theorem trans {s s' s'' : BurrowRuntime} (h : Sheds s s') (h' : Sheds s' s'') : Sheds s s'' where
  policy := h'.policy.trans h.policy
  acl := h'.acl.trans h.acl
  saving := h'.saving.trans h.saving
  saves := h'.saves.trans h.saves
  revocations := h'.revocations.trans h.revocations
  handling := h'.handling.trans h.handling
  nextRef := h'.nextRef.trans h.nextRef
  pairing id := (h'.pairing id).elim .inl (fun he => (h.pairing id).imp he.trans he.trans)
  connection id := (h'.connection id).elim .inl (fun he => (h.connection id).imp he.trans he.trans)
  established id := (h'.established id).elim .inl (fun he => (h.established id).imp he.trans he.trans)
  filled hf := h'.filled (h.filled hf)
  trace := by
    obtain ⟨l, hl, hlc⟩ := h.trace
    obtain ⟨l', hl', hlc'⟩ := h'.trace
    refine ⟨l ++ l', by rw [hl', hl, List.append_assoc], fun e he => ?_⟩
    rcases List.mem_append.1 he with he | he
    · obtain ⟨id, c, held, now, hc, hgone, heq⟩ := hlc e he
      refine ⟨id, c, held, now, hc, ?_, heq⟩
      rcases h'.connection id with hn | hk
      · exact hn
      · exact hk.trans hgone
    · obtain ⟨id, c, held, now, hc, hgone, heq⟩ := hlc' e he
      refine ⟨id, c, held, now, ?_, hgone, heq⟩
      rcases h.connection id with hn | hk
      · rw [hn] at hc
        cases hc
      · exact hk.symm.trans hc

theorem foldl {α : Type} {f : BurrowRuntime → α → BurrowRuntime} (h : ∀ s a, Sheds s (f s a)) :
    ∀ (l : List α) (s : BurrowRuntime), Sheds s (l.foldl f s)
  | [], s => refl s
  | a :: l, s => (h s a).trans (foldl h l (f s a))

theorem pairing_some (h : Sheds s s') {id : ClientId} {p : PendingPairingSession} (hp : (s'.stateOf id).pairing = some p) :
    (s.stateOf id).pairing = some p := by
  rcases h.pairing id with hn | hk
  · rw [hn] at hp
    cases hp
  · exact hk.symm.trans hp

theorem connection_some (h : Sheds s s') {id : ClientId} {c : PendingConnectionSession}
    (hc : (s'.stateOf id).connection = some c) : (s.stateOf id).connection = some c := by
  rcases h.connection id with hn | hk
  · rw [hn] at hc
    cases hc
  · exact hk.symm.trans hc

theorem established_some (h : Sheds s s') {id : ClientId} {e : EstablishedSession}
    (he : (s'.stateOf id).established = some e) : (s.stateOf id).established = some e := by
  rcases h.established id with hn | hk
  · rw [hn] at he
    cases he
  · exact hk.symm.trans he

end Sheds

/-! ## One ending at a time -/

theorem sheds_retireInvitation (s : BurrowRuntime) (inviteId : JsString) : Sheds s (s.retireInvitation inviteId) :=
  .of_eq rfl rfl rfl rfl rfl rfl rfl rfl rfl

theorem filled_of_modify {s : BurrowRuntime} (hf : Filled s) {id : ClientId} {f : ClientState → ClientState}
    {id' : ClientId} {st : ClientState} (hne : id' ≠ id) (h : (s.modifyClient id f).clients.get id' = some st) :
    st.isEmpty = false := by
  refine hf id' st ?_
  rw [← h]
  exact (OrdMap.get_set_ne s.clients _ hne).symm

theorem pruneClient_fields (s : BurrowRuntime) (id : ClientId) :
    s.pruneClient id = { s with clients := (s.pruneClient id).clients } := by
  unfold pruneClient
  split
  · rfl
  · split
    · rfl
    · rfl

theorem sheds_pruneClient {s t : BurrowRuntime} {id : ClientId} {f : ClientState → ClientState}
    (ht : t = { t with policy := s.policy, acl := s.acl, saving := s.saving, saves := s.saves,
                       revocations := s.revocations, handling := s.handling, nextRef := s.nextRef,
                       clients := (s.modifyClient id f).clients })
    (hp : (f (s.stateOf id)).pairing = none ∨ (f (s.stateOf id)).pairing = (s.stateOf id).pairing)
    (hc : (f (s.stateOf id)).connection = none ∨ (f (s.stateOf id)).connection = (s.stateOf id).connection)
    (he : (f (s.stateOf id)).established = none ∨ (f (s.stateOf id)).established = (s.stateOf id).established)
    (htr : ∃ l, t.trace = s.trace ++ l ∧ ∀ e ∈ l, ∃ c held now, (s.stateOf id).connection = some c ∧
      (f (s.stateOf id)).connection = none ∧ e = .consumed c.ref c.challenge held now) : Sheds s (t.pruneClient id) := by
  have hst : ∀ id', (t.pruneClient id).stateOf id' = if id' = id then f (s.stateOf id) else s.stateOf id' := by
    intro id'
    rw [stateOf_pruneClient, ← stateOf_modifyClient, ht]
    rfl
  have hfields := pruneClient_fields t id
  rw [ht] at hfields
  refine
    { policy := by rw [ht, hfields], acl := by rw [ht, hfields], saving := by rw [ht, hfields]
      saves := by rw [ht, hfields], revocations := by rw [ht, hfields], handling := by rw [ht, hfields]
      nextRef := by rw [ht, hfields]
      pairing := fun id' => ?_, connection := fun id' => ?_, established := fun id' => ?_
      filled := fun hf => filled_pruneClient (fun id' st hne h => filled_of_modify hf hne (f := f) (by rw [ht] at h; exact h))
      trace := ?_ }
  · rw [hst]
    split
    · rename_i hid
      exact hid ▸ hp
    · exact .inr rfl
  · rw [hst]
    split
    · rename_i hid
      exact hid ▸ hc
    · exact .inr rfl
  · rw [hst]
    split
    · rename_i hid
      exact hid ▸ he
    · exact .inr rfl
  · obtain ⟨l, hl, hlc⟩ := htr
    refine ⟨l, ?_, fun e hel => ?_⟩
    · rw [← hl, pruneClient_fields t id]
    · obtain ⟨c, held, now, hcon, hgone, heq⟩ := hlc e hel
      exact ⟨id, c, held, now, hcon, by rw [hst, if_pos rfl]; exact hgone, heq⟩

theorem stateOf_disposePairing (s : BurrowRuntime) (id id' : ClientId) :
    (s.disposePairing id).stateOf id' =
      if id' = id then { s.stateOf id with pairing := none } else s.stateOf id' := by
  unfold disposePairing
  rw [pairingOf_eq]
  cases hp : (s.stateOf id).pairing with
  | none =>
    simp only
    split
    · rename_i hid
      rw [hid, ← hp]
    · rfl
  | some pending =>
    simp only
    rw [stateOf_pruneClient]
    exact stateOf_modifyClient s id id' ({ · with pairing := none })

theorem sheds_disposePairing (s : BurrowRuntime) (id : ClientId) : Sheds s (s.disposePairing id) := by
  unfold disposePairing
  cases s.pairingOf id with
  | none => exact .refl s
  | some pending =>
    exact sheds_pruneClient (f := ({ · with pairing := none })) rfl (.inl rfl) (.inr rfl) (.inr rfl)
      ⟨[], (List.append_nil _).symm, fun _ he => absurd he List.not_mem_nil⟩

theorem stateOf_disposeConnection (s : BurrowRuntime) (id id' : ClientId) (now : Int) :
    (s.disposeConnection id now).stateOf id' =
      if id' = id then { s.stateOf id with connection := none } else s.stateOf id' := by
  unfold disposeConnection
  rw [connectionOf_eq]
  cases hp : (s.stateOf id).connection with
  | none =>
    simp only
    split
    · rename_i hid
      rw [hid, ← hp]
    · rfl
  | some pending =>
    simp only
    rw [stateOf_pruneClient]
    exact stateOf_modifyClient _ id id' _

theorem sheds_disposeConnection (s : BurrowRuntime) (id : ClientId) (now : Int) :
    Sheds s (s.disposeConnection id now) := by
  unfold disposeConnection
  cases hc : s.connectionOf id with
  | none => exact .refl s
  | some pending =>
    rw [connectionOf_eq] at hc
    refine sheds_pruneClient (f := ({ · with connection := none })) rfl (.inr rfl) (.inl rfl) (.inr rfl) ⟨_, rfl, ?_⟩
    intro e he
    exact ⟨pending, _, now, hc, rfl, List.mem_singleton.1 he⟩

theorem stateOf_clearEstablished (s : BurrowRuntime) (id id' : ClientId) :
    (s.clearEstablished id).stateOf id' =
      if id' = id then { s.stateOf id with established := none } else s.stateOf id' := by
  unfold clearEstablished
  rw [establishedOf_eq]
  cases hp : (s.stateOf id).established with
  | none =>
    simp only
    split
    · rename_i hid
      rw [hid, ← hp]
    · rfl
  | some session => exact stateOf_modifyClient s id id' ({ · with established := none })

theorem stateOf_disposeEstablished (s : BurrowRuntime) (id id' : ClientId) :
    (s.disposeEstablished id).stateOf id' =
      if id' = id then { s.stateOf id with established := none } else s.stateOf id' := by
  have hclear := stateOf_clearEstablished s id id'
  unfold disposeEstablished
  cases hp : s.establishedOf id with
  | none =>
    rw [clearEstablished, hp] at hclear
    exact hclear
  | some session =>
    simp only
    rw [stateOf_pruneClient]
    exact hclear

theorem sheds_disposeEstablished (s : BurrowRuntime) (id : ClientId) : Sheds s (s.disposeEstablished id) := by
  unfold disposeEstablished
  cases he : s.establishedOf id with
  | none => exact .refl s
  | some session =>
    simp only
    refine sheds_pruneClient (f := ({ · with established := none })) ?_ (.inr rfl) (.inr rfl) (.inl rfl)
      ⟨[], ?_, fun _ he => absurd he List.not_mem_nil⟩
    · rw [clearEstablished, he]
    · rw [clearEstablished, he]
      exact (List.append_nil _).symm

theorem sheds_disposeEstablishedOnly (s : BurrowRuntime) (id : ClientId) (only : Ref) :
    Sheds s (s.disposeEstablishedOnly id only) := by
  unfold disposeEstablishedOnly
  split
  · exact .refl s
  · split
    · exact sheds_disposeEstablished s id
    · exact .refl s

theorem stateOf_disposeAll (s : BurrowRuntime) (id id' : ClientId) (now : Int) :
    (((s.disposePairing id).disposeConnection id now).disposeEstablished id).stateOf id' =
      if id' = id then {} else s.stateOf id' := by
  by_cases h : id' = id
  · subst h
    simp only [stateOf_disposeEstablished, stateOf_disposeConnection, stateOf_disposePairing, if_true]
  · simp only [stateOf_disposeEstablished, stateOf_disposeConnection, stateOf_disposePairing, if_neg h]

theorem sheds_disposeClient (s : BurrowRuntime) (id : ClientId) (now : Int) : Sheds s (s.disposeClient id now) := by
  unfold disposeClient
  cases s.clients.get id with
  | none => exact .refl s
  | some st =>
    simp only
    refine (((sheds_disposePairing s id).trans (sheds_disposeConnection _ id now)).trans
      (sheds_disposeEstablished _ id)).trans ?_
    have hempty := stateOf_disposeAll s id id now
    rw [if_pos rfl] at hempty
    generalize ((s.disposePairing id).disposeConnection id now).disposeEstablished id = t at hempty ⊢
    have hst : ∀ id', ({ t with clients := t.clients.delete id } : BurrowRuntime).stateOf id' = t.stateOf id' := by
      intro id'
      conv_lhs => rw [stateOf, OrdMap.get_delete]
      split
      · rename_i hid
        rw [hid, hempty]
        rfl
      · rfl
    exact
      { policy := rfl, acl := rfl, saving := rfl, saves := rfl, revocations := rfl, handling := rfl, nextRef := rfl
        pairing := fun id' => .inr (by rw [hst]), connection := fun id' => .inr (by rw [hst])
        established := fun id' => .inr (by rw [hst])
        filled := fun hf id' st h => by
          rw [OrdMap.get_delete] at h
          split at h
          · cases h
          · exact hf id' st h
        trace := ⟨[], (List.append_nil _).symm, fun _ he => absurd he List.not_mem_nil⟩ }

theorem sheds_expire (s : BurrowRuntime) (now : Int) (d : Deadline) : Sheds s (s.expire now d) := by
  cases d with
  | pairing id => exact sheds_disposePairing s id
  | connection id connection =>
    unfold expire
    simp only
    split
    · split
      · exact sheds_disposeConnection s id now
      · exact .refl s
    · exact .refl s
  | direct id session => exact sheds_disposeEstablishedOnly s id session
  | idle id => exact sheds_disposeEstablished s id
  | invitation inviteId => exact sheds_retireInvitation s inviteId

theorem sheds_reap (s : BurrowRuntime) (now : Int) : Sheds s (s.reap now) :=
  .foldl (fun s (d : Int × Deadline) => sheds_expire s now d.2) _ s

theorem sheds_dropTransientState (s : BurrowRuntime) (now : Int) : Sheds s (s.dropTransientState now) := by
  unfold dropTransientState
  refine Sheds.trans ?_ (.foldl sheds_retireInvitation _ _)
  refine Sheds.trans ?_ (.foldl (fun s id => sheds_disposeClient s id now) _ _)
  exact .of_eq rfl rfl rfl rfl rfl rfl rfl rfl rfl

theorem sheds_stop (s : BurrowRuntime) (now : Int) : Sheds s (s.stop now) := by
  unfold stop
  refine Sheds.trans ?_ (sheds_dropTransientState _ now)
  refine (Sheds.foldl sheds_disposeEstablished s.clients.keys s).trans ?_
  exact .of_eq rfl rfl rfl rfl rfl rfl rfl rfl rfl

theorem sheds_evictOldestIfFull {age : ClientState → Option Int} {cap : Nat}
    {evict : BurrowRuntime → ClientId → BurrowRuntime} (h : ∀ s id, Sheds s (evict s id)) :
    ∀ (fuel : Nat) (s : BurrowRuntime), Sheds s (evictOldestIfFull age cap evict fuel s)
  | 0, s => .refl s
  | fuel + 1, s => by
    unfold evictOldestIfFull
    split
    · exact .refl s
    · split
      · exact .refl s
      · rename_i id _ _
        exact (h s id).trans (sheds_evictOldestIfFull h fuel _)

theorem sheds_evictOldestPairingIfFull (s : BurrowRuntime) : Sheds s s.evictOldestPairingIfFull :=
  sheds_evictOldestIfFull sheds_disposePairing _ s

theorem sheds_evictOldestConnectionIfFull (s : BurrowRuntime) (now : Int) : Sheds s (s.evictOldestConnectionIfFull now) :=
  sheds_evictOldestIfFull (fun s id => sheds_disposeConnection s id now) _ s

theorem sheds_endRevokedSession (next : BurrowAcl) (s : BurrowRuntime) (id : ClientId) :
    Sheds s (endRevokedSession next s id) := by
  unfold endRevokedSession
  split
  · split
    · exact sheds_disposeEstablished s id
    · exact .refl s
  · exact .refl s

theorem sheds_endRevokedConnection (next : BurrowAcl) (now : Int) (s : BurrowRuntime) (id : ClientId) :
    Sheds s (endRevokedConnection next now s id) := by
  unfold endRevokedConnection
  split
  · split
    · exact .refl s
    · exact sheds_disposeConnection s id now
  · exact .refl s

theorem sheds_endRevoked (next : BurrowAcl) (now : Int) (s : BurrowRuntime) (id : ClientId) :
    Sheds s (endRevoked next now s id) :=
  (sheds_endRevokedSession next s id).trans (sheds_endRevokedConnection next now _ id)

end BurrowRuntime
end Burrow
end Dormouse

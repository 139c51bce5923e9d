import Dormouse.BurrowEndings
/-!
# BurrowMoves — what one stretch does to the approvals

Said once for every input (`step_moves`): either nothing the approvals and the revocations are decided by changes, but
that pairings end and connections come and go (`Quiet`), or the stretch is one of ten: a pairing is made, its one attempt
is spent, a write's turn comes, its delivery id is minted or not, the write settles, a target is revoked, or a write of
the revocations is queued.
-/
namespace Dormouse
namespace Burrow

/-- The event is about a connection: no approval and no revocation. -/
def Event.ofConnection : Event → Bool
  | .consumed ..  => true
  | .promoted _   => true
  | _             => false

namespace BurrowRuntime

/-- **The approvals are left alone**: of the pairings some may end, and those that stay keep their identity and whether
their attempt is spent. -/
structure Quiet (s s' : BurrowRuntime) : Prop where
  acl         : s'.acl = s.acl
  saving      : s'.saving = s.saving
  saves       : s'.saves = s.saves
  revocations : s'.revocations = s.revocations
  nextRef     : s.nextRef ≤ s'.nextRef
  pairing     : ∀ id p', (s'.stateOf id).pairing = some p' →
    ∃ p, (s.stateOf id).pairing = some p ∧ p.ref = p'.ref ∧ p.attempted = p'.attempted
  trace       : ∃ l, s'.trace = s.trace ++ l ∧ ∀ e ∈ l, e.ofConnection = true

namespace Quiet

theorem of_sheds {s s' : BurrowRuntime} (h : Sheds s s') : Quiet s s' where
  acl := h.acl
  saving := h.saving
  saves := h.saves
  revocations := h.revocations
  nextRef := h.nextRef.ge
  pairing _ p' hp := ⟨p', h.pairing_some hp, rfl, rfl⟩
  trace := by
    obtain ⟨l, hl, hlc⟩ := h.trace
    refine ⟨l, hl, fun e he => ?_⟩
    obtain ⟨_, _, _, _, -, -, rfl⟩ := hlc e he
    rfl

theorem refl (s : BurrowRuntime) : Quiet s s := of_sheds (.refl s)

theorem trans {s s' s'' : BurrowRuntime} (h : Quiet s s') (h' : Quiet s' s'') : Quiet s s'' where
  acl := h'.acl.trans h.acl
  saving := h'.saving.trans h.saving
  saves := h'.saves.trans h.saves
  revocations := h'.revocations.trans h.revocations
  nextRef := h.nextRef.trans h'.nextRef
  pairing id p'' hp := by
    obtain ⟨p', hp', hr', ha'⟩ := h'.pairing id p'' hp
    obtain ⟨p, hp, hr, ha⟩ := h.pairing id p' hp'
    exact ⟨p, hp, hr.trans hr', ha.trans ha'⟩
  trace := by
    obtain ⟨l, hl, hlc⟩ := h.trace
    obtain ⟨l', hl', hlc'⟩ := h'.trace
    refine ⟨l ++ l', by rw [hl', hl, List.append_assoc], fun e he => ?_⟩
    rcases List.mem_append.1 he with he | he
    · exact hlc e he
    · exact hlc' e he

theorem of_fields {s s' : BurrowRuntime} (hacl : s'.acl = s.acl) (hs : s'.saving = s.saving) (hq : s'.saves = s.saves)
    (hr : s'.revocations = s.revocations) (hn : s.nextRef ≤ s'.nextRef)
    (hp : ∀ id, (s'.stateOf id).pairing = (s.stateOf id).pairing)
    (ht : ∃ l, s'.trace = s.trace ++ l ∧ ∀ e ∈ l, e.ofConnection = true) : Quiet s s' :=
  ⟨hacl, hs, hq, hr, hn, fun id p' h => ⟨p', hp id ▸ h, rfl, rfl⟩, ht⟩

theorem silent (s : BurrowRuntime) : ∃ l, s.trace = s.trace ++ l ∧ ∀ e ∈ l, e.ofConnection = true :=
  ⟨[], (List.append_nil _).symm, fun _ he => absurd he List.not_mem_nil⟩

end Quiet

variable {f : ClientState → ClientState}

theorem quiet_modifyClient_pairing (s : BurrowRuntime) (id : ClientId) (hf : ∀ st, (f st).pairing = st.pairing)
    (id' : ClientId) :
    ((s.modifyClient id f).stateOf id').pairing = (s.stateOf id').pairing := by
  rw [stateOf_modifyClient]
  split
  · rename_i hid
    rw [hf, hid]
  · rfl

theorem quiet_modifyClient (s : BurrowRuntime) (id : ClientId) (hf : ∀ st, (f st).pairing = st.pairing) :
    Quiet s (s.modifyClient id f) :=
  .of_fields rfl rfl rfl rfl le_rfl (quiet_modifyClient_pairing s id hf) (Quiet.silent s)

theorem quiet_modifyPairing (s : BurrowRuntime) (id : ClientId) {f : PendingPairingSession → PendingPairingSession}
    (hf : ∀ p, (f p).ref = p.ref ∧ (f p).attempted = p.attempted) : Quiet s (s.modifyPairing id f) := by
  refine ⟨rfl, rfl, rfl, rfl, le_rfl, fun id' p' hp' => ?_, Quiet.silent s⟩
  unfold modifyPairing at hp'
  rw [stateOf_modifyClient] at hp'
  split at hp'
  · rename_i hid
    obtain ⟨p, hp, rfl⟩ := Option.map_eq_some_iff.1 hp'
    exact ⟨p, hid ▸ hp, (hf p).1.symm, (hf p).2.symm⟩
  · exact ⟨p', hp', rfl, rfl⟩

/-! ## The connections -/

theorem quiet_clearEstablished (s : BurrowRuntime) (id : ClientId) : Quiet s (s.clearEstablished id) := by
  have hst := stateOf_clearEstablished s id
  unfold clearEstablished at hst ⊢
  cases h : s.establishedOf id with
  | none => exact .refl s
  | some session =>
    rw [h] at hst
    refine .of_fields rfl rfl rfl rfl le_rfl (fun id' => ?_) (Quiet.silent s)
    simp only at hst ⊢
    rw [hst]
    split
    · rename_i hid
      rw [hid]
    · rfl

theorem quiet_pruneClient (s : BurrowRuntime) (id : ClientId) : Quiet s (s.pruneClient id) := by
  have hst := stateOf_pruneClient s id
  rw [pruneClient_fields] at hst ⊢
  exact .of_fields rfl rfl rfl rfl le_rfl (fun id' => by rw [hst]) (Quiet.silent s)

theorem quiet_establish (K : Config) (s : BurrowRuntime) (id : ClientId) (promotion : Promotion) (now : Int) :
    Quiet s (establish K s id promotion now) := by
  unfold establish
  split
  · exact quiet_pruneClient s id
  · refine .of_fields rfl rfl rfl rfl (Nat.le_succ _) (fun id' => ?_) ⟨_, rfl, fun e he => ?_⟩
    · exact quiet_modifyClient_pairing s id (f := fun st => { st with
        established := some (sessionOf K promotion.session promotion.connection promotion.record now) }) (fun _ => rfl) id'
    · rw [List.mem_singleton.1 he]
      rfl

theorem quiet_displaceIncumbent (s : BurrowRuntime) (id : ClientId) (incumbent : Option ClientId) :
    Quiet s (s.displaceIncumbent id incumbent) := by
  unfold displaceIncumbent
  split
  · split
    · exact .of_sheds (sheds_disposeEstablished s _)
    · exact .refl s
  · exact .refl s

theorem quiet_promoteConnection (K : Config) (s : BurrowRuntime) (id : ClientId) (pending : PendingConnectionSession)
    (record : BurrowAclRecord) (presence : Presence) (now : Int) :
    Quiet s (promoteConnection K s id pending record presence now) := by
  unfold promoteConnection
  simp only
  split
  · exact .of_sheds (sheds_disposeConnection s id now)
  · have hcleared := ((quiet_modifyClient s id (f := ({ · with connection := none })) (fun _ => rfl)).trans
      (quiet_displaceIncumbent _ id (s.establishedFor pending.clientStaticPublicKey (some id)).1)).trans
      (quiet_clearEstablished _ id)
    exact hcleared.trans (quiet_establish K _ id _ now)

theorem quiet_authorizeConnection (K : Config) (s : BurrowRuntime) (id : ClientId) (pending : PendingConnectionSession)
    (presence : Presence) (now : Int) : Quiet s (authorizeConnection K s id pending presence now) := by
  unfold authorizeConnection
  split
  · exact .of_sheds (sheds_disposeConnection s id now)
  · cases presence with
    | window offer => exact quiet_promoteConnection K s id pending _ _ now
    | proof p q h =>
      refine Quiet.trans ?_ (quiet_promoteConnection K _ id pending _ _ now)
      exact .of_sheds (.of_eq rfl rfl rfl rfl rfl rfl rfl rfl rfl)

theorem quiet_consumeChallenge (s : BurrowRuntime) (pending : PendingConnectionSession) (now : Int) :
    Quiet s (s.consumeChallenge pending now).1 := by
  refine .of_fields rfl rfl rfl rfl le_rfl (fun _ => rfl) ⟨_, rfl, fun e he => ?_⟩
  rw [List.mem_singleton.1 he]
  rfl

theorem quiet_handling (s : BurrowRuntime) (handling : Option Handling) : Quiet s { s with handling := handling } :=
  .of_fields rfl rfl rfl rfl le_rfl (fun _ => rfl) (Quiet.silent s)

theorem quiet_onConnectionRequest (K : Config) (s : BurrowRuntime) (id : ClientId) (pending : PendingConnectionSession)
    (presence : ConnectionPresence) (now : Int) : Quiet s (onConnectionRequest K s id pending presence now) := by
  unfold onConnectionRequest
  refine (quiet_consumeChallenge s pending now).trans ?_
  cases presence with
  | window =>
    simp only
    split
    · exact .of_sheds (sheds_disposeConnection _ id now)
    · split
      · exact .of_sheds (sheds_disposeConnection _ id now)
      · exact quiet_authorizeConnection K _ id pending _ now
  | proof p => exact quiet_handling _ _

theorem quiet_onConnectionTransport (K : Config) (s : BurrowRuntime) (frame : E2eFrame) (receipt : Receipt) (now : Int) :
    Quiet s (onConnectionTransport K s frame receipt now) := by
  unfold onConnectionTransport
  split
  · exact .refl s
  · split
    · exact .refl s
    · split
      · exact .refl s
      · cases receipt with
        | failed => exact .of_sheds (sheds_disposeConnection s _ now)
        | keepalive => exact .refl s
        | app => exact .of_sheds (sheds_disposeConnection s _ now)
        | control v =>
          simp only
          split
          · exact .of_sheds (sheds_disposeConnection s _ now)
          · exact quiet_onConnectionRequest K s _ _ _ now

theorem quiet_connectionProved (C : PresenceCrypto) (K : Config) (s : BurrowRuntime) (id : ClientId)
    (pending : PendingConnectionSession) (challengeValid : Bool) (proof : PresenceProofV1) (policy : ConnectionPolicy)
    (now : Int) : Quiet s (connectionProved C K s id pending challengeValid proof policy now) := by
  unfold connectionProved
  split
  · exact .refl s
  · split
    · exact .of_sheds (sheds_disposeConnection s id now)
    · split
      · exact .of_sheds (sheds_disposeConnection s id now)
      · split
        · exact .of_sheds (sheds_disposeConnection s id now)
        · exact quiet_authorizeConnection K s id pending _ now

theorem quiet_installConnection (s : BurrowRuntime) (id : ClientId) (pending : PendingConnectionSession) :
    Quiet s (s.installConnection id pending) :=
  .of_fields rfl rfl rfl rfl (Nat.le_succ _)
    (quiet_modifyClient_pairing s id (f := ({ · with connection := some pending })) (fun _ => rfl)) (Quiet.silent s)

theorem quiet_connectionOpened (s : BurrowRuntime) (id : ClientId) (connectionId : JsString) (epoch : Nat)
    (policy : ConnectionPolicy) (c ch b : JsString) (expiresAt : Int) (offer : Option PresenceWindowEntry) (o : Outcome)
    (now : Int) : Quiet s (s.connectionOpened id connectionId epoch policy c ch b expiresAt offer o now) := by
  unfold connectionOpened
  split
  · exact .refl s
  · split
    · exact .refl s
    · exact (Quiet.of_sheds ((sheds_disposeConnection s id now).trans (sheds_evictOldestConnectionIfFull _ now))).trans
        (quiet_installConnection _ id _)

theorem quiet_connectionReadMessage (C : PresenceCrypto) (s : BurrowRuntime) (id : ClientId) (connectionId : JsString)
    (epoch : Nat) (policy : ConnectionPolicy) (o : Outcome) (now : Int) :
    Quiet s (connectionReadMessage C s id connectionId epoch policy o now) := by
  unfold connectionReadMessage
  split
  · exact .refl s
  · exact .of_fields rfl rfl rfl rfl le_rfl (fun _ => rfl) (Quiet.silent s)

theorem quiet_onConnectionInit (s : BurrowRuntime) (frame : E2eFrame) (now : Int) :
    Quiet s (s.onConnectionInit frame now) := by
  unfold onConnectionInit
  simp only
  split
  · exact .of_fields rfl rfl rfl rfl le_rfl (fun _ => rfl) (Quiet.silent s)
  · exact .of_fields rfl rfl rfl rfl le_rfl (fun _ => rfl) (Quiet.silent s)

/-! ## The pairings, but for a new one and an attempt -/

theorem quiet_onPairingInit (s : BurrowRuntime) (frame : E2eFrame) (now : Int) : Quiet s (s.onPairingInit frame now) := by
  unfold onPairingInit
  split
  · exact .refl s
  · split
    · exact .refl s
    · simp only
      split
      · exact .of_fields rfl rfl rfl rfl le_rfl (fun _ => rfl) (Quiet.silent s)
      · exact .of_fields rfl rfl rfl rfl le_rfl (fun _ => rfl) (Quiet.silent s)

theorem quiet_onPairingTransport (s : BurrowRuntime) (frame : E2eFrame) (receipt : Receipt) (now : Int) :
    Quiet s (s.onPairingTransport frame receipt now) := by
  have hfinish : Quiet s (s.finishPairing frame.clientId) := .of_sheds (sheds_disposePairing s _)
  unfold onPairingTransport
  split
  · exact .refl s
  · split
    · exact .refl s
    · split
      · exact hfinish
      · cases receipt with
        | failed => exact hfinish
        | keepalive => exact .refl s
        | app =>
          simp only
          split
          · exact .refl s
          · exact hfinish
        | control v =>
          simp only
          split
          · exact .refl s
          · split
            · exact hfinish
            · exact quiet_handling s _

theorem quiet_pairingProved (C : PresenceCrypto) (K : Config) (s : BurrowRuntime) (id : ClientId)
    (pending : PendingPairingSession) (request : PairingRequestV1) (policy : ConnectionPolicy) (now : Int) :
    Quiet s (pairingProved C K s id pending request policy now) := by
  have hfinish : Quiet s (s.finishPairing id) := .of_sheds (sheds_disposePairing s id)
  unfold pairingProved
  split
  · exact .refl s
  · simp only
    split
    · exact hfinish
    · split
      · exact hfinish
      · exact quiet_modifyPairing s id (fun _ => ⟨rfl, rfl⟩)

theorem quiet_denyPairing (s : BurrowRuntime) (id : ClientId) (pairingId : JsString) (now : Int) :
    Quiet s (s.denyPairing id pairingId now) := by
  unfold denyPairing
  split
  · exact .refl s
  · split
    · exact .refl s
    · exact .of_sheds ((sheds_disposePairing s id).trans (sheds_reap _ now))

/-! ## The rest -/

theorem stateOf_mapValues {s t : BurrowRuntime} (h : t.clients = s.clients.mapValues f) (hf : f {} = {}) (id : ClientId) :
    t.stateOf id = f (s.stateOf id) := by
  unfold stateOf
  rw [h, OrdMap.get_mapValues]
  cases s.clients.get id with
  | none => exact hf.symm
  | some st => rfl

theorem quiet_raisePolicy (s : BurrowRuntime) (requireUserVerification : Bool) :
    Quiet s (s.raisePolicy requireUserVerification) := by
  unfold raisePolicy
  split
  · exact .refl s
  · refine .of_fields rfl rfl rfl rfl le_rfl (fun id => ?_) (Quiet.silent s)
    rw [stateOf_mapValues (s := s)
      (f := fun st => { st with connection := st.connection.map ({ · with offer := none }) }) rfl rfl id]

theorem quiet_enqueue (s : BurrowRuntime) (frame : QueuedRelayFrame) (chars : Nat) (now : Int) :
    Quiet s (s.enqueue frame chars now) := by
  unfold enqueue
  split
  · exact .of_sheds (sheds_dropTransientState s now)
  · exact .of_fields rfl rfl rfl rfl le_rfl (fun _ => rfl) (Quiet.silent s)

theorem quiet_mintInvitation (s : BurrowRuntime) (inviteId : JsString) (epoch : Nat) (relayExpiresAtMs now : Int) :
    Quiet s (s.mintInvitation inviteId epoch relayExpiresAtMs now) := by
  unfold mintInvitation
  split
  · exact .refl s
  · have hreap : Quiet s (((s.reap now).invitations.keys.take ((s.reap now).invitations.size + 1 - maxTokensPerBurrow)
        ).foldl retireInvitation (s.reap now)) :=
      .of_sheds ((sheds_reap s now).trans (.foldl sheds_retireInvitation _ _))
    simp only
    split
    · exact hreap.trans (.of_fields rfl rfl rfl rfl (Nat.le_succ _) (fun _ => rfl) (Quiet.silent _))
    · exact hreap

theorem quiet_modifySession (s : BurrowRuntime) (id : ClientId) (session : Ref)
    (f : EstablishedSession → EstablishedSession) : Quiet s (s.modifySession id session f) := by
  unfold modifySession
  split
  · exact quiet_modifyClient s id (f := fun st => { st with established := st.established.map f }) (fun _ => rfl)
  · exact .refl s

theorem quiet_onE2e (K : Config) (s : BurrowRuntime) (frame : E2eFrame) (receipt : Receipt) (now : Int) :
    Quiet s (onE2e K s frame receipt now) := by
  have hreap : Quiet s (if frame.isInit then s.reap now else s) := by
    split
    · exact .of_sheds (sheds_reap s now)
    · exact .refl s
  unfold onE2e
  refine hreap.trans ?_
  simp only
  generalize (if frame.isInit then s.reap now else s) = t
  split
  · exact quiet_onPairingInit t frame now
  · exact quiet_onPairingTransport t frame receipt now
  · exact quiet_onConnectionInit t frame now
  · exact quiet_onConnectionTransport K t frame receipt now

theorem quiet_drainFrame (K : Config) (s : BurrowRuntime) (receipt : Receipt) (now : Int) :
    Quiet s (drainFrame K s receipt now) := by
  have hframes : ∀ rest, Quiet s { s with frames := rest } := fun rest =>
    .of_fields rfl rfl rfl rfl le_rfl (fun _ => rfl) (Quiet.silent s)
  unfold drainFrame
  split
  · exact (hframes _).trans (.of_sheds ((sheds_disposeClient _ _ now).trans (sheds_reap _ now)))
  · exact (hframes _).trans (quiet_onE2e K _ _ receipt now)
  · exact .refl s

/-! ## Every stretch -/

def jobOf (s : BurrowRuntime) (id : ClientId) (p : PendingPairingSession) (approval : PairingApproval) : ApprovalJob where
  clientId              := id
  pairing               := p.ref
  clientStaticPublicKey := p.clientStaticPublicKey
  expiresAt             := p.expiresAt
  approval              := approval
  revocationsAtConsent  := s.revocations.length

inductive Moves (s : BurrowRuntime) : Input → BurrowRuntime → Prop where
  | quiet {i : Input} {s' : BurrowRuntime} (h : Quiet s s') : Moves s i s'
  | paired {i : Input} {t : BurrowRuntime} (h : Quiet s t) (id : ClientId) (p : PendingPairingSession)
      (hr : p.ref = t.nextRef) (ha : p.attempted = false) : Moves s i (t.installPairing id p)
  | denied {i : Input} {s' : BurrowRuntime} (id : ClientId) (p : PendingPairingSession)
      (hp : (s.stateOf id).pairing = some p) (ha : p.attempted = false) (typed code : JsString)
      (h : Sheds (s.spendAttempt id p.ref typed code) s') : Moves s i s'
  | approved {i : Input} (id : ClientId) (p : PendingPairingSession) (hp : (s.stateOf id).pairing = some p)
      (ha : p.attempted = false) (approval : PairingApproval) :
      Moves s i { s.spendAttempt id p.ref approval.code approval.code with
        saves := s.saves ++ [.approval (s.jobOf id p approval)] }
  | started {i : Input} (job : ApprovalJob) (rest : List SaveJob) (hs : s.saving = none)
      (hq : s.saves = .approval job :: rest) : Moves s i { s with saving := some (.minting job), saves := rest }
  | startedRevocations {i : Input} (rest : List SaveJob) (hs : s.saving = none) (hq : s.saves = .revocations :: rest) :
      Moves s i { s with saving := if s.stopped then none else some .revocations, saves := rest }
  | refused {i : Input} {s' : BurrowRuntime} (job : ApprovalJob) (hs : s.saving = some (.minting job))
      (h : Sheds { s with saving := none } s') : Moves s i s'
  | snapshot {i : Input} (job : ApprovalJob) (hs : s.saving = some (.minting job)) (deliveryId : JsString) (now : Int)
      (hn : (s.revocations.drop job.revocationsAtConsent).any job.named = false) :
      Moves s i { s with
        clients := (s.modifyPairing job.clientId ({ · with committing := true })).clients
        saving  := some (.writing job (s.acl.approve (job.client deliveryId) now).1
          (s.acl.approve (job.client deliveryId) now).2 s.revocations.length) }
  | published {s' : BurrowRuntime} (job : ApprovalJob) (next : BurrowAcl) (record : BurrowAclRecord) (since : Nat)
      (hs : s.saving = some (.writing job next record since)) (now : Int)
      (h : Sheds (s.publish job next record since now) s') : Moves s (.saveSettled true now) s'
  | notSaved {i : Input} {s' : BurrowRuntime} (job : ApprovalJob) (next : BurrowAcl) (record : BurrowAclRecord)
      (since : Nat) (hs : s.saving = some (.writing job next record since))
      (h : Sheds { s with saving := none, trace := s.trace ++ [.saved job.pairing false] } s') : Moves s i s'
  | savedRevocations {i : Input} (hs : s.saving = some .revocations) : Moves s i { s with saving := none }
  | revokedNone (target : RevocationTarget) (now : Int) (hn : ∀ r, s.acl.Active r → target.names r = false) :
      Moves s (.revoke target now) { s with trace := s.trace ++ [.revoked target] }
  | revoked {s' : BurrowRuntime} (target : RevocationTarget) (now : Int)
      (h : Sheds { s with
        acl         := (revokeTarget s.acl target now).1
        revocations := s.revocations ++ [target]
        trace       := s.trace ++ [.revoked target] } s') : Moves s (.revoke target now) s'
  | queued {i : Input} : Moves s i { s with saves := s.saves ++ [.revocations] }

theorem moves_approvePairing (s : BurrowRuntime) (i : Input) (id : ClientId) (pairingId code : JsString) (now : Int) :
    Moves s i (s.approvePairing id pairingId code now) := by
  unfold approvePairing
  rw [pairingOf_eq]
  cases hp : (s.stateOf id).pairing with
  | none => exact .quiet (.refl s)
  | some pending =>
    simp only
    cases hap : pending.approval with
    | none => exact .quiet (.refl s)
    | some approval =>
      simp only
      split
      · exact .quiet (.refl s)
      · rename_i hguard
        have ha : pending.attempted = false := by
          rw [not_or, Bool.not_eq_true] at hguard
          exact hguard.2
        split
        · exact .denied id pending hp ha _ _ (sheds_disposePairing _ id)
        · split
          · exact .denied id pending hp ha _ _ (sheds_disposePairing _ id)
          · rename_i hcode
            obtain rfl : code = approval.code := not_not.1 hcode
            exact .approved id pending hp ha approval

theorem moves_startSave (s : BurrowRuntime) (i : Input) : Moves s i s.startSave := by
  unfold startSave
  split
  · rename_i hs hq
    exact .started _ _ hs hq
  · rename_i hs hq
    exact .startedRevocations _ hs hq
  · exact .quiet (.refl s)

theorem moves_minted (s : BurrowRuntime) (i : Input) (deliveryId : Option JsString) (now : Int) :
    Moves s i (s.minted deliveryId now) := by
  unfold minted
  split
  · rename_i job hs
    unfold approvalMinted
    cases deliveryId with
    | none => exact .refused job hs (.refl _)
    | some deliveryId =>
      simp only
      split
      · exact .refused job hs (.refl _)
      · split
        · exact .refused job hs (sheds_disposePairing _ _)
        · split
          · exact .refused job hs (sheds_disposePairing _ _)
          · split
            · exact .refused job hs (sheds_disposePairing _ _)
            · rename_i hnamed
              exact .snapshot job hs deliveryId now (Bool.eq_false_iff.2 hnamed)
  · exact .quiet (.refl s)

theorem sheds_approvalSaved (s : BurrowRuntime) (job : ApprovalJob) (next : BurrowAcl) (record : BurrowAclRecord)
    (since : Nat) (now : Int) :
    Sheds (s.publish job next record since now) (s.approvalSaved job next record since now) := by
  unfold approvalSaved
  simp only
  generalize s.publish job next record since now = t
  have hseed : Sheds t (if t.policy = job.approval.policy then
      { t with presenceWindows :=
          t.presenceWindows.seed job.clientStaticPublicKey record.presented job.approval.verifiedAt now } else t) := by
    split
    · exact .of_eq rfl rfl rfl rfl rfl rfl rfl rfl rfl
    · exact .refl t
  split
  · split
    · exact .refl t
    · exact (sheds_disposePairing t _).trans (sheds_reap _ now)
  · refine hseed.trans ?_
    generalize (if t.policy = job.approval.policy then
      { t with presenceWindows :=
          t.presenceWindows.seed job.clientStaticPublicKey record.presented job.approval.verifiedAt now } else t) = u
    split
    · exact .refl u
    · exact (sheds_disposePairing u _).trans (sheds_reap _ now)

theorem moves_saveSettled (s : BurrowRuntime) (ok : Bool) (now : Int) :
    Moves s (.saveSettled ok now) (s.saveSettled ok now) := by
  unfold saveSettled
  split
  · rename_i job next record since hs
    cases ok with
    | true => exact .published job next record since hs now (sheds_approvalSaved s job next record since now)
    | false =>
      refine .notSaved job next record since hs ?_
      show Sheds _ (s.approvalNotSaved job now)
      unfold approvalNotSaved
      simp only
      split
      · exact .refl _
      · exact (sheds_disposePairing _ _).trans (sheds_reap _ now)
  · rename_i hs
    exact .savedRevocations hs
  · exact .quiet (.refl s)

theorem moves_revoke (s : BurrowRuntime) (target : RevocationTarget) (now : Int) :
    Moves s (.revoke target now) (s.revoke target now) := by
  unfold revoke
  simp only
  split
  · rename_i hnone
    refine .revokedNone target now (fun r hr => ?_)
    rw [List.isEmpty_iff] at hnone
    refine Bool.eq_false_iff.2 (fun hn => ?_)
    have hmem : r ∈ (revokeTarget s.acl target now).2 := mem_revokeTarget_snd.2 ⟨hr, hn⟩
    rw [hnone] at hmem
    exact List.not_mem_nil hmem
  · refine .revoked target now (Sheds.trans ?_ (sheds_reap _ now))
    refine Sheds.trans (.foldl (sheds_endRevoked (revokeTarget s.acl target now).1 now) s.clients.keys _) ?_
    exact .of_eq rfl rfl rfl rfl rfl rfl rfl rfl rfl

theorem sheds_reserve (s : BurrowRuntime) (inviteId : JsString) (held : HeldInvitation) :
    Sheds s (s.reserve inviteId held) := by
  unfold reserve
  split
  · exact .of_eq rfl rfl rfl rfl rfl rfl rfl rfl rfl
  · exact .refl s

theorem moves_pairingShaken {s t : BurrowRuntime} (h : Quiet s t) (i : Input) (id : ClientId) (inviteId : JsString)
    (epoch : Nat) (held : HeldInvitation) (o : Outcome) (now : Int) :
    Moves s i (t.pairingShaken id inviteId epoch held o now) := by
  unfold pairingShaken
  split
  · exact .quiet h
  · split
    · exact .quiet h
    · refine .paired (h.trans (.of_sheds ?_)) id _ rfl rfl
      exact ((sheds_disposePairing t id).trans (sheds_evictOldestPairingIfFull _)).trans (sheds_reserve _ inviteId held)

theorem moves_resume (C : PresenceCrypto) (K : Config) (s : BurrowRuntime) (i : Input) (o : Outcome) (now : Int) :
    Moves s i (resume C K s o now) := by
  have hdone : Quiet s { s with handling := none } := quiet_handling s none
  unfold resume
  simp only
  split
  · exact .quiet (.refl s)
  · exact moves_pairingShaken hdone i _ _ _ _ o now
  · exact .quiet (hdone.trans (quiet_pairingProved C K _ _ _ _ _ now))
  · split
    · exact .quiet (quiet_handling s _)
    · exact .quiet hdone
  · exact .quiet (hdone.trans (quiet_connectionReadMessage C _ _ _ _ _ o now))
  · exact .quiet (hdone.trans (quiet_connectionOpened _ _ _ _ _ _ _ _ _ _ o now))
  · exact .quiet (hdone.trans (quiet_connectionProved C K _ _ _ _ _ _ now))

/-- **Every stretch is one of these.** -/
theorem step_moves (C : PresenceCrypto) (K : Config) (s : BurrowRuntime) (i : Input) : Moves s i (step C K s i) := by
  cases i with
  | frame frame chars now => exact .quiet (quiet_enqueue s frame chars now)
  | policy requireUserVerification => exact .quiet (quiet_raisePolicy s requireUserVerification)
  | drainFrame receipt now => exact .quiet (quiet_drainFrame K s receipt now)
  | resume outcome now => exact moves_resume C K s _ outcome now
  | approve clientId pairingId code now => exact moves_approvePairing s _ clientId pairingId code now
  | deny clientId pairingId now => exact .quiet (quiet_denyPairing s clientId pairingId now)
  | startSave => exact moves_startSave s _
  | minted deliveryId now => exact moves_minted s _ deliveryId now
  | saveSettled ok now => exact moves_saveSettled s ok now
  | revoke target now => exact moves_revoke s target now
  | saveRevocations => exact .queued
  | mintInvitation inviteId epoch relayExpiresAtMs now =>
    exact .quiet (quiet_mintInvitation s inviteId epoch relayExpiresAtMs now)
  | reap now => exact .quiet (.of_sheds (sheds_reap s now))
  | heard clientId session now => exact .quiet (quiet_modifySession s clientId session _)
  | wentDirect clientId session => exact .quiet (quiet_modifySession s clientId session _)
  | ended clientId session => exact .quiet (.of_sheds (sheds_disposeEstablishedOnly s clientId session))
  | teardown now => exact .quiet (.of_sheds (sheds_dropTransientState s now))
  | stop now => exact .quiet (.of_sheds (sheds_stop s now))
  | start => exact .quiet (.of_sheds (.of_eq rfl rfl rfl rfl rfl rfl rfl rfl rfl))

end BurrowRuntime
end Burrow
end Dormouse

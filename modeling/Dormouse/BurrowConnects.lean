import Dormouse.BurrowCaps
import Dormouse.BurrowPairing
/-!
# BurrowConnects — what one stretch does to the connections and the sessions

A connection request asks for its challenge, once, and is then decided: refused, or promoted.  Between the two the proof
check may be suspended, and anything but the frame chain may run.  Said once for every input (`step_connects`), beside the
request that is asked for and undecided before and after the stretch.
-/
namespace Dormouse
namespace Burrow

/-- A connection request whose challenge was asked for, with the issuer's answer. -/
structure Asked where
  clientId   : ClientId
  connection : PendingConnectionSession
  valid      : Bool

/-- **The presence of a promotion**: the window its connection was offered, or a proof bound to its handshake that
verified; and one record of the list, not revoked, holds its passkey, its Client static, its account and its hash. -/
structure Promotion.Shown (C : PresenceCrypto) (K : Config) (π : Promotion) : Prop where
  window    : ∀ offer, π.presence = .window offer → π.connection.offer = some offer
  proof     : ∀ proof policy hash, π.presence = .proof proof policy hash →
    proof.binding = .connection K.burrowId π.connection.connectionId π.connection.boundChallenge
      π.connection.handshakeHash proof.binding.passkeyCredentialId ∧
    verifyPresenceProof C proof proof.binding policy = .ok hash
  active    : π.acl.Active π.record
  presented : π.record.presented = π.presence.presented
  client    : π.record.clientStaticPublicKey = π.connection.clientStaticPublicKey

def EstablishedSession.Of (e : EstablishedSession) (π : Promotion) : Prop :=
  e.ref = π.session ∧ e.connectionId = π.connection.connectionId ∧
    e.clientStaticPublicKey = π.connection.clientStaticPublicKey ∧ e.passkeyCredentialId = π.record.passkeyCredentialId

theorem EstablishedSession.Of.same {e e' : EstablishedSession} {π : Promotion} (h : e.Of π) (hs : e.Same e') :
    e'.Of π := by
  obtain ⟨ha, hb, hc, hd⟩ := hs
  unfold EstablishedSession.Of at h ⊢
  rw [← ha, ← hb, ← hc, ← hd]
  exact h

namespace BurrowRuntime

def asking (s : BurrowRuntime) : Option Asked :=
  match s.handling with
  | some (.connectionProof clientId pending valid _ _) => some ⟨clientId, pending, valid⟩
  | _                                                  => none

inductive Decides (C : PresenceCrypto) (K : Config) (s : BurrowRuntime) (a : Asked) : BurrowRuntime → Prop where
  | refused {s' : BurrowRuntime} (h : Steady s s')
      (hgone : ∀ c, (s'.stateOf a.clientId).connection = some c → c.ref ≠ a.connection.ref) : Decides C K s a s'
  | promoted {t s' : BurrowRuntime} {π : Promotion} {e : EstablishedSession} (h : Steady s t) (hacl : t.acl = s.acl)
      (hv : a.valid = true) (hc : ∃ c, (t.stateOf a.clientId).connection = some c ∧ c.ref = a.connection.ref)
      (hπ : π.connection = a.connection) (hl : π.acl = t.acl) (hs : π.Shown C K) (he : e.Of π)
      (hp : Promotes t s' a.clientId π e) : Decides C K s a s'

/-- **What one stretch does to the connections and the sessions**, with the request asked for before and after. -/
inductive Connects (C : PresenceCrypto) (K : Config) (s : BurrowRuntime) :
    Option Asked → BurrowRuntime → Option Asked → Prop where
  | steady {a : Option Asked} {s' : BurrowRuntime} (h : Steady s s') : Connects C K s a s' a
  | paired {a : Option Asked} {t : BurrowRuntime} (h : Steady s t) (id : ClientId) (p : PendingPairingSession)
      (hroom : t.holding (·.pairing.isSome) < maxPendingPairings) : Connects C K s a (t.installPairing id p) a
  | connected {t : BurrowRuntime} (h : Steady s t) (id : ClientId) (c : PendingConnectionSession)
      (hr : c.ref = t.nextRef) (hroom : t.holding (·.connection.isSome) < maxPendingConnectionHandshakes) :
      Connects C K s none (t.installConnection id c) none
  | asked {t s' : BurrowRuntime} {id : ClientId} {c : PendingConnectionSession} {now : Int} (h : Steady s t)
      (hc : (t.stateOf id).connection = some c) (h' : Steady (t.consumeChallenge c now).1 s') :
      Connects C K s none s' (some ⟨id, c, (t.consumeChallenge c now).2⟩)
  | decided {a : Asked} {s' : BurrowRuntime} (h : Decides C K s a s') : Connects C K s (some a) s' none
  | askedDecided {t s' : BurrowRuntime} {id : ClientId} {c : PendingConnectionSession} {now : Int} (h : Steady s t)
      (hacl : t.acl = s.acl) (hc : (t.stateOf id).connection = some c)
      (h' : Decides C K (t.consumeChallenge c now).1 ⟨id, c, (t.consumeChallenge c now).2⟩ s') :
      Connects C K s none s' none

variable {C : PresenceCrypto} {K : Config}

theorem Decides.of_steady {s t s' : BurrowRuntime} {a : Asked} (hd : Decides C K t a s') (h : Steady s t)
    (hacl : t.acl = s.acl) : Decides C K s a s' := by
  cases hd with
  | refused h' hgone => exact .refused (h.trans h') hgone
  | promoted h' hacl' hv hc hπ hl hs he hp => exact .promoted (h.trans h') (hacl'.trans hacl) hv hc hπ hl hs he hp

/-! ## Every stretch is one of these -/

structure Calm (s s' : BurrowRuntime) : Prop where
  steady   : Steady s s'
  handling : s'.handling = s.handling

theorem Calm.of_sheds {s s' : BurrowRuntime} (h : Sheds s s') : Calm s s' := ⟨.of_sheds h, h.handling⟩

theorem Calm.refl (s : BurrowRuntime) : Calm s s := .of_sheds (.refl s)

theorem Calm.trans {s s' s'' : BurrowRuntime} (h : Calm s s') (h' : Calm s' s'') : Calm s s'' :=
  ⟨h.steady.trans h'.steady, h'.handling.trans h.handling⟩

variable {s s' : BurrowRuntime}

theorem Calm.connects (h : Calm s s') :
    Connects C K s s.asking s' s'.asking := by
  have hask : s'.asking = s.asking := by
    unfold asking
    rw [h.handling]
  rw [hask]
  exact .steady h.steady

theorem calm_enqueue (s : BurrowRuntime) (frame : QueuedRelayFrame) (chars : Nat) (now : Int) :
    Calm s (s.enqueue frame chars now) := by
  unfold enqueue
  split
  · exact .of_sheds (sheds_dropTransientState s now)
  · exact ⟨.of_fields rfl le_rfl rfl rfl, rfl⟩

theorem calm_raisePolicy (s : BurrowRuntime) (requireUserVerification : Bool) :
    Calm s (s.raisePolicy requireUserVerification) := by
  refine ⟨steady_raisePolicy s requireUserVerification, ?_⟩
  unfold raisePolicy
  split
  · rfl
  · rfl

variable {s : BurrowRuntime} {id : ClientId}

theorem isSome_of_ref {ref : Ref} (h : ¬ (s.pairingOf id).map (·.ref) ≠ some ref) : (s.stateOf id).pairing.isSome = true := by
  rw [ne_eq, not_not, pairingOf_eq] at h
  obtain ⟨p, hp, -⟩ := Option.map_eq_some_iff.1 h
  rw [hp]
  rfl

theorem calm_spendAttempt (h : (s.stateOf id).pairing.isSome = true) (ref : Ref) (typed code : JsString) :
    Calm s (s.spendAttempt id ref typed code) := by
  refine ⟨(steady_modifyPairing h ({ · with attempted := true })).trans ?_, rfl⟩
  refine .of_clients rfl le_rfl (fun _ _ _ ha => ha) [.attempted ref typed code] rfl (fun e he => ?_)
  rw [List.mem_singleton.1 he]
  rfl

theorem calm_approvePairing (s : BurrowRuntime) (id : ClientId) (pairingId code : JsString) (now : Int) :
    Calm s (s.approvePairing id pairingId code now) := by
  unfold approvePairing
  rw [pairingOf_eq]
  cases hp : (s.stateOf id).pairing with
  | none => exact .refl s
  | some pending =>
    simp only
    cases pending.approval with
    | none => exact .refl s
    | some approval =>
      simp only
      split
      · exact .refl s
      · have hspent : Calm s (s.spendAttempt id pending.ref code approval.code) :=
          calm_spendAttempt (by rw [hp]; rfl) pending.ref code approval.code
        split
        · exact hspent.trans (.of_sheds (sheds_disposePairing _ id))
        · split
          · exact hspent.trans (.of_sheds (sheds_disposePairing _ id))
          · exact hspent.trans ⟨.of_fields rfl le_rfl rfl rfl, rfl⟩

theorem calm_denyPairing (s : BurrowRuntime) (id : ClientId) (pairingId : JsString) (now : Int) :
    Calm s (s.denyPairing id pairingId now) := by
  unfold denyPairing
  split
  · exact .refl s
  · split
    · exact .refl s
    · exact .of_sheds ((sheds_disposePairing s id).trans (sheds_reap _ now))

theorem calm_startSave (s : BurrowRuntime) : Calm s s.startSave := by
  unfold startSave
  split
  · exact ⟨.of_fields rfl le_rfl rfl rfl, rfl⟩
  · exact ⟨.of_fields rfl le_rfl rfl rfl, rfl⟩
  · exact .refl s

theorem calm_minted (s : BurrowRuntime) (deliveryId : Option JsString) (now : Int) : Calm s (s.minted deliveryId now) := by
  have hnone : Calm s { s with saving := none } := ⟨.of_fields rfl le_rfl rfl rfl, rfl⟩
  have hfinish : ∀ id, Calm s (finishPairing { s with saving := none } id) := fun id =>
    hnone.trans (.of_sheds (sheds_disposePairing _ id))
  unfold minted
  split
  · unfold approvalMinted
    cases deliveryId with
    | none => exact hnone
    | some deliveryId =>
      simp only
      split
      · exact hnone
      · rename_i hpend
        split
        · exact hfinish _
        · split
          · exact hfinish _
          · split
            · exact hfinish _
            · refine ⟨Steady.trans (steady_modifyPairing (s := s) (isSome_of_ref hpend) ({ · with committing := true })) ?_,
                rfl⟩
              exact .of_fields rfl le_rfl rfl rfl
  · exact .refl s

variable {record : BurrowAclRecord}

theorem calm_publish {job : ApprovalJob} {next : BurrowAcl} {since : Nat} (h : s.Snapshot job next record since) (now : Int) :
    Calm s (s.publish job next record since now) := by
  refine ⟨.of_clients rfl le_rfl (fun _ _ _ ha => ?_) _ rfl (fun e he => ?_), rfl⟩
  · obtain ⟨r, hr, hpass, hclient⟩ := ha
    obtain ⟨r', hr', hpass', hclient'⟩ := authorized_publish h now hr
    exact ⟨r', hr', hpass'.trans hpass, hclient'.trans hclient⟩
  · simp only [List.mem_cons, List.not_mem_nil, or_false] at he
    rcases he with rfl | rfl
    · rfl
    · rfl

theorem calm_saveSettled (h : Snapshots s) (ok : Bool) (now : Int) : Calm s (s.saveSettled ok now) := by
  unfold saveSettled
  split
  · rename_i job next record since hs
    cases ok with
    | true => exact (calm_publish (h job next record since hs) now).trans (.of_sheds (sheds_approvalSaved s _ _ _ _ now))
    | false =>
      have hnone : Calm s { s with saving := none, trace := s.trace ++ [.saved job.pairing false] } := by
        refine ⟨.of_clients rfl le_rfl (fun _ _ _ ha => ha) _ rfl (fun e he => ?_), rfl⟩
        rw [List.mem_singleton.1 he]
        rfl
      simp only [Bool.false_eq_true, if_false]
      unfold approvalNotSaved
      simp only
      split
      · exact hnone
      · exact hnone.trans (.of_sheds ((sheds_disposePairing _ _).trans (sheds_reap _ now)))
  · exact ⟨.of_fields rfl le_rfl rfl rfl, rfl⟩
  · exact .refl s

/-! ### Revocation -/

theorem findActive_iff {acl : BurrowAcl} {e : EstablishedSession} :
    (acl.findActive e.passkeyCredentialId e.clientStaticPublicKey).isSome = true ↔ e.AuthorizedBy acl := by
  unfold BurrowAcl.findActive EstablishedSession.AuthorizedBy BurrowAcl.Active
  rw [List.find?_isSome]
  constructor
  · rintro ⟨r, hmem, hr⟩
    obtain ⟨hrev, hpass, hclient⟩ := BurrowAclRecord.pairs_iff.1 hr
    exact ⟨r, ⟨hmem, hrev⟩, hpass, hclient⟩
  · rintro ⟨r, ⟨hmem, hrev⟩, hpass, hclient⟩
    exact ⟨r, hmem, BurrowAclRecord.pairs_iff.2 ⟨hrev, hpass, hclient⟩⟩

theorem authorizedBy_endRevoked (next : BurrowAcl) (now : Int) (s : BurrowRuntime) {e : EstablishedSession}
    (h : ((endRevoked next now s id).stateOf id).established = some e) : e.AuthorizedBy next := by
  have hmid := (sheds_endRevokedConnection next now (endRevokedSession next s id) id).established_some h
  unfold endRevokedSession at hmid
  rw [establishedOf_eq] at hmid
  cases hold : (s.stateOf id).established with
  | none =>
    rw [hold] at hmid
    simp only [hold] at hmid
    cases hmid
  | some session =>
    rw [hold] at hmid
    simp only at hmid
    split at hmid
    · rw [stateOf_disposeEstablished, if_pos rfl] at hmid
      cases hmid
    · rename_i hfound
      rw [hold] at hmid
      obtain rfl := Option.some.inj hmid
      rw [Bool.not_eq_true, Option.isNone_eq_false_iff] at hfound
      exact findActive_iff.1 hfound

theorem authorizedBy_foldl_endRevoked (next : BurrowAcl) (now : Int) :
    ∀ (ids : List ClientId) (s : BurrowRuntime) (id : ClientId) (e : EstablishedSession), id ∈ ids →
      ((ids.foldl (endRevoked next now) s).stateOf id).established = some e → e.AuthorizedBy next
  | [], _, _, _, hmem, _ => absurd hmem List.not_mem_nil
  | i :: ids, s, id, e, hmem, h => by
    rcases List.mem_cons.1 hmem with rfl | hmem
    · exact authorizedBy_endRevoked next now s
        ((Sheds.foldl (sheds_endRevoked next now) ids (endRevoked next now s id)).established_some h)
    · exact authorizedBy_foldl_endRevoked next now ids (endRevoked next now s i) id e hmem h

/-- **A revocation leaves only sessions the list still stands behind.** -/
theorem calm_revoke (s : BurrowRuntime) (target : RevocationTarget) (now : Int) : Calm s (s.revoke target now) := by
  unfold revoke
  simp only
  split
  · refine ⟨.of_clients rfl le_rfl (fun _ _ _ ha => ha) [.revoked target] rfl (fun e he => ?_), rfl⟩
    rw [List.mem_singleton.1 he]
    rfl
  · generalize hnext : (revokeTarget s.acl target now).1 = next
    generalize (revokeTarget s.acl target now).2 = hit
    have hfold := Sheds.foldl (sheds_endRevoked next now) s.clients.keys
      { s with acl := next, revocations := s.revocations ++ [target], trace := s.trace ++ [.revoked target] }
    have hends := fun id e => authorizedBy_foldl_endRevoked next now s.clients.keys
      { s with acl := next, revocations := s.revocations ++ [target], trace := s.trace ++ [.revoked target] } id e
    generalize s.clients.keys.foldl (endRevoked next now)
      { s with acl := next, revocations := s.revocations ++ [target], trace := s.trace ++ [.revoked target] } = u
      at hfold hends ⊢
    have hlater : Sheds u (reap { u with
        presenceWindows := hit.foldl (fun w r => w.forget r.clientStaticPublicKey) u.presenceWindows } now) := by
      refine Sheds.trans ?_ (sheds_reap _ now)
      exact .of_eq rfl rfl rfl rfl rfl rfl rfl rfl rfl
    have hsheds := hfold.trans hlater
    have hsteady := Steady.of_sheds hsheds
    refine ⟨{ filled := hsteady.filled, nextRef := hsteady.nextRef, pairing := hsteady.pairing
              connection := hsteady.connection, established := hsteady.established
              authorized := fun id e he _ => ?_, trace := ?_ }, hsheds.handling⟩
    · rw [hsheds.acl]
      have hold : (s.stateOf id).established = some e := hsheds.established_some he
      refine hends id e ?_ (hlater.established_some he)
      exact mem_keys_of_stateOf (p := (·.established.isSome)) rfl (by simp only [hold, Option.isSome_some])
    · obtain ⟨l, hl, hp, hc⟩ := hsteady.trace
      refine ⟨.revoked target :: l, by rw [hl, List.append_assoc]; rfl, fun π hπ => ?_, fun e he ref href => ?_⟩
      · rcases List.mem_cons.1 hπ with heq | hπ
        · cases heq
        · exact hp π hπ
      · rcases List.mem_cons.1 he with rfl | he
        · cases href
        · exact hc e he ref href

theorem calm_mintInvitation (s : BurrowRuntime) (inviteId : JsString) (epoch : Nat) (relayExpiresAtMs now : Int) :
    Calm s (s.mintInvitation inviteId epoch relayExpiresAtMs now) := by
  unfold mintInvitation
  split
  · exact .refl s
  · have hreap : Calm s (((s.reap now).invitations.keys.take ((s.reap now).invitations.size + 1 - maxTokensPerBurrow)
        ).foldl retireInvitation (s.reap now)) :=
      .of_sheds ((sheds_reap s now).trans (.foldl sheds_retireInvitation _ _))
    simp only
    split
    · exact hreap.trans ⟨.of_fields rfl (Nat.le_succ _) rfl rfl, rfl⟩
    · exact hreap

theorem calm_modifySession (s : BurrowRuntime) (id : ClientId) (session : Ref)
    {f : EstablishedSession → EstablishedSession} (hf : ∀ e : EstablishedSession, e.Same (f e)) :
    Calm s (s.modifySession id session f) := by
  refine ⟨steady_modifySession s id session hf, ?_⟩
  unfold modifySession
  split
  · rfl
  · rfl

/-! ### The connection request -/

theorem decides_denied (C : PresenceCrypto) (K : Config) (s : BurrowRuntime) (a : Asked) (now : Int) :
    Decides C K s a (s.denyConnection a.clientId now) := by
  refine .refused (.of_sheds (sheds_disposeConnection s a.clientId now)) (fun c hc => ?_)
  rw [denyConnection, stateOf_disposeConnection, if_pos rfl] at hc
  cases hc

variable {s t : BurrowRuntime}

/-- The promotion of a request whose challenge was held: refused at the cap, and without a remote api nothing comes. -/
theorem decides_promoteConnection {a : Asked} {presence : Presence} (h : Steady s t) (hacl : t.acl = s.acl)
    (hv : a.valid = true) (hc : ∃ c, (t.stateOf a.clientId).connection = some c ∧ c.ref = a.connection.ref)
    (hs : Promotion.Shown C K ⟨t.nextRef, a.connection, presence, record, t.acl⟩) (now : Int) :
    Decides C K s a (promoteConnection K t a.clientId a.connection record presence now) := by
  unfold promoteConnection
  simp only
  split
  · refine .refused (h.trans (.of_sheds (sheds_disposeConnection t a.clientId now))) (fun c hcon => ?_)
    rw [denyConnection, stateOf_disposeConnection, if_pos rfl] at hcon
    cases hcon
  · rename_i hbusy
    show Decides C K s a (establish K (t.cleared a.clientId _) a.clientId _ now)
    cases hK : K.hasSession with
    | true => exact .promoted h hacl hv hc rfl rfl hs ⟨rfl, rfl, rfl, rfl⟩ (promotes_establish hK hbusy)
    | false =>
      unfold establish
      rw [hK]
      refine .refused (h.trans (steady_cleared t a.clientId _)) (fun c hcon => ?_)
      simp only [Bool.not_false, if_true] at hcon
      rw [stateOf_pruneClient, stateOf_cleared, if_pos rfl] at hcon
      cases hcon

theorem aclRecord_some {c : JsString} {presented : PresenceWindowRecord} (h : s.aclRecord c presented = some record) :
    s.acl.Active record ∧ record.presented = presented ∧ record.clientStaticPublicKey = c := by
  unfold aclRecord at h
  split at h
  · cases h
  · rename_i found hfound
    have hfind := BurrowAcl.authorize_found_iff.1 hfound
    unfold BurrowAcl.findActive at hfind
    have hpairs := List.find?_some (p := fun x : BurrowAclRecord => x.pairs presented.passkeyCredentialId c) hfind
    obtain ⟨hrev, hpass, hclient⟩ := BurrowAclRecord.pairs_iff.1 hpairs
    split at h
    · cases h
    · rename_i hacc
      split at h
      · cases h
      · rename_i hhash
        obtain rfl := Option.some.inj h
        refine ⟨⟨List.mem_of_find?_eq_some hfind, hrev⟩, ?_, hclient⟩
        unfold BurrowAclRecord.presented
        rw [not_not.1 hacc, not_not.1 hhash, hpass]

theorem decides_authorizeConnection {a : Asked} {presence : Presence} (hv : a.valid = true)
    (hc : ∃ c, (s.stateOf a.clientId).connection = some c ∧ c.ref = a.connection.ref)
    (hw : ∀ offer, presence = .window offer → a.connection.offer = some offer)
    (hp : ∀ proof policy hash, presence = .proof proof policy hash → verifyPresenceProof C proof (.connection K.burrowId a.connection.connectionId a.connection.boundChallenge a.connection.handshakeHash proof.binding.passkeyCredentialId) policy = .ok hash)
    (now : Int) :
    Decides C K s a (authorizeConnection K s a.clientId a.connection presence now) := by
  unfold authorizeConnection
  cases hrec : s.aclRecord a.connection.clientStaticPublicKey presence.presented with
  | none => exact decides_denied C K s a now
  | some record =>
    obtain ⟨hactive, hpres, hclient⟩ := aclRecord_some hrec
    have hshown : ∀ ref, Promotion.Shown C K ⟨ref, a.connection, presence, record, s.acl⟩ := fun ref =>
      { window := hw, active := hactive, presented := hpres, client := hclient
        proof := fun proof policy hash heq => by
          have hverified := hp proof policy hash heq
          have hbound := verifyPresenceProof_bound hverified
          exact ⟨hbound, by rw [← hbound] at hverified; exact hverified⟩ }
    simp only
    cases presence with
    | window offer => exact decides_promoteConnection (.refl s) rfl hv hc (hshown _) now
    | proof p q r =>
      simp only
      generalize s.presenceWindows.seed a.connection.clientStaticPublicKey record.presented now now = windows
      have hseed : Steady s { s with presenceWindows := windows } := .of_fields rfl le_rfl rfl rfl
      exact decides_promoteConnection hseed rfl hv hc (hshown _) now

theorem handling_authorizeConnection (K : Config) (s : BurrowRuntime) (id : ClientId) (pending : PendingConnectionSession)
    (presence : Presence) (now : Int) : (authorizeConnection K s id pending presence now).handling = s.handling := by
  have hpromote : ∀ (t : BurrowRuntime) (record : BurrowAclRecord),
      (promoteConnection K t id pending record presence now).handling = t.handling := by
    intro t record
    unfold promoteConnection
    simp only
    split
    · exact (sheds_disposeConnection t id now).handling
    · obtain ⟨-, -, -, hh⟩ := cleared_fields t id (t.establishedFor pending.clientStaticPublicKey (some id)).1
      unfold establish
      split
      · rw [pruneClient_fields]
        exact hh
      · exact hh
  unfold authorizeConnection
  split
  · exact (sheds_disposeConnection s id now).handling
  · simp only
    rw [hpromote]
    cases presence with
    | window _ => rfl
    | proof _ _ _ => rfl

theorem connects_onConnectionRequest (C : PresenceCrypto) (K : Config) (h : Steady s t) (hacl : t.acl = s.acl)
    (hh : t.handling = none) {pending : PendingConnectionSession} (hc : (t.stateOf id).connection = some pending)
    (presence : ConnectionPresence) (now : Int) :
    Connects C K s none (onConnectionRequest K t id pending presence now)
      (onConnectionRequest K t id pending presence now).asking := by
  cases presence with
  | proof p => exact .asked h hc (.of_fields rfl le_rfl rfl rfl)
  | window =>
    have hconsumed : (t.consumeChallenge pending now).1.handling = none := hh
    have hpend : ((t.consumeChallenge pending now).1.stateOf id).connection = some pending := hc
    have hnone : ∀ u : BurrowRuntime, u.handling = none → Decides C K (t.consumeChallenge pending now).1
        ⟨id, pending, (t.consumeChallenge pending now).2⟩ u → Connects C K s none u u.asking := by
      intro u hu hd
      rw [asking, hu]
      exact .askedDecided h hacl hc hd
    unfold onConnectionRequest
    simp only
    generalize hv : (t.consumeChallenge pending now).2 = valid at hnone ⊢
    generalize (t.consumeChallenge pending now).1 = u at hconsumed hpend hnone ⊢
    have hdeny : Connects C K s none (u.denyConnection id now) (u.denyConnection id now).asking :=
      hnone _ ((sheds_disposeConnection u id now).handling.trans hconsumed) (decides_denied C K u ⟨id, pending, valid⟩ now)
    cases valid with
    | false => exact hdeny
    | true =>
      simp only [Bool.not_true, Bool.false_eq_true, if_false]
      cases hoffer : pending.offer with
      | none => exact hdeny
      | some offer =>
        refine hnone _ ((handling_authorizeConnection K u id pending _ now).trans hconsumed) ?_
        refine decides_authorizeConnection (a := ⟨id, pending, true⟩) rfl ⟨pending, hpend, rfl⟩ (fun offer' heq => ?_)
          (fun _ _ _ heq => Presence.noConfusion heq) now
        obtain rfl := Presence.window.inj heq
        exact hoffer

/-! ### The frame in hand -/

theorem connects_unasked (h : Steady s s') (hh : s'.asking = none) : Connects C K s none s' s'.asking := by
  rw [hh]
  exact .steady h

theorem asking_none (h : s.handling = none) : s.asking = none := by
  rw [asking, h]

theorem connects_unhandled (hh : s'.handling = none) (h : Connects C K s none s' none) :
    Connects C K s none s' s'.asking := by
  rw [asking_none hh]
  exact h

theorem connects_onConnectionTransport (C : PresenceCrypto) (K : Config) (h : Steady s t) (hacl : t.acl = s.acl)
    (hh : t.handling = none) (frame : E2eFrame) (receipt : Receipt) (now : Int) :
    Connects C K s none (onConnectionTransport K t frame receipt now)
      (onConnectionTransport K t frame receipt now).asking := by
  have hstay : Connects C K s none t t.asking := connects_unasked h (asking_none hh)
  have hsheds := sheds_disposeConnection t frame.clientId now
  have hdrop : Connects C K s none (t.disposeConnection frame.clientId now)
      (t.disposeConnection frame.clientId now).asking :=
    connects_unasked (h.trans (.of_sheds hsheds)) (asking_none (hsheds.handling.trans hh))
  unfold onConnectionTransport
  split
  · exact hstay
  · rw [connectionOf_eq]
    cases hc : (t.stateOf frame.clientId).connection with
    | none => exact hstay
    | some pending =>
      simp only
      split
      · exact hstay
      · cases receipt with
        | failed => exact hdrop
        | keepalive => exact hstay
        | app => exact hdrop
        | control value =>
          simp only
          cases asConnectionRequestV1 value with
          | none => exact hdrop
          | some presence => exact connects_onConnectionRequest C K h hacl hh hc presence now

theorem connects_pairing (h : Steady s t) (hh : t.handling = none) (frame : E2eFrame) (receipt : Receipt) (now : Int) :
    Connects C K s none (t.onPairingTransport frame receipt now) (t.onPairingTransport frame receipt now).asking := by
  have hstay : Connects C K s none t t.asking := connects_unasked h (asking_none hh)
  have hsheds := sheds_disposePairing t frame.clientId
  have hdrop : Connects C K s none (t.disposePairing frame.clientId) (t.disposePairing frame.clientId).asking :=
    connects_unasked (h.trans (.of_sheds hsheds)) (asking_none (hsheds.handling.trans hh))
  unfold onPairingTransport
  split
  · exact hstay
  · split
    · exact hstay
    · split
      · exact hdrop
      · cases receipt with
        | failed => exact hdrop
        | keepalive => exact hstay
        | app =>
          simp only
          split
          · exact hstay
          · exact hdrop
        | control v =>
          simp only
          split
          · exact hstay
          · split
            · exact hdrop
            · exact connects_unasked (h.trans (.of_fields rfl le_rfl rfl rfl)) rfl

theorem connects_onE2e (C : PresenceCrypto) (K : Config) (h : Steady s t) (hacl : t.acl = s.acl) (hh : t.handling = none)
    (frame : E2eFrame) (receipt : Receipt) (now : Int) :
    Connects C K s none (onE2e K t frame receipt now) (onE2e K t frame receipt now).asking := by
  have hreap : Sheds t (if frame.isInit then t.reap now else t) := by
    split
    · exact sheds_reap t now
    · exact .refl t
  unfold onE2e
  simp only
  generalize (if frame.isInit then t.reap now else t) = u at hreap ⊢
  have hu : Steady s u := h.trans (.of_sheds hreap)
  have huh : u.handling = none := hreap.handling.trans hh
  split
  · unfold onPairingInit
    split
    · exact connects_unasked hu (asking_none huh)
    · split
      · exact connects_unasked hu (asking_none huh)
      · simp only
        split
        · exact connects_unasked (hu.trans (.of_fields rfl le_rfl rfl rfl)) (asking_none huh)
        · exact connects_unasked (hu.trans (.of_fields rfl le_rfl rfl rfl)) rfl
  · exact connects_pairing hu huh frame receipt now
  · unfold onConnectionInit
    simp only
    split
    · exact connects_unasked (hu.trans (.of_fields rfl le_rfl rfl rfl)) (asking_none huh)
    · exact connects_unasked (hu.trans (.of_fields rfl le_rfl rfl rfl)) rfl
  · exact connects_onConnectionTransport C K hu (hreap.acl.trans hacl) huh frame receipt now

theorem connects_drainFrame (C : PresenceCrypto) (K : Config) (s : BurrowRuntime) (receipt : Receipt) (now : Int) :
    Connects C K s s.asking (drainFrame K s receipt now) (drainFrame K s receipt now).asking := by
  have hframes : ∀ rest, Steady s { s with frames := rest } := fun rest => .of_fields rfl le_rfl rfl rfl
  unfold drainFrame
  split
  · rename_i id _ rest hh _
    rw [asking_none hh]
    have hsheds := (sheds_disposeClient { s with frames := rest } id now).trans (sheds_reap _ now)
    exact connects_unasked ((hframes rest).trans (.of_sheds hsheds)) (asking_none (hsheds.handling.trans hh))
  · rename_i frame _ rest hh _
    rw [asking_none hh]
    exact connects_onE2e C K (hframes rest) rfl hh frame receipt now
  · exact (Calm.refl s).connects

theorem connects_pairingShaken (C : PresenceCrypto) (K : Config) (h : Steady s t) (hh : t.handling = none) (id : ClientId)
    (inviteId : JsString) (epoch : Nat) (held : HeldInvitation) (o : Outcome) (now : Int) :
    Connects C K s none (t.pairingShaken id inviteId epoch held o now)
      (t.pairingShaken id inviteId epoch held o now).asking := by
  have hstay : Connects C K s none t t.asking := connects_unasked h (asking_none hh)
  unfold pairingShaken
  split
  · exact hstay
  · split
    · exact hstay
    · simp only
      have hroom := holding_evictOldestPairing (t.finishPairing id)
      have hsheds : Sheds t (t.finishPairing id).evictOldestPairingIfFull :=
        (sheds_disposePairing t id).trans (sheds_evictOldestPairingIfFull _)
      generalize (t.finishPairing id).evictOldestPairingIfFull = u at hroom hsheds ⊢
      have hreserve := sheds_reserve u inviteId held
      have hclients : (u.reserve inviteId held).clients = u.clients := by
        unfold reserve
        split
        · rfl
        · rfl
      have hroom' : (u.reserve inviteId held).holding (·.pairing.isSome) < maxPendingPairings := by
        rw [holding, hclients]
        exact hroom
      generalize u.reserve inviteId held = v at hreserve hroom' ⊢
      have hv := hsheds.trans hreserve
      exact connects_unhandled (hv.handling.trans hh) (.paired (h.trans (.of_sheds hv)) id _ hroom')

theorem connects_pairingProved (C : PresenceCrypto) (K : Config) (h : Steady s t) (hh : t.handling = none) (id : ClientId)
    (pending : PendingPairingSession) (request : PairingRequestV1) (policy : ConnectionPolicy) (now : Int) :
    Connects C K s none (pairingProved C K t id pending request policy now)
      (pairingProved C K t id pending request policy now).asking := by
  have hsheds := sheds_disposePairing t id
  have hdrop : Connects C K s none (t.finishPairing id) (t.finishPairing id).asking :=
    connects_unasked (h.trans (.of_sheds hsheds)) (asking_none (hsheds.handling.trans hh))
  unfold pairingProved
  split
  · exact connects_unasked h (asking_none hh)
  · rename_i hpend
    simp only
    split
    · exact hdrop
    · split
      · exact hdrop
      · exact connects_unasked (h.trans (steady_modifyPairing (isSome_of_ref hpend) _)) (asking_none hh)

theorem connects_connectionOpened (C : PresenceCrypto) (K : Config) (h : Steady s t) (hh : t.handling = none)
    (id : ClientId) (connectionId : JsString) (epoch : Nat) (policy : ConnectionPolicy) (k ch b : JsString)
    (expiresAt : Int) (offer : Option PresenceWindowEntry) (o : Outcome) (now : Int) :
    Connects C K s none (t.connectionOpened id connectionId epoch policy k ch b expiresAt offer o now)
      (t.connectionOpened id connectionId epoch policy k ch b expiresAt offer o now).asking := by
  have hstay : Connects C K s none t t.asking := connects_unasked h (asking_none hh)
  unfold connectionOpened
  split
  · exact hstay
  · split
    · exact hstay
    · simp only
      have hroom := holding_evictOldestConnection (t.disposeConnection id now) now
      have hsheds : Sheds t ((t.disposeConnection id now).evictOldestConnectionIfFull now) :=
        (sheds_disposeConnection t id now).trans (sheds_evictOldestConnectionIfFull _ now)
      generalize (t.disposeConnection id now).evictOldestConnectionIfFull now = u at hroom hsheds ⊢
      exact connects_unhandled (hsheds.handling.trans hh) (.connected (h.trans (.of_sheds hsheds)) id _ rfl hroom)

/-- The proof check is over: the connection may be gone, the challenge was not held, the proof failed or was made under a
weaker demand, or the list decides. -/
theorem decides_connectionProved (C : PresenceCrypto) (K : Config) (s : BurrowRuntime) (a : Asked)
    (proof : PresenceProofV1) (policy : ConnectionPolicy) (now : Int) :
    Decides C K s a (connectionProved C K s a.clientId a.connection a.valid proof policy now) := by
  unfold connectionProved
  split
  · rename_i hgone
    refine .refused (.refl s) (fun c hc heq => hgone ?_)
    rw [connectionOf_eq, hc, Option.map_some, heq]
  · rename_i hpend
    rw [not_not, connectionOf_eq] at hpend
    split
    · exact decides_denied C K s a now
    · rename_i hv
      split
      · exact decides_denied C K s a now
      · rename_i hash hverified
        split
        · exact decides_denied C K s a now
        · refine decides_authorizeConnection (by simpa using hv) (Option.map_eq_some_iff.1 hpend)
            (fun _ heq => Presence.noConfusion heq) (fun p q r heq => ?_) now
          obtain ⟨rfl, rfl, rfl⟩ := Presence.proof.inj heq
          exact hverified

theorem handling_connectionProved (C : PresenceCrypto) (K : Config) (s : BurrowRuntime) (id : ClientId)
    (pending : PendingConnectionSession) (valid : Bool) (proof : PresenceProofV1) (policy : ConnectionPolicy) (now : Int) :
    (connectionProved C K s id pending valid proof policy now).handling = s.handling := by
  have hdeny := (sheds_disposeConnection s id now).handling
  unfold connectionProved
  split
  · rfl
  · split
    · exact hdeny
    · split
      · exact hdeny
      · split
        · exact hdeny
        · exact handling_authorizeConnection K s id pending _ now

theorem connects_resume (C : PresenceCrypto) (K : Config) (s : BurrowRuntime) (o : Outcome) (now : Int) :
    Connects C K s s.asking (resume C K s o now) (resume C K s o now).asking := by
  have hdone : Steady s { s with handling := none } := .of_fields rfl le_rfl rfl rfl
  unfold resume
  simp only
  cases hh : s.handling with
  | none => exact (Calm.refl s).connects
  | some handling =>
    cases handling with
    | pairingHandshake clientId inviteId epoch held =>
      rw [asking, hh]
      exact connects_pairingShaken C K hdone rfl _ _ _ _ o now
    | pairingProof clientId pending request policy =>
      rw [asking, hh]
      exact connects_pairingProved C K hdone rfl _ _ _ _ now
    | noiseStatic clientId connectionId epoch =>
      rw [asking, hh]
      simp only
      split
      · exact connects_unasked (.of_fields rfl le_rfl rfl rfl) rfl
      · exact connects_unasked hdone rfl
    | connectionRead clientId connectionId epoch policy =>
      rw [asking, hh]
      simp only [connectionReadMessage]
      split
      · exact connects_unasked hdone rfl
      · exact connects_unasked (.of_fields rfl le_rfl rfl rfl) rfl
    | connectionWrite clientId connectionId epoch policy k ch b expiresAt offer =>
      rw [asking, hh]
      exact connects_connectionOpened C K hdone rfl _ _ _ _ _ _ _ _ _ o now
    | connectionProof clientId pending valid proof policy =>
      have hend := handling_connectionProved C K { s with handling := none } clientId pending valid proof policy now
      have hdecides := decides_connectionProved C K { s with handling := none } ⟨clientId, pending, valid⟩ proof policy now
      simp only at hdecides ⊢
      rw [asking_none hend, asking, hh]
      exact .decided (hdecides.of_steady hdone rfl)

/-- **Every stretch does one of these.** -/
theorem step_connects (C : PresenceCrypto) (K : Config) (hsnap : Snapshots s) (i : Input) :
    Connects C K s s.asking (step C K s i) (step C K s i).asking := by
  cases i with
  | frame frame chars now => exact (calm_enqueue s frame chars now).connects
  | policy requireUserVerification => exact (calm_raisePolicy s requireUserVerification).connects
  | drainFrame receipt now => exact connects_drainFrame C K s receipt now
  | resume outcome now => exact connects_resume C K s outcome now
  | approve clientId pairingId code now => exact (calm_approvePairing s clientId pairingId code now).connects
  | deny clientId pairingId now => exact (calm_denyPairing s clientId pairingId now).connects
  | startSave => exact (calm_startSave s).connects
  | minted deliveryId now => exact (calm_minted s deliveryId now).connects
  | saveSettled ok now => exact (calm_saveSettled hsnap ok now).connects
  | revoke target now => exact (calm_revoke s target now).connects
  | saveRevocations => exact Calm.connects ⟨.of_fields rfl le_rfl rfl rfl, rfl⟩
  | mintInvitation inviteId epoch relayExpiresAtMs now =>
    exact (calm_mintInvitation s inviteId epoch relayExpiresAtMs now).connects
  | reap now => exact (Calm.of_sheds (sheds_reap s now)).connects
  | heard clientId session now =>
    exact (calm_modifySession s clientId session (f := ({ · with lastClientActivityAt := now }))
      (fun _ => ⟨rfl, rfl, rfl, rfl⟩)).connects
  | wentDirect clientId session =>
    exact (calm_modifySession s clientId session (f := ({ · with directDeadlineAt := none }))
      (fun _ => ⟨rfl, rfl, rfl, rfl⟩)).connects
  | ended clientId session => exact (Calm.of_sheds (sheds_disposeEstablishedOnly s clientId session)).connects
  | teardown now => exact (Calm.of_sheds (sheds_dropTransientState s now)).connects
  | stop now => exact (Calm.of_sheds (sheds_stop s now)).connects
  | start => exact Calm.connects ⟨.of_fields rfl le_rfl rfl rfl, rfl⟩

end BurrowRuntime
end Burrow
end Dormouse

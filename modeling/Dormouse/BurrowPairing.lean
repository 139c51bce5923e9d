import Dormouse.BurrowMoves
/-!
# BurrowPairing — approvals against revocations

An approval works from a snapshot of the list of Clients, taken before its write and published after it, while a
revocation changes the live list at once.  What a revocation must leave behind for an approval under way is its target on
the runtime's list of revocations, and `revoke` leaves it there only if some record was active.  So a revocation that
finds nothing to revoke is lost on an approval whose digits are entered and whose record is not yet published, and the
results are for the runs without one (`RevocationSeen`).

Each active record is traced to where it comes from (`Standing`): it was there from the start, or an attempt that matched
the digits was followed by the save and the publication, and by no revocation that names it.
-/
namespace Dormouse
namespace Burrow

def Event.attemptOn (pairing : Ref) : Event → Bool
  | .attempted p _ _ => p == pairing
  | _                => false

/-- The approval of the write whose turn it is, with how many revocations it has taken into account. -/
def Saving.inFlight : Saving → List (ApprovalJob × Nat)
  | .minting job           => [(job, job.revocationsAtConsent)]
  | .writing job _ _ since => [(job, since)]
  | .revocations           => []

def SaveJob.inFlight : SaveJob → List (ApprovalJob × Nat)
  | .approval job => [(job, job.revocationsAtConsent)]
  | .revocations  => []

namespace BurrowRuntime

/-! ## One attempt a pairing -/

/-- **A pairing's attempt is spent at most once**: one that is unspent has none on record, and the references of the
pairings are their own. -/
structure Spent (s : BurrowRuntime) : Prop where
  fresh    : ∀ id p, (s.stateOf id).pairing = some p → p.ref < s.nextRef
  distinct : ∀ id id' p p', (s.stateOf id).pairing = some p → (s.stateOf id').pairing = some p' → p.ref = p'.ref → id = id'
  known    : ∀ ref typed code, .attempted ref typed code ∈ s.trace → ref < s.nextRef
  unspent  : ∀ id p, (s.stateOf id).pairing = some p → p.attempted = false →
    ∀ typed code, .attempted p.ref typed code ∉ s.trace
  once     : ∀ ref, (s.trace.filter (Event.attemptOn ref)).length ≤ 1

structure Mild (s s' : BurrowRuntime) : Prop where
  nextRef : s.nextRef ≤ s'.nextRef
  pairing : ∀ id p', (s'.stateOf id).pairing = some p' →
    ∃ p, (s.stateOf id).pairing = some p ∧ p.ref = p'.ref ∧ p.attempted = p'.attempted
  trace   : ∃ l, s'.trace = s.trace ++ l ∧ ∀ e ∈ l, ∀ ref, e.attemptOn ref = false

variable {s s' : BurrowRuntime}

theorem Quiet.mild (h : Quiet s s') : Mild s s' where
  nextRef := h.nextRef
  pairing := h.pairing
  trace := by
    obtain ⟨l, hl, hc⟩ := h.trace
    refine ⟨l, hl, fun e he ref => ?_⟩
    cases e with
    | attempted p typed code => cases hc _ he
    | _ => rfl

theorem Mild.trans {s s' s'' : BurrowRuntime} (h : Mild s s') (h' : Mild s' s'') : Mild s s'' where
  nextRef := h.nextRef.trans h'.nextRef
  pairing id p'' hp := by
    obtain ⟨p', hp', hr', ha'⟩ := h'.pairing id p'' hp
    obtain ⟨p, hp, hr, ha⟩ := h.pairing id p' hp'
    exact ⟨p, hp, hr.trans hr', ha.trans ha'⟩
  trace := by
    obtain ⟨l, hl, hlc⟩ := h.trace
    obtain ⟨l', hl', hlc'⟩ := h'.trace
    refine ⟨l ++ l', by rw [hl', hl, List.append_assoc], fun e he => ?_⟩
    rcases List.mem_append.1 he with he | he
    · exact hlc e he
    · exact hlc' e he

theorem mild_of_clients (hc : s'.clients = s.clients) (hn : s'.nextRef = s.nextRef) (l : List Event)
    (ht : s'.trace = s.trace ++ l) (hl : ∀ e ∈ l, ∀ ref, e.attemptOn ref = false) : Mild s s' where
  nextRef := hn.ge
  pairing id p' hp' := ⟨p', by unfold stateOf at hp' ⊢; rw [← hc]; exact hp', rfl, rfl⟩
  trace := ⟨l, ht, hl⟩

theorem not_attempt_of_filter {l : List Event} (h : ∀ e ∈ l, ∀ ref, Event.attemptOn ref e = false) (ref : Ref)
    (typed code : JsString) : .attempted ref typed code ∉ l := by
  intro he
  have := h _ he ref
  simp [Event.attemptOn] at this

theorem Spent.mild (h : Spent s) (hm : Mild s s') : Spent s' := by
  obtain ⟨l, hl, hnone⟩ := hm.trace
  have hmem : ∀ ref typed code, .attempted ref typed code ∈ s'.trace → .attempted ref typed code ∈ s.trace := by
    intro ref typed code he
    rw [hl, List.mem_append] at he
    exact he.resolve_right (not_attempt_of_filter hnone ref typed code)
  exact
    { fresh := fun id p' hp' => by
        obtain ⟨p, hp, hr, -⟩ := hm.pairing id p' hp'
        exact hr ▸ (h.fresh id p hp).trans_le hm.nextRef
      distinct := fun id id' p' q' hp' hq' href => by
        obtain ⟨p, hp, hr, -⟩ := hm.pairing id p' hp'
        obtain ⟨q, hq, hr', -⟩ := hm.pairing id' q' hq'
        exact h.distinct id id' p q hp hq (hr.trans (href.trans hr'.symm))
      known := fun ref typed code he => (h.known ref typed code (hmem ref typed code he)).trans_le hm.nextRef
      unspent := fun id p' hp' ha typed code he => by
        obtain ⟨p, hp, hr, ha'⟩ := hm.pairing id p' hp'
        exact h.unspent id p hp (ha'.trans ha) typed code (hr ▸ hmem _ typed code he)
      once := fun ref => by
        have hnil : l.filter (Event.attemptOn ref) = [] :=
          List.filter_eq_nil_iff.2 (fun e he => by rw [hnone e he ref]; exact Bool.false_ne_true)
        rw [hl, List.filter_append, hnil, List.append_nil]
        exact h.once ref }

theorem stateOf_installPairing (s : BurrowRuntime) (id id' : ClientId) (p : PendingPairingSession) :
    (s.installPairing id p).stateOf id' =
      if id' = id then { s.stateOf id with pairing := some p } else s.stateOf id' :=
  stateOf_modifyClient s id id' ({ · with pairing := some p })

theorem Spent.installPairing {s : BurrowRuntime} (h : Spent s) (id : ClientId) {p : PendingPairingSession}
    (hr : p.ref = s.nextRef) : Spent (s.installPairing id p) := by
  have hst := stateOf_installPairing s id
  refine ⟨?_, ?_, fun ref typed code he => (h.known ref typed code he).trans (Nat.lt_succ_self _), ?_, h.once⟩
  · intro id' q hq
    rw [hst] at hq
    split at hq
    · obtain rfl : p = q := Option.some.inj hq
      rw [hr]
      exact Nat.lt_succ_self _
    · exact (h.fresh id' q hq).trans (Nat.lt_succ_self _)
  · intro id₁ id₂ p₁ p₂ h₁ h₂ href
    rw [hst] at h₁ h₂
    split at h₁
    · rename_i hid₁
      split at h₂
      · rename_i hid₂
        exact hid₁.trans hid₂.symm
      · obtain rfl : p = p₁ := Option.some.inj h₁
        exact absurd (h.fresh id₂ p₂ h₂) (by rw [← href, hr]; exact Nat.lt_irrefl _)
    · split at h₂
      · obtain rfl : p = p₂ := Option.some.inj h₂
        exact absurd (h.fresh id₁ p₁ h₁) (by rw [href, hr]; exact Nat.lt_irrefl _)
      · exact h.distinct id₁ id₂ p₁ p₂ h₁ h₂ href
  · intro id' q hq ha typed code he
    rw [hst] at hq
    split at hq
    · obtain rfl : p = q := Option.some.inj hq
      exact Nat.lt_irrefl _ (hr ▸ h.known _ typed code he)
    · exact h.unspent id' q hq ha typed code he

theorem stateOf_spendAttempt (s : BurrowRuntime) (id id' : ClientId) (ref : Ref) (typed code : JsString) :
    (s.spendAttempt id ref typed code).stateOf id' =
      if id' = id then { s.stateOf id with pairing := (s.stateOf id).pairing.map ({ · with attempted := true }) }
      else s.stateOf id' :=
  stateOf_modifyClient s id id' (fun st => { st with pairing := st.pairing.map ({ · with attempted := true }) })

theorem Spent.spendAttempt {s : BurrowRuntime} (h : Spent s) {id : ClientId} {p : PendingPairingSession}
    (hp : (s.stateOf id).pairing = some p) (ha : p.attempted = false) (typed code : JsString) :
    Spent (s.spendAttempt id p.ref typed code) := by
  have hst := stateOf_spendAttempt s id
  -- a pairing after is one before under the same reference, and if it is unspent it is another's
  have hback : ∀ id' q', ((s.spendAttempt id p.ref typed code).stateOf id').pairing = some q' →
      ∃ q, (s.stateOf id').pairing = some q ∧ q.ref = q'.ref ∧ (q'.attempted = false → q.attempted = false ∧ id' ≠ id) := by
    intro id' q' hq'
    rw [hst] at hq'
    split at hq'
    · rename_i hid
      obtain ⟨q, hq, rfl⟩ := Option.map_eq_some_iff.1 hq'
      exact ⟨q, hid ▸ hq, rfl, fun hf => by cases hf⟩
    · rename_i hid
      exact ⟨q', hq', rfl, fun hf => ⟨hf, hid⟩⟩
  have hmem : ∀ ref t c, .attempted ref t c ∈ (s.spendAttempt id p.ref typed code).trace →
      .attempted ref t c ∈ s.trace ∨ ref = p.ref := by
    intro ref t c he
    rcases List.mem_append.1 he with he | he
    · exact .inl he
    · rw [List.mem_singleton] at he
      exact .inr (Event.attempted.inj he).1
  refine ⟨?_, ?_, ?_, ?_, ?_⟩
  · intro id' q' hq'
    obtain ⟨q, hq, hr, -⟩ := hback id' q' hq'
    exact hr ▸ h.fresh id' q hq
  · intro id₁ id₂ p₁ p₂ h₁ h₂ href
    obtain ⟨q₁, hq₁, hr₁, -⟩ := hback id₁ p₁ h₁
    obtain ⟨q₂, hq₂, hr₂, -⟩ := hback id₂ p₂ h₂
    exact h.distinct id₁ id₂ q₁ q₂ hq₁ hq₂ (hr₁.trans (href.trans hr₂.symm))
  · intro ref t c he
    rcases hmem ref t c he with he | rfl
    · exact h.known ref t c he
    · exact h.fresh id p hp
  · intro id' q' hq' hf t c he
    obtain ⟨q, hq, hr, hspent⟩ := hback id' q' hq'
    obtain ⟨hqf, hne⟩ := hspent hf
    rcases hmem q'.ref t c he with he | href
    · exact h.unspent id' q hq hqf t c (hr ▸ he)
    · exact hne (h.distinct id' id q p hq hp (hr.trans href))
  · intro ref
    show ((s.trace ++ [Event.attempted p.ref typed code]).filter (Event.attemptOn ref)).length ≤ 1
    rw [List.filter_append, List.length_append]
    by_cases href : p.ref = ref
    · have hnil : s.trace.filter (Event.attemptOn ref) = [] := by
        refine List.filter_eq_nil_iff.2 (fun e he hat => ?_)
        cases e with
        | attempted r t c =>
          obtain rfl : r = p.ref := (beq_iff_eq.1 hat).trans href.symm
          exact h.unspent id p hp ha t c he
        | _ => cases hat
      rw [hnil]
      exact (Nat.zero_add _).trans_le (List.length_filter_le _ _)
    · have hnil : [Event.attempted p.ref typed code].filter (Event.attemptOn ref) = [] := by
        simp [Event.attemptOn, href]
      rw [hnil]
      exact h.once ref

variable {i : Input}

theorem Spent.step (h : Spent s) (hm : Moves s i s') : Spent s' := by
  have hnone : ∀ e ∈ ([] : List Event), ∀ ref, e.attemptOn ref = false := fun _ he => absurd he List.not_mem_nil
  have hone : ∀ e : Event, (∀ ref, e.attemptOn ref = false) → ∀ e' ∈ [e], ∀ ref, e'.attemptOn ref = false :=
    fun e he e' he' => by rw [List.mem_singleton.1 he']; exact he
  cases hm with
  | quiet hq => exact h.mild hq.mild
  | paired hq id p hr ha => exact (h.mild hq.mild).installPairing id hr
  | denied id p hp ha typed code hsh => exact (h.spendAttempt hp ha typed code).mild (Quiet.of_sheds hsh).mild
  | approved id p hp ha approval =>
    exact (h.spendAttempt hp ha approval.code approval.code).mild (mild_of_clients rfl rfl [] (List.append_nil _).symm hnone)
  | started job rest hs hq => exact h.mild (mild_of_clients rfl rfl [] (List.append_nil _).symm hnone)
  | startedRevocations rest hs hq => exact h.mild (mild_of_clients rfl rfl [] (List.append_nil _).symm hnone)
  | refused job hs hsh =>
    refine h.mild (Mild.trans ?_ (Quiet.of_sheds hsh).mild)
    exact mild_of_clients rfl rfl [] (List.append_nil _).symm hnone
  | snapshot job hs d now hn =>
    refine h.mild ((quiet_modifyPairing s job.clientId (f := ({ · with committing := true }))
      (fun _ => ⟨rfl, rfl⟩)).mild.trans ?_)
    exact mild_of_clients rfl rfl [] (List.append_nil _).symm hnone
  | published job next record since hs now hsh =>
    refine h.mild (Mild.trans ?_ (Quiet.of_sheds hsh).mild)
    refine mild_of_clients rfl rfl [.saved job.pairing true, .published job.pairing record] rfl (fun e he ref => ?_)
    rcases List.mem_pair.1 he with rfl | rfl
    · rfl
    · rfl
  | notSaved job next record since hs hsh =>
    refine h.mild (Mild.trans ?_ (Quiet.of_sheds hsh).mild)
    exact mild_of_clients rfl rfl [.saved job.pairing false] rfl (hone _ (fun _ => rfl))
  | savedRevocations hs => exact h.mild (mild_of_clients rfl rfl [] (List.append_nil _).symm hnone)
  | revokedNone target now hn => exact h.mild (mild_of_clients rfl rfl [.revoked target] rfl (hone _ (fun _ => rfl)))
  | revoked target now hsh =>
    refine h.mild (Mild.trans ?_ (Quiet.of_sheds hsh).mild)
    exact mild_of_clients rfl rfl [.revoked target] rfl (hone _ (fun _ => rfl))
  | queued => exact h.mild (mild_of_clients rfl rfl [] (List.append_nil _).symm hnone)

/-! ## The snapshot of a write, and the live list -/

/-- **The live list is the snapshot with the revocations since**, and what is to be published is the snapshot with the
approval. -/
def Snapshot (s : BurrowRuntime) (job : ApprovalJob) (next : BurrowAcl) (record : BurrowAclRecord) (since : Nat) : Prop :=
  since ≤ s.revocations.length ∧ ∃ (taken : BurrowAcl) (deliveryId : JsString) (now : Int),
    next = (taken.approve (job.client deliveryId) now).1 ∧ record = (taken.approve (job.client deliveryId) now).2 ∧
    ∀ r, s.acl.Active r ↔ taken.Active r ∧ ∀ target ∈ s.revocations.drop since, target.names r = false

def Snapshots (s : BurrowRuntime) : Prop :=
  ∀ job next record since, s.saving = some (.writing job next record since) → s.Snapshot job next record since

theorem Snapshots.of_eq (h : Snapshots s) (hacl : s'.acl = s.acl) (hr : s'.revocations = s.revocations)
    (hs : s'.saving = s.saving) : Snapshots s' := by
  intro job next record since hw
  unfold Snapshot
  rw [hacl, hr]
  exact h job next record since (hs ▸ hw)

variable {s : BurrowRuntime}

theorem Snapshots.none (h : ∀ job next record since, s.saving ≠ some (.writing job next record since)) :
    Snapshots s :=
  fun job next record since hw => (h job next record since hw).elim

theorem Snapshots.quiet (h : Snapshots s) (hq : Quiet s s') : Snapshots s' :=
  h.of_eq hq.acl hq.revocations hq.saving

theorem Snapshots.revoked {s : BurrowRuntime} (h : Snapshots s) (target : RevocationTarget) (now : Int) :
    Snapshots { s with
      acl := (revokeTarget s.acl target now).1
      revocations := s.revocations ++ [target]
      trace := s.trace ++ [.revoked target] } := by
  intro job next record since hw
  obtain ⟨hle, taken, deliveryId, t, hnext, hrecord, hlive⟩ := h job next record since hw
  refine ⟨hle.trans (by rw [List.length_append]; exact Nat.le_add_right _ _), taken, deliveryId, t, hnext, hrecord,
    fun r => ?_⟩
  rw [active_revokeTarget, hlive r, List.drop_append_of_le_length hle, and_assoc, List.forall_mem_append,
    List.forall_mem_singleton]

theorem Snapshots.step (h : Snapshots s) (hm : Moves s i s') : Snapshots s' := by
  cases hm with
  | quiet hq => exact h.quiet hq
  | paired hq id p hr ha => exact (h.quiet hq).of_eq rfl rfl rfl
  | denied id p hp ha typed code hsh => exact h.of_eq hsh.acl hsh.revocations hsh.saving
  | approved id p hp ha approval => exact h.of_eq rfl rfl rfl
  | started job rest hs hq => exact .none (fun _ _ _ _ hw => by cases hw)
  | startedRevocations rest hs hq =>
    refine .none (fun _ _ _ _ hw => ?_)
    simp only at hw
    split at hw
    · cases hw
    · cases hw
  | refused job hs hsh =>
    exact Snapshots.quiet (.none (fun _ _ _ _ hw => by cases hw)) (.of_sheds hsh)
  | snapshot job hs d now hn =>
    intro job' next record since hw
    cases hw
    refine ⟨le_rfl, s.acl, d, now, rfl, rfl, fun r => ?_⟩
    rw [List.drop_length]
    exact ⟨fun hr => ⟨hr, fun _ ht => absurd ht List.not_mem_nil⟩, And.left⟩
  | published job next record since hs now hsh =>
    exact Snapshots.quiet (.none (fun _ _ _ _ hw => by cases hw)) (.of_sheds hsh)
  | notSaved job next record since hs hsh =>
    exact Snapshots.quiet (.none (fun _ _ _ _ hw => by cases hw)) (.of_sheds hsh)
  | savedRevocations hs => exact .none (fun _ _ _ _ hw => by cases hw)
  | revokedNone target now hn => exact h.of_eq rfl rfl rfl
  | revoked target now hsh => exact (h.revoked target now).quiet (.of_sheds hsh)
  | queued => exact h.of_eq rfl rfl rfl

variable {job : ApprovalJob} {record : BurrowAclRecord} {since : Nat} {r : BurrowAclRecord}

/-- **The active records after a publication**: those of the live list but the one superseded, and the approved one unless
a revocation during the write names it. -/
theorem active_publish {next : BurrowAcl} (h : s.Snapshot job next record since) (now : Int)
    (hr : (s.publish job next record since now).acl.Active r) :
    s.acl.Active r ∨ r = record ∧ ∀ target ∈ s.revocations.drop since, job.named target = false := by
  obtain ⟨-, taken, deliveryId, t, rfl, rfl, hlive⟩ := h
  obtain ⟨hnext, hnamed⟩ := (active_foldl_revokeTarget _ _).1 hr
  rcases BurrowAcl.active_approve hnext with rfl | hold
  · exact .inr ⟨rfl, hnamed⟩
  · exact .inl ((hlive r).2 ⟨hold, hnamed⟩)

theorem active_publish_of_other {next : BurrowAcl} (h : s.Snapshot job next record since) (now : Int) (hr : s.acl.Active r)
    (hp : r.pairs record.passkeyCredentialId record.clientStaticPublicKey = false) :
    (s.publish job next record since now).acl.Active r := by
  obtain ⟨-, taken, deliveryId, t, rfl, rfl, hlive⟩ := h
  obtain ⟨htaken, hnamed⟩ := (hlive r).1 hr
  exact (active_foldl_revokeTarget _ _).2 ⟨BurrowAcl.active_approve_of_other htaken hp, hnamed⟩

/-- **A pair that was authorized still is, after a publication.** -/
theorem authorized_publish {next : BurrowAcl} (h : s.Snapshot job next record since) (now : Int) (hr : s.acl.Active r) :
    ∃ r', (s.publish job next record since now).acl.Active r' ∧ r'.passkeyCredentialId = r.passkeyCredentialId ∧
      r'.clientStaticPublicKey = r.clientStaticPublicKey := by
  by_cases hp : r.pairs record.passkeyCredentialId record.clientStaticPublicKey = true
  · obtain ⟨-, hpass, hclient⟩ := BurrowAclRecord.pairs_iff.1 hp
    refine ⟨record, ?_, hpass.symm, hclient.symm⟩
    obtain ⟨-, taken, deliveryId, t, rfl, rfl, hlive⟩ := h
    refine (active_foldl_revokeTarget _ _).2 ⟨BurrowAcl.active_approve_record _ _ _, fun target ht => ?_⟩
    have hnot := ((hlive r).1 hr).2 target ht
    unfold RevocationTarget.names at hnot ⊢
    rw [← hpass, ← hclient]
    exact hnot
  · exact ⟨r, active_publish_of_other h now hr (Bool.eq_false_iff.2 hp), rfl, rfl⟩

/-! ## Consent -/

/-- The approvals whose digits matched and whose write has not settled. -/
def inFlight (s : BurrowRuntime) : List (ApprovalJob × Nat) :=
  s.saving.elim [] Saving.inFlight ++ s.saves.flatMap SaveJob.inFlight

/-- **The digits of the approval matched, and every revocation since that names it is one it has yet to take into
account.** -/
def Consent (s : BurrowRuntime) (job : ApprovalJob) (since : Nat) : Prop :=
  since ≤ s.revocations.length ∧ ∃ before after,
    s.trace = before ++ .attempted job.pairing job.approval.code job.approval.code :: after ∧
    ∀ target, .revoked target ∈ after → job.named target = true → target ∈ s.revocations.drop since

def Consents (s : BurrowRuntime) : Prop := ∀ job since, (job, since) ∈ s.inFlight → s.Consent job since

theorem Consent.extend (h : s.Consent job since) (more : List RevocationTarget)
    (hr : s'.revocations = s.revocations ++ more) (l : List Event) (ht : s'.trace = s.trace ++ l)
    (hl : ∀ target, .revoked target ∈ l → job.named target = true → target ∈ more) :
    s'.Consent job since := by
  obtain ⟨hle, before, after, htrace, hafter⟩ := h
  refine ⟨by rw [hr, List.length_append]; omega, before, after ++ l, ?_, fun target hmem hn => ?_⟩
  · rw [ht, htrace, List.append_assoc, List.cons_append]
  · rw [hr, List.drop_append_of_le_length hle, List.mem_append]
    rcases List.mem_append.1 hmem with hmem | hmem
    · exact .inl (hafter target hmem hn)
    · exact .inr (hl target hmem hn)

theorem Consents.extend {s s' : BurrowRuntime} (h : Consents s) (hf : ∀ j ∈ s'.inFlight, j ∈ s.inFlight)
    (hr : s'.revocations = s.revocations) (l : List Event) (ht : s'.trace = s.trace ++ l)
    (hl : ∀ target, .revoked target ∉ l) : Consents s' :=
  fun job since hj => (h job since (hf _ hj)).extend [] (by rw [hr, List.append_nil]) l ht
    (fun target hmem => (hl target hmem).elim)

theorem inFlight_congr (hs : s'.saving = s.saving) (hq : s'.saves = s.saves) :
    s'.inFlight = s.inFlight := by
  unfold inFlight
  rw [hs, hq]

theorem Consents.quiet (h : Consents s) (hq : Quiet s s') : Consents s' := by
  obtain ⟨l, hl, hc⟩ := hq.trace
  refine h.extend (fun j hj => ?_) hq.revocations l hl (fun target hmem => by cases hc _ hmem)
  rw [← inFlight_congr hq.saving hq.saves]
  exact hj

theorem Consents.revoked {s s' : BurrowRuntime} (h : Consents s) (target : RevocationTarget)
    (hs : s'.saving = s.saving) (hq : s'.saves = s.saves) (ht : s'.trace = s.trace ++ [.revoked target])
    (hr : s'.revocations = s.revocations ++ [target] ∨
      s'.revocations = s.revocations ∧ ∀ j ∈ s.inFlight, j.1.named target = false) : Consents s' := by
  intro job since hj
  rw [inFlight_congr hs hq] at hj
  have hone : ∀ target', Event.revoked target' ∈ [Event.revoked target] → target' = target := by
    intro target' hmem
    exact Event.revoked.inj (List.mem_singleton.1 hmem)
  rcases hr with hr | ⟨hr, hnamed⟩
  · refine (h job since hj).extend [target] hr [.revoked target] ht (fun target' hmem _ => ?_)
    rw [hone target' hmem]
    exact List.mem_singleton.2 rfl
  · refine (h job since hj).extend [] (by rw [hr, List.append_nil]) [.revoked target] ht (fun target' hmem hn => ?_)
    rw [hone target' hmem, hnamed _ hj] at hn
    cases hn

/-- A revocation reaches the approvals in flight: it revokes an active record, or names none of them. -/
def RevocationSeen (s : BurrowRuntime) : Input → Prop
  | .revoke target _ => (∃ r, s.acl.Active r ∧ target.names r = true) ∨ ∀ j ∈ s.inFlight, j.1.named target = false
  | _                => True

theorem Consents.step (h : Consents s) (hm : Moves s i s') (hc : s.RevocationSeen i) : Consents s' := by
  have hnone : ∀ target, Event.revoked target ∉ ([] : List Event) := fun _ => List.not_mem_nil
  cases hm with
  | quiet hq => exact h.quiet hq
  | paired hq id p hr ha => exact (h.quiet hq).extend (fun j hj => hj) rfl [] (List.append_nil _).symm hnone
  | denied id p hp ha typed code hsh =>
    refine Consents.quiet (s := s.spendAttempt id p.ref typed code) ?_ (.of_sheds hsh)
    refine h.extend (fun j hj => hj) rfl [.attempted p.ref typed code] rfl (fun target hmem => ?_)
    cases List.mem_singleton.1 hmem
  | approved id p hp ha approval =>
    have hspent : Consents (s.spendAttempt id p.ref approval.code approval.code) := by
      refine h.extend (fun j hj => hj) rfl [.attempted p.ref approval.code approval.code] rfl (fun target hmem => ?_)
      cases List.mem_singleton.1 hmem
    intro job since hj
    have hj' : (job, since) ∈ s.inFlight ∨ (job, since) = (s.jobOf id p approval, s.revocations.length) := by
      unfold inFlight at hj ⊢
      simp only [List.flatMap_append, ← List.append_assoc] at hj
      exact (List.mem_append.1 hj).imp_right List.mem_singleton.1
    rcases hj' with hj' | hj'
    · exact (hspent job since hj').extend [] (List.append_nil _).symm [] (List.append_nil _).symm
        (fun target hmem => absurd hmem List.not_mem_nil)
    · obtain ⟨rfl, rfl⟩ := Prod.mk.inj hj'.symm
      exact ⟨le_rfl, s.trace, [], rfl, fun target hmem => absurd hmem List.not_mem_nil⟩
  | started job rest hs hq =>
    refine h.extend (fun j hj => ?_) rfl [] (List.append_nil _).symm hnone
    unfold inFlight at hj ⊢
    rw [hs, hq]
    exact hj
  | startedRevocations rest hs hq =>
    refine h.extend (fun j hj => ?_) rfl [] (List.append_nil _).symm hnone
    unfold inFlight at hj ⊢
    rw [hs, hq]
    cases hst : s.stopped with
    | true => rw [hst] at hj; exact hj
    | false => rw [hst] at hj; exact hj
  | refused job hs hsh =>
    refine Consents.quiet ?_ (.of_sheds hsh)
    refine h.extend (fun j hj => ?_) rfl [] (List.append_nil _).symm hnone
    unfold inFlight at hj ⊢
    exact List.mem_append_right _ hj
  | snapshot job hs d now hn =>
    intro job' since hj
    have hj' : (job', since) = (job, s.revocations.length) ∨ (job', since) ∈ s.saves.flatMap SaveJob.inFlight :=
      (List.mem_append.1 hj).imp_left List.mem_singleton.1
    rcases hj' with hj' | hj'
    · obtain ⟨rfl, rfl⟩ := Prod.mk.inj hj'.symm
      have hmint : (job, job.revocationsAtConsent) ∈ s.inFlight := by
        unfold inFlight
        rw [hs]
        exact List.mem_append_left _ (List.mem_singleton.2 rfl)
      obtain ⟨-, before, after, htrace, hafter⟩ := h job _ hmint
      refine ⟨le_rfl, before, after, htrace, fun target hmem hnamed => ?_⟩
      -- the checks found no such revocation
      have := List.any_eq_false.1 hn target (hafter target hmem hnamed)
      exact (this hnamed).elim
    · have hold : (job', since) ∈ s.inFlight := List.mem_append_right _ hj'
      exact (h job' since hold).extend [] (List.append_nil _).symm [] (List.append_nil _).symm
        (fun target hmem => absurd hmem List.not_mem_nil)
  | published job next record since hs now hsh =>
    refine Consents.quiet (s := s.publish job next record since now) ?_ (.of_sheds hsh)
    refine h.extend (fun j hj => ?_) rfl [.saved job.pairing true, .published job.pairing record] rfl (fun target hmem => ?_)
    · exact List.mem_append_right _ hj
    · rcases List.mem_pair.1 hmem with hmem | hmem
      · cases hmem
      · cases hmem
  | notSaved job next record since hs hsh =>
    refine Consents.quiet ?_ (.of_sheds hsh)
    refine h.extend (fun j hj => ?_) rfl [.saved job.pairing false] rfl (fun target hmem => ?_)
    · exact List.mem_append_right _ hj
    · cases List.mem_singleton.1 hmem
  | savedRevocations hs =>
    refine h.extend (fun j hj => ?_) rfl [] (List.append_nil _).symm hnone
    exact List.mem_append_right _ hj
  | revokedNone target now hn =>
    refine h.revoked target rfl rfl rfl (.inr ⟨rfl, ?_⟩)
    rcases hc with ⟨r, hr, hnamed⟩ | hnamed
    · rw [hn r hr] at hnamed
      cases hnamed
    · exact hnamed
  | revoked target now hsh =>
    refine Consents.quiet ?_ (.of_sheds hsh)
    exact h.revoked target rfl rfl rfl (.inl rfl)
  | queued =>
    refine h.extend (fun j hj => ?_) rfl [] (List.append_nil _).symm hnone
    unfold inFlight at hj ⊢
    simp only [List.flatMap_append] at hj
    exact (List.append_nil (s.saves.flatMap SaveJob.inFlight)) ▸ hj

/-! ## Where an active record comes from -/

/-- **Each active record is named by no revocation since it was consented to**: none at all, for one that was there from
the start; else none since the attempt that matched its digits, which its save and its publication followed. -/
def Standing (s : BurrowRuntime) : Prop :=
  ∀ r, s.acl.Active r → (∀ target, .revoked target ∈ s.trace → target.names r = false) ∨
    ∃ pairing code before after, s.trace = before ++ .attempted pairing code code :: after ∧
      .saved pairing true ∈ after ∧ .published pairing r ∈ after ∧
      ∀ target, .revoked target ∈ after → target.names r = false

theorem Standing.extend (h : Standing s) (ha : ∀ r, s'.acl.Active r → s.acl.Active r) (l : List Event)
    (ht : s'.trace = s.trace ++ l) (hl : ∀ r, s'.acl.Active r → ∀ target, .revoked target ∈ l → target.names r = false) :
    Standing s' := by
  intro r hr
  rcases h r (ha r hr) with hnone | ⟨pairing, code, before, after, htrace, hsaved, hpub, hafter⟩
  · refine .inl (fun target hmem => ?_)
    rw [ht, List.mem_append] at hmem
    exact hmem.elim (hnone target) (hl r hr target)
  · refine .inr ⟨pairing, code, before, after ++ l, ?_, List.mem_append_left _ hsaved, List.mem_append_left _ hpub,
      fun target hmem => ?_⟩
    · rw [ht, htrace, List.append_assoc, List.cons_append]
    · exact (List.mem_append.1 hmem).elim (hafter target) (hl r hr target)

theorem Standing.quiet (h : Standing s) (hq : Quiet s s') : Standing s' := by
  obtain ⟨l, hl, hc⟩ := hq.trace
  exact h.extend (fun r hr => hq.acl ▸ hr) l hl (fun r hr target hmem => by cases hc _ hmem)

theorem Standing.same (h : Standing s) (ha : s'.acl = s.acl) (ht : s'.trace = s.trace) :
    Standing s' :=
  h.extend (fun r hr => ha ▸ hr) [] (by rw [ht, List.append_nil]) (fun _ _ _ hmem => absurd hmem List.not_mem_nil)

theorem Standing.publish {s : BurrowRuntime} (h : Standing s) {job : ApprovalJob} {next : BurrowAcl}
    {record : BurrowAclRecord} {since : Nat} (hsnap : s.Snapshot job next record since) (hc : s.Consent job since)
    (now : Int) : Standing (s.publish job next record since now) := by
  intro r hr
  rcases active_publish hsnap now hr with hold | ⟨rfl, hnamed⟩
  · have hext : Standing ({ s with trace := s.trace ++ [.saved job.pairing true, .published job.pairing record] }) :=
      h.extend (fun _ hx => hx) _ rfl (fun _ _ target hmem => by
        rcases List.mem_pair.1 hmem with hmem | hmem
        · cases hmem
        · cases hmem)
    exact hext r hold
  · obtain ⟨-, before, after, htrace, hafter⟩ := hc
    obtain ⟨-, taken, deliveryId, t, rfl, rfl, -⟩ := hsnap
    refine .inr ⟨job.pairing, job.approval.code, before,
      after ++ [.saved job.pairing true, .published job.pairing (taken.approve (job.client deliveryId) t).2], ?_, ?_, ?_, ?_⟩
    · show s.trace ++ _ = _
      rw [htrace, List.append_assoc, List.cons_append]
    · exact List.mem_append_right _ (List.mem_cons_self ..)
    · exact List.mem_append_right _ (List.mem_cons_of_mem _ (List.mem_cons_self ..))
    · intro target hmem
      rcases List.mem_append.1 hmem with hmem | hmem
      · refine Bool.eq_false_iff.2 (fun hn => ?_)
        have := hnamed target (hafter target hmem hn)
        rw [show job.named target = true from hn] at this
        cases this
      · rcases List.mem_pair.1 hmem with hmem | hmem
        · cases hmem
        · cases hmem

theorem Standing.step (h : Standing s) (hm : Moves s i s') (hsnap : Snapshots s) (hcon : Consents s) : Standing s' := by
  cases hm with
  | quiet hq => exact h.quiet hq
  | paired hq id p hr ha => exact (h.quiet hq).same rfl rfl
  | denied id p hp ha typed code hsh =>
    refine Standing.quiet (s := s.spendAttempt id p.ref typed code) ?_ (.of_sheds hsh)
    refine h.extend (fun _ hr => hr) [.attempted p.ref typed code] rfl (fun _ _ target hmem => ?_)
    cases List.mem_singleton.1 hmem
  | approved id p hp ha approval =>
    refine h.extend (fun _ hr => hr) [.attempted p.ref approval.code approval.code] rfl (fun _ _ target hmem => ?_)
    cases List.mem_singleton.1 hmem
  | started job rest hs hq => exact h.same rfl rfl
  | startedRevocations rest hs hq => exact h.same rfl rfl
  | refused job hs hsh =>
    refine Standing.quiet ?_ (.of_sheds hsh)
    exact h.same rfl rfl
  | snapshot job hs d now hn => exact h.same rfl rfl
  | published job next record since hs now hsh =>
    refine (h.publish (hsnap job next record since hs) (hcon job since ?_) now).quiet (.of_sheds hsh)
    unfold inFlight
    rw [hs]
    exact List.mem_append_left _ (List.mem_singleton.2 rfl)
  | notSaved job next record since hs hsh =>
    refine Standing.quiet ?_ (.of_sheds hsh)
    refine h.extend (fun _ hr => hr) [.saved job.pairing false] rfl (fun _ _ target hmem => ?_)
    cases List.mem_singleton.1 hmem
  | savedRevocations hs => exact h.same rfl rfl
  | revokedNone target now hn =>
    refine h.extend (fun _ hr => hr) [.revoked target] rfl (fun r hr target' hmem => ?_)
    rw [Event.revoked.inj (List.mem_singleton.1 hmem)]
    exact hn r hr
  | revoked target now hsh =>
    refine Standing.quiet ?_ (.of_sheds hsh)
    refine h.extend (fun _ hr => (active_revokeTarget.1 hr).1) [.revoked target] rfl (fun r hr target' hmem => ?_)
    rw [Event.revoked.inj (List.mem_singleton.1 hmem)]
    exact (active_revokeTarget.1 hr).2
  | queued => exact h.same rfl rfl

/-! ## Every run -/

theorem published_of_active (hm : Moves s i s') (hsnap : Snapshots s) (hr : s'.acl.Active r) (hnew : ¬ s.acl.Active r) :
    ∃ now job next since, i = .saveSettled true now ∧ s.saving = some (.writing job next r since) := by
  cases hm with
  | quiet hq => exact (hnew (hq.acl ▸ hr)).elim
  | paired hq id p href ha => exact (hnew (hq.acl ▸ hr)).elim
  | denied id p hp ha typed code hsh => exact (hnew (hsh.acl ▸ hr)).elim
  | approved id p hp ha approval => exact (hnew hr).elim
  | started job rest hs hq => exact (hnew hr).elim
  | startedRevocations rest hs hq => exact (hnew hr).elim
  | refused job hs hsh => exact (hnew (hsh.acl ▸ hr)).elim
  | snapshot job hs d now hn => exact (hnew hr).elim
  | published job next record since hs now hsh =>
    rcases active_publish (hsnap job next record since hs) now (hsh.acl ▸ hr) with hold | ⟨rfl, -⟩
    · exact (hnew hold).elim
    · exact ⟨now, job, next, since, rfl, hs⟩
  | notSaved job next record since hs hsh => exact (hnew (hsh.acl ▸ hr)).elim
  | savedRevocations hs => exact (hnew hr).elim
  | revokedNone target now hn => exact (hnew hr).elim
  | revoked target now hsh => exact (hnew (active_revokeTarget.1 (hsh.acl ▸ hr)).1).elim
  | queued => exact (hnew hr).elim

/-- A record stops being active only when it is revoked, or when its own pair is approved anew. -/
theorem superseded_of_inactive (hm : Moves s i s') (hsnap : Snapshots s) (hr : s.acl.Active r) (hgone : ¬ s'.acl.Active r) :
    (∃ target now, i = .revoke target now ∧ target.names r = true) ∨
      ∃ now job next record since, i = .saveSettled true now ∧ s.saving = some (.writing job next record since) ∧
        r.passkeyCredentialId = record.passkeyCredentialId ∧ r.clientStaticPublicKey = record.clientStaticPublicKey := by
  cases hm with
  | quiet hq => exact (hgone (hq.acl ▸ hr)).elim
  | paired hq id p href ha => exact (hgone (hq.acl ▸ hr)).elim
  | denied id p hp ha typed code hsh => exact (hgone (hsh.acl ▸ hr)).elim
  | approved id p hp ha approval => exact (hgone hr).elim
  | started job rest hs hq => exact (hgone hr).elim
  | startedRevocations rest hs hq => exact (hgone hr).elim
  | refused job hs hsh => exact (hgone (hsh.acl ▸ hr)).elim
  | snapshot job hs d now hn => exact (hgone hr).elim
  | published job next record since hs now hsh =>
    refine .inr ⟨now, job, next, record, since, rfl, hs, ?_⟩
    by_contra hpair
    refine hgone (hsh.acl ▸ active_publish_of_other (hsnap job next record since hs) now hr ?_)
    exact Bool.eq_false_iff.2 (fun hp => hpair (BurrowAclRecord.pairs_iff.1 hp).2)
  | notSaved job next record since hs hsh => exact (hgone (hsh.acl ▸ hr)).elim
  | savedRevocations hs => exact (hgone hr).elim
  | revokedNone target now hn => exact (hgone hr).elim
  | revoked target now hsh =>
    refine .inl ⟨target, now, rfl, ?_⟩
    by_contra hn
    exact hgone (hsh.acl ▸ active_revokeTarget.2 ⟨hr, Bool.eq_false_iff.2 hn⟩)
  | queued => exact (hgone hr).elim

theorem acl_of_not_saved (s : BurrowRuntime) (now : Int) : (s.saveSettled false now).acl = s.acl := by
  have hm := moves_saveSettled s false now
  generalize s.saveSettled false now = s' at hm
  cases hm with
  | quiet hq => exact hq.acl
  | paired hq id p href ha => exact hq.acl
  | denied id p hp ha typed code hsh => exact hsh.acl
  | approved id p hp ha approval => rfl
  | started job rest hs hq => rfl
  | startedRevocations rest hs hq => rfl
  | refused job hs hsh => exact hsh.acl
  | snapshot job hs d now hn => rfl
  | notSaved job next record since hs hsh => exact hsh.acl
  | savedRevocations hs => rfl
  | queued => rfl

/-- The part of a list after one element holds whatever stands after another that does not follow it. -/
theorem exists_suffix_of_split {α : Type} {x y : α} {before after before' after' : List α}
    (h : before ++ x :: after = before' ++ y :: after') (hne : x ≠ y) (hx : x ∉ after') :
    ∃ mid, after = mid ++ y :: after' := by
  rcases List.append_eq_append_iff.1 h with ⟨c, -, hc⟩ | ⟨c, -, hc⟩
  · cases c with
    | nil => exact (hne (List.cons.inj hc).1).elim
    | cons z c => exact ⟨c, (List.cons.inj hc).2⟩
  · cases c with
    | nil => exact (hne (List.cons.inj hc).1.symm).elim
    | cons z c =>
      refine (hx ?_).elim
      rw [(List.cons.inj hc).2]
      exact List.mem_append_right _ (List.mem_cons_self ..)

structure Orderly (s : BurrowRuntime) : Prop where
  spent     : Spent s
  snapshots : Snapshots s
  consents  : Consents s
  standing  : Standing s

theorem Orderly.step {C : PresenceCrypto} {K : Config} {s : BurrowRuntime} {i : Input} (h : Orderly s)
    (hc : s.RevocationSeen i) : Orderly (step C K s i) :=
  have hm := step_moves C K s i
  ⟨h.spent.step hm, h.snapshots.step hm, h.consents.step hm hc, h.standing.step hm h.snapshots h.consents⟩

theorem orderly_create (policy : ConnectionPolicy) (acl : BurrowAcl) (now : Int) : Orderly (create policy acl now) where
  spent :=
    { fresh := fun _ _ hp => by cases hp
      distinct := fun _ _ _ _ hp => by cases hp
      known := fun _ _ _ he => absurd he List.not_mem_nil
      unspent := fun _ _ hp => by cases hp
      once := fun _ => Nat.zero_le 1 }
  snapshots := .none (fun _ _ _ _ hw => by cases hw)
  consents _ _ hj := absurd hj List.not_mem_nil
  standing _ _ := .inl (fun _ hmem => absurd hmem List.not_mem_nil)

/-- **Approvals against revocations**, in every state of every run whose revocations are seen: a record becomes active
only by the publication of an approval whose one attempt matched the digits and whose save succeeded; what a revocation
named stays without an active record, but for one whose digits were entered after it; no approval loses another's
record; and a save that fails leaves the list as it was. -/
theorem approvals_against_revocations (C : PresenceCrypto) (K : Config) (policy : ConnectionPolicy) (acl : BurrowAcl)
    (now : Int) (inputs : List Input)
    (h : Steps.Along (step C K) RevocationSeen (create policy acl now) inputs) :
    let s := Steps.run (step C K) (create policy acl now) inputs
    (∀ i r, (step C K s i).acl.Active r → ¬ s.acl.Active r →
      ∃ now job next since, i = .saveSettled true now ∧ s.saving = some (.writing job next r since) ∧
        s.trace.filter (Event.attemptOn job.pairing) = [.attempted job.pairing job.approval.code job.approval.code]) ∧
    (∀ before target after, s.trace = before ++ .revoked target :: after → ∀ r, s.acl.Active r → target.names r = true →
      ∃ pairing code, .attempted pairing code code ∈ after ∧ .saved pairing true ∈ after ∧
        .published pairing r ∈ after) ∧
    (∀ i r, s.acl.Active r → ¬ (step C K s i).acl.Active r →
      (∃ target now, i = .revoke target now ∧ target.names r = true) ∨
      ∃ now job next record since, i = .saveSettled true now ∧ s.saving = some (.writing job next record since) ∧
        r.passkeyCredentialId = record.passkeyCredentialId ∧ r.clientStaticPublicKey = record.clientStaticPublicKey) ∧
    (∀ now, (step C K s (.saveSettled false now)).acl = s.acl) := by
  intro s
  have ho : Orderly s :=
    Steps.run_invariant_along (fun _ _ hc hi => hi.step hc) inputs (create policy acl now) h (orderly_create policy acl now)
  refine ⟨fun i r hr hnew => ?_, fun before target after htrace r hr hn => ?_,
    fun i r hr hgone => superseded_of_inactive (step_moves C K s i) ho.snapshots hr hgone, acl_of_not_saved s⟩
  · obtain ⟨t, job, next, since, rfl, hs⟩ := published_of_active (step_moves C K s i) ho.snapshots hr hnew
    refine ⟨t, job, next, since, rfl, hs, ?_⟩
    have hj : (job, since) ∈ s.inFlight := by
      unfold inFlight
      rw [hs]
      exact List.mem_append_left _ (List.mem_singleton.2 rfl)
    obtain ⟨-, pre, post, htrace, -⟩ := ho.consents job since hj
    -- the attempt is on record, and no pairing has two
    have hmem : Event.attempted job.pairing job.approval.code job.approval.code ∈
        s.trace.filter (Event.attemptOn job.pairing) := by
      rw [htrace]
      exact List.mem_filter.2 ⟨List.mem_append_right _ (List.mem_cons_self ..), beq_self_eq_true _⟩
    have honce := ho.spent.once job.pairing
    match hf : s.trace.filter (Event.attemptOn job.pairing) with
    | []          => rw [hf] at hmem; exact absurd hmem List.not_mem_nil
    | [e]         => rw [hf] at hmem; rw [List.mem_singleton.1 hmem]
    | _ :: _ :: _ => rw [hf] at honce; simp at honce
  · rcases ho.standing r hr with hnone | ⟨pairing, code, pre, post, hsplit, hsaved, hpub, hafter⟩
    · have := hnone target (by rw [htrace]; exact List.mem_append_right _ (List.mem_cons_self ..))
      rw [this] at hn
      cases hn
    · have hx : Event.revoked target ∉ post := fun hmem => by
        rw [hafter target hmem] at hn
        cases hn
      obtain ⟨mid, rfl⟩ := exists_suffix_of_split (htrace.symm.trans hsplit) (fun he => by cases he) hx
      exact ⟨pairing, code, List.mem_append_right _ (List.mem_cons_self ..),
        List.mem_append_right _ (List.mem_cons_of_mem _ hsaved), List.mem_append_right _ (List.mem_cons_of_mem _ hpub)⟩

/-! ## A run on either side -/

def trusting : PresenceCrypto := ⟨fun _ _ => some [], fun _ _ _ _ => true, fun _ => some [], fun challenge _ => challenge⟩

def proofOfSix : PresenceProofV1 := ⟨.pairing [] [4] [6], [], [], [6], [], ⟨[6], [], [], []⟩⟩

/-- A phone with the passkey `[6]` scans a code and its digits are entered; its write waits for the store. -/
def approvalInFlight : List Input :=
  [.mintInvitation [1] 0 1000000 0, .frame (.e2e ⟨[2], .pairing, [1], true⟩) 1 0, .drainFrame .keepalive 0,
    .resume ⟨true, [3], [4], [5]⟩ 0, .frame (.e2e ⟨[2], .pairing, [1], false⟩) 1 0,
    .drainFrame (.control ⟨some [48, 49], some [], some (.proof proofOfSix)⟩) 0, .resume ⟨true, [], [], []⟩ 0,
    .approve [2] [5] [48, 49] 0, .startSave, .minted (some [7]) 0]

def runOfSix (inputs : List Input) : BurrowRuntime :=
  Steps.run (step trusting ⟨[], true, false⟩) (create ⟨[], [], false⟩ (.new []) 0) inputs

def recordOfSix : BurrowAclRecord :=
  ⟨[], [], [6], [], [3], [7], 0, units "burrow-user", units "Unknown device", none⟩

/-- **A revocation that finds no active record is lost on the approval under way**: the passkey is revoked while the
write runs, and its record is active afterwards, with no digits entered since. -/
theorem revocation_lost :
    let s := runOfSix (approvalInFlight ++ [.revoke (.passkey [6]) 0, .saveSettled true 0])
    s.trace = [.attempted 1 [48, 49] [48, 49]] ++ .revoked (.passkey [6]) ::
      [.saved 1 true, .published 1 recordOfSix] ∧
    s.acl.Active recordOfSix ∧ RevocationTarget.names (.passkey [6]) recordOfSix = true ∧
    ∀ pairing code, .attempted pairing code code ∉ [Event.saved 1 true, .published 1 recordOfSix] := by
  refine ⟨by decide, ⟨by decide, rfl⟩, by decide, fun pairing code hmem => ?_⟩
  rcases List.mem_pair.1 hmem with hmem | hmem
  · cases hmem
  · cases hmem

theorem revoked_once_saved :
    let s := runOfSix (approvalInFlight ++ [.saveSettled true 0, .revoke (.passkey [6]) 1])
    ∀ r, s.acl.Active r → RevocationTarget.names (.passkey [6]) r = false := by
  intro s r hr
  refine Bool.eq_false_iff.2 (fun hn => ?_)
  obtain ⟨-, hrevoked, -⟩ := approvals_against_revocations trusting ⟨[], true, false⟩ ⟨[], [], false⟩ (.new []) 0
    (approvalInFlight ++ [.saveSettled true 0, .revoke (.passkey [6]) 1])
    (by
      unfold approvalInFlight
      refine ⟨trivial, trivial, trivial, trivial, trivial, trivial, trivial, trivial, trivial, trivial, trivial, ?_, trivial⟩
      exact .inl ⟨recordOfSix, ⟨by decide, rfl⟩, by decide⟩)
  obtain ⟨_, _, hmem, -⟩ := hrevoked
    [.attempted 1 [48, 49] [48, 49], .saved 1 true, .published 1 recordOfSix] (.passkey [6]) [] (by decide) r hr hn
  exact List.not_mem_nil hmem

end BurrowRuntime
end Burrow
end Dormouse

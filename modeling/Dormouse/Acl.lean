import Dormouse.Js
import Dormouse.Steps
/-!
# Acl — the Burrow's list of approved Clients

`BurrowAcl` of `remote-lib-common/src/security/acl.ts`.  A record is approved once and revoked at most once, and is never
taken out of the list; a connection is authorized by an active record that holds both its passkey and its Client static.
The clock an operation reads is an argument of it, and a record the class hands out is a copy, so that a caller holds a
value and never the class's own object.

The operations do two things to the list, and every result rests on that: they revoke active records in place, and
`approve` appends one (`Revises`).  Of the records of one pair only the last can be active (`Unique`), since an approval
first revokes the one before it.
-/
namespace Dormouse

structure BurrowAclRecord where
  burrowId              : JsString
  accountId             : JsString
  passkeyCredentialId   : JsString
  passkeyPublicKeyHash  : JsString
  clientStaticPublicKey : JsString
  deliveryId            : JsString
  approvedAt            : Int
  approvedBy            : JsString
  label                 : JsString
  revokedAt             : Option Int
  deriving DecidableEq

structure ApprovedClient where
  accountId             : JsString
  passkeyCredentialId   : JsString
  passkeyPublicKeyHash  : JsString
  clientStaticPublicKey : JsString
  deliveryId            : JsString
  approvedBy            : JsString
  label                 : JsString
  deriving DecidableEq

inductive AclAuthorizationMiss where
  | passkeyNotPaired
  | clientNotPaired
  | pairingMismatch
  deriving DecidableEq

inductive AclAuthorization where
  | found (record : BurrowAclRecord)
  | missed (reasons : List AclAuthorizationMiss)
  deriving DecidableEq

namespace BurrowAclRecord

def pairs (r : BurrowAclRecord) (passkeyCredentialId clientStaticPublicKey : JsString) : Bool :=
  r.revokedAt == none && r.passkeyCredentialId == passkeyCredentialId &&
    r.clientStaticPublicKey == clientStaticPublicKey

def revoke (now : Int) (r : BurrowAclRecord) : BurrowAclRecord := { r with revokedAt := some now }

theorem pairs_iff {r : BurrowAclRecord} {p c : JsString} :
    r.pairs p c = true ↔ r.revokedAt = none ∧ r.passkeyCredentialId = p ∧ r.clientStaticPublicKey = c := by
  simp [pairs, and_assoc]

end BurrowAclRecord

def ApprovedClient.record (client : ApprovedClient) (burrowId : JsString) (now : Int) : BurrowAclRecord where
  burrowId              := burrowId
  accountId             := client.accountId
  passkeyCredentialId   := client.passkeyCredentialId
  passkeyPublicKeyHash  := client.passkeyPublicKeyHash
  clientStaticPublicKey := client.clientStaticPublicKey
  deliveryId            := client.deliveryId
  approvedAt            := now
  approvedBy            := client.approvedBy
  label                 := client.label
  revokedAt             := none

structure BurrowAcl where
  burrowId : JsString
  records  : List BurrowAclRecord
  deriving DecidableEq

namespace BurrowAcl

def new (burrowId : JsString) : BurrowAcl := ⟨burrowId, []⟩

def loadRecord (burrowId : JsString) (acl : BurrowAcl) (record : BurrowAclRecord) : Except JsString BurrowAcl :=
  if record.burrowId ≠ burrowId then
    .error (units "ACL record for burrow " ++ record.burrowId ++ units " cannot be loaded into " ++ burrowId)
  else .ok { acl with records := acl.records ++ [record] }

def fromRecords (burrowId : JsString) (records : List BurrowAclRecord) : Except JsString BurrowAcl :=
  records.foldlM (loadRecord burrowId) (new burrowId)

def approve (acl : BurrowAcl) (client : ApprovedClient) (now : Int) : BurrowAcl × BurrowAclRecord :=
  let existing := acl.records.findIdx (·.pairs client.passkeyCredentialId client.clientStaticPublicKey)
  let record   := client.record acl.burrowId now
  ({ acl with records := acl.records.modify existing (·.revoke now) ++ [record] }, record)

def activeRecords (acl : BurrowAcl) : List BurrowAclRecord := acl.records.filter (·.revokedAt == none)

def findActive (acl : BurrowAcl) (passkeyCredentialId clientStaticPublicKey : JsString) : Option BurrowAclRecord :=
  acl.records.find? (·.pairs passkeyCredentialId clientStaticPublicKey)

def hasActivePasskey (acl : BurrowAcl) (passkeyCredentialId : JsString) : Bool :=
  acl.records.any (fun r => r.revokedAt == none && r.passkeyCredentialId == passkeyCredentialId)

def hasActiveClient (acl : BurrowAcl) (clientStaticPublicKey : JsString) : Bool :=
  acl.records.any (fun r => r.revokedAt == none && r.clientStaticPublicKey == clientStaticPublicKey)

def authorize (acl : BurrowAcl) (passkeyCredentialId clientStaticPublicKey : JsString) : AclAuthorization :=
  match acl.findActive passkeyCredentialId clientStaticPublicKey with
  | some record => .found record
  | none =>
    let passkeyPaired := acl.hasActivePasskey passkeyCredentialId
    let clientPaired  := acl.hasActiveClient clientStaticPublicKey
    .missed ((if passkeyPaired then [] else [.passkeyNotPaired]) ++ (if clientPaired then [] else [.clientNotPaired]) ++
      (if passkeyPaired && clientPaired then [.pairingMismatch] else []))

def revokeMatching (acl : BurrowAcl) (isMatch : BurrowAclRecord → Bool) (now : Int) : BurrowAcl × Nat :=
  ({ acl with records := acl.records.map (fun r => if r.revokedAt == none && isMatch r then r.revoke now else r) },
    acl.records.countP (fun r => r.revokedAt == none && isMatch r))

def revokeClient (acl : BurrowAcl) (clientStaticPublicKey : JsString) (now : Int) : BurrowAcl × Nat :=
  acl.revokeMatching (fun r => r.clientStaticPublicKey == clientStaticPublicKey) now

def revokePasskey (acl : BurrowAcl) (passkeyCredentialId : JsString) (now : Int) : BurrowAcl × Nat :=
  acl.revokeMatching (fun r => r.passkeyCredentialId == passkeyCredentialId) now

def Active (acl : BurrowAcl) (r : BurrowAclRecord) : Prop := r ∈ acl.records ∧ r.revokedAt = none

/-! ## What an operation does to the records -/

/-- **Every record keeps its place and its fields, but that an active one may be revoked.** -/
def Revises (rs rs' : List BurrowAclRecord) : Prop :=
  ∀ (i : Nat) (r : BurrowAclRecord), rs[i]? = some r →
    ∃ r', rs'[i]? = some r' ∧ (r' = r ∨ r.revokedAt = none ∧ ∃ now, r' = r.revoke now)

def Unique (rs : List BurrowAclRecord) : Prop :=
  ∀ (p c : JsString) (i j : Nat) (r r' : BurrowAclRecord), rs[i]? = some r → rs[j]? = some r' →
    r.pairs p c = true → r'.pairs p c = true → i = j

namespace Revises

theorem refl (rs : List BurrowAclRecord) : Revises rs rs := fun _ r h => ⟨r, h, .inl rfl⟩

theorem trans {rs rs' rs'' : List BurrowAclRecord} (h : Revises rs rs') (h' : Revises rs' rs'') : Revises rs rs'' := by
  intro i r hr
  obtain ⟨r₁, hr₁, hstep⟩ := h i r hr
  obtain ⟨r₂, hr₂, hstep'⟩ := h' i r₁ hr₁
  refine ⟨r₂, hr₂, ?_⟩
  rcases hstep with rfl | ⟨ha, t, rfl⟩
  · exact hstep'
  · rcases hstep' with rfl | ⟨ha', -⟩
    · exact .inr ⟨ha, t, rfl⟩
    · cases ha'

theorem append (rs : List BurrowAclRecord) (r : BurrowAclRecord) : Revises rs (rs ++ [r]) := by
  intro i x hx
  have hi : i < rs.length := (List.getElem?_eq_some_iff.1 hx).1
  exact ⟨x, by rw [List.getElem?_append_left hi]; exact hx, .inl rfl⟩

theorem revoked {rs rs' : List BurrowAclRecord} (h : Revises rs rs') {i : Nat} {r : BurrowAclRecord}
    (hr : rs[i]? = some r) (hv : r.revokedAt ≠ none) : rs'[i]? = some r := by
  obtain ⟨r', hr', rfl | ⟨ha, -⟩⟩ := h i r hr
  · exact hr'
  · exact (hv ha).elim

theorem active_of_length {rs rs' : List BurrowAclRecord} (h : Revises rs rs') (hl : rs'.length = rs.length) {i : Nat}
    {r' : BurrowAclRecord} (hr' : rs'[i]? = some r') (ha : r'.revokedAt = none) : rs[i]? = some r' := by
  have hi : i < rs.length := hl ▸ (List.getElem?_eq_some_iff.1 hr').1
  obtain ⟨r₁, hr₁, hstep⟩ := h i rs[i] (List.getElem?_eq_getElem hi)
  obtain rfl : r₁ = r' := Option.some.inj (hr₁.symm.trans hr')
  rcases hstep with rfl | ⟨-, t, ht⟩
  · exact List.getElem?_eq_getElem hi
  · rw [ht] at ha
    cases ha

end Revises

theorem revises_modify (rs : List BurrowAclRecord) (i : Nat) (now : Int)
    (h : ∀ r, rs[i]? = some r → r.revokedAt = none) : Revises rs (rs.modify i (·.revoke now)) := by
  intro j r hr
  rw [List.getElem?_modify, hr]
  by_cases hij : i = j
  · subst hij
    exact ⟨r.revoke now, by simp, .inr ⟨h r hr, now, rfl⟩⟩
  · exact ⟨r, by simp [hij], .inl rfl⟩

theorem revises_revokeMatching (acl : BurrowAcl) (isMatch : BurrowAclRecord → Bool) (now : Int) :
    Revises acl.records (acl.revokeMatching isMatch now).1.records := by
  intro i r hr
  refine ⟨if r.revokedAt == none && isMatch r then r.revoke now else r, ?_, ?_⟩
  · simp only [revokeMatching, List.getElem?_map, hr, Option.map_some]
  · by_cases hm : (r.revokedAt == none && isMatch r) = true
    · rw [if_pos hm]
      rw [Bool.and_eq_true, beq_iff_eq] at hm
      exact .inr ⟨hm.1, now, rfl⟩
    · rw [if_neg hm]
      exact .inl rfl

@[simp] theorem revokeMatching_length (acl : BurrowAcl) (isMatch : BurrowAclRecord → Bool) (now : Int) :
    (acl.revokeMatching isMatch now).1.records.length = acl.records.length := by
  simp only [revokeMatching, List.length_map]

variable {acl : BurrowAcl} {now : Int} {r : BurrowAclRecord}

/-- **A revocation leaves active what was active and does not match.** -/
theorem active_revokeMatching {isMatch : BurrowAclRecord → Bool} :
    (acl.revokeMatching isMatch now).1.Active r ↔ acl.Active r ∧ isMatch r = false := by
  constructor
  · rintro ⟨hr, ha⟩
    obtain ⟨r₀, hr₀, rfl⟩ := List.mem_map.1 hr
    by_cases hm : (r₀.revokedAt == none && isMatch r₀) = true
    · rw [if_pos hm] at ha
      cases ha
    · rw [if_neg hm] at ha ⊢
      exact ⟨⟨hr₀, ha⟩, by simpa [ha] using hm⟩
  · rintro ⟨⟨hr, ha⟩, hm⟩
    exact ⟨List.mem_map.2 ⟨r, hr, by simp [hm]⟩, ha⟩

variable {rs : List BurrowAclRecord}

theorem pairs_at_findIdx {p c : JsString} (h : rs[rs.findIdx (·.pairs p c)]? = some r) : r.pairs p c = true := by
  obtain ⟨hi, rfl⟩ := List.getElem?_eq_some_iff.1 h
  exact List.findIdx_getElem (w := hi)

theorem revises_superseded (acl : BurrowAcl) (p c : JsString) (now : Int) :
    Revises acl.records (acl.records.modify (acl.records.findIdx (·.pairs p c)) (·.revoke now)) :=
  revises_modify _ _ now (fun _ h => (BurrowAclRecord.pairs_iff.1 (pairs_at_findIdx h)).1)

theorem revises_approve (acl : BurrowAcl) (client : ApprovedClient) (now : Int) :
    Revises acl.records (acl.approve client now).1.records :=
  (revises_superseded acl _ _ now).trans (Revises.append _ _)

/-- With at most one active record a pair, none of the pair is left once the first is revoked. -/
theorem superseded_none (hu : Unique acl.records) {p c : JsString} {i : Nat}
    (hr : (acl.records.modify (acl.records.findIdx (·.pairs p c)) (·.revoke now))[i]? = some r) :
    r.pairs p c = false := by
  by_contra hp
  rw [Bool.not_eq_false] at hp
  have ha : r.revokedAt = none := (BurrowAclRecord.pairs_iff.1 hp).1
  have hold : acl.records[i]? = some r :=
    (revises_superseded acl p c now).active_of_length (List.length_modify ..) hr ha
  -- the first active record of the pair is at `i` too, and that one was revoked
  have hlt : acl.records.findIdx (·.pairs p c) < acl.records.length :=
    List.findIdx_lt_length_of_exists ⟨r, List.mem_of_getElem? hold, hp⟩
  have hfirst : acl.records.findIdx (·.pairs p c) = i :=
    hu p c _ _ _ _ (List.getElem?_eq_getElem hlt) hold (List.findIdx_getElem (w := hlt)) hp
  simp only [List.getElem?_modify, if_pos hfirst, hold] at hr
  have hrev : r.revoke now = r := Option.some.inj hr
  rw [← hrev] at ha
  cases ha

theorem active_approve {client : ApprovedClient} (h : (acl.approve client now).1.Active r) :
    r = (acl.approve client now).2 ∨ acl.Active r := by
  obtain ⟨hr, ha⟩ := h
  rcases List.mem_append.1 hr with hr | hr
  · obtain ⟨i, hi⟩ := List.mem_iff_getElem?.1 hr
    have hold := (revises_superseded acl _ _ now).active_of_length (List.length_modify ..) hi ha
    exact .inr ⟨List.mem_of_getElem? hold, ha⟩
  · exact .inl (List.mem_singleton.1 hr)

theorem active_approve_record (acl : BurrowAcl) (client : ApprovedClient) (now : Int) :
    (acl.approve client now).1.Active (acl.approve client now).2 :=
  ⟨List.mem_append_right _ (List.mem_singleton.2 rfl), rfl⟩

theorem active_approve_of_other {client : ApprovedClient} (h : acl.Active r)
    (hp : r.pairs client.passkeyCredentialId client.clientStaticPublicKey = false) :
    (acl.approve client now).1.Active r := by
  obtain ⟨i, hi⟩ := List.mem_iff_getElem?.1 h.1
  have hne : acl.records.findIdx (·.pairs client.passkeyCredentialId client.clientStaticPublicKey) ≠ i := by
    rintro rfl
    rw [pairs_at_findIdx hi] at hp
    cases hp
  refine ⟨List.mem_append_left _ (List.mem_of_getElem? (i := i) ?_), h.2⟩
  simp only [List.getElem?_modify, if_neg hne, hi]
  rfl

/-! ## At most one active record a pair -/

theorem Unique.of_revises {rs rs' : List BurrowAclRecord} (hu : Unique rs) (h : Revises rs rs')
    (hl : rs'.length = rs.length) : Unique rs' := by
  intro p c i j r r' hr hr' hp hp'
  exact hu p c i j r r' (h.active_of_length hl hr (BurrowAclRecord.pairs_iff.1 hp).1)
    (h.active_of_length hl hr' (BurrowAclRecord.pairs_iff.1 hp').1) hp hp'

theorem unique_revokeMatching (hu : Unique acl.records) (isMatch : BurrowAclRecord → Bool) (now : Int) :
    Unique (acl.revokeMatching isMatch now).1.records :=
  hu.of_revises (revises_revokeMatching acl isMatch now) (revokeMatching_length acl isMatch now)

theorem getElem?_concat {r x : BurrowAclRecord} {i : Nat} (h : (rs ++ [r])[i]? = some x) :
    rs[i]? = some x ∨ i = rs.length ∧ x = r := by
  rw [List.getElem?_append] at h
  split at h
  · exact .inl h
  · obtain ⟨hi, hx⟩ := List.getElem?_eq_some_iff.1 h
    rw [List.length_singleton] at hi
    refine .inr ⟨by omega, ?_⟩
    rw [List.getElem_singleton] at hx
    exact hx.symm

theorem Unique.append (hu : Unique rs)
    (h : ∀ (i : Nat) (x : BurrowAclRecord), rs[i]? = some x → x.pairs r.passkeyCredentialId r.clientStaticPublicKey = false) :
    Unique (rs ++ [r]) := by
  have hone : ∀ (p c : JsString) (i : Nat) (x : BurrowAclRecord), rs[i]? = some x → x.pairs p c = true →
      r.pairs p c = true → False := by
    intro p c i x hx hp hr
    obtain ⟨-, rfl, rfl⟩ := BurrowAclRecord.pairs_iff.1 hr
    rw [h i x hx] at hp
    cases hp
  intro p c i j x y hx hy hp hp'
  rcases getElem?_concat hx with hx' | ⟨hi, rfl⟩
  · rcases getElem?_concat hy with hy' | ⟨-, rfl⟩
    · exact hu p c i j x y hx' hy' hp hp'
    · exact (hone p c i x hx' hp hp').elim
  · rcases getElem?_concat hy with hy' | ⟨hj, -⟩
    · exact (hone p c j y hy' hp' hp).elim
    · exact hi.trans hj.symm

theorem unique_approve (hu : Unique acl.records) (client : ApprovedClient) (now : Int) :
    Unique (acl.approve client now).1.records :=
  (hu.of_revises (revises_superseded acl _ _ now) (List.length_modify ..)).append (fun _ _ hx => superseded_none hu hx)

/-! ## The lookups, and a reload -/

theorem authorize_found_iff {p c : JsString} :
    acl.authorize p c = .found r ↔ acl.findActive p c = some r := by
  unfold authorize
  cases acl.findActive p c with
  | none => simp
  | some x => simp

/-- **A pair is authorized exactly when one active record holds both of its keys.** -/
theorem authorize_iff (acl : BurrowAcl) (p c : JsString) :
    (∃ r, acl.authorize p c = .found r) ↔
      ∃ r ∈ acl.records, r.revokedAt = none ∧ r.passkeyCredentialId = p ∧ r.clientStaticPublicKey = c := by
  constructor
  · rintro ⟨r, hr⟩
    have hf := authorize_found_iff.1 hr
    have hp : r.pairs p c = true := by
      unfold findActive at hf
      exact List.find?_some (p := fun x : BurrowAclRecord => x.pairs p c) hf
    exact ⟨r, List.mem_of_find?_eq_some hf, BurrowAclRecord.pairs_iff.1 hp⟩
  · rintro ⟨r, hr, hp⟩
    have hs : (acl.findActive p c).isSome := List.find?_isSome.2 ⟨r, hr, BurrowAclRecord.pairs_iff.2 hp⟩
    obtain ⟨x, hx⟩ := Option.isSome_iff_exists.1 hs
    exact ⟨x, authorize_found_iff.2 hx⟩

theorem authorize_congr {acl acl' : BurrowAcl} (h : acl'.records = acl.records) (p c : JsString) :
    acl'.authorize p c = acl.authorize p c := by
  have hfind : acl'.findActive p c = acl.findActive p c := by rw [findActive, findActive, h]
  have hpass : acl'.hasActivePasskey p = acl.hasActivePasskey p := by rw [hasActivePasskey, hasActivePasskey, h]
  have hclient : acl'.hasActiveClient c = acl.hasActiveClient c := by rw [hasActiveClient, hasActiveClient, h]
  unfold authorize
  rw [hfind, hpass, hclient]

theorem foldlM_loadRecord (b : JsString) : ∀ (rs : List BurrowAclRecord) (acl : BurrowAcl),
    (∀ r ∈ rs, r.burrowId = b) → rs.foldlM (loadRecord b) acl = .ok { acl with records := acl.records ++ rs }
  | [], acl, _ => by rw [List.append_nil]; rfl
  | r :: rs, acl, h => by
    have hr : loadRecord b acl r = .ok { acl with records := acl.records ++ [r] } :=
      if_neg (not_not.2 (h r (List.mem_cons_self ..)))
    have hrest := foldlM_loadRecord b rs { acl with records := acl.records ++ [r] }
      (fun x hx => h x (List.mem_cons_of_mem _ hx))
    rw [List.append_assoc, List.singleton_append] at hrest
    rw [List.foldlM_cons, hr]
    exact hrest

theorem fromRecords_ok {b : JsString} (h : ∀ r ∈ rs, r.burrowId = b) :
    fromRecords b rs = .ok ⟨b, rs⟩ :=
  foldlM_loadRecord b rs (new b) h

theorem own_of_foldlM_loadRecord {b : JsString} : ∀ {rs : List BurrowAclRecord} {acl acl' : BurrowAcl},
    rs.foldlM (loadRecord b) acl = .ok acl' → ∀ r ∈ rs, r.burrowId = b
  | [], _, _, _ => fun _ hr => absurd hr List.not_mem_nil
  | x :: rs, acl, acl', h => by
    rw [List.foldlM_cons] at h
    by_cases hx : x.burrowId = b
    · rw [show loadRecord b acl x = .ok _ from if_neg (not_not.2 hx)] at h
      intro r hr
      rcases List.mem_cons.1 hr with rfl | hr
      · exact hx
      · exact own_of_foldlM_loadRecord h r hr
    · rw [show loadRecord b acl x = .error _ from if_pos hx] at h
      cases h

/-- **What a load returns: the records given, all of that Burrow.** -/
theorem fromRecords_eq_ok_iff {b : JsString} :
    fromRecords b rs = .ok acl ↔ acl = ⟨b, rs⟩ ∧ ∀ r ∈ rs, r.burrowId = b := by
  constructor
  · intro h
    have hown := own_of_foldlM_loadRecord h
    rw [fromRecords_ok hown] at h
    exact ⟨(Except.ok.inj h).symm, hown⟩
  · rintro ⟨rfl, hown⟩
    exact fromRecords_ok hown

/-! ## Every history -/

/-- What can happen to a list: a call, or a reload, by which the records are loaded into a new list and that one is used
from then on.  A reload that throws makes no list. -/
inductive Op where
  | approve (client : ApprovedClient) (now : Int)
  | revokeClient (clientStaticPublicKey : JsString) (now : Int)
  | revokePasskey (passkeyCredentialId : JsString) (now : Int)
  | reload (burrowId : JsString)

def reload (acl : BurrowAcl) (burrowId : JsString) : BurrowAcl :=
  match fromRecords burrowId acl.records with
  | .ok loaded => loaded
  | .error _   => acl

def step (acl : BurrowAcl) : Op → BurrowAcl
  | .approve client now => (acl.approve client now).1
  | .revokeClient c now => (acl.revokeClient c now).1
  | .revokePasskey p now => (acl.revokePasskey p now).1
  | .reload burrowId => acl.reload burrowId

abbrev run (acl : BurrowAcl) (ops : List Op) : BurrowAcl := Steps.run step acl ops

def Op.approves (isMatch : BurrowAclRecord → Bool) (acl : BurrowAcl) : Op → Prop
  | .approve client now => isMatch (client.record acl.burrowId now) = true
  | _                   => False

def Op.approvesClient (clientStaticPublicKey : JsString) : Op → Prop
  | .approve client _ => client.clientStaticPublicKey = clientStaticPublicKey
  | _                 => False

def Op.approvesPasskey (passkeyCredentialId : JsString) : Op → Prop
  | .approve client _ => client.passkeyCredentialId = passkeyCredentialId
  | _                 => False

/-- The list's own invariant: at most one active record a pair, and every record is of this Burrow. -/
structure Sound (acl : BurrowAcl) : Prop where
  unique : Unique acl.records
  own    : ∀ r ∈ acl.records, r.burrowId = acl.burrowId

/-- A reload is the list itself, or the same records under the name given, which they all carry. -/
theorem reload_cases (acl : BurrowAcl) (b : JsString) :
    acl.reload b = acl ∨ acl.reload b = ⟨b, acl.records⟩ ∧ ∀ r ∈ acl.records, r.burrowId = b := by
  unfold reload
  cases h : fromRecords b acl.records with
  | error e => exact .inl rfl
  | ok loaded => exact .inr (fromRecords_eq_ok_iff.1 h)

theorem reload_records (acl : BurrowAcl) (b : JsString) : (acl.reload b).records = acl.records := by
  rcases reload_cases acl b with h | ⟨h, -⟩
  · rw [h]
  · rw [h]

theorem step_revises (acl : BurrowAcl) (op : Op) : Revises acl.records (acl.step op).records := by
  cases op with
  | approve client now => exact revises_approve acl client now
  | revokeClient c now => exact revises_revokeMatching acl _ now
  | revokePasskey p now => exact revises_revokeMatching acl _ now
  | reload b => exact (reload_records acl b).symm ▸ Revises.refl acl.records

theorem own_of_revises {rs rs' : List BurrowAclRecord} {b : JsString} (h : Revises rs rs')
    (hl : rs'.length = rs.length) (hown : ∀ r ∈ rs, r.burrowId = b) : ∀ r ∈ rs', r.burrowId = b := by
  intro r hr
  obtain ⟨i, hi⟩ := List.mem_iff_getElem?.1 hr
  have hlt : i < rs.length := hl ▸ (List.getElem?_eq_some_iff.1 hi).1
  obtain ⟨x, hx, hstep⟩ := h i rs[i] (List.getElem?_eq_getElem hlt)
  obtain rfl : x = r := Option.some.inj (hx.symm.trans hi)
  rcases hstep with rfl | ⟨-, t, rfl⟩
  · exact hown _ (List.getElem_mem hlt)
  · exact hown rs[i] (List.getElem_mem hlt)

theorem Sound.revokeMatching {acl : BurrowAcl} (h : Sound acl) (isMatch : BurrowAclRecord → Bool) (now : Int) :
    Sound (acl.revokeMatching isMatch now).1 :=
  ⟨unique_revokeMatching h.unique isMatch now,
    own_of_revises (revises_revokeMatching acl isMatch now) (revokeMatching_length acl isMatch now) h.own⟩

theorem Sound.approve {acl : BurrowAcl} (h : Sound acl) (client : ApprovedClient) (now : Int) :
    Sound (acl.approve client now).1 := by
  refine ⟨unique_approve h.unique client now, fun r hr => ?_⟩
  rcases List.mem_append.1 hr with hr | hr
  · exact own_of_revises (revises_superseded acl _ _ now) (List.length_modify ..) h.own r hr
  · rw [List.mem_singleton.1 hr]
    rfl

theorem Sound.step {acl : BurrowAcl} (h : Sound acl) (op : Op) : Sound (acl.step op) := by
  cases op with
  | approve client now => exact h.approve client now
  | revokeClient c now => exact h.revokeMatching _ now
  | revokePasskey p now => exact h.revokeMatching _ now
  | reload b =>
    show Sound (acl.reload b)
    rcases reload_cases acl b with hb | ⟨hb, hown⟩
    · rw [hb]
      exact h
    · rw [hb]
      exact ⟨h.unique, hown⟩

theorem sound_new (b : JsString) : Sound (new b) where
  unique := by
    intro p c i j r r' hr
    cases hr
  own _ h := absurd h List.not_mem_nil

theorem sound_run (b : JsString) (ops : List Op) : Sound (run (new b) ops) :=
  Steps.run_invariant (I := Sound) (fun _ op h => h.step op) ops (new b) (sound_new b)

theorem run_revises (ops : List Op) (acl : BurrowAcl) : Revises acl.records (run acl ops).records :=
  Steps.run_invariant (I := fun a => Revises acl.records a.records) (fun a op h => h.trans (step_revises a op)) ops acl
    (Revises.refl _)

def Silent (isMatch : BurrowAclRecord → Bool) (acl : BurrowAcl) : Prop :=
  ∀ r ∈ acl.records, r.revokedAt = none → isMatch r = false

theorem Silent.revokeMatching {isMatch : BurrowAclRecord → Bool} {acl : BurrowAcl} (h : Silent isMatch acl)
    (other : BurrowAclRecord → Bool) (now : Int) : Silent isMatch (acl.revokeMatching other now).1 :=
  fun r hr ha => h r (active_revokeMatching.1 ⟨hr, ha⟩).1.1 ha

theorem silent_revokeMatching (isMatch : BurrowAclRecord → Bool) (acl : BurrowAcl) (now : Int) :
    Silent isMatch (acl.revokeMatching isMatch now).1 :=
  fun _ hr ha => (active_revokeMatching.1 ⟨hr, ha⟩).2

/-- **What no active record matches, none matches after an operation that approves no match.** -/
theorem Silent.step {isMatch : BurrowAclRecord → Bool} {acl : BurrowAcl} (h : Silent isMatch acl) {op : Op}
    (hop : ¬ op.approves isMatch acl) : Silent isMatch (acl.step op) := by
  cases op with
  | approve client now =>
    intro r hr ha
    rcases active_approve ⟨hr, ha⟩ with rfl | ⟨hr, -⟩
    · exact Bool.not_eq_true _ ▸ hop
    · exact h r hr ha
  | revokeClient c now => exact h.revokeMatching _ now
  | revokePasskey p now => exact h.revokeMatching _ now
  | reload b =>
    intro r hr
    exact h r (reload_records acl b ▸ hr)

theorem Silent.run {isMatch : BurrowAclRecord → Bool} {acl : BurrowAcl} (h : Silent isMatch acl)
    (more : List Op) (hm : ∀ op ∈ more, ∀ a, ¬ op.approves isMatch a) : Silent isMatch (run acl more) := by
  induction more generalizing acl with
  | nil => exact h
  | cons op more ih =>
    exact ih (h.step (hm op (List.mem_cons_self ..) acl))
      (fun op' hop' => hm op' (List.mem_cons_of_mem _ hop'))

/-- **The list of approved Clients, over every history of approvals, revocations and reloads**: at most one active record
a pair; a revoked record stays as it is for good; a pair is authorized exactly when one active record holds both of its
keys; what was revoked authorizes nothing until an approval names it; and a reload authorizes the same pairs. -/
theorem authorization_over_histories (b : JsString) (ops : List Op) :
    let acl := run (new b) ops
    (∀ (p c : JsString) (i j : Nat) (r r' : BurrowAclRecord), acl.records[i]? = some r → acl.records[j]? = some r' →
      r.pairs p c = true → r'.pairs p c = true → i = j) ∧
    (∀ (i : Nat) (r : BurrowAclRecord), acl.records[i]? = some r → r.revokedAt ≠ none →
      ∀ more, (run acl more).records[i]? = some r) ∧
    (∀ p c, (∃ r, acl.authorize p c = .found r) ↔
      ∃ r ∈ acl.records, r.revokedAt = none ∧ r.passkeyCredentialId = p ∧ r.clientStaticPublicKey = c) ∧
    (∀ c now more, (∀ op ∈ more, ¬ op.approvesClient c) →
      ∀ p r, (run (acl.revokeClient c now).1 more).authorize p c ≠ .found r) ∧
    (∀ p now more, (∀ op ∈ more, ¬ op.approvesPasskey p) →
      ∀ c r, (run (acl.revokePasskey p now).1 more).authorize p c ≠ .found r) ∧
    (∃ loaded, fromRecords acl.burrowId acl.records = .ok loaded) ∧
    (∀ burrowId loaded, fromRecords burrowId acl.records = .ok loaded →
      ∀ p c, loaded.authorize p c = acl.authorize p c) := by
  intro acl
  have hs : Sound acl := sound_run b ops
  refine ⟨hs.unique, fun i r hr hv more => (run_revises more acl).revoked hr hv, authorize_iff acl, ?_, ?_,
    ⟨_, fromRecords_ok hs.own⟩, ?_⟩
  · intro c now more hm p r hr
    have hsil := (silent_revokeMatching (fun r => r.clientStaticPublicKey == c) acl now).run
      more (fun op hop a => by
        cases op with
        | approve client t => exact fun h => hm _ hop (beq_iff_eq.1 h)
        | _ => exact id)
    obtain ⟨x, hx, ha, -, hxc⟩ := (authorize_iff _ p c).1 ⟨r, hr⟩
    exact beq_eq_false_iff_ne.1 (hsil x hx ha) hxc
  · intro p now more hm c r hr
    have hsil := (silent_revokeMatching (fun r => r.passkeyCredentialId == p) acl now).run
      more (fun op hop a => by
        cases op with
        | approve client t => exact fun h => hm _ hop (beq_iff_eq.1 h)
        | _ => exact id)
    obtain ⟨x, hx, ha, hxp, -⟩ := (authorize_iff _ p c).1 ⟨r, hr⟩
    exact beq_eq_false_iff_ne.1 (hsil x hx ha) hxp
  · intro burrowId loaded h p c
    obtain ⟨rfl, -⟩ := fromRecords_eq_ok_iff.1 h
    exact authorize_congr rfl p c

end BurrowAcl

end Dormouse

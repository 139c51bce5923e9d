import Mathlib.Data.List.Induction
import Dormouse.Enrollment
/-!
# EnrollmentRun — who enrolls, and what becomes of the offers

The rows are what the enrollments that succeeded append, one after the other; the first of them found no file, and only it
can have come by a token (`PromiseChain.serial`).  An offer is at its path, or held by the attempt that runs, or redeemed
or gone for good; an attempt that took another offer than it verified leaves that one or a newer one behind
(`PromiseChain.owes_step`).
-/
namespace Dormouse
namespace Relay
namespace BurrowStore

open Resumption

/-! ## The rows -/

def enrolled (_ : EnrollRequest) (burrow : StoredBurrow) (burrows : Option (List StoredBurrow)) :
    Option (List StoredBurrow) :=
  some (burrows.getD [] ++ [burrow])

def mayEnroll (request : EnrollRequest) (burrows : Option (List StoredBurrow)) (_ : StoredBurrow) : Prop :=
  (request.enrollToken.isSome = true → burrows = none) ∧ (burrows.getD []).length < maxEnrolledBurrows

section commits
variable {g : Option (List StoredBurrow)}

theorem commits_leave {α : Type} {f : EnrollDisk → Except EnrollError (EnrollDisk × α)}
    (h : ∀ d r, f d = .ok r → r.1.burrows = d.burrows) :
    (act f).Commits EnrollDisk.burrows g (fun _ g' => g' = g ∧ True) :=
  commits_act fun d hd r hr => ⟨(h d r hr).trans hd, trivial⟩

theorem commits_renameOffer (claimPath : JsString) :
    (renameOffer claimPath).Commits EnrollDisk.burrows g (fun _ g' => g' = g ∧ True) := by
  refine commits_leave fun d r hr => ?_
  split at hr
  · cases hr
    rfl
  · split at hr <;> (cases hr; rfl)

theorem commits_unlink (claimPath : JsString) :
    (unlink claimPath).Commits EnrollDisk.burrows g (fun _ g' => g' = g ∧ True) := by
  refine commits_leave fun d r hr => ?_
  cases hr
  dsimp only
  split <;> rfl

theorem commits_spend (claimPath token : JsString) :
    (spend claimPath token).Commits EnrollDisk.burrows g (fun _ g' => g' = g ∧ True) := by
  refine commits_leave fun d r hr => ?_
  cases hr
  dsimp only
  split <;> rfl

theorem commits_link (claimPath : JsString) :
    (link claimPath).Commits EnrollDisk.burrows g (fun _ g' => g' = g ∧ True) := by
  refine commits_leave fun d r hr => ?_
  split at hr <;> (cases hr; rfl)

theorem commits_claimOffer (claimPath verifiedToken : JsString) :
    (claimOffer claimPath verifiedToken).Commits EnrollDisk.burrows g (fun _ g' => g' = g ∧ True) := by
  refine Commits.bind (fun outcome _ => ?_) (commits_renameOffer claimPath)
  cases outcome with
  | absent => exact ⟨rfl, trivial⟩
  | failed => exact ⟨rfl, trivial⟩
  | renamed =>
    refine Commits.bind (fun x _ => ?_) (commits_leave fun d r hr => by cases hr; rfl)
    obtain ⟨holds, claimed⟩ := x
    cases holds with
    | true =>
      refine Commits.bind (fun _ _ => ?_) (commits_spend claimPath verifiedToken)
      exact ⟨rfl, trivial⟩
    | false =>
      refine Commits.bind (fun _ _ => ?_)
        (Commits.bind (fun _ _ => commits_unlink claimPath) (commits_link claimPath))
      exact ⟨rfl, trivial⟩

theorem commits_redeem (dateParse : JsString → Option Int) (claimPath supplied : JsString) :
    (redeemEnrollToken dateParse claimPath supplied).Commits EnrollDisk.burrows g (fun _ g' => g' = g ∧ True) := by
  unfold redeemEnrollToken
  split
  · refine Commits.bind (fun x _ => ?_) (commits_leave fun d r hr => by cases hr; rfl)
    obtain ⟨offer, now⟩ := x
    cases offer with
    | none => exact ⟨rfl, trivial⟩
    | some offer =>
      dsimp only
      split
      · exact commits_claimOffer claimPath offer.token
      · exact ⟨rfl, trivial⟩
  · exact ⟨rfl, trivial⟩

theorem commits_invalidate (claimPath : JsString) :
    (invalidateEnrollOffer claimPath).Commits EnrollDisk.burrows g (fun _ g' => g' = g ∧ True) := by
  refine Commits.bind (fun outcome _ => ?_) (commits_renameOffer claimPath)
  cases outcome with
  | absent => exact ⟨rfl, trivial⟩
  | failed => exact ⟨rfl, trivial⟩
  | renamed =>
    refine Commits.bind (fun _ _ => ?_) (commits_unlink claimPath)
    exact ⟨rfl, trivial⟩

/-- The credential check leaves the rows, and lets a token through only as the first enrollment. -/
theorem commits_beforeEnroll (dateParse : JsString → Option Int) (configured : Bool) (request : EnrollRequest)
    (first : Bool) :
    (beforeEnroll dateParse configured request first).Commits EnrollDisk.burrows g
      (fun _ g' => g' = g ∧ (request.enrollToken.isSome = true → first = true)) := by
  unfold beforeEnroll
  cases htoken : request.enrollToken with
  | some token =>
    cases first with
    | true =>
      cases configured with
      | true =>
        refine Commits.bind (fun redemption _ => ?_) (commits_redeem dateParse request.claimPath token)
        cases redemption with
        | rejected claimed => trivial
        | notInvalidated => trivial
        | redeemed => exact ⟨rfl, fun _ => rfl⟩
      | false => trivial
    | false =>
      cases configured with
      | true =>
        refine Commits.bind (fun _ _ => ?_) (commits_invalidate request.claimPath)
        trivial
      | false => trivial
  | none =>
    dsimp only
    split
    · refine Commits.bind (fun invalidated _ => ?_) (commits_invalidate request.claimPath)
      cases invalidated with
      | true => exact ⟨rfl, fun h => by cases h⟩
      | false => trivial
    · exact ⟨rfl, fun h => by cases h⟩

theorem commits_io {α : Type} (f : EnrollDisk → α) (mid : α → Prop) (h : ∀ d, d.burrows = g → mid (f d)) :
    (act fun d => if d.faulty then .error EnrollError.io else .ok (d, f d)).Commits EnrollDisk.burrows g
      (fun a g' => g' = g ∧ mid a) := by
  refine commits_act fun d hd r hr => ?_
  split at hr
  · cases hr
  · cases hr
    exact ⟨hd, h d hd⟩

theorem commits_enroll (dateParse : JsString → Option Int) (configured : Bool) (request : EnrollRequest)
    (g : Option (List StoredBurrow)) :
    (enroll dateParse configured request).Commits EnrollDisk.burrows g
      (fun burrow g' => g' = enrolled request burrow g ∧ mayEnroll request g burrow) := by
  refine Commits.bind (fun there hthere => ?_)
    (commits_io (fun d => d.burrows.isSome) (fun there => there = g.isSome) (fun d hd => congrArg Option.isSome hd))
  refine Commits.bind (fun _ hfirst => ?_) (commits_beforeEnroll dateParse configured request (!there))
  have hnone : request.enrollToken.isSome = true → g = none := by
    intro htoken
    rw [hthere] at hfirst
    simpa using hfirst htoken
  refine Commits.bind (fun x hx => ?_) (Commits.bind (fun _ _ => commits_io (fun d => (d.burrows.getD [], d.now))
    (fun x => x.1 = g.getD []) (fun d hd => congrArg (fun b => b.getD []) hd)) (commits_io (fun _ => ()) (fun _ => True)
    (fun _ _ => trivial)))
  obtain ⟨burrows, now⟩ := x
  dsimp only at hx
  subst hx
  dsimp only
  split
  · trivial
  · rename_i hroom
    refine Commits.bind (fun _ _ => ?_) (commits_io (fun _ => ()) (fun _ => True) (fun _ _ => trivial))
    refine Commits.bind (fun _ _ => ?_) (commits_io (fun _ => ()) (fun _ => True) (fun _ _ => trivial))
    refine commits_last (h := fun _ => _) fun d hd r hr => ?_
    split at hr
    · cases hr
    · cases hr
      exact ⟨rfl, hnone, Nat.lt_of_not_le hroom⟩

end commits

/-- What a list of settled enrollments answered, each from the rows it found. -/
def Answered (g : Option (List StoredBurrow)) (settled : List (EnrollRequest × Except EnrollError StoredBurrow)) : Prop :=
  ∀ earlier e later, settled = earlier ++ e :: later →
    ∀ a, e.2 = .ok a → mayEnroll e.1 (PromiseChain.outcome enrolled g earlier) a

def byToken (e : EnrollRequest × Except EnrollError StoredBurrow) : Bool := e.1.enrollToken.isSome && e.2.toBool

/-- **The rows after the enrollments that settled**: those that succeeded are there, within the cap, and at most one of
them came by a token. -/
theorem rows_after {g : Option (List StoredBurrow)} (hg : (g.getD []).length ≤ maxEnrolledBurrows)
    (settled : List (EnrollRequest × Except EnrollError StoredBurrow)) (h : Answered g settled) :
    (∀ e ∈ settled, ∀ a, e.2 = .ok a → a ∈ (PromiseChain.outcome enrolled g settled).getD []) ∧
      ((PromiseChain.outcome enrolled g settled).getD []).length ≤ maxEnrolledBurrows ∧
      settled.countP byToken ≤ 1 ∧ (PromiseChain.outcome enrolled g settled = none → settled.countP byToken = 0) := by
  induction settled using List.reverseRecOn with
  | nil => exact ⟨fun e he => absurd he List.not_mem_nil, hg, Nat.zero_le 1, fun _ => rfl⟩
  | append_singleton settled e ih =>
    obtain ⟨hearlier, hlast⟩ := Mealy.everywhere_concat.1 h
    obtain ⟨hrows, hcap, hone, hnone⟩ := ih hearlier
    obtain ⟨request, res⟩ := e
    rw [PromiseChain.outcome_concat, List.countP_append, List.countP_singleton]
    cases res with
    | error err =>
      have hbad : byToken (request, .error err) = false := by simp [byToken, Except.toBool]
      simp only [hbad, Bool.false_eq_true, if_false, Nat.add_zero]
      refine ⟨fun e he a ha => ?_, hcap, hone, hnone⟩
      rcases List.mem_append.1 he with he | he
      · exact hrows e he a ha
      · rw [List.mem_singleton.1 he] at ha
        cases ha
    | ok burrow =>
      obtain ⟨hfirst, hroom⟩ := hlast burrow rfl
      refine ⟨fun e he a ha => ?_, ?_, ?_, fun habs => by cases habs⟩
      · rcases List.mem_append.1 he with he | he
        · exact List.mem_append_left _ (hrows e he a ha)
        · rw [List.mem_singleton.1 he] at ha
          cases ha
          exact List.mem_append_right _ (List.mem_singleton.2 rfl)
      · show ((PromiseChain.outcome enrolled g settled).getD [] ++ [burrow]).length ≤ maxEnrolledBurrows
        rw [List.length_append, List.length_singleton]
        exact hroom
      · by_cases htoken : byToken (request, .ok burrow) = true
        · -- it found no file, so none before it came by a token
          have hempty := hnone (hfirst (Bool.and_eq_true_iff.1 htoken).1)
          rw [if_pos htoken]
          omega
        · rw [if_neg htoken]
          exact hone

/-! ## The offers -/

def Known (d : EnrollDisk) (file : OfferFile) : Prop := d.published[file.generation]? = some file.offer

/-- Offers are told apart by their tokens, and none at the path is redeemed. -/
structure Offers (d : EnrollDisk) : Prop where
  tokens : (d.published.map (·.token)).Nodup
  path : ∀ file, d.offer = some file → Known d file ∧ file.offer.token ∉ d.redeemed
  redeemed : d.redeemed.Nodup
  known : ∀ t ∈ d.redeemed, t ∈ d.published.map (·.token)

/-- The world keeps the claims and what is redeemed; a published offer is the newest, with a token of its own. -/
def Moves (d d' : EnrollDisk) : Prop :=
  d'.claims = d.claims ∧ d'.redeemed = d.redeemed ∧
    ((d'.offer = d.offer ∧ d'.published = d.published) ∨
      ∃ offer, offer.token ∉ d.published.map (·.token) ∧ d'.offer = some ⟨d.published.length, offer⟩ ∧
        d'.published = d.published ++ [offer])

/-- The attempt holds an offer at its claim's path, and what is at the well-known path is newer. -/
structure Holding (claimPath : JsString) (file : OfferFile) (d : EnrollDisk) : Prop where
  offers : Offers d
  claim : d.claims.get claimPath = some file
  known : Known d file
  unspent : file.offer.token ∉ d.redeemed
  newer : ∀ other, d.offer = some other → file.generation < other.generation

def Left (file : OfferFile) (d : EnrollDisk) : Prop := ∃ other, d.offer = some other ∧ file.generation ≤ other.generation

variable {file : OfferFile}

theorem Known.lt {d : EnrollDisk} (h : Known d file) : file.generation < d.published.length :=
  (List.getElem?_eq_some_iff.1 h).1

theorem Known.mem {d : EnrollDisk} (h : Known d file) :
    file.offer.token ∈ d.published.map (·.token) :=
  List.mem_map_of_mem (f := EnrollmentOffer.token) (List.mem_of_getElem? h)

theorem Known.publish {d d' : EnrollDisk} {offer : EnrollmentOffer} (h : Known d file)
    (hpub : d'.published = d.published ++ [offer]) : Known d' file := by
  unfold Known
  rw [hpub, List.getElem?_append_left h.lt]
  exact h

theorem token_ne {d : EnrollDisk} (hd : (d.published.map (·.token)).Nodup) {file other : OfferFile} (h : Known d file)
    (h' : Known d other) (hne : file.generation ≠ other.generation) : file.offer.token ≠ other.offer.token := by
  intro heq
  have hfile : (d.published.map (·.token))[file.generation]? = some file.offer.token := by
    rw [List.getElem?_map, h]
    rfl
  have hother : (d.published.map (·.token))[other.generation]? = some file.offer.token := by
    rw [List.getElem?_map, h', heq]
    rfl
  have hlt : file.generation < (d.published.map (·.token)).length := by
    rw [List.length_map]
    exact h.lt
  exact hne ((List.getElem?_inj hlt hd).1 (hfile.trans hother.symm))

theorem stable_offers : Stable Moves Offers := by
  rintro d d' ⟨-, hred, ⟨hoffer, hpub⟩ | ⟨offer, hfresh, hoffer, hpub⟩⟩ hd
  · refine ⟨hpub ▸ hd.tokens, fun file hfile => ?_, hred ▸ hd.redeemed, fun t ht => ?_⟩
    · obtain ⟨hknown, hspent⟩ := hd.path file (hoffer ▸ hfile)
      exact ⟨by unfold Known; rw [hpub]; exact hknown, hred ▸ hspent⟩
    · rw [hpub]
      exact hd.known t (hred ▸ ht)
  · refine ⟨?_, fun file hfile => ?_, hred ▸ hd.redeemed, fun t ht => ?_⟩
    · rw [hpub, List.map_append, List.map_singleton]
      refine List.nodup_append.2 ⟨hd.tokens, List.nodup_singleton _, fun a ha b hb => ?_⟩
      rw [List.mem_singleton.1 hb]
      rintro rfl
      exact hfresh ha
    · rw [hoffer] at hfile
      cases hfile
      refine ⟨by simp [Known, hpub], fun hspent => hfresh ?_⟩
      exact hd.known _ (hred ▸ hspent)
    · rw [hpub, List.map_append]
      exact List.mem_append_left _ (hd.known t (hred ▸ ht))

theorem stable_holding (claimPath : JsString) (file : OfferFile) : Stable Moves (Holding claimPath file) := by
  intro d d' hmove hd
  have hoffers := stable_offers d d' hmove hd.offers
  obtain ⟨hclaims, hred, ⟨hoffer, hpub⟩ | ⟨offer, -, hoffer, hpub⟩⟩ := hmove
  · refine ⟨hoffers, hclaims ▸ hd.claim, ?_, hred ▸ hd.unspent, fun other ho => hd.newer other (hoffer ▸ ho)⟩
    unfold Known
    rw [hpub]
    exact hd.known
  · refine ⟨hoffers, hclaims ▸ hd.claim, hd.known.publish hpub, hred ▸ hd.unspent, fun other ho => ?_⟩
    rw [hoffer] at ho
    cases ho
    exact hd.known.lt

theorem stable_left (file : OfferFile) : Stable Moves (fun d => Offers d ∧ Left file d) := by
  intro d d' hmove ⟨hoffers, other, ho, hle⟩
  refine ⟨stable_offers d d' hmove hoffers, ?_⟩
  obtain ⟨-, -, ⟨hoffer, -⟩ | ⟨offer, -, hoffer, -⟩⟩ := hmove
  · exact ⟨other, hoffer.trans ho, hle⟩
  · exact ⟨_, hoffer, hle.trans (Nat.le_of_lt (hoffers.path other ho).1.lt)⟩


theorem Offers.congr {d d' : EnrollDisk} (h : Offers d) (hoffer : d'.offer = d.offer) (hpub : d'.published = d.published)
    (hred : d'.redeemed = d.redeemed) : Offers d' := by
  refine ⟨hpub ▸ h.tokens, fun file hfile => ?_, hred ▸ h.redeemed, fun t ht => ?_⟩
  · obtain ⟨hknown, hspent⟩ := h.path file (hoffer ▸ hfile)
    exact ⟨by unfold Known; rw [hpub]; exact hknown, hred ▸ hspent⟩
  · rw [hpub]
    exact h.known t (hred ▸ ht)

/-! ### What an attempt does to the offers -/

theorem meets_renameOffer (claimPath : JsString) :
    (renameOffer claimPath).Meets Moves Offers (Returns fun outcome d => match outcome with
      | .renamed => ∃ file, Holding claimPath file d
      | _ => Offers d) Offers := by
  refine meets_act stable_offers (fun _ h => h) fun d hd => ?_
  by_cases hfault : d.faulty = true
  · simp only [hfault, if_true]
    exact hd
  · simp only [hfault]
    cases hoffer : d.offer with
    | none => exact hd
    | some file =>
      obtain ⟨hknown, hspent⟩ := hd.path file hoffer
      refine ⟨file, ⟨hd.tokens, fun _ habs => ?_, hd.redeemed, hd.known⟩, OrdMap.get_set_self .., hknown, hspent, ?_⟩
      · cases habs
      · rintro _ habs
        cases habs

theorem meets_unlink (claimPath : JsString) {P : EnrollDisk → Prop} (hst : Stable Moves P)
    (hI : ∀ d, P d → Offers d) (hP : ∀ d claims, P d → P { d with claims }) : (unlink claimPath).Meets Moves Offers
    (Returns fun _ => P) P := by
  refine meets_act hst hI fun d hd => ?_
  dsimp only
  split
  · exact hd
  · exact hP d _ hd

theorem meets_spend {claimPath : JsString} :
    (spend claimPath file.offer.token).Meets Moves Offers (Returns fun _ => Offers) (Holding claimPath file) := by
  refine meets_act (stable_holding claimPath file) (fun _ h => h.offers) fun d hd => ?_
  have hoffers : Offers { d with redeemed := d.redeemed ++ [file.offer.token] } := by
    refine ⟨hd.offers.tokens, fun other ho => ?_, ?_, fun t ht => ?_⟩
    · obtain ⟨hknown, hspent⟩ := hd.offers.path other ho
      refine ⟨hknown, fun hmem => ?_⟩
      rcases List.mem_append.1 hmem with hmem | hmem
      · exact hspent hmem
      · exact token_ne hd.offers.tokens hd.known hknown (Nat.ne_of_lt (hd.newer other ho)) (List.mem_singleton.1 hmem).symm
    · refine List.nodup_append.2 ⟨hd.offers.redeemed, List.nodup_singleton _, fun a ha b hb => ?_⟩
      rw [List.mem_singleton.1 hb]
      rintro rfl
      exact hd.unspent ha
    · rcases List.mem_append.1 ht with ht | ht
      · exact hd.offers.known t ht
      · rw [List.mem_singleton.1 ht]
        exact hd.known.mem
  dsimp only
  split
  · exact hoffers
  · exact hoffers.congr rfl rfl rfl

theorem meets_releaseClaim {claimPath : JsString} :
    (releaseClaim claimPath).Meets Moves Offers (Returns fun _ d => Offers d ∧ Left file d) (Holding claimPath file) := by
  refine Meets.seq (meets_act (stable_holding claimPath file) (fun _ h => h.offers) fun d hd => ?_)
    (fun _ => meets_unlink claimPath
    (stable_left file) (fun _ h => h.1) (fun d claims h => ⟨h.1.congr rfl rfl rfl, h.2⟩))
  rw [hd.claim]
  cases hoffer : d.offer with
  | none =>
    refine ⟨⟨hd.offers.tokens, fun other ho => ?_, hd.offers.redeemed, hd.offers.known⟩, file, rfl, Nat.le_refl _⟩
    cases ho
    exact ⟨hd.known, hd.unspent⟩
  | some other => exact ⟨hd.offers, other, hoffer, Nat.le_of_lt (hd.newer other hoffer)⟩

/-- What a redemption leaves: where it claimed another offer than it verified, that one or a newer one. -/
def Redeems (redemption : Redemption) (d : EnrollDisk) : Prop :=
  Offers d ∧ ∀ file, redemption = .rejected (some file) → Left file d

theorem meets_claimOffer (claimPath verifiedToken : JsString) :
    (claimOffer claimPath verifiedToken).Meets Moves Offers (Returns Redeems) Offers := by
  refine Meets.seq (meets_renameOffer claimPath) fun outcome => ?_
  cases outcome with
  | absent => exact fun d hd => ⟨hd, fun _ habs => by cases habs⟩
  | failed => exact fun d hd => ⟨hd, fun _ habs => by cases habs⟩
  | renamed =>
    -- the attempt holds some file, and learns which
    have hholds : (claimHolds claimPath verifiedToken).Meets Moves Offers (Returns fun x d => ∃ file, Holding claimPath file d ∧
        x.2 = some file ∧ (x.1 = true → verifiedToken = file.offer.token)) (fun d => ∃ file, Holding claimPath file d) := by
      refine meets_act (fun d d' hmove ⟨file, hd⟩ => ⟨file, stable_holding claimPath file d d' hmove hd⟩)
        (fun d ⟨_, hd⟩ => hd.offers) ?_
      rintro d ⟨file, hd⟩
      refine ⟨file, hd, hd.claim, fun hread => ?_⟩
      by_cases hfault : d.faulty = true
      · simp [hfault] at hread
      · simpa [hfault, hd.claim] using hread
    refine Meets.seq hholds fun x => ?_
    obtain ⟨holds, claimed⟩ := x
    refine Meets.any fun file => Meets.when fun hfile => ?_
    obtain ⟨hclaimed, hverified⟩ := hfile
    dsimp only at hclaimed
    cases holds with
    | true =>
      rw [hverified rfl]
      exact Meets.seq meets_spend (fun _ d hd => ⟨hd, fun _ habs => by cases habs⟩)
    | false =>
      refine Meets.seq meets_releaseClaim fun _ d hd => ⟨hd.1, fun other hother => ?_⟩
      have hfilter : claimed.filter (fun file => file.offer.token ≠ verifiedToken) = some other :=
        Redemption.rejected.inj hother
      have hsame : claimed = some other := (Option.filter_eq_some_iff.1 hfilter).1
      rw [hclaimed] at hsame
      cases hsame
      exact hd.2

theorem meets_redeem (dateParse : JsString → Option Int) (claimPath supplied : JsString) :
    (redeemEnrollToken dateParse claimPath supplied).Meets Moves Offers (Returns Redeems) Offers := by
  have hnone : (pure (.rejected none) : EnrollCall Redemption).Meets Moves Offers (Returns Redeems) Offers :=
    fun d hd => ⟨hd, fun _ habs => by cases habs⟩
  unfold redeemEnrollToken
  split
  · refine Meets.seq (A := fun _ => Offers) (meets_act stable_offers (fun _ h => h) fun d hd => hd) fun x => ?_
    obtain ⟨offer, now⟩ := x
    cases offer with
    | none => exact hnone
    | some offer =>
      dsimp only
      split
      · exact meets_claimOffer claimPath offer.token
      · exact hnone
  · exact hnone

theorem meets_invalidate (claimPath : JsString) :
    (invalidateEnrollOffer claimPath).Meets Moves Offers (Returns fun _ => Offers) Offers := by
  refine Meets.seq (meets_renameOffer claimPath) fun outcome => ?_
  cases outcome with
  | absent => exact fun d hd => hd
  | failed => exact fun d hd => hd
  | renamed =>
    have hoffers : Meets Moves Offers (Returns fun _ => Offers) (unlink claimPath >>= fun _ =>
      (pure true : EnrollCall Bool)) Offers :=
      Meets.seq (meets_unlink claimPath stable_offers (fun _ h => h) (fun d claims h => h.congr rfl rfl rfl)) (fun _ d hd => hd)
    exact hoffers.pre (fun d ⟨_, hd⟩ => hd.offers)

def Leaves {α : Type} (res : Except EnrollError α) (d : EnrollDisk) : Prop :=
  ∀ file, res = .error (.credentialRejected (some file)) → Left file d

theorem meets_beforeEnroll (dateParse : JsString → Option Int) (configured : Bool) (request : EnrollRequest)
    (first : Bool) :
    (beforeEnroll dateParse configured request first).Meets Moves Offers (fun res d => Offers d ∧ Leaves res d) Offers := by
  have hthrow : ∀ {e : EnrollError}, (∀ file, e ≠ .credentialRejected (some file)) →
      (Resumption.throw e : EnrollCall Unit).Meets Moves Offers (fun res d => Offers d ∧ Leaves res d) Offers :=
    fun he d hd => ⟨hd, fun file hres => absurd (Except.error.inj hres) (he file)⟩
  have hpure : (pure () : EnrollCall Unit).Meets Moves Offers (fun res d => Offers d ∧ Leaves res d) Offers :=
    fun d hd => ⟨hd, fun _ hres => by cases hres⟩
  unfold beforeEnroll
  cases request.enrollToken with
  | some token =>
    cases first with
    | true =>
      cases configured with
      | true =>
        refine Meets.seq (meets_redeem dateParse request.claimPath token) fun redemption => ?_
        cases redemption with
        | rejected claimed =>
          refine fun d hd => ⟨hd.1, fun file hres => hd.2 file ?_⟩
          rw [EnrollError.credentialRejected.inj (Except.error.inj hres)]
        | notInvalidated => exact (hthrow (by simp)).pre (fun d hd => hd.1)
        | redeemed => exact hpure.pre (fun d hd => hd.1)
      | false => exact hthrow (by simp)
    | false =>
      cases configured with
      | true => exact Meets.seq (meets_invalidate request.claimPath) (fun _ => hthrow (by simp))
      | false => exact hthrow (by simp)
  | none =>
    dsimp only
    split
    · refine Meets.seq (meets_invalidate request.claimPath) fun invalidated => ?_
      cases invalidated with
      | true => exact hpure
      | false => exact hthrow (by simp)
    · exact hpure

theorem meets_io {α : Type} (f : EnrollDisk → EnrollDisk × α) (h : ∀ d, Offers d → Offers (f d).1) :
    (act fun d => if d.faulty then .error EnrollError.io else .ok (f d)).Meets Moves Offers (fun res d =>
      Offers d ∧ Leaves res d)
      Offers := by
  refine meets_act stable_offers (fun _ h => h) fun d hd => ?_
  by_cases hfault : d.faulty = true
  · simp only [hfault, if_true]
    exact ⟨hd, fun _ hres => by cases hres⟩
  · simp only [hfault]
    exact ⟨h d hd, fun _ hres => by cases hres⟩

/-- **An attempt leaves the offers in order, and where it claimed another offer than it verified, that one or a newer one at
the well-known path.** -/
theorem meets_enroll (dateParse : JsString → Option Int) (configured : Bool) (request : EnrollRequest) :
    (enroll dateParse configured request).Meets Moves Offers (fun res d => Offers d ∧ Leaves res d) Offers := by
  -- what an earlier part throws is what the attempt throws
  have hthen : ∀ {α β : Type} {r : EnrollCall α} {f : α → EnrollCall β},
      r.Meets Moves Offers (fun res d => Offers d ∧ Leaves res d) Offers →
      (∀ a, (f a).Meets Moves Offers (fun res d => Offers d ∧ Leaves res d) Offers) →
      (r >>= f).Meets Moves Offers (fun res d => Offers d ∧ Leaves res d) Offers := by
    intro α β r f hr hf
    refine Meets.bind (fun a => (hf a).pre (fun d hd => hd.1)) (fun e d hd => ⟨hd.1, fun file hres => ?_⟩) hr
    exact hd.2 file (congrArg Except.error (Except.error.inj hres))
  refine hthen (meets_io (fun d => (d, d.burrows.isSome)) (fun d hd => hd)) fun there => ?_
  refine hthen (meets_beforeEnroll dateParse configured request (!there)) fun _ => ?_
  refine hthen (hthen (meets_io (fun d => (d, ())) (fun d hd => hd)) fun _ =>
    meets_io (fun d => (d, d.burrows.getD [], d.now)) (fun d hd => hd)) fun x => ?_
  obtain ⟨burrows, now⟩ := x
  dsimp only
  split
  · exact fun d hd => ⟨hd, fun _ hres => by cases hres⟩
  · refine hthen (meets_io (fun d => (d, ())) (fun d hd => hd)) fun _ => ?_
    refine hthen (meets_io (fun d => (d, ())) (fun d hd => hd)) fun _ => ?_
    refine hthen (meets_io (fun d => ({ d with burrows := some _ }, ())) (fun d hd => hd.congr rfl rfl rfl)) fun _ => ?_
    exact fun d hd => ⟨hd, fun _ hres => by cases hres⟩

/-! ## Every run -/

theorem moves_outside {c : BurrowStore} {ev : EnrollEvent} (h : FreshOffer c ev) (w : World)
    (hw : ev.toEvent = .outside w) : Moves c.shared (outside w c.shared) := by
  cases ev with
  | request r => cases hw
  | resume => cases hw
  | world w' =>
    cases hw
    cases w with
    | publish offer =>
      refine ⟨rfl, rfl, .inr ⟨offer, fun hmem => ?_, rfl, rfl⟩⟩
      obtain ⟨o, ho, heq⟩ := List.mem_map.1 hmem
      exact h o ho heq
    | clock now => exact ⟨rfl, rfl, .inl ⟨rfl, rfl⟩⟩
    | fault faulty => exact ⟨rfl, rfl, .inl ⟨rfl, rfl⟩⟩

section run
variable (dateParse : JsString → Option Int) (configured : Bool)

abbrev OwesOffers (c : BurrowStore) : Prop :=
  PromiseChain.Owes (enroll dateParse configured) Moves Offers (fun _ res d => Leaves res d) c

theorem owes_offers_step {c : BurrowStore} {ev : EnrollEvent} (hfresh : FreshOffer c ev)
    (hc : OwesOffers dateParse configured c) :
    OwesOffers dateParse configured (step dateParse configured c ev) ∧
      ((step dateParse configured c ev).settled = c.settled ∨ ∃ request res,
        (step dateParse configured c ev).settled = c.settled ++ [(request, res)] ∧
          Offers (step dateParse configured c ev).shared ∧ Leaves res (step dateParse configured c ev).shared) :=
  PromiseChain.owes_step stable_offers (meets_enroll dateParse configured) (fun e => by cases ev <;> (intro h; cases h))
    (moves_outside hfresh) hc

theorem owes_offers_start (burrows : Option (List StoredBurrow)) (now : Int) :
    OwesOffers dateParse configured (start burrows now) := by
  refine ⟨⟨List.nodup_nil, fun _ h => ?_, List.nodup_nil, fun _ h => ?_⟩, trivial⟩
  · cases h
  · cases h

theorem run_eq (burrows : Option (List StoredBurrow)) (now : Int) (events : List EnrollEvent) :
    Steps.run (step dateParse configured) (start burrows now) events =
      Steps.run (PromiseChain.step (enroll dateParse configured) outside) (start burrows now)
      (events.map EnrollEvent.toEvent) := by
  unfold Steps.run
  rw [List.foldl_map]
  rfl

/-- **Enrollment from the first Burrow on**, over every interleaving of enroll requests, by token or setup password, with
the publications of an installer whose offers have tokens of their own.  At most one enrollment by a token succeeds, and it
found no `burrows.json`; a token is redeemed at most once; an attempt that claimed another offer than it verified leaves
that one or a newer one at the well-known path; and the stored list has the row of every enrollment that succeeded, within
its cap. -/
theorem enrollment_bootstrap (burrows : Option (List StoredBurrow)) (now : Int) (events : List EnrollEvent)
    (hcap : (burrows.getD []).length ≤ maxEnrolledBurrows)
    (hfresh : Steps.Along (step dateParse configured) FreshOffer (start burrows now) events) :
    let c := Steps.run (step dateParse configured) (start burrows now) events
    c.settled.countP byToken ≤ 1 ∧
      c.shared.burrows = PromiseChain.outcome enrolled burrows c.settled ∧
      (∀ earlier request burrow later, c.settled = earlier ++ (request, .ok burrow) :: later →
        request.enrollToken.isSome = true → PromiseChain.outcome enrolled burrows earlier = none) ∧
      c.shared.redeemed.Nodup ∧
      (∀ earlier ev later, events = earlier ++ ev :: later → ∀ request file,
        (Steps.run (step dateParse configured) (start burrows now) (earlier ++ [ev])).settled =
          (Steps.run (step dateParse configured) (start burrows now) earlier).settled ++
            [(request, .error (.credentialRejected (some file)))] →
        Left file (Steps.run (step dateParse configured) (start burrows now) (earlier ++ [ev])).shared) ∧
      (∀ e ∈ c.settled, ∀ burrow, e.2 = .ok burrow → burrow ∈ c.shared.burrows.getD []) ∧
      (c.shared.burrows.getD []).length ≤ maxEnrolledBurrows := by
  intro c
  have hserial : PromiseChain.Serial (enroll dateParse configured) EnrollDisk.burrows enrolled mayEnroll burrows c := by
    show PromiseChain.Serial _ _ _ _ _ (Steps.run (step dateParse configured) (start burrows now) events)
    rw [run_eq]
    have hstart : EnrollDisk.burrows ⟨burrows, none, OrdMap.empty, now, false, [], []⟩ = burrows := rfl
    exact PromiseChain.serial (commits_enroll dateParse configured)
      (show ∀ w d, EnrollDisk.burrows (outside w d) = d.burrows from fun w _ => by cases w <;> rfl) hstart _
  have howes : ∀ l, Steps.Along (step dateParse configured) FreshOffer (start burrows now) l →
      OwesOffers dateParse configured (Steps.run (step dateParse configured) (start burrows now) l) := fun l hl =>
    Steps.run_invariant_along (I := OwesOffers dateParse configured)
      (fun _ _ hf hc => (owes_offers_step dateParse configured hf hc).1) l _ hl
      (owes_offers_start dateParse configured burrows now)
  obtain ⟨hrows, hlen, hone, -⟩ := rows_after hcap c.settled hserial.answered
  refine ⟨hone, hserial.reading, ?_, (howes events hfresh).1.redeemed, ?_, ?_, ?_⟩
  · intro earlier request burrow later hsplit htoken
    exact (hserial.answered earlier _ later hsplit burrow rfl).1 htoken
  · rintro earlier ev later rfl request file hset
    obtain ⟨hfirst, hev, -⟩ := (Steps.along_append earlier _ _).1 hfresh
    have hrun : Steps.run (step dateParse configured) (start burrows now) (earlier ++ [ev]) =
        step dateParse configured (Steps.run (step dateParse configured) (start burrows now) earlier) ev :=
      Steps.run_append ..
    rw [hrun] at hset ⊢
    rcases (owes_offers_step dateParse configured hev (howes earlier hfirst)).2 with hsame | ⟨request', res, hgrown, -, hleaves⟩
    · rw [hset] at hsame
      exact absurd hsame (by simp)
    · rw [hset] at hgrown
      obtain ⟨-, hres⟩ := Prod.mk.inj (List.cons.inj (List.append_cancel_left hgrown)).1
      exact hleaves file hres.symm
  · rw [hserial.reading]
    exact hrows
  · rw [hserial.reading]
    exact hlen

end run


def sampleOffer (digit : UInt16) : EnrollmentOffer := ⟨[], List.replicate 64 digit, []⟩

def sampleRequest : EnrollRequest := ⟨some (List.replicate 64 48), [1], [2], [3]⟩

/-- An installer publishes a second offer while an attempt has verified the first. -/
def racedOffer : List EnrollEvent :=
  [.world (.publish (sampleOffer 48)), .request sampleRequest, .resume, .resume, .world (.publish (sampleOffer 49)),
    .resume, .resume, .resume, .resume]

theorem enrollment_bootstrap_raced :
    Steps.Along (step (fun _ => some 0) true) FreshOffer (start none 0) racedOffer ∧
      (Steps.run (step (fun _ => some 0) true) (start none 0) racedOffer).settled.countP byToken ≤ 1 ∧
      Left ⟨1, sampleOffer 49⟩ (Steps.run (step (fun _ => some 0) true) (start none 0) racedOffer).shared := by
  have hfresh : Steps.Along (step (fun _ => some 0) true) FreshOffer (start none 0) racedOffer := by
    refine ⟨fun _ ho => absurd ho List.not_mem_nil, trivial, trivial, trivial, fun o ho => ?_, trivial, trivial, trivial,
      trivial, trivial⟩
    rw [List.mem_singleton.1 (show o ∈ [sampleOffer 48] from ho)]
    decide
  have h := enrollment_bootstrap (fun _ => some 0) true none 0 racedOffer (Nat.zero_le _) hfresh
  refine ⟨hfresh, h.1, ?_⟩
  exact h.2.2.2.2.1 (racedOffer.take 8) .resume [] rfl sampleRequest ⟨1, sampleOffer 49⟩ rfl


end BurrowStore
end Relay
end Dormouse

import Dormouse.OneTimeRun
/-!
# OneTimeCeremony — one link to one phone

The key is minted once and given up at the one reservation; a promotion takes the reservation with it; an answer spends
the one attempt and leaves no reservation behind.  `Core` counts these along the log, `Phone` is what holds of the phone the
link is reserved for, and `Closed` of a runtime that has ended.
-/
namespace Dormouse
namespace OneTime

open Burrow (Ref)

namespace OneTimeRuntime

def tokens (s : OneTimeRuntime) : Nat :=
  if s.state = .idle ∨ s.minting = true ∨ s.keyPair.isSome = true then 1 else 0

/-- **What a promotion takes**: the log before it ends with the approval of the phone's request, the first answer to it,
with the digits of that phone's own request and before the link expired. -/
def Earned (link : Option OneTimeLink) (before : List Event) (phone : Ref) : Prop :=
  ∃ earlier typed approvedAt label l, before = earlier ++ [.approved phone typed approvedAt] ∧
    (∀ e ∈ earlier, e.answers phone = false) ∧ .reserved phone ∈ earlier ∧ .requested phone typed label ∈ earlier ∧
    link = some l ∧ oneTimeLinkExpired l approvedAt = false

structure Core (s : OneTimeRuntime) : Prop where
  keyed      : s.keyPair.isSome = true → s.state ≠ .idle ∧ s.minting = false
  key        : s.tokens + s.log.countP Event.isReserved ≤ 1
  spent      : s.log.countP Event.isPromoted + (if s.reserved.isSome then 1 else 0) ≤ s.log.countP Event.isReserved
  answered   : ∀ e ∈ s.log, ∀ phone, e.answers phone = true → .reserved phone ∈ s.log
  serving    : s.established.isSome = true → 0 < s.log.countP Event.isPromoted
  promoted   : ∀ before after session phone, s.log = before ++ .promoted session phone :: after → Earned s.link before phone
  unrelayed  : ∀ session text, .handled session .relay text ∉ s.log
  directOnly : DirectOnly s
  live       : Live s
  cleared    : Cleared s

/-- The phone the link is reserved for: unanswered, its request surfaced as it sent it. -/
def Phone (s : OneTimeRuntime) : Prop :=
  ∀ p, s.reserved = some p → p.attempted = false ∧ .reserved p.ref ∈ s.log ∧ (∀ e ∈ s.log, e.answers p.ref = false) ∧
    (∀ r, p.request = some r → .requested p.ref r.code r.label ∈ s.log) ∧ s.established = none

/-- An event that neither reserves nor promotes, nor gives the api a message of the rendezvous; an answer is to a phone
that was reserved. -/
structure Mild (s : OneTimeRuntime) (e : Event) : Prop where
  reserved : e.isReserved = false
  promoted : e.isPromoted = false
  relayed  : ∀ session text, e ≠ .handled session .relay text
  answers  : ∀ phone, e.answers phone = true → .reserved phone ∈ s.log

theorem mild_of_plain (s : OneTimeRuntime) {e : Event} (h : e.plain = true) : Mild s e where
  reserved := Event.isReserved_of_plain h
  promoted := Event.isPromoted_of_plain h
  relayed session text heq := by rw [heq] at h; cases h
  answers phone ha := by rw [Event.answers_of_plain h] at ha; cases ha

theorem split_of_append {α : Type} {a b c d : List α} {x : α} (h : a ++ b = c ++ x :: d) (hx : x ∉ b) :
    ∃ d', a = c ++ x :: d' := by
  rcases List.append_eq_append_iff.1 h with ⟨m, hc, hb⟩ | ⟨m, ha, hxd⟩
  · exact absurd (hb ▸ List.mem_append_right m (List.mem_cons_self ..)) hx
  · cases m with
    | nil =>
      rw [List.nil_append] at hxd
      exact absurd (hxd ▸ List.mem_cons_self ..) hx
    | cons y m =>
      rw [List.cons_append] at hxd
      obtain ⟨rfl, -⟩ := List.cons.inj hxd
      exact ⟨m, ha⟩

variable {s s' : OneTimeRuntime}

/-- **The log grows by mild events.** -/
theorem Core.append (h : Core s) (hkeyed : s'.keyPair.isSome = true → s'.state ≠ .idle ∧ s'.minting = false)
    (htokens : s'.tokens ≤ s.tokens) (hlink : s.link = none ∨ s'.link = s.link)
    (hr : s'.reserved.isSome = true → s.reserved.isSome = true)
    (hest : s'.established.isSome = true → s.established.isSome = true) (hd : DirectOnly s') (hv : Live s')
    (hc : Cleared s') {l : List Event} (hlog : s'.log = s.log ++ l) (hl : ∀ e ∈ l, Mild s e) : Core s' := by
  have hres : s'.log.countP Event.isReserved = s.log.countP Event.isReserved := by
    have hnil : l.countP Event.isReserved = 0 :=
      List.countP_eq_zero.2 (fun e he => by rw [(hl e he).reserved]; exact Bool.false_ne_true)
    rw [hlog, List.countP_append, hnil, Nat.add_zero]
  have hpro : s'.log.countP Event.isPromoted = s.log.countP Event.isPromoted := by
    have hnil : l.countP Event.isPromoted = 0 :=
      List.countP_eq_zero.2 (fun e he => by rw [(hl e he).promoted]; exact Bool.false_ne_true)
    rw [hlog, List.countP_append, hnil, Nat.add_zero]
  have hmem : ∀ e ∈ s.log, e ∈ s'.log := fun e he => by rw [hlog]; exact List.mem_append_left _ he
  refine
    { keyed := hkeyed, key := ?_, spent := ?_, answered := fun e he phone ha => ?_
      serving := fun h' => hpro.symm ▸ h.serving (hest h')
      promoted := fun before after session phone heq => ?_, unrelayed := fun session text hin => ?_
      directOnly := hd, live := hv, cleared := hc }
  · rw [hres]
    exact (Nat.add_le_add_right htokens _).trans h.key
  · rw [hres, hpro]
    refine (Nat.add_le_add_left ?_ _).trans h.spent
    split
    · rename_i hs'
      rw [if_pos (hr hs')]
    · exact Nat.zero_le _
  · rw [hlog, List.mem_append] at he
    rcases he with he | he
    · exact hmem _ (h.answered e he phone ha)
    · exact hmem _ ((hl e he).answers phone ha)
  · have hnot : Event.promoted session phone ∉ l := fun hin => Bool.false_ne_true (hl _ hin).promoted.symm
    obtain ⟨after', heq'⟩ := split_of_append (hlog.symm.trans heq) hnot
    have hearned := h.promoted before after' session phone heq'
    rcases hlink with hnone | hsame
    · obtain ⟨_, _, _, _, l', -, -, -, -, hl', -⟩ := hearned
      rw [hnone] at hl'
      cases hl'
    · rw [hsame]
      exact hearned
  · rw [hlog, List.mem_append] at hin
    rcases hin with hin | hin
    · exact h.unrelayed session text hin
    · exact (hl _ hin).relayed session text rfl

theorem Plain.tokens_le (hp : Plain s s') : s'.tokens ≤ s.tokens := by
  unfold tokens
  split
  · rename_i h'
    rw [if_pos]
    rcases h' with h' | h' | h'
    · exact .inl (hp.idle h')
    · exact .inr (.inl (hp.minting ▸ h'))
    · rcases hp.keyPair with hk | hk
      · exact .inr (.inr (hk ▸ h'))
      · rw [hk] at h'
        cases h'
  · exact Nat.zero_le _

theorem isSome_of_kept {α : Type} {o o' : Option α} (h : o' = o ∨ o' = none) (hs : o'.isSome = true) : o.isSome = true := by
  rcases h with rfl | rfl
  · exact hs
  · cases hs

theorem Core.plain (h : Core s) (hp : Plain s s') : Core s' := by
  obtain ⟨l, hlog, hl⟩ := hp.log
  refine h.append (fun hk => ?_) hp.tokens_le (.inr hp.link) (isSome_of_kept hp.reserved) (isSome_of_kept hp.established)
    (hp.directOnly h.directOnly) (hp.live h.live) (hp.cleared h.cleared) hlog (fun e he => mild_of_plain s (hl e he))
  rcases hp.keyPair with hkeep | hnone
  · rw [hkeep] at hk
    obtain ⟨hi, hm⟩ := h.keyed hk
    exact ⟨fun hidle => hi (hp.idle hidle), hp.minting.trans hm⟩
  · rw [hnone] at hk
    cases hk

theorem Phone.plain (h : Phone s) (hp : Plain s s') : Phone s' := by
  intro p hres
  obtain ⟨l, hlog, hl⟩ := hp.log
  rcases hp.reserved with hkeep | hnone
  · obtain ⟨hatt, hin, hans, hreq, hest⟩ := h p (hkeep.symm.trans hres)
    refine ⟨hatt, ?_, fun e he => ?_, fun r hr => ?_, ?_⟩
    · rw [hlog]
      exact List.mem_append_left _ hin
    · rw [hlog, List.mem_append] at he
      rcases he with he | he
      · exact hans e he
      · exact Event.answers_of_plain (hl e he) _
    · rw [hlog]
      exact List.mem_append_left _ (hreq r hr)
    · rcases hp.established with he | he
      · exact he.trans hest
      · exact he
  · rw [hnone] at hres
    cases hres

variable {s : OneTimeRuntime}

theorem Phone.of_none (h : s.reserved = none) : Phone s := by
  intro p hp
  rw [h] at hp
  cases hp

structure Good (s : OneTimeRuntime) : Prop where
  core  : Core s
  phone : Phone s

theorem Good.plain {s s' : OneTimeRuntime} (h : Good s) (hp : Plain s s') : Good s' := ⟨h.core.plain hp, h.phone.plain hp⟩

theorem Core.end' {s : OneTimeRuntime} (h : Core s) (reason : OneTimeEndReason) (refusal : Option PathRefusal)
    (seals : Bool) : Good (s.end' reason refusal seals) := by
  have hcore := h.plain (plain_end' s reason refusal seals)
  exact ⟨hcore, .of_none (hcore.cleared (isEnded_end' s reason refusal seals)).reserved⟩

theorem Core.not_ended (h : Core s) {p : ReservedPhone} (hp : s.reserved = some p) :
    s.state.isEnded = false := by
  refine Bool.eq_false_iff.2 (fun he => ?_)
  rw [(h.cleared he).reserved] at hp
  cases hp

/-! ## The ceremony -/

theorem Good.same (h : Good s) (hkeyed : s'.keyPair.isSome = true → s'.state ≠ .idle ∧ s'.minting = false)
    (htokens : s'.tokens ≤ s.tokens) (hlink : s.link = none ∨ s'.link = s.link) (hr : s'.reserved = s.reserved)
    (he : s'.established = s.established) (hs : s'.sessions = s.sessions) (hc : Cleared s') (hlog : s'.log = s.log) :
    Good s' := by
  refine ⟨h.core.append hkeyed htokens hlink (fun h' => hr ▸ h') (fun h' => he ▸ h') ?_ ?_ hc (l := [])
    (hlog.trans (List.append_nil _).symm) (fun _ h => absurd h List.not_mem_nil), ?_⟩
  · intro ref e hget
    rw [hs] at hget
    exact h.core.directOnly ref e hget
  · intro ref e hget hdis
    rw [hs] at hget
    rw [he]
    exact h.core.live ref e hget hdis
  · intro p hp
    rw [hlog, he]
    exact h.phone p (hr ▸ hp)

theorem tokens_le_one (s : OneTimeRuntime) : s.tokens ≤ 1 := by
  unfold tokens
  split
  · exact Nat.le_refl 1
  · exact Nat.zero_le 1

theorem Good.open' {s : OneTimeRuntime} (h : Good s) (now : Int) : Good (s.open' now) := by
  unfold OneTimeRuntime.open'
  split
  · exact h
  · rename_i hidle
    have hidle : s.state = .idle := Decidable.not_not.1 hidle
    refine Good.plain ?_ (plain_setState _ (fun h => nomatch h) rfl)
    refine h.same (fun hk => absurd hidle (h.core.keyed hk).1) ?_ (.inr rfl) rfl rfl rfl (fun he => ?_) rfl
    · have htoken : s.tokens = 1 := if_pos (.inl hidle)
      exact (tokens_le_one _).trans_eq htoken.symm
    · rw [show s.state = .idle from hidle] at he
      cases he

theorem tokens_of_minting (h : s.minting = true) : s.tokens = 1 := if_pos (.inr (.inl h))

theorem Good.minted {s : OneTimeRuntime} (h : Good s) (publicKey : Option JsString) (connects : Bool) :
    Good (s.minted publicKey connects) := by
  unfold OneTimeRuntime.minted
  split
  · exact h
  · rename_i hminting
    have hminting : s.minting = true := by simpa using hminting
    have hone := tokens_of_minting hminting
    have hover : Good { s with minting := false } := by
      refine h.same (fun hk => ?_) ((tokens_le_one _).trans_eq hone.symm) (.inr rfl) rfl rfl rfl (fun he => ?_) rfl
      · have hm := (h.core.keyed hk).2
        rw [hminting] at hm
        cases hm
      · have hc := h.core.cleared he
        exact ⟨hc.reading, hc.pinging, hc.keyPair, hc.reserved, hc.established, hc.work⟩
    split
    · exact hover.plain (plain_end' _ _ _ false)
    · rename_i key
      dsimp only
      split
      · exact hover
      · rename_i hopening
        have hopening : s.state = .opening := Decidable.not_not.1 hopening
        have hkeyed : ∀ reading, Good { s with
            minting := false
            keyPair := some ⟨s.nextRef, key⟩
            nextRef := s.nextRef + 1
            reading := reading } := by
          intro reading
          refine h.same (fun _ => ⟨?_, rfl⟩) ((tokens_le_one _).trans_eq hone.symm) (.inr rfl) rfl rfl rfl (fun he => ?_) rfl
          · rw [show s.state = .opening from hopening]
            exact fun h => nomatch h
          · rw [show s.state = .opening from hopening] at he
            cases he
        split
        · exact hkeyed true
        · exact (hkeyed s.reading).plain (plain_end' _ _ _ false)

theorem Good.onRoomMessage (K : Config) {s : OneTimeRuntime} (h : Good s) (hnone : s.link = none) (raw : Raw) (now : Int) :
    Good (onRoomMessage K s raw now) := by
  unfold OneTimeRuntime.onRoomMessage
  split
  · dsimp only
    split
    · exact h.plain (plain_end' s _ _ false)
    · refine Good.plain ?_ (plain_setState _ (fun h => nomatch h) rfl)
      refine h.same h.core.keyed (Nat.le_refl _) (.inl hnone) rfl rfl rfl (fun he => ?_) rfl
      have hc := h.core.cleared he
      exact ⟨hc.reading, hc.pinging, hc.keyPair, hc.reserved, hc.established, hc.work⟩
  · exact h.plain (plain_end' s _ _ false)

theorem Good.aside (h : Good s) {work : List RendezvousWork} (hw : s.state.isEnded = true → work = []) (received : Nat)
    (handling : Option NoiseKeyPair) (initTokens : TokenBucket) :
    Good { s with work := work, received := received, handling := handling, initTokens := initTokens } := by
  refine h.same h.core.keyed (Nat.le_refl _) (.inr rfl) rfl rfl rfl (fun he => ?_) rfl
  have hc := h.core.cleared he
  exact ⟨hc.reading, hc.pinging, hc.keyPair, hc.reserved, hc.established, hw he⟩

theorem Good.onMessage (K : Config) {s : OneTimeRuntime} (h : Good s) (raw : Raw) (now : Int) (seals : Bool) :
    Good (onMessage K s raw now seals) := by
  unfold OneTimeRuntime.onMessage
  split
  · exact h
  · rename_i hread
    have hread : s.reading = true := by
      cases hr : s.reading with
      | true => rfl
      | false => exact absurd (.inl (by rw [hr]; rfl)) hread
    have hlive : s.state.isEnded ≠ true := fun he => by
      rw [(h.core.cleared he).reading] at hread
      cases hread
    split
    · rename_i hlink
      exact h.onRoomMessage K (Option.isNone_iff_eq_none.1 hlink) raw now
    · have hcount : Good { s with received := s.received + 1 } :=
        h.aside (fun he => absurd he hlive) (s.received + 1) s.handling s.initTokens
      dsimp only
      split
      · exact hcount.plain (plain_end' _ _ _ seals)
      · split
        · exact h.aside (fun he => absurd he hlive) (s.received + 1) s.handling s.initTokens
        · exact hcount

theorem Good.onClose {s : OneTimeRuntime} (h : Good s) (code : Option Nat) : Good (s.onClose code) := by
  unfold OneTimeRuntime.onClose
  split
  · exact h
  · rename_i hread
    refine h.same h.core.keyed (Nat.le_refl _) (.inr rfl) rfl rfl rfl (fun he => ?_) rfl
    rw [(h.core.cleared he).reading] at hread
    exact absurd rfl hread

theorem plain_onRendezvousClosed (s : OneTimeRuntime) (code : Option Nat) (seals : Bool) :
    Plain s (s.onRendezvousClosed code seals) := by
  unfold onRendezvousClosed
  split
  · exact .refl s
  · exact .refl s
  · exact plain_end' s _ _ seals

theorem Good.onInit {s : OneTimeRuntime} (h : Good s) (now : Int) : Good (s.onInit now) := by
  unfold OneTimeRuntime.onInit
  split
  · split
    · exact h
    · dsimp only
      split
      · exact h.aside (fun he => (h.core.cleared he).work) s.received _ _
      · exact h.aside (fun he => (h.core.cleared he).work) s.received _ _
  · exact h

theorem Core.unspent (h : Core s) (hk : s.keyPair.isSome = true) :
    s.log.countP Event.isReserved = 0 ∧ s.established = none := by
  have hone : s.tokens = 1 := if_pos (.inr (.inr hk))
  have hkey := h.key
  have hspent := h.spent
  refine ⟨by omega, ?_⟩
  cases hest : s.established with
  | none => rfl
  | some ref =>
    have hserving := h.serving (by rw [hest]; rfl)
    omega

theorem Core.reserve (h : Core s) (hk : s.keyPair.isSome = true) (hr : s.reserved = none) (handling : Option NoiseKeyPair) :
    Good (({ s with
      handling := handling
      reserved := some ⟨s.nextRef, none, false⟩
      keyPair := none
      nextRef := s.nextRef + 1 } : OneTimeRuntime).note (.reserved s.nextRef)) := by
  obtain ⟨hzero, hest⟩ := h.unspent hk
  obtain ⟨hidle, hminting⟩ := h.keyed hk
  have hspent := h.spent
  have hnotin : ∀ phone, Event.reserved phone ∉ s.log := by
    intro phone hin
    exact List.countP_eq_zero.1 hzero _ hin rfl
  refine ⟨?_, ?_⟩
  · refine
      { keyed := fun h' => (nomatch h'), key := ?_, spent := ?_, answered := fun e he phone ha => ?_
        serving := fun h' => ?_, promoted := fun before after session phone heq => ?_
        unrelayed := fun session text hin => ?_, directOnly := h.directOnly, live := h.live, cleared := fun he => ?_ }
    · have hnone : tokens (({ s with
          handling := handling
          reserved := some ⟨s.nextRef, none, false⟩
          keyPair := none
          nextRef := s.nextRef + 1 } : OneTimeRuntime).note (.reserved s.nextRef)) = 0 := by
        refine if_neg ?_
        rintro (h' | h' | h')
        · exact hidle h'
        · rw [show s.minting = true from h'] at hminting
          cases hminting
        · cases h'
      rw [hnone]
      simp only [note, List.countP_append, hzero, List.countP_singleton]
      split
      · exact Nat.le_refl 1
      · exact Nat.zero_le 1
    · simp only [note, List.countP_append, List.countP_singleton, Event.isReserved, Event.isPromoted, Option.isSome_some]
      simp only [hr, Option.isSome_none, Bool.false_eq_true, if_false] at hspent ⊢
      simp only [if_true]
      omega
    · rcases List.mem_append.1 he with he | he
      · exact absurd (h.answered e he phone ha) (hnotin phone)
      · rw [List.mem_singleton.1 he] at ha
        cases ha
    · rw [show s.established = none from hest] at h'
      cases h'
    · have hnot : Event.promoted session phone ∉ [Event.reserved s.nextRef] := fun hin =>
        Event.noConfusion (List.mem_singleton.1 hin)
      obtain ⟨after', heq'⟩ := split_of_append heq hnot
      exact h.promoted before after' session phone heq'
    · rcases List.mem_append.1 hin with hin | hin
      · exact h.unrelayed session text hin
      · exact Event.noConfusion (List.mem_singleton.1 hin)
    · rw [(h.cleared he).keyPair] at hk
      cases hk
  · intro p hp
    obtain rfl := Option.some.inj hp
    refine ⟨rfl, List.mem_append_right _ (List.mem_singleton.2 rfl), fun e he => ?_, fun r hr => (nomatch hr), hest⟩
    rcases List.mem_append.1 he with he | he
    · exact Bool.eq_false_iff.2 (fun ha => hnotin _ (h.answered e he _ ha))
    · rw [List.mem_singleton.1 he]
      rfl

theorem Good.initSettled {s : OneTimeRuntime} (h : Good s) (ok : Bool) : Good (s.initSettled ok) := by
  unfold OneTimeRuntime.initSettled
  split
  · exact h
  · have hover := h.aside (fun he => (h.core.cleared he).work) s.received none s.initTokens
    dsimp only
    split
    · exact hover
    · split
      · exact hover
      · rename_i keyPair _ _ hnot
        obtain ⟨href, hres⟩ := not_or.1 hnot
        have hsome : s.keyPair.isSome = true := by
          have href : s.keyPair.map (·.ref) = some keyPair.ref := Decidable.not_not.1 href
          cases hk : s.keyPair with
          | none => rw [hk] at href; cases href
          | some _ => rfl
        have hnone : s.reserved = none := Option.not_isSome_iff_eq_none.1 hres
        exact (h.core.reserve hsome hnone none).plain (.of_mute (mute_sendFrame _))

theorem Core.deny {s : OneTimeRuntime} (h : Core s) {p : ReservedPhone} (hp : s.reserved = some p) (code : OneTimeDenialCode)
    (seals : Bool) : Good (s.deny p.ref code seals) := by
  unfold OneTimeRuntime.deny
  rw [if_neg (by rw [hp]; exact not_not_intro rfl)]
  refine Core.end' ?_ _ _ seals
  split
  · exact h.plain (.of_mute (mute_sendFrame s))
  · exact h

theorem Good.surface {s : OneTimeRuntime} (h : Good s) {p : ReservedPhone} (hp : s.reserved = some p)
    (request : OneTimeRequestV1) (link : OneTimeLink) : Good (s.surface p request link) := by
  obtain ⟨hatt, hin, hans, -, hest⟩ := h.phone p hp
  unfold OneTimeRuntime.surface
  dsimp only
  generalize knownOneTimeDeviceLabel request.label = label
  have hnext : OneTimeState.confirming label (link.expiry * 1000) ≠ .idle := fun h => nomatch h
  have hplain := plain_setState { s with reserved := some { p with request := some ⟨request.code, label⟩ } } hnext rfl
  have hcore : Core { s with reserved := some { p with request := some ⟨request.code, label⟩ } } := by
    refine h.core.append h.core.keyed (Nat.le_refl _) (.inr rfl) (fun _ => by rw [hp]; rfl) (fun h' => h') h.core.directOnly
      h.core.live (fun he => ?_) (l := []) (List.append_nil _).symm (fun _ h => absurd h List.not_mem_nil)
    have hnot := h.core.not_ended hp
    rw [show s.state.isEnded = true from he] at hnot
    cases hnot
  have hmoved := hcore.plain hplain
  obtain ⟨l, hlog, hl⟩ := hplain.log
  generalize ({ s with reserved := some { p with request := some ⟨request.code, label⟩ } } : OneTimeRuntime).setState
    (.confirming label (link.expiry * 1000)) = t at hplain hmoved hlog ⊢
  refine ⟨?_, fun q hq => ?_⟩
  · refine hmoved.append hmoved.keyed (Nat.le_refl _) (.inr rfl) (fun h' => h') (fun h' => h') hmoved.directOnly hmoved.live
      (fun he => ?_) (l := [.requested p.ref request.code label]) rfl (fun e he => ?_)
    · have hc := hmoved.cleared he
      exact ⟨hc.reading, hc.pinging, hc.keyPair, hc.reserved, hc.established, hc.work⟩
    · rw [List.mem_singleton.1 he]
      exact ⟨rfl, rfl, fun _ _ h => (nomatch h), fun _ h => (nomatch h)⟩
  · rcases hplain.reserved with hkeep | hnone
    · obtain rfl := Option.some.inj (hkeep.symm.trans hq)
      refine ⟨hatt, List.mem_append_left _ (hlog ▸ List.mem_append_left _ hin), fun e he => ?_, fun r hr => ?_, ?_⟩
      · rcases List.mem_append.1 he with he | he
        · rw [hlog, List.mem_append] at he
          rcases he with he | he
          · exact hans e he
          · exact Event.answers_of_plain (hl e he) _
        · rw [List.mem_singleton.1 he]
          rfl
      · obtain rfl := Option.some.inj hr
        exact List.mem_append_right _ (List.mem_singleton.2 rfl)
      · rcases hplain.established with he | he
        · exact he.trans hest
        · exact he
    · rw [show t.reserved = some q from hq] at hnone
      cases hnone

theorem Good.onReserved {s : OneTimeRuntime} (h : Good s) {p : ReservedPhone} (hp : s.reserved = some p) (decodes : Bool)
    (receipt : Receipt) (now : Int) (seals : Bool) : Good (s.onReserved p decodes receipt now seals) := by
  unfold OneTimeRuntime.onReserved
  split
  · exact h.plain (plain_end' s _ _ seals)
  · split
    · exact h.plain (plain_end' s _ _ seals)
    · exact h
    · split
      · exact h
      · exact h.core.deny hp _ seals
    · split
      · exact h
      · split
        · split
          · exact h.core.deny hp _ seals
          · exact h.surface hp _ _
        · exact h.core.deny hp _ seals

theorem Good.onTransport (K : Config) {s : OneTimeRuntime} (h : Good s) (decodes builds : Bool) (receipt : Receipt)
    (held : List Receipt) (now : Int) (seals : Bool) : Good (onTransport K s decodes builds receipt held now seals) := by
  unfold OneTimeRuntime.onTransport
  split
  · exact h.plain (plain_onRelayFrame K h.core.directOnly _ decodes builds now seals receipt held)
  · rename_i hp
    exact h.onReserved hp decodes receipt now seals
  · exact h

theorem Good.drain (K : Config) {s : OneTimeRuntime} (h : Good s) (decodes builds : Bool) (receipt : Receipt)
    (held : List Receipt) (now : Int) (seals : Bool) : Good (drain K s decodes builds receipt held now seals) := by
  have htaken : ∀ {w : RendezvousWork} {rest : List RendezvousWork}, s.work = w :: rest → Good { s with work := rest } := by
    intro w rest hw
    refine h.aside (fun he => ?_) s.received s.handling s.initTokens
    rw [(h.core.cleared he).work] at hw
    cases hw
  unfold OneTimeRuntime.drain
  split
  · rename_i hw
    exact (htaken hw).plain (plain_onRendezvousClosed _ _ seals)
  · rename_i hw
    exact (htaken hw).onInit now
  · rename_i hw
    exact (htaken hw).onTransport K decodes builds receipt held now seals
  · exact h

/-! ## The answer -/

theorem Good.attempted {s : OneTimeRuntime} (h : Good s) {p : ReservedPhone} (hp : s.reserved = some p) {e : Event}
    (hr : e.isReserved = false) (hpro : e.isPromoted = false) (hrel : ∀ session text, e ≠ .handled session .relay text)
    (ha : ∀ phone, e.answers phone = true → phone = p.ref) :
    Core { s.note e with reserved := some { p with attempted := true } } := by
  refine h.core.append h.core.keyed (Nat.le_refl _) (.inr rfl) (fun _ => by rw [hp]; rfl) (fun h' => h') h.core.directOnly
    h.core.live (fun he => ?_) (l := [e]) rfl (fun e' he' => ?_)
  · have hnot := h.core.not_ended hp
    rw [show s.state.isEnded = true from he] at hnot
    cases hnot
  · rw [List.mem_singleton.1 he']
    exact ⟨hr, hpro, hrel, fun phone hans => ha phone hans ▸ (h.phone p hp).2.1⟩

/-- **The promotion takes the reservation with it**, and is earned by the answer just given. -/
theorem Core.promote {s : OneTimeRuntime} (h : Core s) {p : ReservedPhone} (hp : s.reserved = some p)
    (hest : s.established = none) {phone : Ref} (hearned : Earned s.link s.log phone) (label : JsString) (now : Int)
    (seals serves : Bool) : Good (s.promote phone label now seals serves) := by
  have hnot := h.not_ended hp
  have hgone : Core { s with reserved := none } := by
    refine h.append h.keyed (Nat.le_refl _) (.inr rfl) (fun h' => (nomatch h')) (fun h' => h') h.directOnly
      h.live (fun he => ?_) (l := []) (List.append_nil _).symm (fun _ h => absurd h List.not_mem_nil)
    rw [show s.state.isEnded = true from he] at hnot
    cases hnot
  unfold OneTimeRuntime.promote
  dsimp only
  split
  · exact hgone.end' _ _ seals
  · split
    · exact hgone.end' _ _ seals
    · refine Good.plain ?_ ((Plain.of_mute (mute_sendFrame _)).trans (plain_setState _ (fun h => nomatch h) rfl))
      refine ⟨?_, .of_none rfl⟩
      refine
        { keyed := h.keyed, key := ?_, spent := ?_, answered := fun e he ph ha => ?_, serving := fun _ => ?_
          promoted := fun before after session ph heq => ?_, unrelayed := fun session text hin => ?_
          directOnly := fun ref e hget => ?_, live := fun ref e hget hdis => ?_, cleared := fun he => ?_ }
      · have hkey := h.key
        simp only [note, List.countP_append, List.countP_singleton, Event.isReserved, Bool.false_eq_true, if_false,
          Nat.add_zero]
        exact hkey
      · have hspent := h.spent
        simp only [hp, Option.isSome_some, if_true] at hspent
        simp only [note, List.countP_append, List.countP_singleton, Event.isReserved, Event.isPromoted, Option.isSome_none,
          Bool.false_eq_true, if_false, if_true, Nat.add_zero]
        exact hspent
      · rcases List.mem_append.1 he with he | he
        · exact List.mem_append_left _ (h.answered e he ph ha)
        · rw [List.mem_singleton.1 he] at ha
          cases ha
      · exact List.countP_pos_iff.2 ⟨_, List.mem_append_right _ (List.mem_singleton.2 rfl), rfl⟩
      · rcases List.append_eq_append_iff.1 heq with ⟨m, hbefore, hlast⟩ | ⟨m, hlog, hrest⟩
        · cases m with
          | nil =>
            rw [List.nil_append] at hlast
            obtain ⟨hev, -⟩ := List.cons.inj hlast
            obtain ⟨-, rfl⟩ := Event.promoted.inj hev
            rw [hbefore, List.append_nil]
            exact hearned
          | cons x m =>
            have hlen := congrArg List.length hlast
            simp only [List.length_append, List.length_cons, List.length_nil] at hlen
            omega
        · cases m with
          | nil =>
            rw [List.nil_append] at hrest
            obtain ⟨hev, -⟩ := List.cons.inj hrest
            obtain ⟨-, rfl⟩ := Event.promoted.inj hev
            rw [List.append_nil] at hlog
            exact hlog ▸ hearned
          | cons x m =>
            rw [List.cons_append] at hrest
            obtain ⟨rfl, -⟩ := List.cons.inj hrest
            exact h.promoted before m session ph hlog
      · rcases List.mem_append.1 hin with hin | hin
        · exact h.unrelayed session text hin
        · exact Event.noConfusion (List.mem_singleton.1 hin)
      · simp only [note, OrdMap.get_set] at hget
        split at hget
        · obtain rfl := Option.some.inj hget
          rfl
        · exact h.directOnly ref e hget
      · simp only [note, OrdMap.get_set] at hget
        split at hget
        · rename_i href
          exact congrArg some href.symm
        · have hserved := h.live ref e hget hdis
          rw [hest] at hserved
          cases hserved
      · rw [show s.state.isEnded = true from he] at hnot
        cases hnot

theorem Good.approve {s : OneTimeRuntime} (h : Good s) (phone : Ref) (code : JsString) (now : Int) (seals serves : Bool) :
    Good (s.approve phone code now seals serves) := by
  unfold OneTimeRuntime.approve
  split
  · rename_i p link hp hlink
    split
    · exact h
    · rename_i href
      obtain rfl : p.ref = phone := Decidable.not_not.1 href
      obtain ⟨hatt, hin, hans, hreq, hest⟩ := h.phone p hp
      split
      · exact h
      · rename_i request hrequest
        have hcore := h.attempted hp (e := .approved p.ref code now) rfl rfl (fun _ _ h => (nomatch h))
          (fun phone ha => (beq_iff_eq.1 ha).symm)
        dsimp only
        rw [hatt, if_neg Bool.false_ne_true]
        split
        · exact hcore.deny rfl _ seals
        · rename_i hunexpired
          split
          · exact hcore.deny rfl _ seals
          · rename_i hcode
            have hcode : code = request.code := Decidable.not_not.1 hcode
            refine hcore.promote rfl hest ⟨s.log, code, now, request.label, link, rfl, hans, hin, ?_, hlink, ?_⟩ _ now seals
              serves
            · rw [hcode]
              exact hreq request hrequest
            · exact Bool.eq_false_iff.2 hunexpired
  · exact h

theorem Good.denyLocally {s : OneTimeRuntime} (h : Good s) (phone : Ref) (seals : Bool) :
    Good (s.denyLocally phone seals) := by
  unfold OneTimeRuntime.denyLocally
  split
  · exact h
  · rename_i p hp
    split
    · exact h
    · rename_i href
      obtain rfl : p.ref = phone := Decidable.not_not.1 href
      obtain ⟨hatt, -⟩ := h.phone p hp
      have hcore := h.attempted hp (e := .denied p.ref) rfl rfl (fun _ _ h => (nomatch h))
        (fun phone ha => (beq_iff_eq.1 ha).symm)
      dsimp only
      rw [hatt, if_neg Bool.false_ne_true]
      exact hcore.deny rfl _ seals

theorem Good.reap (K : Config) {s : OneTimeRuntime} (h : Good s) (refused : Option RefusedEnd) (now : Int) (seals : Bool) :
    Good (reap K s refused now seals) := by
  unfold OneTimeRuntime.reap
  split
  · unfold expire
    split
    · exact h.plain (plain_end' s _ _ seals)
    · unfold OneTimeRuntime.deny
      split
      · exact h
      · refine Core.end' ?_ _ _ seals
        split
        · exact h.core.plain (.of_mute (mute_sendFrame s))
        · exact h.core
    · exact h.plain (plain_end' s _ _ seals)
    · split
      · exact h
      · exact h.plain (plain_breakDirectOnly K s _ _ refused now seals)
    · exact h.plain (plain_end' s _ _ seals)
  · exact h

/-- **Every stretch keeps the ceremony's books.** -/
theorem Good.step (K : Config) {s : OneTimeRuntime} (h : Good s) (i : Input) : Good (step K s i) := by
  cases i with
  | open' now => exact h.open' now
  | minted publicKey connects => exact h.minted publicKey connects
  | socketOpened =>
    unfold OneTimeRuntime.step
    dsimp only
    split
    · rename_i hread
      refine h.same h.core.keyed (Nat.le_refl _) (.inr rfl) rfl rfl rfl (fun he => ?_) rfl
      rw [(h.core.cleared he).reading] at hread
      cases hread
    · exact h
  | ping =>
    unfold OneTimeRuntime.step
    dsimp only
    split
    · exact h.plain (.of_mute (mute_note s rfl))
    · exact h
  | message raw now seals => exact h.onMessage K raw now seals
  | closed code => exact h.onClose code
  | drain decodes builds receipt held now seals => exact h.drain K decodes builds receipt held now seals
  | initSettled ok => exact h.initSettled ok
  | approve phone code now seals serves => exact h.approve phone code now seals serves
  | deny phone seals => exact h.denyLocally phone seals
  | end' reason seals => exact h.plain (plain_end' s reason none seals)
  | reap refused now seals => exact h.reap K refused now seals
  | described session sdp seals => exact h.plain (plain_described s session sdp seals)
  | channelOpened session now seals => exact h.plain (plain_onOpen s session now seals)
  | channelClosed session seals => exact h.plain (plain_onClosed s session seals)
  | violated session pathRefused refused now seals =>
    exact h.plain (plain_onViolation K s session pathRefused refused now seals)
  | handoffExpired session seals => exact h.plain (plain_handoffExpired s session seals)
  | channelFrame session overflows builds receipt now seals =>
    exact h.plain (plain_onChannelFrame K s session overflows builds now seals receipt)
  | givenUp session refused now seals =>
    unfold OneTimeRuntime.step
    dsimp only
    split
    · exact h.plain (plain_breakDirectOnly K s session .givenUp refused now seals)
    · exact h
  | api session call seals => exact h.plain (plain_apiCall s session seals call)

theorem good_create (now : Int) : Good (create now) where
  core :=
    { keyed := fun h => (nomatch h), key := Nat.le_refl 1, spent := Nat.le_refl 0
      answered := fun _ h => absurd h List.not_mem_nil, serving := fun h => (nomatch h)
      promoted := fun before after _ _ h => by
        have hlen := congrArg List.length h
        rw [List.length_append, List.length_cons] at hlen
        exact absurd hlen (by simp only [create, List.length_nil]; omega)
      unrelayed := fun _ _ => List.not_mem_nil
      directOnly := fun _ _ h => (nomatch h), live := fun _ _ h => (nomatch h), cleared := fun h => (nomatch h) }
  phone := .of_none rfl

/-! ## After the end -/

/-- An ended runtime: it holds nothing, and every session it had is over. -/
structure Closed (s : OneTimeRuntime) : Prop where
  ended    : s.state.isEnded = true
  emptied  : Emptied s
  disposed : ∀ ref e, s.sessions.get ref = some e → e.disposed = true

theorem Good.closed (h : Good s) (he : s.state.isEnded = true) : Closed s where
  ended := he
  emptied := h.core.cleared he
  disposed ref e hget := by
    cases hdis : e.disposed with
    | true => rfl
    | false =>
      have hserved := h.core.live ref e hget hdis
      rw [(h.core.cleared he).established] at hserved
      cases hserved

namespace Closed

variable {s : OneTimeRuntime} (h : Closed s)
include h

theorem end' (reason : OneTimeEndReason) (refusal : Option PathRefusal) (seals : Bool) :
    s.end' reason refusal seals = s := if_pos h.ended

theorem state_ne {next : OneTimeState} (hn : next.isEnded = false) : s.state ≠ next := by
  intro heq
  have hended := h.ended
  rw [heq, hn] at hended
  cases hended

theorem any_eq_false (ref : Ref) (p : EstablishedE2eSession → Bool) :
    (s.sessions.get ref).any (fun e => !e.disposed && p e) = false := by
  cases hget : s.sessions.get ref with
  | none => rfl
  | some e => rw [Option.any_some, h.disposed ref e hget]; rfl

theorem alive (ref : Ref) : s.alive ref = false := by
  unfold OneTimeRuntime.alive
  cases hget : s.sessions.get ref with
  | none => rfl
  | some e => rw [Option.any_some, h.disposed ref e hget]; rfl

theorem fatal (ref : Ref) (seals : Bool) : s.fatal ref seals = s := by
  unfold OneTimeRuntime.fatal
  split
  · rfl
  · rename_i e hget
    exact if_pos (h.disposed ref e hget)

theorem breakDirectOnly (K : Config) (ref : Ref) (reason : DirectOnlyBreak) (refused : Option RefusedEnd) (now : Int)
    (seals : Bool) : breakDirectOnly K s ref reason refused now seals = s := by
  unfold OneTimeRuntime.breakDirectOnly
  split
  · rfl
  · rename_i e hget
    exact if_pos (h.disposed ref e hget)

theorem onClosed (ref : Ref) (seals : Bool) : s.onClosed ref seals = s := by
  unfold OneTimeRuntime.onClosed
  split
  · rfl
  · rename_i e hget
    exact if_pos (h.disposed ref e hget)

theorem onChannelFrame (K : Config) (ref : Ref) (overflows builds : Bool) (now : Int) (seals : Bool) (receipt : Receipt) :
    onChannelFrame K s ref overflows builds now seals receipt = s := by
  unfold OneTimeRuntime.onChannelFrame
  split
  · rfl
  · rename_i e hget
    exact if_pos (h.disposed ref e hget)

theorem apiCall (ref : Ref) (seals : Bool) (call : ApiCall) : s.apiCall ref seals call = s := by
  cases call with
  | endSession =>
    refine if_neg (fun hest => ?_)
    rw [h.emptied.established] at hest
    cases hest
  | send sealing =>
    cases sealing with
    | refused => rfl
    | poisoned => exact h.fatal ref seals
    | sealed chunks lost =>
      have hchunks : ∀ l : List Nat, l.foldl (fun s _ => if s.alive ref then s.directSend ref else s) s = s := by
        intro l
        induction l with
        | nil => rfl
        | cons _ l ih =>
          rw [List.foldl_cons, h.alive ref]
          exact ih
      unfold OneTimeRuntime.apiCall sendApp
      dsimp only
      rw [hchunks]
      split
      · exact h.onClosed ref seals
      · rfl

theorem reap (K : Config) (refused : Option RefusedEnd) (now : Int) (seals : Bool) : reap K s refused now seals = s := by
  have hnone : s.deadlines = [] := by
    unfold deadlines
    split
    · rename_i heq
      exact absurd heq (h.state_ne rfl)
    · rename_i heq
      exact absurd heq (h.state_ne rfl)
    · rename_i heq
      exact absurd heq (h.state_ne rfl)
    · rename_i heq
      exact absurd heq (h.state_ne rfl)
    · rename_i heq
      exact absurd heq (h.state_ne rfl)
    · rfl
  unfold OneTimeRuntime.reap
  rw [hnone]
  rfl

theorem minted (publicKey : Option JsString) (connects : Bool) :
    ∃ minting, s.minted publicKey connects = { s with minting := minting } := by
  unfold OneTimeRuntime.minted
  split
  · exact ⟨s.minting, rfl⟩
  · refine ⟨false, ?_⟩
    dsimp only
    split
    · exact if_pos h.ended
    · exact if_pos (h.state_ne rfl)

theorem initSettled (ok : Bool) : ∃ handling, s.initSettled ok = { s with handling := handling } := by
  unfold OneTimeRuntime.initSettled
  split
  · exact ⟨s.handling, rfl⟩
  · refine ⟨none, ?_⟩
    dsimp only
    split
    · rfl
    · refine if_pos (.inl ?_)
      rw [h.emptied.keyPair]
      exact fun h => nomatch h

/-- **A stretch of an ended runtime** only settles the awaits under way. -/
theorem step (K : Config) (i : Input) :
    ∃ handling minting, step K s i = { s with handling := handling, minting := minting } := by
  have hself : ∀ {s'}, s' = s → ∃ handling minting, s' = { s with handling := handling, minting := minting } :=
    fun heq => ⟨s.handling, s.minting, heq⟩
  have hunread : ¬ s.reading = true := by rw [h.emptied.reading]; exact Bool.false_ne_true
  cases i with
  | open' now => exact hself (if_pos (h.state_ne rfl))
  | minted publicKey connects =>
    obtain ⟨minting, heq⟩ := h.minted publicKey connects
    exact ⟨s.handling, minting, heq⟩
  | socketOpened => exact hself (if_neg hunread)
  | ping =>
    have hsilent : ¬ s.pinging = true := by rw [h.emptied.pinging]; exact Bool.false_ne_true
    exact hself (if_neg hsilent)
  | message raw now seals =>
    have hskip : (!s.reading) = true ∨ raw = .pong := .inl (by rw [h.emptied.reading]; rfl)
    exact hself (if_pos hskip)
  | closed code =>
    have hskip : (!s.reading) = true := by rw [h.emptied.reading]; rfl
    exact hself (if_pos hskip)
  | drain decodes builds receipt held now seals =>
    refine hself ?_
    unfold OneTimeRuntime.step OneTimeRuntime.drain
    rw [h.emptied.work]
    cases s.handling with
    | none => rfl
    | some _ => rfl
  | initSettled ok =>
    obtain ⟨handling, heq⟩ := h.initSettled ok
    exact ⟨handling, s.minting, heq⟩
  | approve phone code now seals serves =>
    refine hself ?_
    unfold OneTimeRuntime.step OneTimeRuntime.approve
    rw [h.emptied.reserved]
  | deny phone seals =>
    refine hself ?_
    unfold OneTimeRuntime.step OneTimeRuntime.denyLocally
    rw [h.emptied.reserved]
  | end' reason seals => exact hself (h.end' reason none seals)
  | reap refused now seals => exact hself (h.reap K refused now seals)
  | described session sdp seals =>
    refine hself ?_
    refine if_pos ?_
    rw [h.any_eq_false session (·.peer)]
    rfl
  | channelOpened session now seals =>
    refine hself ?_
    refine if_pos ?_
    rw [h.alive]
    rfl
  | channelClosed session seals => exact hself (h.onClosed session seals)
  | violated session pathRefused refused now seals =>
    refine hself ?_
    refine if_pos ?_
    rw [h.alive]
    rfl
  | handoffExpired session seals =>
    refine hself ?_
    refine if_neg ?_
    rw [h.any_eq_false session (fun e => e.outbound = .direct && e.inbound = .relay)]
    exact Bool.false_ne_true
  | channelFrame session overflows builds receipt now seals =>
    exact hself (h.onChannelFrame K session overflows builds now seals receipt)
  | givenUp session refused now seals =>
    refine hself ?_
    unfold OneTimeRuntime.step
    dsimp only
    rw [h.breakDirectOnly]
    exact ite_self s
  | api session call seals => exact hself (h.apiCall session seals call)

end Closed

theorem Closed.awaits (h : Closed s) (handling : Option NoiseKeyPair) (minting : Bool) :
    Closed { s with handling := handling, minting := minting } where
  ended := h.ended
  emptied := ⟨h.emptied.reading, h.emptied.pinging, h.emptied.keyPair, h.emptied.reserved, h.emptied.established,
    h.emptied.work⟩
  disposed := h.disposed

theorem Closed.run (K : Config) : ∀ (later : List Input) {s : OneTimeRuntime}, Closed s →
    ∃ handling minting, Steps.run (OneTimeRuntime.step K) s later = { s with handling := handling, minting := minting }
  | [], s, _ => ⟨s.handling, s.minting, rfl⟩
  | i :: later, s, h => by
    obtain ⟨handling, minting, heq⟩ := h.step K i
    obtain ⟨handling', minting', heq'⟩ := Closed.run K later (h.awaits handling minting)
    exact ⟨handling', minting', by rw [Steps.run_cons, heq, heq']⟩

end OneTimeRuntime
end OneTime
end Dormouse

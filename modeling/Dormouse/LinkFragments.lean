import Dormouse.LinkUrl
/-!
# LinkFragments — pairing invitations and one-time links

The two link grammars of `security/pairing-invitation.ts` and `security/one-time-link.ts`: a formatter and a parser each, written
apart.  What a parser accepts is what the formatter writes of the result (`parsePairing_iff`, `parseOneTime_iff`); so there is one
spelling of each link, and its prologue binds it.
-/
namespace Dormouse
namespace Link

open Term (isDigit parseDigits)
open Noise (noiseKeyLength)
open Paced (utf8 toWellFormed)
open Base64Url (base64UrlLength)

/-! ## The pairing invitation -/

def pairingInvitationVersion : JsString := units "1"
def pairingHashPrefix : JsString := units "#pair?"
def routingIdLength : Nat := base64UrlLength 16
def secretLength : Nat := base64UrlLength 32
def pairingFieldCount : Nat := 6

def pairingFragmentLength : Nat :=
  pairingInvitationVersion.length + routingIdLength * 2 + expiryDigits + secretLength * 2 + (pairingFieldCount - 1)

def pairingQrUrlMaxLength : Nat := 256

def pairingLinkShape : LinkUrlShape := ⟨pairingQrUrlMaxLength, units "/", pairingHashPrefix⟩

structure PairingInvitation where
  burrowId        : JsString
  inviteId        : JsString
  /-- Epoch seconds. -/
  expiry          : JsNum
  setupToken      : JsString
  ephPub          : Bytes
  ephPubBase64Url : JsString
  deriving DecidableEq

def formatInvitationExpiry : JsNum → Except String JsString :=
  formatSeconds "pairing invitation expiry must be a uint32 epoch-seconds value"

/-- The fields that the prologue binds beside the burrow's id, in the order of the fragment. -/
def pairingInvitationFields (invitation : PairingInvitation) : Except String (List JsString) :=
  (formatInvitationExpiry invitation.expiry).map (fun expiry =>
    [pairingInvitationVersion, invitation.inviteId, expiry, invitation.setupToken, invitation.ephPubBase64Url])

def pairingInvitationPrologue (invitation : PairingInvitation) : Except String Bytes :=
  (pairingInvitationFields invitation).map (Noise.e2ePairingPrologue invitation.burrowId)

def withId (id : JsString) (fields : List JsString) : JsString :=
  [fieldSeparator].intercalate (fields.take 1 ++ id :: fields.drop 1)

def pairingFragment (invitation : PairingInvitation) : Except String JsString :=
  (pairingInvitationFields invitation).map (withId invitation.burrowId)

def formatPairingInvitationUrl (origin : JsString) (invitation : PairingInvitation) : Except String JsString :=
  (pairingFragment invitation).bind fun fragment =>
    let url := origin ++ units "/" ++ pairingHashPrefix ++ fragment
    if url.length > pairingQrUrlMaxLength then
      .error (s!"pairing URL is {url.length} characters, over the {pairingQrUrlMaxLength} limit; " ++
        "the origin this Burrow enrolled against is too long for a scannable code.")
    else .ok url

section Parse
variable (parseUrl : JsString → Option Url) (importKey : Bytes → Bool)

def parsePairingInvitationUrl (text : Json) (appOrigin : JsString) (now : JsNum) : Option PairingInvitation :=
  match parseLinkFragment parseUrl text appOrigin pairingLinkShape with
  | none          => none
  | some fragment =>
    if fragment.length ≠ pairingFragmentLength then none
    else
      match fragment.splitOn fieldSeparator with
      | [version, burrowId, inviteId, expiryText, setupToken, ephPubBase64Url] =>
        let expiry := parseDigits 10 expiryText
        if version ≠ pairingInvitationVersion then none
        else if !isExact burrowId routingIdLength || !isExact inviteId routingIdLength then none
        else if !isExact setupToken secretLength || !isExact ephPubBase64Url secretLength then none
        else if !isExpiryText expiryText then none
        else if (expiry : Int) > maxUint32 then none
        -- advisory only, the burrow's own memory is the authority
        else if expired (.ofNat expiry) now then none
        else
          (importable importKey ephPubBase64Url).map (fun ephPub =>
            ⟨burrowId, inviteId, .ofNat expiry, setupToken, ephPub, ephPubBase64Url⟩)
      | _ => none

end Parse

/-! ## The one-time link -/

def oneTimeLinkVersion : JsString := units "1"
def oneTimePagePath : JsString := units "/connect/"
def oneTimeHashPrefix : JsString := units "#"
def roomIdLength : Nat := base64UrlLength 16
def keyLength : Nat := base64UrlLength noiseKeyLength
def oneTimeFieldCount : Nat := 4

def oneTimeFragmentLength : Nat :=
  oneTimeLinkVersion.length + roomIdLength + expiryDigits + keyLength + (oneTimeFieldCount - 1)

def oneTimeLinkMaxLength : Nat := 256

def oneTimeLinkShape : LinkUrlShape := ⟨oneTimeLinkMaxLength, oneTimePagePath, oneTimeHashPrefix⟩

structure OneTimeLink where
  roomId          : JsString
  /-- Epoch seconds. -/
  expiry          : JsNum
  ephPub          : Bytes
  ephPubBase64Url : JsString
  deriving DecidableEq

def formatExpiry : JsNum → Except String JsString := formatSeconds "one-time link expiry must be a uint32 epoch-seconds value"

/-- The fields that the prologue binds beside the room's id, in the order of the fragment. -/
def oneTimeLinkFields (link : OneTimeLink) : Except String (List JsString) :=
  (formatExpiry link.expiry).map (fun expiry => [oneTimeLinkVersion, expiry, link.ephPubBase64Url])

def oneTimeLinkPrologue (link : OneTimeLink) : Except String Bytes :=
  (oneTimeLinkFields link).map (Noise.e2eOneTimePrologue link.roomId)

def oneTimeLinkExpired (expiry nowMs : JsNum) : Bool := expired expiry nowMs

def oneTimeFragment (link : OneTimeLink) : Except String JsString := (oneTimeLinkFields link).map (withId link.roomId)

def formatOneTimeLinkUrl (origin : JsString) (link : OneTimeLink) : Except String JsString :=
  (oneTimeFragment link).bind fun fragment =>
    let url := origin ++ oneTimePagePath ++ oneTimeHashPrefix ++ fragment
    if url.length > oneTimeLinkMaxLength then
      .error (s!"one-time link is {url.length} characters, over the {oneTimeLinkMaxLength} limit; " ++
        "the one-time origin is too long for a scannable code.")
    else .ok url

section Parse
variable (parseUrl : JsString → Option Url) (importKey : Bytes → Bool)

def parseOneTimeLinkUrl (text : Json) (appOrigin : JsString) (now : JsNum) : Option OneTimeLink :=
  match parseLinkFragment parseUrl text appOrigin oneTimeLinkShape with
  | none          => none
  | some fragment =>
    if fragment.length ≠ oneTimeFragmentLength then none
    else
      match fragment.splitOn fieldSeparator with
      | [version, roomId, expiryText, ephPubBase64Url] =>
        let expiry := parseDigits 10 expiryText
        if version ≠ oneTimeLinkVersion then none
        else if !isExact roomId roomIdLength || !isExact ephPubBase64Url keyLength then none
        else if !isExpiryText expiryText then none
        else if (expiry : Int) > maxUint32 then none
        -- advisory on the phone, the burrow checks its own copy
        else if oneTimeLinkExpired (.ofNat expiry) now then none
        else (importable importKey ephPubBase64Url).map (fun ephPub => ⟨roomId, .ofNat expiry, ephPub, ephPubBase64Url⟩)
      | _ => none

end Parse

/-! ## What is well formed -/

def LiveExpiry (expiry now : JsNum) : Prop := ∃ n : Nat, expiry = .ofNat n ∧ (n : Int) ≤ maxUint32 ∧ expired expiry now = false

def Importable (importKey : Bytes → Bool) (key : Bytes) (text : JsString) : Prop :=
  text = Base64Url.toBase64Url key ∧ key.length = noiseKeyLength ∧ importKey key = true

/-- Ids and a token that are base64url of their lengths, as the spelling of bytes is (`isExact_toBase64Url`). -/
structure PairingInvitation.WellFormed (importKey : Bytes → Bool) (now : JsNum) (invitation : PairingInvitation) : Prop where
  burrowId   : isExact invitation.burrowId routingIdLength = true
  inviteId   : isExact invitation.inviteId routingIdLength = true
  expiry     : LiveExpiry invitation.expiry now
  setupToken : isExact invitation.setupToken secretLength = true
  key        : Importable importKey invitation.ephPub invitation.ephPubBase64Url

structure OneTimeLink.WellFormed (importKey : Bytes → Bool) (now : JsNum) (link : OneTimeLink) : Prop where
  roomId : isExact link.roomId roomIdLength = true
  expiry : LiveExpiry link.expiry now
  key    : Importable importKey link.ephPub link.ephPubBase64Url

/-! ## Fields -/

def IsField (s : JsString) : Prop := ∀ c ∈ s, isFragmentUnit c = true ∧ c ≠ fieldSeparator

variable {s : JsString}

theorem isField_exact {length : Nat} (h : isExact s length = true) : IsField s := by
  obtain ⟨-, -, hall⟩ := isExact_iff.1 h
  intro c hc
  have hunit := hall c hc
  refine ⟨by rw [isFragmentUnit, hunit, Bool.true_or, Bool.true_or], ?_⟩
  rintro rfl
  exact absurd hunit (by decide)

theorem isField_expiry (h : isExpiryText s = true) : IsField s := by
  rw [isExpiryText, Bool.and_eq_true, List.all_eq_true] at h
  intro c hc
  have hdigit := h.2 c hc
  refine ⟨isDigit_fragment hdigit, ?_⟩
  rintro rfl
  exact absurd hdigit (by decide)

theorem isField_version : IsField (units "1") := by
  intro c hc
  rw [List.mem_singleton.1 hc]
  decide

variable {importKey : Bytes → Bool}

theorem exact_of_importable {key : Bytes} {text : JsString} (h : Importable importKey key text) :
    isExact text keyLength = true := by
  obtain ⟨rfl, hlen, -⟩ := h
  have hne : key ≠ [] := by
    rintro rfl
    exact absurd hlen (by decide)
  have hexact := isExact_toBase64Url hne
  rwa [hlen] at hexact

variable {fields : List JsString}

theorem splitOn_fields (hne : fields ≠ []) (h : ∀ s ∈ fields, IsField s) :
    ([fieldSeparator].intercalate fields).splitOn fieldSeparator = fields :=
  List.splitOn_intercalate _ (fun s hs hin => (h s hs fieldSeparator hin).2 rfl) hne

theorem fragment_units (h : ∀ s ∈ fields, IsField s) :
    ∀ c ∈ [fieldSeparator].intercalate fields, isFragmentUnit c = true := by
  intro c hc
  rcases LocalNet.mem_intercalate hc with hsep | ⟨s, hs, hin⟩
  · rw [List.mem_singleton.1 hsep]
    decide
  · exact (h s hs c hin).1

theorem length_fields : ∀ {fields : List JsString}, fields ≠ [] →
    ([fieldSeparator].intercalate fields).length = (fields.map List.length).sum + (fields.length - 1)
  | [], h => absurd rfl h
  | [s], _ => by
    rw [List.intercalate_singleton]
    rfl
  | s :: t :: fields, _ => by
    have htail := length_fields (List.cons_ne_nil t fields)
    rw [List.intercalate_cons_cons, List.length_append, List.length_append, htail]
    simp only [List.map_cons, List.sum_cons, List.length_cons, List.length_nil]
    omega

theorem liveExpiry_text {expiry now : JsNum} (h : LiveExpiry expiry now) (refusal : String) :
    ∃ text, formatSeconds refusal expiry = .ok text ∧ isExpiryText text = true ∧ expiry = .ofNat (parseDigits 10 text) ∧
      (parseDigits 10 text : Int) ≤ maxUint32 := by
  obtain ⟨n, rfl, hle, -⟩ := h
  obtain ⟨text, htext⟩ : ∃ text, formatSeconds refusal (JsNum.ofNat n) = .ok text := by
    rw [formatSeconds, JsNum.int?_ofNat]
    exact ⟨_, if_neg (by omega)⟩
  obtain ⟨hexpiry, hread⟩ := (formatSeconds_iff hle).1 htext
  exact ⟨text, htext, hexpiry, by rw [hread], by rw [hread]; exact hle⟩

theorem isExact_length {length : Nat} (h : isExact s length = true) : s.length = length := (isExact_iff.1 h).2.1

theorem expiryText_length (h : isExpiryText s = true) : s.length = expiryDigits := by
  rw [isExpiryText, Bool.and_eq_true, decide_eq_true_eq] at h
  exact h.1

theorem importable_iff {text : JsString} {key : Bytes} (h : isExact text keyLength = true) :
    importable importKey text = some key ↔ Importable importKey key text := importable_eq_some (isExact_iff.1 h).2.2

theorem length_le_sum (parts : List JsString) (s : JsString) (h : s ∈ parts) : s.length ≤ (parts.map List.length).sum := by
  obtain ⟨before, after, rfl⟩ := List.append_of_mem h
  rw [List.map_append, List.map_cons, List.sum_append, List.sum_cons]
  omega

theorem field_short {n : Nat} (hlen : ([fieldSeparator].intercalate fields).length = n) (hn : n < 2 ^ 32) :
    ∀ s ∈ fields, s.length < 2 ^ 32 := by
  intro s hs
  rw [length_fields (List.ne_nil_of_mem hs)] at hlen
  have hsum := length_le_sum fields s hs
  omega

/-- **A prologue of fields binds each of them.** -/
theorem prologue_binds {kind : Noise.PrologueKind} {id id' : JsString} {extra extra' : List JsString}
    (h : ∀ s ∈ id :: extra, IsField s ∧ s.length < 2 ^ 32) (h' : ∀ s ∈ id' :: extra', IsField s ∧ s.length < 2 ^ 32)
    (heq : Noise.e2ePrologue kind id extra = Noise.e2ePrologue kind id' extra') : id = id' ∧ extra = extra' := by
  have hplain : ∀ {s : JsString}, IsField s → ∀ c ∈ s, c < 0x80 := fun hs c hc => isBase64UrlUnit_lt (hs c hc).1
  have hshort : ∀ {id : JsString} {extra : List JsString}, (∀ s ∈ id :: extra, IsField s ∧ s.length < 2 ^ 32) →
      Noise.Short id extra := by
    intro id extra hall
    have hone : ∀ s ∈ id :: extra, (utf8 s).length < 2 ^ 32 := fun s hs => by
      rw [length_utf8_plain s (hplain (hall s hs).1)]
      exact (hall s hs).2
    exact ⟨hone id List.mem_cons_self, fun s hs => hone s (List.mem_cons_of_mem id hs)⟩
  have hparts := Noise.lengthPrefixedConcat_inj (Noise.parts_lt (hshort h) kind) (Noise.parts_lt (hshort h') kind) heq
  simp only [List.cons.injEq, true_and] at hparts
  have hsame : ∀ {s : JsString}, IsField s → toWellFormed s = s := fun hs => toWellFormed_plain _ (hplain hs)
  have hmap : ∀ {extra : List JsString}, (∀ s ∈ extra, IsField s ∧ s.length < 2 ^ 32) → extra.map toWellFormed = extra := fun hall =>
    (List.map_congr_left (fun s hs => hsame (hall s hs).1)).trans (List.map_id _)
  obtain ⟨hid, hextra⟩ := List.forall_mem_cons.1 h
  obtain ⟨hid', hextra'⟩ := List.forall_mem_cons.1 h'
  have htexts := Noise.map_utf8_eq_iff.1 hparts.2
  have htext := Paced.utf8_eq_iff.1 hparts.1
  rw [hmap hextra, hmap hextra'] at htexts
  rw [hsame hid.1, hsame hid'.1] at htext
  exact ⟨htext, htexts⟩

/-! ## Pairing -/

section Pairing
variable {parseUrl : JsString → Option Url} {importKey : Bytes → Bool} {now : JsNum}

def pairingFields (invitation : PairingInvitation) (expiryText : JsString) : List JsString :=
  [pairingInvitationVersion, invitation.burrowId, invitation.inviteId, expiryText, invitation.setupToken,
    invitation.ephPubBase64Url]

theorem pairingFragment_ok (invitation : PairingInvitation) {expiryText : JsString}
    (h : formatInvitationExpiry invitation.expiry = .ok expiryText) :
    pairingFragment invitation = .ok ([fieldSeparator].intercalate (pairingFields invitation expiryText)) := by
  rw [pairingFragment, pairingInvitationFields, h]
  rfl

theorem pairing_fields {invitation : PairingInvitation} (hwell : invitation.WellFormed importKey now) : ∃ expiryText,
    formatInvitationExpiry invitation.expiry = .ok expiryText ∧ isExpiryText expiryText = true ∧
      invitation.expiry = .ofNat (parseDigits 10 expiryText) ∧ (parseDigits 10 expiryText : Int) ≤ maxUint32 ∧
      (∀ s ∈ pairingFields invitation expiryText, IsField s) ∧
      ([fieldSeparator].intercalate (pairingFields invitation expiryText)).length = pairingFragmentLength := by
  obtain ⟨expiryText, hformat, hexpiry, hread, hle⟩ := liveExpiry_text hwell.expiry
    "pairing invitation expiry must be a uint32 epoch-seconds value"
  have hkey := exact_of_importable hwell.key
  refine ⟨expiryText, hformat, hexpiry, hread, hle, ?_, ?_⟩
  · simp only [pairingFields, List.mem_cons, List.not_mem_nil, or_false, forall_eq_or_imp, forall_eq]
    exact ⟨isField_version, isField_exact hwell.burrowId, isField_exact hwell.inviteId, isField_expiry hexpiry,
      isField_exact hwell.setupToken, isField_exact hkey⟩
  · rw [pairingFields, length_fields (List.cons_ne_nil _ _)]
    simp only [List.map_cons, List.map_nil, isExact_length hwell.burrowId, isExact_length hwell.inviteId,
      expiryText_length hexpiry, isExact_length hwell.setupToken, isExact_length hkey]
    rfl

/-- **The fragments accepted are those of live, well-formed invitations.** -/
theorem parsePairing_iff {text : Json} {appOrigin : JsString} {invitation : PairingInvitation} :
    parsePairingInvitationUrl parseUrl importKey text appOrigin now = some invitation ↔
      ∃ fragment, parseLinkFragment parseUrl text appOrigin pairingLinkShape = some fragment ∧
        invitation.WellFormed importKey now ∧ pairingFragment invitation = .ok fragment := by
  rw [parsePairingInvitationUrl]
  cases hfragment : parseLinkFragment parseUrl text appOrigin pairingLinkShape with
  | none => exact ⟨nofun, fun ⟨_, h, _⟩ => by cases h⟩
  | some fragment =>
    dsimp only
    simp only [Option.some.injEq, exists_eq_left']
    constructor
    · intro h
      rw [Option.ite_none_left_eq_some] at h
      obtain ⟨-, h⟩ := h
      split at h
      · rename_i version burrowId inviteId expiryText setupToken ephPubBase64Url hsplit
        simp only [Option.ite_none_left_eq_some, Option.map_eq_some_iff, Bool.or_eq_true, Bool.not_eq_true', not_or, not_not,
          Bool.not_eq_false, Bool.not_eq_true, Int.not_lt] at h
        obtain ⟨rfl, ⟨hburrow, hinvite⟩, ⟨htoken, hkey⟩, hexpiry, hle, hlive, key, himport, rfl⟩ := h
        refine ⟨⟨hburrow, hinvite, ⟨_, rfl, hle, hlive⟩, htoken, (importable_iff hkey).1 himport⟩, ?_⟩
        have hwritten := (@formatSeconds_iff "pairing invitation expiry must be a uint32 epoch-seconds value" _ _ hle).2
          ⟨hexpiry, rfl⟩
        rw [pairingFragment_ok ⟨burrowId, inviteId, .ofNat (parseDigits 10 expiryText), setupToken, key, ephPubBase64Url⟩ hwritten,
          pairingFields, ← hsplit, List.intercalate_splitOn]
      · cases h
    · rintro ⟨hwell, hfragment⟩
      obtain ⟨expiryText, hformat, hexpiry, hread, hle, hall, hlen⟩ := pairing_fields hwell
      have hkey := exact_of_importable hwell.key
      obtain ⟨-, -, -, hlive⟩ := hwell.expiry
      rw [pairingFragment_ok invitation hformat, Except.ok.injEq] at hfragment
      subst hfragment
      have hne : pairingFields invitation expiryText ≠ [] := List.cons_ne_nil _ _
      have hsplit := splitOn_fields hne hall
      rw [if_neg (not_not.2 hlen), hsplit]
      simp only [pairingFields, Option.ite_none_left_eq_some, Option.map_eq_some_iff, Bool.or_eq_true, Bool.not_eq_true', not_or,
        not_not, Bool.not_eq_false, Bool.not_eq_true, Int.not_lt]
      rw [← hread]
      exact ⟨trivial, ⟨hwell.burrowId, hwell.inviteId⟩, ⟨hwell.setupToken, hkey⟩, hexpiry, hle, hlive, _,
        (importable_iff hkey).2 hwell.key, rfl⟩

/-- **Live invitations with one prologue have one fragment.** -/
theorem pairing_prologue {now' : JsNum} {invitation invitation' : PairingInvitation} (hwell : invitation.WellFormed importKey now)
    (hwell' : invitation'.WellFormed importKey now')
    (h : pairingInvitationPrologue invitation = pairingInvitationPrologue invitation') :
    pairingFragment invitation = pairingFragment invitation' := by
  obtain ⟨expiryText, hformat, -, -, -, hall, hlen⟩ := pairing_fields hwell
  obtain ⟨expiryText', hformat', -, -, -, hall', hlen'⟩ := pairing_fields hwell'
  have hshort := field_short hlen (by decide)
  have hshort' := field_short hlen' (by decide)
  rw [pairingInvitationPrologue, pairingInvitationPrologue, pairingInvitationFields, pairingInvitationFields, hformat, hformat'] at h
  have hperm : ∀ {x : PairingInvitation} {t : JsString} {P : JsString → Prop}, (∀ s ∈ pairingFields x t, P s) →
      ∀ s ∈ x.burrowId :: [pairingInvitationVersion, x.inviteId, t, x.setupToken, x.ephPubBase64Url], P s := by
    intro x t P hP
    simp only [pairingFields, List.mem_cons, List.not_mem_nil, or_false, forall_eq_or_imp, forall_eq] at hP ⊢
    tauto
  obtain ⟨hid, hextra⟩ := prologue_binds (hperm (fun s hs => ⟨hall s hs, hshort s hs⟩))
    (hperm (fun s hs => ⟨hall' s hs, hshort' s hs⟩)) (Except.ok.inj h)
  simp only [List.cons.injEq, true_and, and_true] at hextra
  obtain ⟨hinvite, hexpiry, htoken, hkey⟩ := hextra
  rw [pairingFragment_ok invitation hformat, pairingFragment_ok invitation' hformat', pairingFields, pairingFields, hid, hinvite,
    hexpiry, htoken, hkey]

end Pairing

/-! ## One-time links -/

section OneTime
variable {parseUrl : JsString → Option Url} {importKey : Bytes → Bool} {now : JsNum}

def oneTimeFields (link : OneTimeLink) (expiryText : JsString) : List JsString :=
  [oneTimeLinkVersion, link.roomId, expiryText, link.ephPubBase64Url]

theorem oneTimeFragment_ok (link : OneTimeLink) {expiryText : JsString} (h : formatExpiry link.expiry = .ok expiryText) :
    oneTimeFragment link = .ok ([fieldSeparator].intercalate (oneTimeFields link expiryText)) := by
  rw [oneTimeFragment, oneTimeLinkFields, h]
  rfl

theorem oneTime_fields {link : OneTimeLink} (hwell : link.WellFormed importKey now) : ∃ expiryText,
    formatExpiry link.expiry = .ok expiryText ∧ isExpiryText expiryText = true ∧
      link.expiry = .ofNat (parseDigits 10 expiryText) ∧ (parseDigits 10 expiryText : Int) ≤ maxUint32 ∧
      (∀ s ∈ oneTimeFields link expiryText, IsField s) ∧
      ([fieldSeparator].intercalate (oneTimeFields link expiryText)).length = oneTimeFragmentLength := by
  obtain ⟨expiryText, hformat, hexpiry, hread, hle⟩ := liveExpiry_text hwell.expiry
    "one-time link expiry must be a uint32 epoch-seconds value"
  have hkey := exact_of_importable hwell.key
  refine ⟨expiryText, hformat, hexpiry, hread, hle, ?_, ?_⟩
  · simp only [oneTimeFields, List.mem_cons, List.not_mem_nil, or_false, forall_eq_or_imp, forall_eq]
    exact ⟨isField_version, isField_exact hwell.roomId, isField_expiry hexpiry, isField_exact hkey⟩
  · rw [oneTimeFields, length_fields (List.cons_ne_nil _ _)]
    simp only [List.map_cons, List.map_nil, isExact_length hwell.roomId, expiryText_length hexpiry,
      isExact_length hkey]
    rfl

/-- **The fragments accepted are those of live, well-formed links.** -/
theorem parseOneTime_iff {text : Json} {appOrigin : JsString} {link : OneTimeLink} :
    parseOneTimeLinkUrl parseUrl importKey text appOrigin now = some link ↔
      ∃ fragment, parseLinkFragment parseUrl text appOrigin oneTimeLinkShape = some fragment ∧
        link.WellFormed importKey now ∧ oneTimeFragment link = .ok fragment := by
  rw [parseOneTimeLinkUrl]
  cases hfragment : parseLinkFragment parseUrl text appOrigin oneTimeLinkShape with
  | none => exact ⟨nofun, fun ⟨_, h, _⟩ => by cases h⟩
  | some fragment =>
    dsimp only
    simp only [Option.some.injEq, exists_eq_left']
    constructor
    · intro h
      rw [Option.ite_none_left_eq_some] at h
      obtain ⟨-, h⟩ := h
      split at h
      · rename_i version roomId expiryText ephPubBase64Url hsplit
        simp only [Option.ite_none_left_eq_some, Option.map_eq_some_iff, Bool.or_eq_true, Bool.not_eq_true', not_or, not_not,
          Bool.not_eq_false, Bool.not_eq_true, Int.not_lt] at h
        obtain ⟨rfl, ⟨hroom, hkey⟩, hexpiry, hle, hlive, key, himport, rfl⟩ := h
        refine ⟨⟨hroom, ⟨_, rfl, hle, hlive⟩, (importable_iff hkey).1 himport⟩, ?_⟩
        have hwritten := (@formatSeconds_iff "one-time link expiry must be a uint32 epoch-seconds value" _ _ hle).2
          ⟨hexpiry, rfl⟩
        rw [oneTimeFragment_ok ⟨roomId, .ofNat (parseDigits 10 expiryText), key, ephPubBase64Url⟩ hwritten, oneTimeFields,
          ← hsplit, List.intercalate_splitOn]
      · cases h
    · rintro ⟨hwell, hfragment⟩
      obtain ⟨expiryText, hformat, hexpiry, hread, hle, hall, hlen⟩ := oneTime_fields hwell
      have hkey := exact_of_importable hwell.key
      obtain ⟨-, -, -, hlive⟩ := hwell.expiry
      rw [oneTimeFragment_ok link hformat, Except.ok.injEq] at hfragment
      subst hfragment
      have hne : oneTimeFields link expiryText ≠ [] := List.cons_ne_nil _ _
      have hsplit := splitOn_fields hne hall
      rw [if_neg (not_not.2 hlen), hsplit]
      simp only [oneTimeFields, Option.ite_none_left_eq_some, Option.map_eq_some_iff, Bool.or_eq_true, Bool.not_eq_true', not_or,
        not_not, Bool.not_eq_false, Bool.not_eq_true, Int.not_lt]
      rw [← hread]
      exact ⟨trivial, ⟨hwell.roomId, hkey⟩, hexpiry, hle, hlive, _, (importable_iff hkey).2 hwell.key, rfl⟩

/-- **Live links with one prologue have one fragment.** -/
theorem oneTime_prologue {now' : JsNum} {link link' : OneTimeLink} (hwell : link.WellFormed importKey now)
    (hwell' : link'.WellFormed importKey now') (h : oneTimeLinkPrologue link = oneTimeLinkPrologue link') :
    oneTimeFragment link = oneTimeFragment link' := by
  obtain ⟨expiryText, hformat, -, -, -, hall, hlen⟩ := oneTime_fields hwell
  obtain ⟨expiryText', hformat', -, -, -, hall', hlen'⟩ := oneTime_fields hwell'
  have hshort := field_short hlen (by decide)
  have hshort' := field_short hlen' (by decide)
  rw [oneTimeLinkPrologue, oneTimeLinkPrologue, oneTimeLinkFields, oneTimeLinkFields, hformat, hformat'] at h
  have hperm : ∀ {x : OneTimeLink} {t : JsString} {P : JsString → Prop}, (∀ s ∈ oneTimeFields x t, P s) →
      ∀ s ∈ x.roomId :: [oneTimeLinkVersion, t, x.ephPubBase64Url], P s := by
    intro x t P hP
    simp only [oneTimeFields, List.mem_cons, List.not_mem_nil, or_false, forall_eq_or_imp, forall_eq] at hP ⊢
    tauto
  obtain ⟨hid, hextra⟩ := prologue_binds (hperm (fun s hs => ⟨hall s hs, hshort s hs⟩))
    (hperm (fun s hs => ⟨hall' s hs, hshort' s hs⟩)) (Except.ok.inj h)
  simp only [List.cons.injEq, true_and, and_true] at hextra
  obtain ⟨hexpiry, hkey⟩ := hextra
  rw [oneTimeFragment_ok link hformat, oneTimeFragment_ok link' hformat', oneTimeFields, oneTimeFields, hid, hexpiry, hkey]

end OneTime

/-! ## One spelling -/

structure Grammar (α : Type) where
  shape      : LinkUrlShape
  WellFormed : (Bytes → Bool) → JsNum → α → Prop
  fragment   : α → Except String JsString
  format     : JsString → α → Except String JsString
  parse      : (JsString → Option Url) → (Bytes → Bool) → Json → JsString → JsNum → Option α
  prologue   : α → Except String Bytes

def pairingGrammar : Grammar PairingInvitation where
  shape      := pairingLinkShape
  WellFormed := PairingInvitation.WellFormed
  fragment   := pairingFragment
  format     := formatPairingInvitationUrl
  parse      := parsePairingInvitationUrl
  prologue   := pairingInvitationPrologue

def oneTimeGrammar : Grammar OneTimeLink where
  shape      := oneTimeLinkShape
  WellFormed := OneTimeLink.WellFormed
  fragment   := oneTimeFragment
  format     := formatOneTimeLinkUrl
  parse      := parseOneTimeLinkUrl
  prologue   := oneTimeLinkPrologue

structure Grammar.OneSpelling {α : Type} (G : Grammar α) (parseUrl : JsString → Option Url) (importKey : Bytes → Bool) : Prop where
  /-- What is formatted is parsed, where its URL is not too long. -/
  round_trip : ∀ origin now x, Accepted parseUrl origin → G.WellFormed importKey now x →
    (∀ fragment, G.fragment x = .ok fragment →
      (origin ++ G.shape.pathname ++ G.shape.hashPrefix ++ fragment).length ≤ G.shape.maxLength) →
    ∃ url, G.format origin x = .ok url ∧ G.parse parseUrl importKey (.str url) origin now = some x
  /-- What is parsed has the fragment that is formatted of it. -/
  canonical  : ∀ text origin now x, G.parse parseUrl importKey text origin now = some x →
    ∃ fragment, parseLinkFragment parseUrl text origin G.shape = some fragment ∧ G.fragment x = .ok fragment
  /-- Two fragments are of two links. -/
  unique     : ∀ text text' origin origin' now now' x, G.parse parseUrl importKey text origin now = some x →
    G.parse parseUrl importKey text' origin' now' = some x →
    parseLinkFragment parseUrl text origin G.shape = parseLinkFragment parseUrl text' origin' G.shape
  /-- A prologue is of one fragment. -/
  bound      : ∀ text text' origin origin' now now' x x', G.parse parseUrl importKey text origin now = some x →
    G.parse parseUrl importKey text' origin' now' = some x' → G.prologue x = G.prologue x' →
    parseLinkFragment parseUrl text origin G.shape = parseLinkFragment parseUrl text' origin' G.shape

/-- What a grammar's functions are to each other. -/
structure Grammar.Lawful {α : Type} (G : Grammar α) (parseUrl : JsString → Option Url) (importKey : Bytes → Bool) : Prop where
  parse_iff   : ∀ text origin now x, G.parse parseUrl importKey text origin now = some x ↔
    ∃ fragment, parseLinkFragment parseUrl text origin G.shape = some fragment ∧ G.WellFormed importKey now x ∧
      G.fragment x = .ok fragment
  format_ok   : ∀ origin x fragment, G.fragment x = .ok fragment →
    (origin ++ G.shape.pathname ++ G.shape.hashPrefix ++ fragment).length ≤ G.shape.maxLength →
    G.format origin x = .ok (origin ++ G.shape.pathname ++ G.shape.hashPrefix ++ fragment)
  fragment_ok : ∀ now x, G.WellFormed importKey now x →
    ∃ fragment, G.fragment x = .ok fragment ∧ fragment ≠ [] ∧ ∀ c ∈ fragment, isFragmentUnit c = true
  prologue_eq : ∀ now now' x x', G.WellFormed importKey now x → G.WellFormed importKey now' x' → G.prologue x = G.prologue x' →
    G.fragment x = G.fragment x'
  pathname    : G.shape.pathname ∈ [units "/", units "/connect/"]
  lead        : ∃ lead, G.shape.hashPrefix = 0x23 :: lead ∧ ∀ c ∈ lead, isFragmentUnit c = true

/-- **A lawful grammar has one spelling of each link.** -/
theorem Grammar.Lawful.oneSpelling {α : Type} {G : Grammar α} {parseUrl : JsString → Option Url}
    (hG : G.Lawful parseUrl importKey) (hkeeps : KeepsLinks parseUrl) : G.OneSpelling parseUrl importKey := by
  have hsome : ∀ {text origin now x}, G.parse parseUrl importKey text origin now = some x → ∃ fragment,
      parseLinkFragment parseUrl text origin G.shape = some fragment ∧ G.WellFormed importKey now x ∧ G.fragment x = .ok fragment :=
    (hG.parse_iff _ _ _ _).1
  refine ⟨?_, ?_, ?_, ?_⟩
  · intro origin now x horigin hwell hfits
    obtain ⟨fragment, hfragment, hne, hunits⟩ := hG.fragment_ok now x hwell
    obtain ⟨lead, hfront, hlead⟩ := hG.lead
    have hlen := hfits fragment hfragment
    refine ⟨_, hG.format_ok origin x fragment hfragment hlen, (hG.parse_iff _ _ _ _).2 ⟨fragment, ?_, hwell, hfragment⟩⟩
    exact parseLinkFragment_link hkeeps horigin hG.pathname hfront (List.append_ne_nil_of_right_ne_nil lead hne) hlead hunits hlen
  · intro text origin now x h
    obtain ⟨fragment, hread, -, hfragment⟩ := hsome h
    exact ⟨fragment, hread, hfragment⟩
  · intro text text' origin origin' now now' x h h'
    obtain ⟨fragment, hread, -, hfragment⟩ := hsome h
    obtain ⟨fragment', hread', -, hfragment'⟩ := hsome h'
    rw [hread, hread', Except.ok.inj (hfragment.symm.trans hfragment')]
  · intro text text' origin origin' now now' x x' h h' heq
    obtain ⟨fragment, hread, hwell, hfragment⟩ := hsome h
    obtain ⟨fragment', hread', hwell', hfragment'⟩ := hsome h'
    have hsame := hG.prologue_eq now now' x x' hwell hwell' heq
    rw [hread, hread', Except.ok.inj (hfragment.symm.trans (hsame.trans hfragment'))]

variable {parseUrl : JsString → Option Url} {importKey : Bytes → Bool}

theorem fragment_ne_nil {n : Nat} (h : ([fieldSeparator].intercalate fields).length = n) (hn : 0 < n) :
    [fieldSeparator].intercalate fields ≠ [] := List.ne_nil_of_length_pos (by rw [h]; exact hn)

theorem pairingGrammar_lawful : pairingGrammar.Lawful parseUrl importKey where
  parse_iff _ _ _ _ := parsePairing_iff
  format_ok origin invitation fragment hfragment hlen := by
    show (pairingFragment invitation).bind _ = _
    rw [show pairingFragment invitation = .ok fragment from hfragment]
    exact if_neg (Nat.not_lt_of_le hlen)
  fragment_ok now invitation hwell := by
    obtain ⟨expiryText, hformat, -, -, -, hall, hlen⟩ := pairing_fields hwell
    exact ⟨_, pairingFragment_ok invitation hformat, fragment_ne_nil hlen (by decide), fragment_units hall⟩
  prologue_eq _ _ _ _ := pairing_prologue
  pathname := List.mem_cons_self
  lead        := ⟨units "pair?", rfl, List.all_eq_true.1 (by decide)⟩

theorem oneTimeGrammar_lawful : oneTimeGrammar.Lawful parseUrl importKey where
  parse_iff _ _ _ _ := parseOneTime_iff
  format_ok origin link fragment hfragment hlen := by
    show (oneTimeFragment link).bind _ = _
    rw [show oneTimeFragment link = .ok fragment from hfragment]
    exact if_neg (Nat.not_lt_of_le hlen)
  fragment_ok now link hwell := by
    obtain ⟨expiryText, hformat, -, -, -, hall, hlen⟩ := oneTime_fields hwell
    exact ⟨_, oneTimeFragment_ok link hformat, fragment_ne_nil hlen (by decide), fragment_units hall⟩
  prologue_eq _ _ _ _ := oneTime_prologue
  pathname := List.mem_cons_of_mem _ List.mem_cons_self
  lead := ⟨[], rfl, nofun⟩

/-- **Pairing invitations and one-time links round-trip, and have one spelling.** -/
theorem links_oneSpelling (hkeeps : KeepsLinks parseUrl) :
    pairingGrammar.OneSpelling parseUrl importKey ∧ oneTimeGrammar.OneSpelling parseUrl importKey :=
  ⟨pairingGrammar_lawful.oneSpelling hkeeps, oneTimeGrammar_lawful.oneSpelling hkeeps⟩

/-! ## A platform with one origin -/

def pocketOrigin : JsString := units "https://pocket.example"

/-- `new URL` of a text with the origin in front. -/
def parsePocket (text : JsString) : Option Url :=
  if pocketOrigin.isPrefixOf text then
    let rest := text.drop pocketOrigin.length
    let path := rest.takeWhile (· != 0x23)
    some {
      protocol := units "https:", hostname := units "pocket.example", username := [], password := []
      pathname := if path = [] then units "/" else path
      search   := [], origin := pocketOrigin, hash := rest.dropWhile (· != 0x23) }
  else none

theorem parsePocket_keeps : KeepsLinks parsePocket := by
  intro origin url hurl hsame _ pathname hpath fragment _ _
  rw [parsePocket, Option.ite_none_right_eq_some] at hurl
  obtain ⟨-, heq⟩ := hurl
  cases heq
  obtain rfl : pocketOrigin = origin := hsame
  have hstarts : pocketOrigin.isPrefixOf (pocketOrigin ++ pathname ++ 0x23 :: fragment) = true := by
    rw [List.isPrefixOf_iff_prefix, List.append_assoc]
    exact List.prefix_append _ _
  have hrest : (pocketOrigin ++ pathname ++ 0x23 :: fragment).drop pocketOrigin.length = pathname ++ 0x23 :: fragment := by
    rw [List.append_assoc, List.drop_left]
  rw [parsePocket, if_pos hstarts]
  simp only [hrest]
  simp only [List.mem_cons, List.not_mem_nil, or_false] at hpath
  rcases hpath with rfl | rfl <;> rfl

theorem pocketOrigin_accepted : Accepted parsePocket pocketOrigin := by
  have hstarts : pocketOrigin.isPrefixOf pocketOrigin = true := by decide +kernel
  exact ⟨_, if_pos hstarts, rfl, by decide +kernel⟩

def sampleInvitation : PairingInvitation where
  burrowId        := units "AAECAwQFBgcICQoLDA0ODw"
  inviteId        := units "8O_u7ezr6uno5-bl5OPi4Q"
  expiry          := .ofNat 1700000300
  setupToken      := units "gIGCg4SFhoeIiYqLjI2Oj5CRkpOUlZaXmJmam5ydnp8"
  ephPub          := (List.range 32).map Nat.toUInt8
  ephPubBase64Url := units "AAECAwQFBgcICQoLDA0ODxAREhMUFRYXGBkaGxwdHh8"

theorem sampleInvitation_wellFormed :
    sampleInvitation.WellFormed (fun key => key.length = noiseKeyLength) (.ofNat 1700000000000) where
  burrowId := by decide +kernel
  inviteId := by decide +kernel
  expiry := ⟨1700000300, rfl, by decide, by decide +kernel⟩
  setupToken := by decide +kernel
  key := ⟨by decide +kernel, by decide +kernel, by decide +kernel⟩

theorem links_oneSpelling_pairing : ∃ url, pairingGrammar.format pocketOrigin sampleInvitation = .ok url ∧
    pairingGrammar.parse parsePocket (fun key => key.length = noiseKeyLength) (.str url) pocketOrigin (.ofNat 1700000000000) =
      some sampleInvitation := by
  refine (links_oneSpelling parsePocket_keeps).1.round_trip pocketOrigin (.ofNat 1700000000000) sampleInvitation
    pocketOrigin_accepted sampleInvitation_wellFormed ?_
  intro fragment hfragment
  obtain ⟨expiryText, hformat, -, -, -, -, hlen⟩ := pairing_fields sampleInvitation_wellFormed
  have hlength : fragment.length = pairingFragmentLength := by
    rw [← Except.ok.inj ((pairingFragment_ok sampleInvitation hformat).symm.trans hfragment), hlen]
  rw [List.length_append, hlength]
  decide +kernel

end Link
end Dormouse

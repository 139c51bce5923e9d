import Dormouse.Base64Url
import Dormouse.Ipv6Value
import Dormouse.NoiseHandshake
import Dormouse.Prologues
import Dormouse.RelayRouting
/-!
# LinkUrl — what every link into the app is checked for

`parseLinkFragment` of `security/link-url.ts`, over what the platform reads of a URL, and what the two link grammars share: an expiry
of ten digits, handles of base64url, a key that can be imported.
-/
namespace Dormouse
namespace Link

open Term (isDigit digitValue parseDigits)
open DirectPath (decimal)
open Noise (noiseKeyLength)
open Paced (utf8 toWellFormed)

/-! ## URLs -/

structure LinkUrlShape where
  /-- The longest link accepted, compared before the URL is parsed. -/
  maxLength  : Nat
  pathname   : JsString
  hashPrefix : JsString

/-- What is read of `new URL(text)`. -/
structure Url where
  protocol : JsString
  hostname : JsString
  username : JsString
  password : JsString
  pathname : JsString
  search   : JsString
  origin   : JsString
  hash     : JsString

def linkLoopbackHosts : List JsString := [units "localhost", units "127.0.0.1", units "[::1]"]

def isLinkScheme (url : Url) : Bool :=
  url.protocol = units "https:" || (url.protocol = units "http:" && linkLoopbackHosts.contains url.hostname)

/-- The fragment of one link into this app, after the shape's prefix; `parseUrl` is none where `new URL` throws. -/
def parseLinkFragment (parseUrl : JsString → Option Url) (text : Json) (appOrigin : JsString) (shape : LinkUrlShape) :
    Option JsString :=
  match text with
  | .str text =>
    if text.length > shape.maxLength then none
    else
      match parseUrl text with
      | none     => none
      | some url =>
        if !isLinkScheme url then none
        else if url.username ≠ [] ∨ url.password ≠ [] then none
        else if url.pathname ≠ shape.pathname ∨ url.search ≠ [] then none
        else if url.origin ≠ appOrigin then none
        else if !shape.hashPrefix.isPrefixOf url.hash then none
        else some (url.hash.drop shape.hashPrefix.length)
  | _         => none

/-! ## Fields -/

def fieldSeparator : UInt16 := 0x2e
def expiryDigits : Nat := 10
def maxUint32 : Int := 0xffffffff

/-- `padStart(length, '0')`. -/
def padStart (length : Nat) (s : JsString) : JsString := List.replicate (length - s.length) 0x30 ++ s

def formatSeconds (refusal : String) (expirySeconds : JsNum) : Except String JsString :=
  match expirySeconds.int? with
  | none   => .error refusal
  | some n => if n < 0 ∨ n > maxUint32 then .error refusal else .ok (padStart expiryDigits (decimal n.toNat))

/-- `EXPIRY_PATTERN`. -/
def isExpiryText (s : JsString) : Bool := s.length = expiryDigits && s.all isDigit

def isExact (s : JsString) (length : Nat) : Bool := (Relay.isExactBase64Url (some (.str s)) length).isSome

/-- `expiry * 1000 < now`. -/
def expired (expiry now : JsNum) : Bool :=
  match expiry, now with
  | .fin e,   .fin q  => e * 1000 < q
  | .fin _,   .posInf => true
  | .negInf,  .fin _  => true
  | .negInf,  .posInf => true
  | _,        _       => false

def importable (importKey : Bytes → Bool) (text : JsString) : Option Bytes :=
  match Base64Url.fromBase64Url text with
  | .error _ => none
  | .ok key  => if key.length ≠ noiseKeyLength then none else if importKey key then some key else none

/-! ## What the platform keeps -/

def isFragmentUnit (c : UInt16) : Bool := Relay.isBase64UrlUnit c || c == fieldSeparator || c == 0x3f

/-- The URL parser keeps an origin as it spells it, a path of the two grammars and a fragment of plain characters. -/
def KeepsLinks (parseUrl : JsString → Option Url) : Prop :=
  ∀ origin url, parseUrl origin = some url → url.origin = origin → isLinkScheme url = true →
    ∀ pathname ∈ [units "/", units "/connect/"], ∀ fragment, fragment ≠ [] → (∀ c ∈ fragment, isFragmentUnit c = true) →
      parseUrl (origin ++ pathname ++ 0x23 :: fragment) =
        some { url with username := [], password := [], pathname := pathname, search := [], hash := 0x23 :: fragment }

def Accepted (parseUrl : JsString → Option Url) (origin : JsString) : Prop :=
  ∃ url, parseUrl origin = some url ∧ url.origin = origin ∧ isLinkScheme url = true

/-- **A link into the app gives its fragment.** -/
theorem parseLinkFragment_link {parseUrl : JsString → Option Url} (hkeeps : KeepsLinks parseUrl) {origin : JsString}
    (horigin : Accepted parseUrl origin) {shape : LinkUrlShape} (hpath : shape.pathname ∈ [units "/", units "/connect/"])
    {lead fragment : JsString} (hfront : shape.hashPrefix = 0x23 :: lead) (hne : lead ++ fragment ≠ [])
    (hlead : ∀ c ∈ lead, isFragmentUnit c = true) (hfragment : ∀ c ∈ fragment, isFragmentUnit c = true)
    (hlen : (origin ++ shape.pathname ++ shape.hashPrefix ++ fragment).length ≤ shape.maxLength) :
    parseLinkFragment parseUrl (.str (origin ++ shape.pathname ++ shape.hashPrefix ++ fragment)) origin shape = some fragment := by
  obtain ⟨url, hurl, hsame, hscheme⟩ := horigin
  have hread := hkeeps origin url hurl hsame hscheme shape.pathname hpath (lead ++ fragment) hne
    (List.forall_mem_append.2 ⟨hlead, hfragment⟩)
  have htext : origin ++ shape.pathname ++ shape.hashPrefix ++ fragment = origin ++ shape.pathname ++ 0x23 :: (lead ++ fragment) := by
    rw [hfront, List.append_assoc, List.cons_append]
  have hscheme' : isLinkScheme { url with
      username := [], password := [], pathname := shape.pathname, search := [], hash := 0x23 :: (lead ++ fragment) } = true := hscheme
  have hstarts : shape.hashPrefix.isPrefixOf (0x23 :: (lead ++ fragment)) = true := by
    rw [hfront, List.isPrefixOf_iff_prefix]
    exact ⟨fragment, rfl⟩
  have hdrop : (0x23 :: (lead ++ fragment)).drop shape.hashPrefix.length = fragment := by
    rw [hfront]
    exact List.drop_left
  simp only [parseLinkFragment]
  rw [if_neg (Nat.not_lt_of_le hlen), htext, hread]
  dsimp only
  rw [hscheme', Bool.not_true, if_neg Bool.false_ne_true, if_neg (by simp), if_neg (by simp), if_neg (not_not.2 hsame), hstarts,
    Bool.not_true, if_neg Bool.false_ne_true, hdrop]

/-! ## Plain texts -/

theorem isBase64UrlUnit_lt {c : UInt16} (h : isFragmentUnit c = true) : c < 0x80 := by
  simp only [isFragmentUnit, Relay.isBase64UrlUnit, fieldSeparator, Bool.or_eq_true, Bool.and_eq_true, decide_eq_true_eq, beq_iff_eq] at h
  have hle : ∀ {a b : UInt16}, a ≤ b → b < 0x80 → a < 0x80 := fun hab hb => UInt16.lt_of_le_of_lt hab hb
  rcases h with ((((((h | h) | h) | h) | h) | h) | h)
  · exact hle h.2 (by decide)
  · exact hle h.2 (by decide)
  · exact hle h.2 (by decide)
  all_goals
    rw [h]
    decide

theorem isDigit_fragment {c : UInt16} (h : isDigit c = true) : isFragmentUnit c = true := by
  simp only [isDigit, Bool.and_eq_true, decide_eq_true_eq] at h
  have hdigit : (48 ≤ c && c ≤ 57) = true := by
    rw [Bool.and_eq_true, decide_eq_true_eq, decide_eq_true_eq]
    exact h
  rw [isFragmentUnit, Relay.isBase64UrlUnit, hdigit, Bool.or_true, Bool.true_or, Bool.true_or, Bool.true_or, Bool.true_or]

theorem alphabet_fragment : ∀ c ∈ Base64Url.alphabet, Relay.isBase64UrlUnit c = true ∧ c ≠ fieldSeparator := by
  have hall : Base64Url.alphabet.all (fun c => Relay.isBase64UrlUnit c && c != fieldSeparator) = true := by decide +kernel
  intro c hc
  have hboth := List.all_eq_true.1 hall c hc
  rw [Bool.and_eq_true, bne_iff_ne] at hboth
  exact hboth

theorem not_surrogate {u : UInt16} (h : u < 0x80) : isHighSurrogate u = false ∧ isLowSurrogate u = false := by
  have hlow : ∀ {a : UInt16}, 0x80 ≤ a → (a ≤ u) = False := fun ha =>
    eq_false (fun hle => absurd (UInt16.lt_of_lt_of_le h (UInt16.le_trans ha hle)) (UInt16.lt_irrefl u))
  simp only [isHighSurrogate, isLowSurrogate, hlow (by decide : (0x80 : UInt16) ≤ 0xd800),
    hlow (by decide : (0x80 : UInt16) ≤ 0xdc00), decide_false, Bool.false_and, and_self]

theorem toWellFormed_plain : ∀ (s : JsString), (∀ c ∈ s, c < 0x80) → toWellFormed s = s
  | [], _ => rfl
  | [u], h => by
    have hu := not_surrogate (h u List.mem_cons_self)
    rw [toWellFormed, hu.1, hu.2, Bool.or_self, if_neg Bool.false_ne_true]
  | u :: v :: s, h => by
    obtain ⟨hhead, htail⟩ := List.forall_mem_cons.1 h
    have hu := not_surrogate hhead
    rw [toWellFormed, hu.1, hu.2, Bool.false_and, if_neg Bool.false_ne_true, Bool.or_self, if_neg Bool.false_ne_true,
      toWellFormed_plain (v :: s) htail]

theorem length_utf8_plain : ∀ (s : JsString), (∀ c ∈ s, c < 0x80) → (utf8 s).length = s.length
  | [], _ => rfl
  | u :: s, h => by
    obtain ⟨hhead, htail⟩ := List.forall_mem_cons.1 h
    have hlt : u.toNat < 0x80 := UInt16.lt_iff_toNat_lt.1 hhead
    rw [Paced.utf8_cons (not_surrogate hhead).1, Paced.encodePoint, if_pos hlt, List.length_append, length_utf8_plain s htail,
      List.length_singleton, List.length_cons, Nat.add_comm]

/-! ## Ten digits -/

theorem length_padStart {n : Nat} {s : JsString} (h : s.length ≤ n) : (padStart n s).length = n := by
  rw [padStart, List.length_append, List.length_replicate, Nat.sub_add_cancel h]

theorem padStart_digits {n : Nat} {s : JsString} (h : ∀ c ∈ s, isDigit c = true) : ∀ c ∈ padStart n s, isDigit c = true := by
  refine List.forall_mem_append.2 ⟨fun c hc => ?_, h⟩
  rw [List.eq_of_mem_replicate hc]
  decide

theorem parseDigits_padStart (n : Nat) (s : JsString) : parseDigits 10 (padStart n s) = parseDigits 10 s := by
  have hzeros : ∀ k, (List.replicate k (0x30 : UInt16)).foldl (fun n c => n * 10 + digitValue c) 0 = 0 := by
    intro k
    induction k with
    | zero => rfl
    | succ k ih => exact ih
  rw [padStart, parseDigits, parseDigits, List.foldl_append, hzeros]

theorem digitValue_digit {c : UInt16} (h : isDigit c = true) : digitValue c < 10 ∧ c = UInt16.ofNat (0x30 + digitValue c) := by
  obtain ⟨d, hd, rfl⟩ := DirectPath.digit_eq h
  have hvalue : ∀ d < 10, digitValue (UInt16.ofNat (0x30 + d)) = d := by decide
  rw [hvalue d (by omega)]
  exact ⟨by omega, rfl⟩

theorem parseDigits_inj {s t : JsString} (hlen : s.length = t.length) (hs : ∀ c ∈ s, isDigit c = true)
    (ht : ∀ c ∈ t, isDigit c = true) (h : parseDigits 10 s = parseDigits 10 t) : s = t := by
  induction s using List.reverseRecOn generalizing t with
  | nil => exact (List.length_eq_zero_iff.1 hlen.symm).symm
  | append_singleton s c ih =>
    obtain ⟨t, d, rfl⟩ : ∃ t' d, t = t' ++ [d] := by
      refine ⟨_, _, (List.dropLast_append_getLast ?_).symm⟩
      rintro rfl
      rw [List.length_append] at hlen
      cases hlen
    rw [DirectPath.parseDigits_concat, DirectPath.parseDigits_concat] at h
    obtain ⟨hc, hceq⟩ := digitValue_digit (hs c (List.mem_append_right s List.mem_cons_self))
    obtain ⟨hd, hdeq⟩ := digitValue_digit (ht d (List.mem_append_right t List.mem_cons_self))
    rw [List.length_append, List.length_append] at hlen
    have hlast : digitValue c = digitValue d := by omega
    rw [ih (Nat.add_right_cancel hlen) (fun x hx => hs x (List.mem_append_left [c] hx))
      (fun x hx => ht x (List.mem_append_left [d] hx)) (by omega), hceq, hdeq, hlast]

theorem decimal_length {n : Nat} (h : (n : Int) ≤ maxUint32) : (decimal n).length ≤ expiryDigits := by
  rw [decimal, List.length_map]
  refine (Nat.length_toDigits_le_iff (by decide) (by decide)).2 ?_
  have hlt : n ≤ 0xffffffff := Int.ofNat_le.1 h
  exact Nat.lt_of_le_of_lt hlt (by decide)

/-- **An expiry has one spelling**, which is read as it. -/
theorem formatSeconds_iff {refusal : String} {n : Nat} {text : JsString} (h : (n : Int) ≤ maxUint32) :
    formatSeconds refusal (JsNum.ofNat n) = .ok text ↔ isExpiryText text = true ∧ parseDigits 10 text = n := by
  have hformat : formatSeconds refusal (JsNum.ofNat n) = .ok (padStart expiryDigits (decimal n)) := by
    rw [formatSeconds, JsNum.int?_ofNat]
    exact if_neg (by omega)
  have hpadded : (padStart expiryDigits (decimal n)).length = expiryDigits := length_padStart (decimal_length h)
  have hdigits := @padStart_digits expiryDigits _ (LocalNet.decimal_digits n)
  have hvalue : parseDigits 10 (padStart expiryDigits (decimal n)) = n := by
    rw [parseDigits_padStart, LocalNet.parseDigits_decimal]
  rw [hformat, Except.ok.injEq, isExpiryText, Bool.and_eq_true, decide_eq_true_eq, List.all_eq_true]
  constructor
  · rintro rfl
    exact ⟨⟨hpadded, hdigits⟩, hvalue⟩
  · rintro ⟨⟨hlen, hall⟩, hread⟩
    exact parseDigits_inj (hpadded.trans hlen.symm) hdigits hall (hvalue.trans hread.symm)

/-! ## Handles and keys -/

theorem isExact_iff {s : JsString} {length : Nat} :
    isExact s length = true ↔ 0 < length ∧ s.length = length ∧ ∀ c ∈ s, Relay.isBase64UrlUnit c = true := by
  simp only [isExact, Relay.isExactBase64Url, Relay.isBoundedBase64Url, Relay.isString, Option.isSome_filter, Option.any_filter,
    Option.any_some, Bool.and_eq_true, decide_eq_true_eq, List.all_eq_true]
  constructor
  · rintro ⟨⟨⟨hpos, -⟩, hall⟩, rfl⟩
    exact ⟨hpos, rfl, hall⟩
  · rintro ⟨hpos, rfl, hall⟩
    exact ⟨⟨⟨hpos, Nat.le_refl _⟩, hall⟩, rfl⟩

theorem isExact_toBase64Url {b : Bytes} (h : b ≠ []) : isExact (Base64Url.toBase64Url b) (Base64Url.base64UrlLength b.length) = true := by
  have hpos : 0 < Base64Url.base64UrlLength b.length := by
    have hlen := List.length_pos_iff.2 h
    rw [Base64Url.base64UrlLength]
    split <;> omega
  exact isExact_iff.2 ⟨hpos, Base64Url.length_toBase64Url b, fun c hc => (alphabet_fragment c (Base64Url.mem_alphabet hc)).1⟩

theorem unpadded_plain {text : JsString} (h : ∀ c ∈ text, Relay.isBase64UrlUnit c = true) : Base64Url.unpadded text = text := by
  refine List.rdropWhile_eq_self_iff.2 (fun hne => ?_)
  intro hlast
  have hunit := h _ (List.getLast_mem hne)
  rw [of_decide_eq_true hlast] at hunit
  exact absurd hunit (by decide)

/-- **A key is read from its one spelling.** -/
theorem importable_eq_some {importKey : Bytes → Bool} {text : JsString} {key : Bytes}
    (hplain : ∀ c ∈ text, Relay.isBase64UrlUnit c = true) : importable importKey text = some key ↔
      text = Base64Url.toBase64Url key ∧ key.length = noiseKeyLength ∧ importKey key = true := by
  have hok : ∀ b, Base64Url.fromBase64Url text = .ok b ↔ text = Base64Url.toBase64Url b := by
    intro b
    rw [Base64Url.fromBase64Url_ok, unpadded_plain hplain]
  rw [importable]
  cases hread : Base64Url.fromBase64Url text with
  | error message =>
    refine ⟨nofun, fun h => ?_⟩
    have hkey := (hok key).2 h.1
    rw [hread] at hkey
    cases hkey
  | ok b =>
    have hb := (hok b).1 hread
    constructor
    · intro h
      dsimp only at h
      split at h
      · cases h
      · rename_i hlen
        obtain ⟨himport, heq⟩ := Option.ite_none_right_eq_some.1 h
        cases heq
        exact ⟨hb, not_not.1 hlen, himport⟩
    · rintro ⟨hkey, hlen, himport⟩
      have hsame : b = key := Except.ok.inj (hread.symm.trans ((hok key).2 hkey))
      subst hsame
      dsimp only
      rw [if_neg (not_not.2 hlen), if_pos himport]

end Link
end Dormouse

import Dormouse.TermProtocol
import Mathlib.Data.List.TakeWhile
/-!
# TermHandler — `parseOsc` as the parser's handler

Which contents `parseOsc` claims and on which it throws is decided by the content alone (`oscClaims`, `oscThrows`).  An
id is decided where its digits end, so text that arrives later never changes a decided disposition
(`oscDispositionAt_append`), and what is routed to xterm.js is what `parseOsc` would have left to it.
-/
namespace Dormouse
namespace Term

variable {P : Payloads}

/-! ## Dispositions -/

variable {id : JsString}

theorem oscDispositionAt_digits (hid : id.all isDigit = true) : oscDispositionAt id = none := by
  have : id.dropWhile isDigit = [] := List.dropWhile_eq_nil_iff.mpr (by simpa using hid)
  rw [oscDispositionAt, this]

theorem takeWhile_stop {p : UInt16 → Bool} {c : UInt16} {cs : JsString} (hid : id.all p = true) (hc : p c = false) :
    (id ++ c :: cs).takeWhile p = id ∧ (id ++ c :: cs).dropWhile p = c :: cs := by
  have h : ∀ a ∈ id, p a = true := by simpa using hid
  rw [List.takeWhile_append_of_pos h, List.dropWhile_append_of_pos h]
  simp [hc]

def idDisposition (id : JsString) (c : UInt16) (cs : JsString) : Option Disposition :=
  if id = [] ∨ c ≠ 0x3b then some .forward
  else if id = units "1337" then osc1337DispositionAt cs
  else if id ∈ oscConsumedIds then some .consume
  else some .forward

theorem oscDispositionAt_id {c : UInt16} {cs : JsString} (hid : id.all isDigit = true) (hc : isDigit c = false) :
    oscDispositionAt (id ++ c :: cs) = idDisposition id c cs := by
  obtain ⟨h1, h2⟩ : _ ∧ (id ++ c :: cs).dropWhile isDigit = c :: cs := takeWhile_stop hid hc
  rw [oscDispositionAt, h1, h2]
  rfl

theorem startsWith_iff {s literal : JsString} : startsWith s literal = true ↔ literal <+: s := by
  rw [startsWith, List.isPrefixOf_iff_prefix]

/-! ## Contents -/

/-- The ids `parseOsc` claims with any content. -/
def claimedIds : List JsString := ["0", "2", "7", "9", "50", "52", "99", "133", "367", "633", "777"].map units

/-- The contents `parseOsc` claims. -/
def oscClaims (R : Readers P) (content : JsString) : Bool :=
  claimedIds.any (fun id => hasId id content) ||
    (hasId (units "1337") content && oscDispositionAt content != some .forward) || (parseColorQuery R content).isSome

/-- The contents on which `parseOsc` throws: an `OSC 9;4` whose state names a member of `Object.prototype` that cannot be
called on nothing. -/
def oscThrows (content : JsString) : Bool :=
  match osc9Subcommand content with
  | some (digits, _) => digits = units "4" && throwingMembers.contains ((content.splitOn 0x3b)[2]?.getD [])
  | none             => false

variable {id content : JsString}

theorem hasId_iff :
    hasId id content = true ↔ content = id ∨ ∃ cs, content = id ++ 0x3b :: cs := by
  simp only [hasId, Bool.or_eq_true, decide_eq_true_eq, startsWith_iff]
  constructor
  · rintro (h | ⟨cs, h⟩)
    · exact .inl h
    · exact .inr ⟨cs, by rw [← h]; simp⟩
  · rintro (h | ⟨cs, h⟩)
    · exact .inl h
    · exact .inr ⟨cs, by rw [h]; simp⟩

theorem hasId_not_forward (hid : id.all isDigit = true) (hm : id ∈ oscConsumedIds) (h : hasId id content = true) :
    oscDispositionAt content ≠ some .forward := by
  rcases hasId_iff.mp h with rfl | ⟨cs, rfl⟩
  · rw [oscDispositionAt_digits hid]
    simp
  · have hne : id ≠ units "1337" := by
      rintro rfl
      revert hm
      decide
    have hnil : id ≠ [] := by
      rintro rfl
      revert hm
      decide
    rw [oscDispositionAt_id hid (by decide), idDisposition, if_neg (by simp [hnil]), if_neg hne, if_pos hm]
    simp

theorem hasId_digits (hc : content.all isDigit = true) :
    hasId id content = true ↔ content = id := by
  rw [hasId_iff]
  constructor
  · rintro (h | ⟨cs, rfl⟩)
    · exact h
    · have h3b : isDigit 0x3b = true := by
        rw [List.all_eq_true] at hc
        exact hc 0x3b (by simp)
      exact absurd h3b (by decide)
  · exact .inl

variable {R : Readers P} {content : JsString}

theorem parseColorQuery_content {events : List (TerminalProtocolEvent P)} (h : parseColorQuery R content = some events) :
    content = units "10;?" ∨ content = units "11;?" ∨ content = units "12;?" := by
  unfold parseColorQuery at h
  by_contra hn
  simp only [not_or] at hn
  simp [hn.1, hn.2.1, hn.2.2] at h

theorem osc9Subcommand_content {content digits rest : JsString} (h : osc9Subcommand content = some (digits, rest)) :
    hasId (units "9") content = true := by
  unfold osc9Subcommand after? at h
  split at h
  · cases h
  · rename_i r hr
    split at hr
    · rename_i hp
      exact hasId_iff.mpr (.inr ⟨content.drop 2, by
        obtain ⟨cs, rfl⟩ := List.isPrefixOf_iff_prefix.mp hp
        rfl⟩)
    · cases hr

theorem oscThrows_hasId (h : oscThrows content = true) : hasId (units "9") content = true := by
  unfold oscThrows at h
  split at h
  · rename_i digits rest hs
    exact osc9Subcommand_content hs
  · cases h

theorem claimedIds_digits (h : id ∈ claimedIds) : id.all isDigit = true ∧ id ∈ oscConsumedIds := by
  have hall : ∀ id ∈ claimedIds, id.all isDigit = true ∧ id ∈ oscConsumedIds := by decide
  exact hall id h

theorem oscClaims_not_forward (h : oscDispositionAt content = some .forward) :
    oscThrows content = false ∧ oscClaims R content = false := by
  have hids : ∀ id ∈ claimedIds, hasId id content = false := by
    intro id hm
    by_contra hid
    obtain ⟨h1, h2⟩ := claimedIds_digits hm
    exact hasId_not_forward h1 h2 (by simpa using hid) h
  constructor
  · by_contra ht
    have := oscThrows_hasId (by simpa using ht)
    rw [hids (units "9") (by decide)] at this
    cases this
  · have hcolor : (parseColorQuery R content).isSome = false := by
      cases hq : parseColorQuery R content with
      | none => rfl
      | some events =>
        rcases parseColorQuery_content hq with rfl | rfl | rfl <;> exact absurd h (by decide)
    simp only [oscClaims, Bool.or_eq_false_iff, List.any_eq_false, Bool.and_eq_false_iff]
    exact ⟨⟨fun id hm => by simp [hids id hm], .inr (by simp [h])⟩, hcolor⟩

theorem oscClaims_digits (h : content.all isDigit = true) :
    oscThrows content = false ∧ (oscClaims R content = true ↔ content ∈ bareIds) := by
  have hcolor : parseColorQuery R content = none := by
    cases hq : parseColorQuery R content with
    | none => rfl
    | some events =>
      rcases parseColorQuery_content hq with rfl | rfl | rfl <;> exact absurd h (by decide)
  constructor
  · unfold oscThrows
    cases hs : osc9Subcommand content with
    | none => rfl
    | some m =>
      obtain ⟨digits, rest⟩ := m
      have := (hasId_digits h).mp (osc9Subcommand_content hs)
      subst this
      have hnone : osc9Subcommand (units "9") = none := by decide
      rw [hnone] at hs
      cases hs
  · have h1337 : oscDispositionAt content != some .forward := by
      rw [oscDispositionAt_digits h]
      decide
    simp only [oscClaims, hcolor, Option.isSome_none, Bool.or_false, Bool.or_eq_true, List.any_eq_true,
      Bool.and_eq_true, hasId_digits h, h1337, and_true]
    constructor
    · rintro (⟨id, hm, rfl⟩ | rfl)
      · have hall : ∀ id ∈ claimedIds, id ∈ bareIds := by decide
        exact hall _ hm
      · decide
    · intro hm
      have hall : ∀ id ∈ bareIds, id ∈ claimedIds ∨ id = units "1337" := by decide
      rcases hall _ hm with h1 | h1
      · exact .inl ⟨content, h1, rfl⟩
      · exact .inr h1

theorem osc94State_throws (R : Readers P) (state : JsString) (raw : Option JsString) :
    (throwingMembers.contains state = true ∧ osc94State R state raw = .threw) ∨
      (throwingMembers.contains state = false ∧ ∃ events, osc94State R state raw = .events events) := by
  have hother : ∀ s ∈ throwingMembers, s ≠ [] ∧ s ≠ units "0" ∧ s ≠ units "1" ∧ s ≠ units "2" ∧ s ≠ units "3" ∧
      s ≠ units "4" ∧ s ≠ units "constructor" ∧ s ≠ units "toString" := by decide
  by_cases hm : state ∈ throwingMembers
  · obtain ⟨h1, h2, h3, h4, h5, h6, h7, h8⟩ := hother state hm
    exact .inl ⟨by simpa using hm, by simp [osc94State, h1, h2, h3, h4, h5, h6, h7, h8, hm]⟩
  · refine .inr ⟨by simpa using hm, ?_⟩
    unfold osc94State
    simp only [hm, if_false]
    repeat' split
    all_goals exact ⟨_, rfl⟩

theorem parseOsc9_throws (R : Readers P) (content : JsString) :
    (oscThrows content = true ∧ parseOsc9 R content = .threw) ∨
      (oscThrows content = false ∧ ∃ events, parseOsc9 R content = .events events) := by
  unfold oscThrows parseOsc9
  cases hs : osc9Subcommand content with
  | none =>
    right
    cases sanitizeText (content.drop 2) bodyLimit <;> exact ⟨rfl, _, rfl⟩
  | some m =>
    obtain ⟨digits, rest⟩ := m
    simp only
    by_cases h4 : digits = units "4"
    · subst h4
      rw [if_pos rfl]
      simp only [decide_true, Bool.true_and]
      exact osc94State_throws R _ _
    · right
      rw [if_neg h4]
      refine ⟨by simp [h4], ?_⟩
      split <;> exact ⟨_, rfl⟩

theorem hasId_takeWhile (hid : id.all isDigit = true) (h : hasId id content = true) :
    content.takeWhile isDigit = id := by
  rcases hasId_iff.mp h with rfl | ⟨cs, rfl⟩
  · exact List.takeWhile_eq_self_iff.mpr (by simpa using hid)
  · exact (takeWhile_stop hid (by decide)).1

theorem not_throws (hid : id.all isDigit = true) (hne : id ≠ units "9") (h : hasId id content = true) :
    oscThrows content = false := by
  by_contra ht
  have h9 := hasId_takeWhile (by decide) (oscThrows_hasId (by simpa using ht))
  rw [hasId_takeWhile hid h] at h9
  exact hne h9

theorem oscClaims_of_id (hm : id ∈ claimedIds) (h : hasId id content = true) :
    oscClaims R content = true := by
  have : claimedIds.any (fun id => hasId id content) = true := List.any_eq_true.mpr ⟨id, hm, h⟩
  simp [oscClaims, this]

/-- What `parseOsc` did, and what the content says it would. -/
inductive ParsedAs (R : Readers P) (t : Osc99Pending) (content : JsString) : Osc99Pending × Parsed P → Prop where
  | threw {t' : Osc99Pending} (ht : oscThrows content = true) : ParsedAs R t content (t', .threw)
  | claimed {t' : Osc99Pending} {events : List (TerminalProtocolEvent P)} (ht : oscThrows content = false)
    (hc : oscClaims R content = true) : ParsedAs R t content (t', .events events)
  | passed (ht : oscThrows content = false) (hc : oscClaims R content = false) : ParsedAs R t content (t, .passed)

theorem ParsedAs.of_id {t t' : Osc99Pending} {events : List (TerminalProtocolEvent P)} (hm : id ∈ claimedIds)
    (hne : id ≠ units "9") (h : hasId id content = true) : ParsedAs R t content (t', .events events) :=
  .claimed (not_throws (claimedIds_digits hm).1 hne h) (oscClaims_of_id hm h)

theorem after?_some {literal s rest : JsString} (h : after? literal s = some rest) : s = literal ++ rest := by
  unfold after? at h
  split at h
  · rename_i hp
    cases h
    obtain ⟨cs, rfl⟩ := List.isPrefixOf_iff_prefix.mp hp
    simp
  · cases h

theorem after?_append (literal cs : JsString) : after? literal (literal ++ cs) = some cs := by
  simp [after?]

theorem parseOsc1337_parsedAs (R : Readers P) (t : Osc99Pending) (h : hasId (units "1337") content = true) :
    ParsedAs R t content (t, parseOsc1337 R content) := by
  have hthrows := not_throws (by decide) (by decide) h
  unfold parseOsc1337
  by_cases hf : oscDispositionAt content = some .forward
  · rw [if_pos hf]
    exact .passed hthrows (oscClaims_not_forward hf).2
  · rw [if_neg hf]
    have hc : oscClaims R content = true := by
      have : (oscDispositionAt content != some .forward) = true := by simpa using hf
      simp [oscClaims, h, this]
    split <;> exact .claimed hthrows hc

theorem parseOsc_parsedAs (R : Readers P) (now : Int) (t : Osc99Pending) (content : JsString) :
    ParsedAs R t content (parseOsc R now t content) := by
  unfold parseOsc
  by_cases h7 : hasId (units "7") content = true
  · rw [if_pos h7]
    exact .of_id (by decide) (by decide) h7
  rw [if_neg h7]
  by_cases h9 : hasId (units "9") content = true
  · rw [if_pos h9]
    rcases parseOsc9_throws R content with ⟨h1, h2⟩ | ⟨h1, events, h2⟩
    · rw [h2]
      exact .threw h1
    · rw [h2]
      exact .claimed h1 (oscClaims_of_id (by decide) h9)
  rw [if_neg h9]
  by_cases h133 : hasId (units "133") content = true
  · rw [if_pos h133]
    exact .of_id (by decide) (by decide) h133
  rw [if_neg h133]
  by_cases h633 : hasId (units "633") content = true
  · rw [if_pos h633]
    exact .of_id (by decide) (by decide) h633
  rw [if_neg h633]
  have hthrows : oscThrows content = false := by
    by_contra ht
    exact h9 (oscThrows_hasId (by simpa using ht))
  by_cases h1337 : hasId (units "1337") content = true
  · rw [if_pos h1337]
    exact parseOsc1337_parsedAs R t h1337
  rw [if_neg h1337]
  by_cases h0 : hasId (units "0") content = true
  · rw [if_pos h0]
    exact .of_id (by decide) (by decide) h0
  rw [if_neg h0]
  by_cases h2 : hasId (units "2") content = true
  · rw [if_pos h2]
    exact .of_id (by decide) (by decide) h2
  rw [if_neg h2]
  by_cases h99 : hasId (units "99") content = true
  · rw [if_pos h99]
    exact .of_id (by decide) (by decide) h99
  rw [if_neg h99]
  by_cases h777 : hasId (units "777") content = true
  · rw [if_pos h777]
    exact .of_id (by decide) (by decide) h777
  rw [if_neg h777]
  by_cases h367 : content = units "367"
  · rw [if_pos h367]
    exact .of_id (by decide) (by decide) (hasId_iff.mpr (.inl h367))
  rw [if_neg h367]
  cases ha : after? (units "367;") content with
  | some payload =>
    have hc := after?_some ha
    have hid : hasId (units "367") content = true := hasId_iff.mpr (.inr ⟨payload, by rw [hc]; rfl⟩)
    exact .of_id (by decide) (by decide) hid
  | none =>
    show ParsedAs R t content (if hasId (units "52") content then _ else _)
    by_cases h52 : hasId (units "52") content = true
    · rw [if_pos h52]
      exact .of_id (by decide) (by decide) h52
    rw [if_neg h52]
    cases hq : parseColorQuery R content with
    | some events => exact .claimed hthrows (by simp [oscClaims, hq])
    | none =>
      show ParsedAs R t content (if hasId (units "50") content then _ else _)
      by_cases h50 : hasId (units "50") content = true
      · rw [if_pos h50]
        exact .of_id (by decide) (by decide) h50
      rw [if_neg h50]
      have h367' : ¬ hasId (units "367") content = true := by
        rw [hasId_iff]
        rintro (h | ⟨cs, rfl⟩)
        · exact h367 h
        · rw [show units "367" ++ 0x3b :: cs = units "367;" ++ cs from rfl, after?_append] at ha
          cases ha
      have hids : claimedIds.any (fun id => hasId id content) = false := by
        simp [claimedIds, h0, h2, h7, h9, h50, h52, h99, h133, h367', h633, h777]
      refine .passed hthrows ?_
      simp [oscClaims, hids, h1337, hq]

/-- **`parseOsc` is a handler**: its claims and its throws are decided by the content. -/
def oscHandler (R : Readers P) (now : Int) : Handler P Osc99Pending where
  parse := parseOsc R now
  claims := oscClaims R
  throws := oscThrows
  parse_throws {t c} h := by
    have hp := parseOsc_parsedAs R now t c
    generalize parseOsc R now t c = r at hp ⊢
    cases hp with
    | threw _ => rfl
    | claimed ht _ => rw [h] at ht; cases ht
    | passed ht _ => rw [h] at ht; cases ht
  parse_claims {t c} h hc := by
    have hp := parseOsc_parsedAs R now t c
    generalize parseOsc R now t c = r at hp ⊢
    cases hp with
    | threw ht => rw [h] at ht; cases ht
    | claimed _ _ => exact ⟨_, rfl⟩
    | passed _ hc' => rw [hc] at hc'; cases hc'
  parse_passed {t c} h hc := by
    have hp := parseOsc_parsedAs R now t c
    generalize parseOsc R now t c = r at hp ⊢
    cases hp with
    | threw ht => rw [h] at ht; cases ht
    | claimed _ hc' => rw [hc] at hc'; cases hc'
    | passed _ _ => rfl
  forward h := oscClaims_not_forward h
  digits h := oscClaims_digits h

end Term
end Dormouse

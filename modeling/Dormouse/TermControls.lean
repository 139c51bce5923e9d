import Dormouse.Js
import Dormouse.Mealy
/-!
# The string controls of a terminal stream

`lib/src/lib/terminal-controls.ts`: the one grammar of the five string controls, and `TerminalControlStreamFilter`, which
drops them from a stream that arrives in pieces.  A regular expression that looks for one character of a set, or for an
introducer, is the function that splits a text at its first match.

The filter is a Mealy machine of five states (`filterStep`): `filter_run`.
-/
namespace Dormouse
namespace Term

/-! ## Characters -/

def bel : UInt16 := 0x07
def can : UInt16 := 0x18
def sub : UInt16 := 0x1a
def esc : UInt16 := 0x1b
def backslash : UInt16 := 0x5c
/-- The C1 `ST`. -/
def st : UInt16 := 0x9c

/-- What follows ESC in an introducer: one of `] P X ^ _`. -/
def isOpener (c : UInt16) : Bool := c == 0x5d || c == 0x50 || c == 0x58 || c == 0x5e || c == 0x5f

def isC1Introducer (c : UInt16) : Bool := c == 0x90 || c == 0x98 || c == 0x9d || c == 0x9e || c == 0x9f

/-! ## The grammar -/

inductive StringControlKind where
  | osc
  | other
  deriving DecidableEq, Repr

/-- A match of `STRING_CONTROL_INTRODUCER`: the text before it, the match and the text after it. -/
structure Introduced where
  gap        : JsString
  introducer : JsString
  rest       : JsString
  deriving DecidableEq, Repr

def Introduced.behind (g : JsString) (m : Introduced) : Introduced := { m with gap := g ++ m.gap }
def Introduced.before (m : Introduced) (x : JsString) : Introduced := { m with rest := m.rest ++ x }

def introducerAt : JsString → Option (JsString × JsString)
  | []      => none
  | c :: cs =>
    if isC1Introducer c then some ([c], cs)
    else if c = esc then
      match cs with
      | d :: ds => if isOpener d then some ([c, d], ds) else none
      | []      => none
    else none

/-- `STRING_CONTROL_INTRODUCER_SCAN.exec`. -/
def introducerScan : JsString → Option Introduced
  | []      => none
  | c :: cs =>
    match introducerAt (c :: cs) with
    | some (introducer, rest) => some ⟨[], introducer, rest⟩
    | none                    => (introducerScan cs).map (Introduced.behind [c])

def stringControlKind (introducer : JsString) : StringControlKind :=
  let opener := if introducer.length = 2 then introducer.drop 1 else introducer
  if opener = [0x5d] ∨ opener = [0x9d] then .osc else .other

/-- The characters of `OSC_END_SCAN` and `STRING_END_SCAN`. -/
def isStringEnd (kind : StringControlKind) (c : UInt16) : Bool :=
  (kind == .osc && c == bel) || c == can || c == sub || c == esc || c == st

/-- `stringControlEndScan(kind).exec`: the payload before the first end character, that character and what follows. -/
def stringControlEndScan (kind : StringControlKind) : JsString → Option (JsString × UInt16 × JsString)
  | []      => none
  | c :: cs =>
    if isStringEnd kind c then some ([], c, cs)
    else (stringControlEndScan kind cs).map (fun m => (c :: m.1, m.2))

/-! ## `TerminalControlStreamFilter` -/

/-- `endsWith('\x1b')`. -/
def endsWithEsc (text : JsString) : Bool := text.getLast? == some esc

inductive FilterState where
  | ground
  | escape
  | osc
  | string
  | stringEscape
  deriving DecidableEq, Repr

def FilterState.ofKind : StringControlKind → FilterState
  | .osc   => .osc
  | .other => .string

/-- Where an end character leads: only ESC needs the character after it. -/
def FilterState.afterEnd (c : UInt16) : FilterState := if c = esc then .stringEscape else .ground

/-- How many of its states re-read the character they are given. -/
def FilterState.rank : FilterState → Nat
  | .stringEscape => 2
  | .escape       => 1
  | _             => 0

theorem FilterState.rank_le (s : FilterState) : s.rank ≤ 2 := by
  cases s <;> decide

theorem introducerAt_length {t i r : JsString} (h : introducerAt t = some (i, r)) : r.length < t.length := by
  unfold introducerAt at h
  split at h
  · cases h
  · split at h
    · cases h
      simp
    · split at h
      · split at h
        · split at h
          · cases h
            simp only [List.length_cons]
            omega
          · cases h
        · cases h
      · cases h

theorem introducerScan_length : ∀ {t : JsString} {m : Introduced}, introducerScan t = some m → m.rest.length < t.length
  | [], m, h => by cases h
  | c :: cs, m, h => by
    rw [introducerScan] at h
    split at h
    · rename_i i r hi
      cases h
      exact introducerAt_length hi
    · obtain ⟨m', hm, rfl⟩ := Option.map_eq_some_iff.mp h
      have := introducerScan_length hm
      simp only [Introduced.behind, List.length_cons]
      omega

theorem stringControlEndScan_text {kind : StringControlKind} : ∀ {t p r : JsString} {c : UInt16},
    stringControlEndScan kind t = some (p, c, r) → t = p ++ c :: r
  | [], _, _, _, h => by cases h
  | d :: ds, p, r, c, h => by
    rw [stringControlEndScan] at h
    split at h
    · cases h
      rfl
    · obtain ⟨⟨p', c', r'⟩, hm, he⟩ := Option.map_eq_some_iff.mp h
      cases he
      rw [stringControlEndScan_text hm]
      rfl

/-- The loop of `process` on what is left of the input: the state it ends in, and the output. -/
def filterLoop : FilterState → JsString → FilterState × JsString
  | state, [] => (state, [])
  | .ground, c :: cs =>
    match h : introducerScan (c :: cs) with
    | none   => if endsWithEsc (c :: cs) then (.escape, (c :: cs).dropLast) else (.ground, c :: cs)
    | some m =>
      have := introducerScan_length h
      let r := filterLoop (.ofKind (stringControlKind m.introducer)) m.rest
      (r.1, m.gap ++ r.2)
  | .escape, c :: cs =>
    if c = 0x5d then filterLoop .osc cs
    else if c = 0x50 ∨ c = 0x58 ∨ c = 0x5e ∨ c = 0x5f then filterLoop .string cs
    else
      let r := filterLoop .ground (c :: cs)
      (r.1, esc :: r.2)
  | .osc, c :: cs =>
    match h : stringControlEndScan .osc (c :: cs) with
    | none              => (.osc, [])
    | some (p, e, rest) =>
      have := congrArg List.length (stringControlEndScan_text h)
      filterLoop (.afterEnd e) rest
  | .string, c :: cs =>
    match h : stringControlEndScan .other (c :: cs) with
    | none              => (.string, [])
    | some (p, e, rest) =>
      have := congrArg List.length (stringControlEndScan_text h)
      filterLoop (.afterEnd e) rest
  | .stringEscape, c :: cs =>
    if c = backslash then filterLoop .ground cs
    else filterLoop .escape (c :: cs)
termination_by state input => 3 * input.length + state.rank
decreasing_by
  · have hr := FilterState.rank_le (.ofKind (stringControlKind m.introducer))
    simp only [List.length_cons, FilterState.rank] at *
    omega
  · simp only [List.length_cons, FilterState.rank]
    omega
  · simp only [List.length_cons, FilterState.rank]
    omega
  · simp only [List.length_cons, FilterState.rank]
    omega
  · have hr := FilterState.rank_le (.afterEnd e)
    simp only [List.length_cons, List.length_append] at *
    omega
  · have hr := FilterState.rank_le (.afterEnd e)
    simp only [List.length_cons, List.length_append] at *
    omega
  · simp only [List.length_cons, FilterState.rank]
    omega
  · simp only [FilterState.rank]
    omega

/-- `TerminalControlStreamFilter.process`. -/
def filter (state : FilterState) (input : JsString) : FilterState × JsString :=
  if state = .ground ∧ endsWithEsc input = false ∧ (introducerScan input).isNone then (state, input)
  else filterLoop state input

def FilterState.heldEsc : FilterState → JsString
  | .escape => [esc]
  | _       => []

/-! ## Finding an introducer -/

def IsIntroducer (i : JsString) : Prop :=
  (∃ c, isC1Introducer c = true ∧ i = [c]) ∨ ∃ d, isOpener d = true ∧ i = [esc, d]

variable {d : UInt16}

theorem isOpener_not_c1 (h : isOpener d = true) : isC1Introducer d = false := by
  simp only [isOpener, Bool.or_eq_true, beq_iff_eq] at h
  rcases h with (((rfl | rfl) | rfl) | rfl) | rfl <;> decide

theorem isOpener_ne_esc (h : isOpener d = true) : d ≠ esc := by
  rintro rfl
  revert h
  decide

variable {c : UInt16}

theorem introducerAt_c1 (h : isC1Introducer c = true) (r : JsString) :
    introducerAt (c :: r) = some ([c], r) := by
  simp [introducerAt, h]

theorem introducerAt_esc (h : isOpener d = true) (r : JsString) :
    introducerAt (esc :: d :: r) = some ([esc, d], r) := by
  have he : isC1Introducer esc = false := by decide
  simp [introducerAt, he, h]

variable {cs : JsString}

theorem introducerAt_none (h : introducerAt (c :: cs) = none) :
    isC1Introducer c = false ∧ (c = esc → cs.head?.any isOpener = false) := by
  have hc : isC1Introducer c = false := by
    by_contra hc
    rw [introducerAt_c1 (by simpa using hc)] at h
    cases h
  refine ⟨hc, ?_⟩
  rintro rfl
  cases cs with
  | nil => rfl
  | cons d ds =>
    by_contra hd
    rw [introducerAt_esc (by simpa using hd)] at h
    cases h

theorem introducerAt_some {t i r : JsString} (h : introducerAt t = some (i, r)) : IsIntroducer i ∧ t = i ++ r := by
  unfold introducerAt at h
  split at h
  · cases h
  · rename_i c cs
    split at h
    · rename_i hc
      cases h
      exact ⟨.inl ⟨c, hc, rfl⟩, rfl⟩
    · split at h
      · rename_i hce
        subst hce
        split at h
        · rename_i d ds
          split at h
          · rename_i hd
            cases h
            exact ⟨.inr ⟨d, hd, rfl⟩, rfl⟩
          · cases h
        · cases h
      · cases h

theorem introducerAt_introducer {i : JsString} (h : IsIntroducer i) (r : JsString) :
    introducerAt (i ++ r) = some (i, r) := by
  rcases h with ⟨c, hc, rfl⟩ | ⟨d, hd, rfl⟩
  · exact introducerAt_c1 hc r
  · exact introducerAt_esc hd r

theorem introducerAt_of_not (hc : isC1Introducer c = false) (he : c = esc → cs.head?.any isOpener = false) :
    introducerAt (c :: cs) = none := by
  cases hat : introducerAt (c :: cs) with
  | none => rfl
  | some ir =>
    obtain ⟨⟨c', hc', hi⟩ | ⟨d, hd, hi⟩, ht⟩ := introducerAt_some hat
    · rw [hi] at ht
      cases ht
      rw [hc] at hc'
      cases hc'
    · rw [hi] at ht
      cases ht
      have hn : isOpener d = false := he rfl
      rw [hd] at hn
      cases hn

theorem introducerAt_append {t i r : JsString} (h : introducerAt t = some (i, r)) (x : JsString) :
    introducerAt (t ++ x) = some (i, r ++ x) := by
  obtain ⟨hi, rfl⟩ := introducerAt_some h
  rw [List.append_assoc]
  exact introducerAt_introducer hi _

theorem introducerScan_introducer {i : JsString} (h : IsIntroducer i) (r : JsString) :
    introducerScan (i ++ r) = some ⟨[], i, r⟩ := by
  have hi := introducerAt_introducer h r
  rcases h with ⟨c, hc, rfl⟩ | ⟨d, hd, rfl⟩ <;>
    · simp only [List.cons_append, List.nil_append] at hi ⊢
      rw [introducerScan, hi]

theorem introducerScan_cons_none (h : introducerAt (c :: cs) = none) :
    introducerScan (c :: cs) = (introducerScan cs).map (.behind [c]) := by
  rw [introducerScan, h]

theorem introducerScan_cons (h : introducerScan (c :: cs) = none) :
    introducerAt (c :: cs) = none ∧ introducerScan cs = none := by
  cases hat : introducerAt (c :: cs) with
  | none =>
    rw [introducerScan_cons_none hat] at h
    exact ⟨rfl, Option.map_eq_none_iff.mp h⟩
  | some ir =>
    rw [introducerScan, hat] at h
    cases h

/-- **What a scan splits**: the text before has no introducer of its own. -/
theorem introducerScan_some : ∀ {t : JsString} {m : Introduced}, introducerScan t = some m →
    IsIntroducer m.introducer ∧ t = m.gap ++ (m.introducer ++ m.rest)
  | [], m, h => by cases h
  | c :: cs, m, h => by
    cases hat : introducerAt (c :: cs) with
    | some ir =>
      obtain ⟨i, r⟩ := ir
      rw [introducerScan, hat] at h
      cases h
      exact introducerAt_some hat
    | none =>
      rw [introducerScan_cons_none hat] at h
      obtain ⟨m', hm, rfl⟩ := Option.map_eq_some_iff.mp h
      obtain ⟨hi, ht⟩ := introducerScan_some hm
      exact ⟨hi, by rw [ht]; rfl⟩

/-- **A match stays where it is when more text arrives.** -/
theorem introducerScan_append : ∀ {t : JsString} {m : Introduced}, introducerScan t = some m →
    ∀ x, introducerScan (t ++ x) = some (m.before x)
  | [], m, h, _ => by cases h
  | c :: cs, m, h, x => by
    cases hat : introducerAt (c :: cs) with
    | some ir =>
      obtain ⟨i, r⟩ := ir
      rw [introducerScan, hat] at h
      cases h
      have := introducerAt_append hat x
      rw [List.cons_append] at this ⊢
      rw [introducerScan, this]
      rfl
    | none =>
      rw [introducerScan_cons_none hat] at h
      obtain ⟨m', hm, rfl⟩ := Option.map_eq_some_iff.mp h
      have hcs : cs ≠ [] := by
        rintro rfl
        cases hm
      have hx : introducerAt (c :: (cs ++ x)) = none := by
        obtain ⟨hc, he⟩ := introducerAt_none hat
        refine introducerAt_of_not hc (fun hce => ?_)
        obtain ⟨d, ds, rfl⟩ := List.exists_cons_of_ne_nil hcs
        exact he hce
      rw [List.cons_append, introducerScan_cons_none hx, introducerScan_append hm x]
      rfl

theorem introducerScan_none_left {t x : JsString} (h : introducerScan (t ++ x) = none) : introducerScan t = none := by
  cases ht : introducerScan t with
  | none => rfl
  | some m =>
    rw [introducerScan_append ht x] at h
    cases h

def Straddles (g x : JsString) : Prop := endsWithEsc g = true ∧ x.head?.any isOpener = true

theorem endsWithEsc_cons {c d : UInt16} {ds : JsString} : endsWithEsc (c :: d :: ds) = endsWithEsc (d :: ds) := by
  simp [endsWithEsc, List.getLast?_cons_cons]

theorem endsWithEsc_append_cons (a : JsString) (c : UInt16) (b : JsString) :
    endsWithEsc (a ++ c :: b) = endsWithEsc (c :: b) := by
  simp [endsWithEsc, List.getLast?_append]

theorem endsWithEsc_iff {t : JsString} : endsWithEsc t = true ↔ ∃ t', t = t' ++ [esc] := by
  rw [endsWithEsc, beq_iff_eq, List.getLast?_eq_some_iff]

/-- **Text with no introducer is passed over**, unless the cut falls inside one. -/
theorem introducerScan_ground : ∀ {g x : JsString}, introducerScan g = none → ¬ Straddles g x →
    introducerScan (g ++ x) = (introducerScan x).map (.behind g)
  | [], x, _, _ => by
    cases h : introducerScan x <;> simp [h, Introduced.behind]
  | c :: cs, x, hg, hx => by
    obtain ⟨hat, hcs⟩ := introducerScan_cons hg
    obtain ⟨hc, he⟩ := introducerAt_none hat
    have hat' : introducerAt (c :: (cs ++ x)) = none := by
      refine introducerAt_of_not hc (fun h => ?_)
      cases cs with
      | cons d ds => exact he h
      | nil =>
        rw [List.nil_append]
        by_contra hop
        exact hx ⟨by subst h; decide, by simpa using hop⟩
    have hx' : ¬ Straddles cs x := by
      rintro ⟨h1, h2⟩
      cases cs with
      | nil => cases h1
      | cons d ds => exact hx ⟨by rw [endsWithEsc_cons]; exact h1, h2⟩
    rw [List.cons_append, introducerScan_cons_none hat', introducerScan_ground hcs hx']
    cases introducerScan x <;> rfl

theorem introducerScan_straddle {g x : JsString} (hg : introducerScan (g ++ [esc]) = none) (hd : isOpener d = true) :
    introducerScan (g ++ esc :: d :: x) = some ⟨g, [esc, d], x⟩ := by
  have hne : ¬ Straddles g (esc :: d :: x) := by
    rintro ⟨-, h⟩
    revert h
    simp only [List.head?_cons, Option.any_some]
    decide
  rw [introducerScan_ground (introducerScan_none_left hg) hne]
  have := introducerScan_introducer (.inr ⟨d, hd, rfl⟩) x
  rw [List.cons_append, List.cons_append, List.nil_append] at this
  rw [this]
  simp [Introduced.behind]

/-! ## Finding an end -/

theorem stringControlEndScan_append {kind : StringControlKind} : ∀ {t p r : JsString} {c : UInt16},
    stringControlEndScan kind t = some (p, c, r) →
      ∀ x, stringControlEndScan kind (t ++ x) = some (p, c, r ++ x)
  | [], _, _, _, h, _ => by cases h
  | d :: ds, p, r, c, h, x => by
    rw [stringControlEndScan] at h
    rw [List.cons_append, stringControlEndScan]
    split at h
    · rename_i hd
      cases h
      rw [if_pos hd]
    · rename_i hd
      obtain ⟨⟨p', c', r'⟩, hm, he⟩ := Option.map_eq_some_iff.mp h
      cases he
      rw [if_neg hd, stringControlEndScan_append hm x]
      rfl

theorem stringControlEndScan_free {kind : StringControlKind} : ∀ {b : JsString},
    (∀ c ∈ b, isStringEnd kind c = false) →
      ∀ t, stringControlEndScan kind (b ++ t) = (stringControlEndScan kind t).map (fun m => (b ++ m.1, m.2))
  | [], _, t => by
    cases h : stringControlEndScan kind t <;> simp [h]
  | c :: cs, h, t => by
    rw [List.cons_append, stringControlEndScan, if_neg (by simp [h c (by simp)]),
      stringControlEndScan_free (fun d hd => h d (by simp [hd])) t]
    cases stringControlEndScan kind t <;> rfl

theorem stringControlEndScan_none {kind : StringControlKind} : ∀ {t : JsString}, stringControlEndScan kind t = none →
    ∀ c ∈ t, isStringEnd kind c = false
  | [], _, _, hc => by cases hc
  | d :: ds, h, c, hc => by
    rw [stringControlEndScan] at h
    split at h
    · cases h
    · rename_i hd
      rcases List.mem_cons.mp hc with rfl | hc
      · simpa using hd
      · exact stringControlEndScan_none (Option.map_eq_none_iff.mp h) c hc

theorem stringControlEndScan_payload {kind : StringControlKind} : ∀ {t p r : JsString} {c : UInt16},
    stringControlEndScan kind t = some (p, c, r) →
      (∀ d ∈ p, isStringEnd kind d = false) ∧ isStringEnd kind c = true
  | [], _, _, _, h => by cases h
  | d :: ds, p, r, c, h => by
    rw [stringControlEndScan] at h
    split at h
    · rename_i hd
      cases h
      exact ⟨by simp, hd⟩
    · rename_i hd
      obtain ⟨⟨p', c', r'⟩, hm, he⟩ := Option.map_eq_some_iff.mp h
      cases he
      obtain ⟨hp, hc⟩ := stringControlEndScan_payload hm
      refine ⟨fun e he => ?_, hc⟩
      rcases List.mem_cons.mp he with rfl | he
      · simpa using hd
      · exact hp e he

/-! ## The filter as a machine -/

def groundStep (c : UInt16) : FilterState × JsString :=
  if isC1Introducer c then (.ofKind (stringControlKind [c]), [])
  else if c = esc then (.escape, [])
  else (.ground, [c])

def escapeStep (c : UInt16) : FilterState × JsString :=
  if isOpener c then (.ofKind (stringControlKind [esc, c]), []) else ((groundStep c).1, esc :: (groundStep c).2)

def filterStep : FilterState → UInt16 → FilterState × JsString
  | .ground,       c => groundStep c
  | .escape,       c => escapeStep c
  | .osc,          c => if isStringEnd .osc c then (.afterEnd c, []) else (.osc, [])
  | .string,       c => if isStringEnd .other c then (.afterEnd c, []) else (.string, [])
  | .stringEscape, c => if c = backslash then (.ground, []) else escapeStep c

abbrev filterRun : FilterState → JsString → FilterState × JsString := Mealy.run filterStep

theorem filterStep_ofKind (kind : StringControlKind) (c : UInt16) :
    filterStep (.ofKind kind) c = if isStringEnd kind c then (.afterEnd c, []) else (.ofKind kind, []) := by
  cases kind <;> rfl

theorem filterRun_esc (hd : isOpener d = false) (t : JsString) :
    filterRun .escape (d :: t) = ((filterRun .ground (d :: t)).1, esc :: (filterRun .ground (d :: t)).2) := by
  simp only [filterRun, Mealy.run_cons, filterStep, escapeStep, hd, Bool.false_eq_true, if_false, List.cons_append]

theorem filterRun_ground_esc (t : JsString) : filterRun .ground (esc :: t) = filterRun .escape t := by
  simp only [filterRun, Mealy.run_cons, filterStep, groundStep]
  rfl

theorem filterRun_ground_char (hc : isC1Introducer c = false) (he : c ≠ esc) (t : JsString) :
    filterRun .ground (c :: t) = ((filterRun .ground t).1, c :: (filterRun .ground t).2) := by
  simp [filterRun, Mealy.run_cons, filterStep, groundStep, hc, he]

theorem filterRun_ground_cons {c d : UInt16} {ds : JsString} (h : introducerAt (c :: d :: ds) = none) :
    filterRun .ground (c :: d :: ds) = ((filterRun .ground (d :: ds)).1, c :: (filterRun .ground (d :: ds)).2) := by
  obtain ⟨hc, he⟩ := introducerAt_none h
  by_cases hce : c = esc
  · subst hce
    rw [filterRun_ground_esc, filterRun_esc (he rfl)]
  · exact filterRun_ground_char hc hce _

theorem filterRun_introducer {i : JsString} (h : IsIntroducer i) (r : JsString) :
    filterRun .ground (i ++ r) = filterRun (.ofKind (stringControlKind i)) r := by
  rcases h with ⟨c, hc, rfl⟩ | ⟨d, hd, rfl⟩
  · simp [filterRun, Mealy.run_cons, filterStep, groundStep, hc]
  · rw [List.cons_append, filterRun_ground_esc]
    simp [filterRun, Mealy.run_cons, filterStep, escapeStep, hd]

theorem filterRun_free : ∀ {t : JsString}, introducerScan t = none →
    filterRun .ground t = if endsWithEsc t then (.escape, t.dropLast) else (.ground, t)
  | [], _ => rfl
  | [c], h => by
    obtain ⟨hat, -⟩ := introducerScan_cons h
    obtain ⟨hc, -⟩ := introducerAt_none hat
    by_cases hce : c = esc
    · subst hce
      rfl
    · rw [filterRun_ground_char hc hce]
      simp [endsWithEsc, hce]
  | c :: d :: ds, h => by
    obtain ⟨hat, hds⟩ := introducerScan_cons h
    rw [filterRun_ground_cons hat, filterRun_free hds, endsWithEsc_cons]
    split <;> rfl

/-- Ground text with no introducer is emitted, unless the cut falls inside one. -/
theorem filterRun_over : ∀ {c x : JsString}, introducerScan c = none → ¬ Straddles c x → (x = [] → endsWithEsc c = false) →
    filterRun .ground (c ++ x) = ((filterRun .ground x).1, c ++ (filterRun .ground x).2)
  | [], _, _, _, _ => rfl
  | [a], x, h, hx, hn => by
    obtain ⟨hat, -⟩ := introducerScan_cons h
    obtain ⟨ha, -⟩ := introducerAt_none hat
    by_cases hae : a = esc
    · subst hae
      cases x with
      | nil => exact absurd (hn rfl) (by decide)
      | cons d ds =>
        have hd : isOpener d = false := by
          by_contra hd
          exact hx ⟨by decide, by simpa using hd⟩
        rw [List.cons_append, List.nil_append, filterRun_ground_esc, filterRun_esc hd]
        rfl
    · exact filterRun_ground_char ha hae x
  | a :: b :: cs, x, h, hx, hn => by
    obtain ⟨hat, hcs⟩ := introducerScan_cons h
    have hat' : introducerAt (a :: b :: (cs ++ x)) = none := by
      obtain ⟨h1, h2⟩ := introducerAt_none hat
      exact introducerAt_of_not h1 h2
    have ih := filterRun_over (x := x) hcs
      (fun hs => hx ⟨by rw [endsWithEsc_cons]; exact hs.1, hs.2⟩)
      (fun h => by rw [← endsWithEsc_cons (c := a)]; exact hn h)
    rw [List.cons_append, List.cons_append, filterRun_ground_cons hat', ← List.cons_append, ih]
    rfl

theorem filterRun_found : ∀ {t : JsString} {m : Introduced}, introducerScan t = some m →
    filterRun .ground t =
      ((filterRun (.ofKind (stringControlKind m.introducer)) m.rest).1,
        m.gap ++ (filterRun (.ofKind (stringControlKind m.introducer)) m.rest).2)
  | [], m, h => by cases h
  | c :: cs, m, h => by
    cases hat : introducerAt (c :: cs) with
    | some ir =>
      obtain ⟨i, r⟩ := ir
      rw [introducerScan, hat] at h
      cases h
      obtain ⟨hi, ht⟩ := introducerAt_some hat
      rw [ht, filterRun_introducer hi]
      rfl
    | none =>
      rw [introducerScan_cons_none hat] at h
      obtain ⟨m', hm, rfl⟩ := Option.map_eq_some_iff.mp h
      cases cs with
      | nil => cases hm
      | cons d ds =>
        rw [filterRun_ground_cons hat, filterRun_found hm]
        rfl

theorem filterRun_string (kind : StringControlKind) : ∀ (t : JsString),
    filterRun (.ofKind kind) t =
      match stringControlEndScan kind t with
      | none => (.ofKind kind, [])
      | some (_, e, r) => filterRun (.afterEnd e) r
  | [] => rfl
  | c :: cs => by
    rw [filterRun, Mealy.run_cons, filterStep_ofKind, stringControlEndScan]
    split
    · rfl
    · have ih := filterRun_string kind cs
      rw [filterRun] at ih
      simp only [List.nil_append, Prod.mk.eta]
      rw [ih]
      cases stringControlEndScan kind cs <;> rfl

theorem filterRun_stringEscape (hc : c ≠ backslash) (cs : JsString) :
    filterRun .stringEscape (c :: cs) = filterRun .escape (c :: cs) := by
  simp [filterRun, Mealy.run_cons, filterStep, hc]

/-- **The loop of the filter is the machine's run.** -/
theorem filterLoop_run (state : FilterState) (input : JsString) : filterLoop state input = filterRun state input := by
  fun_induction filterLoop state input with
  | case1 state => rfl
  | case2 c cs h he => rw [filterRun_free h, if_pos he]
  | case3 c cs h he => rw [filterRun_free h, if_neg he]
  | case4 c cs m h _ r ih => rw [filterRun_found h, ← ih]
  | case5 cs ih => exact ih
  | case6 c cs h1 h2 ih =>
    rw [ih]
    rcases h2 with rfl | rfl | rfl | rfl <;> rfl
  | case7 c cs h1 h2 r ih =>
    have hd : isOpener c = false := by simp_all [isOpener]
    rw [filterRun_esc hd, ← ih]
  | case8 c cs h =>
    have := filterRun_string .osc (c :: cs)
    rw [h] at this
    exact this.symm
  | case9 c cs p e rest h _ ih =>
    have := filterRun_string .osc (c :: cs)
    rw [h] at this
    exact ih.trans this.symm
  | case10 c cs h =>
    have := filterRun_string .other (c :: cs)
    rw [h] at this
    exact this.symm
  | case11 c cs p e rest h _ ih =>
    have := filterRun_string .other (c :: cs)
    rw [h] at this
    exact ih.trans this.symm
  | case12 cs ih => exact ih
  | case13 c cs hc ih => rw [filterRun_stringEscape hc, ih]

/-- **So is the filter**: a chunk that skips the loop has nothing the machine would hold or drop. -/
theorem filter_run (state : FilterState) (input : JsString) : filter state input = filterRun state input := by
  unfold filter
  split
  · rename_i h
    obtain ⟨rfl, he, hn⟩ := h
    rw [filterRun_free (Option.isNone_iff_eq_none.mp hn), if_neg (by simp [he])]
  · exact filterLoop_run state input

end Term
end Dormouse

import Dormouse.CopyBuffer
/-!
# CopyDecoration — what of a line is decoration

The patterns of `copy-text.ts` and its `decoration`, over UTF-16 units: every glyph they name is one unit.  Where a pattern could
give back what it read, what it gave back could not match what follows, so each is one pass.
-/
namespace Dormouse
namespace CopyText

open Term (isSpace isDigit trim)

/-! ## Glyphs -/

/-- `BOX`. -/
def isBox (c : UInt16) : Bool := 0x2500 ≤ c && c ≤ 0x259f

/-- `QUOTE_BAR`. -/
def isQuoteBar (c : UInt16) : Bool := c = 0x258f || c = 0x258e || c = 0x258d

def isQuoteMark (c : UInt16) : Bool := c = 0x3e || isQuoteBar c

def isBullet (c : UInt16) : Bool := c = 0x23fa || c = 0x23bf || c = 0x25cf

def isBlankUnit (c : UInt16) : Bool := c = 0x20

/-- `BARS_ONLY`. -/
def isBarsOnly (text : JsString) : Bool := !text.isEmpty && text.all (fun c => isSpace c || isQuoteBar c)

def isFrameOnly (text : JsString) : Bool :=
  !text.isEmpty && text.all (fun c => isBox c || isSpace c) && text.any isBox && !isBarsOnly text

/-! ## Patterns -/

/-- Where `TRAIL_BOX` matches, or else the end. -/
def trailAt (text : JsString) : Nat :=
  let before := text.rdropWhile isBox
  if before.length < text.length && before.getLast? = some 0x20 then before.length - 1 else before.length

def spacesAt (s : JsString) : Nat := (s.takeWhile isBlankUnit).length

/-- The white space a text starts with: `\s*`. -/
def indentOf (s : JsString) : Nat := (s.takeWhile isSpace).length

/-- `(?:[>▏▎▍] ?)*[>▏▎▍]`: how long it is. -/
def quoteMarks : JsString → Nat
  | []             => 0
  | [c]            => if isQuoteMark c then 1 else 0
  | c :: d :: rest =>
    if isQuoteMark c then
      if d = 0x20 && rest.head?.any isQuoteMark then 2 + quoteMarks rest else 1 + quoteMarks (d :: rest)
    else 0

/-- What `QUOTE` wants after the marks, `mark` the last of them: one or two spaces, any number of them after `>`, and text. -/
def quoteText (mark : Option UInt16) (rest : JsString) : Bool :=
  let n := spacesAt rest
  1 ≤ n && (n ≤ 2 || mark = some 0x3e) && (rest.drop n).head?.any (fun c => !isSpace c && !isQuoteMark c)

/-- `QUOTE`: where its prefix starts, and its length. -/
def quotePrefix (text : JsString) : Option (Nat × Nat) :=
  let indent := indentOf text
  let marks := quoteMarks (text.drop indent)
  if 0 < marks && quoteText ((text.take (indent + marks)).getLast?) (text.drop (indent + marks)) then
    some (indent, marks) else none

/-- `(?:[▏▎▍] {2,})*`. -/
def guides : JsString → Nat
  | []        => 0
  | c :: rest =>
    let n := spacesAt rest
    if isQuoteBar c && 2 ≤ n then 1 + n + guides (rest.drop n) else 0
  termination_by s => s.length
  decreasing_by
    rw [List.length_drop, List.length_cons]
    omega

/-- `⏺ |⎿ |● |(?:[▏▎▍] {2,})+|[─-▟]+ ?`: how long it is. -/
def marker (s : JsString) : Nat :=
  if s.head?.any isBullet && (s.drop 1).head? = some 0x20 then 2
  else if 0 < guides s then guides s
  else
    let box := (s.takeWhile isBox).length
    if 0 < box && (s.drop box).head? = some 0x20 then box + 1 else box

/-- `LEAD_MARKER`: where its marker starts, and its end. -/
def leadMarker (text : JsString) : Option (Nat × Nat) :=
  let indent := indentOf text
  let length := marker (text.drop indent)
  if 0 < length then some (indent, indent + length) else none

/-- `LIST_MARKER`: how long it is. -/
def listMarker (text : JsString) : Option Nat :=
  let digits := (text.takeWhile isDigit).length
  if text.head?.any (fun c => c = 0x2d || c = 0x2a || c = 0x2022) && (text.drop 1).head? = some 0x20 then some 2
  else if 0 < digits && (text.drop digits).head?.any (fun c => c = 0x2e || c = 0x29) &&
    (text.drop (digits + 1)).head? = some 0x20 then
    some (digits + 2)
  else none

/-! ## Decoration -/

structure Decoration where
  /-- From the one to the other is a leading marker to blank to spaces. -/
  blankFrom : Nat
  blankTo   : Nat
  /-- From the one to the other is a quote prefix. -/
  quote     : Option (Nat × Nat)
  /-- Nothing from here on is kept. -/
  keepTo    : Nat
  deriving DecidableEq

def quoteAt (text : JsString) (at_ : Nat) : Option (Nat × Nat) :=
  match quotePrefix (text.drop at_) with
  | none                 => none
  | some (indent, marks) =>
    let to_ := at_ + indent + marks
    if trim ((text.take (trailAt text)).drop to_) = [] then none else some (at_ + indent, to_)

/-- Where `text`'s decoration sits, in UTF-16 units. -/
def decoration (text : JsString) : Decoration :=
  match quoteAt text 0 with
  | some quote => ⟨0, 0, some quote, max quote.2 (trailAt text)⟩
  | none       =>
    let lead := leadMarker text
    let blankFrom := (lead.map (·.1)).getD 0
    let blankTo := (lead.map (·.2)).getD 0
    let quote := if lead.isSome then quoteAt text blankTo else none
    ⟨blankFrom, blankTo, quote, max ((quote.map (·.2)).getD blankTo) (trailAt text)⟩

/-! ## What decoration covers -/

/-- White space, `>`, a box or block glyph, or a bullet. -/
def isSlight (c : UInt16) : Bool := isSpace c || c = 0x3e || isBox c || isBullet c

variable {c : UInt16}

theorem isSlight_of_blank (h : isBlankUnit c = true) : isSlight c = true := by
  have hc : c = 0x20 := by simpa [isBlankUnit] using h
  subst hc
  decide

theorem isSlight_of_space (h : isSpace c = true) : isSlight c = true := by
  rw [isSlight, h, Bool.true_or, Bool.true_or, Bool.true_or]

theorem isSlight_of_box (h : isBox c = true) : isSlight c = true := by
  rw [isSlight, h, Bool.or_true, Bool.true_or]

theorem isSlight_of_bullet (h : isBullet c = true) : isSlight c = true := by
  rw [isSlight, h, Bool.or_true]

theorem isBox_of_bar (h : isQuoteBar c = true) : isBox c = true := by
  have hc : c = 0x258f ∨ c = 0x258e ∨ c = 0x258d := by simpa [isQuoteBar, or_assoc] using h
  rcases hc with rfl | rfl | rfl <;> decide

theorem isSlight_of_mark (h : isQuoteMark c = true) : isSlight c = true := by
  rw [isQuoteMark, Bool.or_eq_true, decide_eq_true_eq] at h
  rcases h with rfl | h
  · decide
  · exact isSlight_of_box (isBox_of_bar h)

/-- Everything up to `n` is slight. -/
def SlightTo (text : JsString) (n : Nat) : Prop := ∀ c ∈ text.take n, isSlight c = true

theorem SlightTo.zero (text : JsString) : SlightTo text 0 := fun _ h => absurd h List.not_mem_nil

variable {text : JsString}

theorem SlightTo.add {m n : Nat} (h : SlightTo text m) (h' : SlightTo (text.drop m) n) :
    SlightTo text (m + n) := by
  intro c hc
  rw [List.take_add] at hc
  rcases List.mem_append.1 hc with hc | hc
  · exact h c hc
  · exact h' c hc

theorem slightTo_takeWhile {p : UInt16 → Bool} (hp : ∀ c, p c = true → isSlight c = true) (text : JsString) :
    SlightTo text (text.takeWhile p).length := by
  intro c hc
  rw [← List.prefix_iff_eq_take.1 (List.takeWhile_prefix p)] at hc
  exact hp c (List.mem_takeWhile_imp hc)

theorem slightTo_indent (text : JsString) : SlightTo text (indentOf text) :=
  slightTo_takeWhile (fun _ => isSlight_of_space) text

theorem slightTo_spaces (text : JsString) : SlightTo text (spacesAt text) :=
  slightTo_takeWhile (fun _ => isSlight_of_blank) text

theorem slightTo_one (h : text.head?.any isSlight = true) : SlightTo text 1 := by
  cases text with
  | nil => exact fun c hc => absurd hc List.not_mem_nil
  | cons d text =>
    intro c hc
    rw [List.take_succ_cons, List.take_zero, List.mem_singleton] at hc
    subst hc
    exact h

theorem any_slight {o : Option UInt16} {p : UInt16 → Bool} (hp : ∀ c, p c = true → isSlight c = true) (h : o.any p = true) :
    o.any isSlight = true := by
  cases o with
  | none => cases h
  | some c => exact hp c h

theorem any_slight_space {o : Option UInt16} (h : o = some 0x20) : o.any isSlight = true := by
  subst h
  decide

theorem quoteMarks_pos (hc : isQuoteMark c = true) (rest : JsString) : 0 < quoteMarks (c :: rest) := by
  cases rest with
  | nil => rw [quoteMarks, if_pos hc]; exact Nat.one_pos
  | cons d rest =>
    rw [quoteMarks, if_pos hc]
    split <;> omega

theorem quoteMarks_spec : ∀ (s : JsString), SlightTo s (quoteMarks s) ∧
    (0 < quoteMarks s → ∃ pre mark, s.take (quoteMarks s) = pre ++ [mark] ∧ isQuoteMark mark = true)
  | [] => ⟨SlightTo.zero _, fun h => absurd h (Nat.lt_irrefl 0)⟩
  | [c] => by
    rw [quoteMarks]
    split
    · next hc => exact ⟨slightTo_one (isSlight_of_mark hc), fun _ => ⟨[], c, rfl, hc⟩⟩
    · exact ⟨SlightTo.zero _, fun h => absurd h (Nat.lt_irrefl 0)⟩
  | c :: d :: rest => by
    rw [quoteMarks]
    split
    · next hc =>
      have hfirst : SlightTo (c :: d :: rest) 1 := slightTo_one (isSlight_of_mark hc)
      split
      · next hd =>
        rw [Bool.and_eq_true, decide_eq_true_eq] at hd
        obtain ⟨hslight, hlast⟩ := quoteMarks_spec rest
        have hspace : SlightTo (d :: rest) 1 := slightTo_one (any_slight_space (congrArg some hd.1))
        have hall : SlightTo (c :: d :: rest) (1 + (1 + quoteMarks rest)) := hfirst.add (hspace.add hslight)
        -- a mark follows the space
        have hpos : 0 < quoteMarks rest := by
          cases rest with
          | nil => cases hd.2
          | cons e rest => exact quoteMarks_pos hd.2 rest
        obtain ⟨pre, mark, htake, hmark⟩ := hlast hpos
        refine ⟨by rwa [← Nat.add_assoc] at hall, fun _ => ⟨c :: d :: pre, mark, ?_, hmark⟩⟩
        rw [Nat.add_comm, List.take_succ_cons, List.take_succ_cons, htake]
        rfl
      · obtain ⟨hslight, hlast⟩ := quoteMarks_spec (d :: rest)
        refine ⟨hfirst.add hslight, fun _ => ?_⟩
        by_cases hpos : 0 < quoteMarks (d :: rest)
        · obtain ⟨pre, mark, htake, hmark⟩ := hlast hpos
          exact ⟨c :: pre, mark, by rw [Nat.add_comm, List.take_succ_cons, htake]; rfl, hmark⟩
        · exact ⟨[], c, by rw [Nat.eq_zero_of_not_pos hpos]; rfl, hc⟩
    · exact ⟨SlightTo.zero _, fun h => absurd h (Nat.lt_irrefl 0)⟩

theorem slightTo_guides (s : JsString) : SlightTo s (guides s) := by
  induction s using guides.induct with
  | case1 => exact guides.eq_def [] ▸ SlightTo.zero _
  | case2 c rest n h ih =>
    rw [guides, if_pos h]
    rw [Bool.and_eq_true] at h
    have hfirst : SlightTo (c :: rest) 1 := slightTo_one (isSlight_of_box (isBox_of_bar h.1))
    refine (hfirst.add (slightTo_spaces rest)).add ?_
    rwa [Nat.add_comm, List.drop_succ_cons]
  | case3 c rest n h =>
    rw [guides, if_neg h]
    exact SlightTo.zero _

theorem slightTo_marker (s : JsString) : SlightTo s (marker s) := by
  unfold marker
  split
  · next h =>
    rw [Bool.and_eq_true, decide_eq_true_eq] at h
    exact (slightTo_one (any_slight (fun _ => isSlight_of_bullet) h.1)).add (slightTo_one (any_slight_space h.2))
  split
  · exact slightTo_guides s
  dsimp only
  split
  · next h =>
    rw [Bool.and_eq_true, decide_eq_true_eq] at h
    exact (slightTo_takeWhile (fun _ => isSlight_of_box) s).add (slightTo_one (any_slight_space (decide_eq_true_eq.mp h.2)))
  · exact slightTo_takeWhile (fun _ => isSlight_of_box) s

structure QuoteSpan (text : JsString) (quote : Nat × Nat) : Prop where
  slight : SlightTo text quote.2
  mark   : ∃ pre mark, text.take quote.2 = pre ++ [mark] ∧ isQuoteMark mark = true

theorem quoteAt_spec {at_ : Nat} {quote : Nat × Nat} (hslight : SlightTo text at_) (h : quoteAt text at_ = some quote) :
    QuoteSpan text quote := by
  unfold quoteAt at h
  cases hq : quotePrefix (text.drop at_) with
  | none =>
    rw [hq] at h
    cases h
  | some span =>
    obtain ⟨indent, marks⟩ := span
    rw [hq] at h
    dsimp only at h
    split at h
    · cases h
    · obtain rfl := Option.some.inj h
      unfold quotePrefix at hq
      dsimp only at hq
      split at hq
      · next hpos =>
        rw [Bool.and_eq_true, decide_eq_true_eq] at hpos
        obtain ⟨rfl, rfl⟩ := Prod.mk.inj (Option.some.inj hq)
        obtain ⟨hmarks, hlast⟩ := quoteMarks_spec ((text.drop at_).drop (indentOf (text.drop at_)))
        obtain ⟨pre, mark, htake, hmark⟩ := hlast hpos.1
        refine ⟨(hslight.add (slightTo_indent _)).add ?_, text.take (at_ + indentOf (text.drop at_)) ++ pre, mark, ?_, hmark⟩
        · rwa [List.drop_drop] at hmarks ⊢
        · dsimp only
          rw [List.take_add, List.append_assoc, ← htake, List.drop_drop]
      · cases hq

theorem slight_of_mem_trail (h : c ∈ text.drop (trailAt text)) : isSlight c = true := by
  have hsplit : text.rdropWhile isBox ++ text.rtakeWhile isBox = text := List.rdropWhile_append_rtakeWhile
  have hbox : ∀ c ∈ text.rtakeWhile isBox, isSlight c = true := fun c hc => isSlight_of_box (List.mem_rtakeWhile_imp hc)
  have hdrop : ∀ n, n ≤ (text.rdropWhile isBox).length → text.drop n = (text.rdropWhile isBox).drop n ++
    text.rtakeWhile isBox := by
    intro n hn
    conv => lhs; rw [← hsplit]
    exact List.drop_append_of_le_length hn
  unfold trailAt at h
  dsimp only at h
  split at h
  · next hspace =>
    rw [Bool.and_eq_true, decide_eq_true_eq, decide_eq_true_eq] at hspace
    rw [hdrop _ (Nat.sub_le _ _)] at h
    rcases List.mem_append.1 h with h | h
    · -- the one space before the run
      rw [List.drop_length_sub_one (List.ne_nil_of_mem (List.mem_of_getLast? hspace.2)), List.mem_singleton] at h
      have hlast := (List.getLast?_eq_some_getLast (List.ne_nil_of_mem (List.mem_of_getLast? hspace.2))).symm.trans hspace.2
      rw [h, Option.some.inj hlast]
      decide
    · exact hbox c h
  · rw [hdrop _ (Nat.le_refl _), List.drop_length, List.nil_append] at h
    exact hbox c h

theorem slightTo_leadMarker {lead : Nat × Nat} (h : leadMarker text = some lead) : SlightTo text lead.2 := by
  unfold leadMarker at h
  dsimp only at h
  split at h
  · obtain rfl := Option.some.inj h
    exact (slightTo_indent text).add (slightTo_marker _)
  · cases h

/-- **Decoration is slight**: up to the end of a leading marker and of a quote prefix, which ends in a mark, and after what is kept. -/
structure Decoration.Sound (text : JsString) (d : Decoration) : Prop where
  lead  : SlightTo text d.blankTo
  quote : ∀ quote, d.quote = some quote → QuoteSpan text quote
  trail : ∀ c ∈ text.drop d.keepTo, isSlight c = true

theorem decoration_sound (text : JsString) : (decoration text).Sound text := by
  have htrail : ∀ n, ∀ c ∈ text.drop (max n (trailAt text)), isSlight c = true := fun n c hc =>
    slight_of_mem_trail (List.drop_subset_drop_left text (Nat.le_max_right n (trailAt text)) hc)
  unfold decoration
  cases hq : quoteAt text 0 with
  | some quote =>
    exact ⟨SlightTo.zero text, fun q h => Option.some.inj h ▸ quoteAt_spec (SlightTo.zero text) hq, htrail _⟩
  | none =>
    have hlead : SlightTo text (((leadMarker text).map (·.2)).getD 0) := by
      cases hl : leadMarker text with
      | none => exact SlightTo.zero text
      | some lead => exact slightTo_leadMarker hl
    refine ⟨hlead, fun q h => ?_, htrail _⟩
    dsimp only at h
    split at h
    · exact quoteAt_spec hlead h
    · cases h

end CopyText
end Dormouse

import Dormouse.ShellReaders
/-!
# PowerShellReader — what PowerShell makes of a line, and what it hands to a native program

A reference reader of PowerShell's argument mode, and the two native binders.  The reader takes a line to be one command, or
one inside a block that pins legacy binding; a character it would read as an operator, an expansion, an escape or a comment is
refused.  A bare word is itself, but one that starts with a `-` and a letter ends before its first `.`.
-/
namespace Dormouse
namespace Shell
namespace PowerShell

open Term (isSpace)

/-! ## The argument mode -/

def dash : UInt16 := 0x2d
def dot : UInt16 := 0x2e
def backtick : UInt16 := 0x60

def isLetter (c : UInt16) : Bool := (0x41 ≤ c && c ≤ 0x5a) || (0x61 ≤ c && c ≤ 0x7a)

/-- It starts as the name of a parameter does, which no `.` belongs to. -/
def isDashed : JsString → Bool
  | c :: d :: cs => c = dash && isLetter d && cs.contains dot
  | _            => false

def pieces (word : JsString) : List JsString :=
  if isDashed word then [word.takeWhile (· ≠ dot), word.dropWhile (· ≠ dot)] else [word]

inductive Place where
  | between
  | bare
  | single
  /-- After a quote inside single quotes: another one doubles it, else they are closed. -/
  | afterSingle
  | double
  | afterDouble
  /-- After a `$` inside double quotes. -/
  | afterDollar
  /-- After the `}` of the block. -/
  | closed
  deriving DecidableEq

structure Reader where
  words : List JsString
  word  : JsString
  place : Place
  deriving DecidableEq

/-- Outside quotes the character is an operator, quotes, expands, escapes, or is white space that parts no words here. -/
def isActive (c : UInt16) : Bool :=
  [backtick, dollar, leftParen, rightParen, 0x7b, 0x7d, semicolon, 0x2c, bar, ampersand, less, greater].contains c ||
    isPowerShellSingleQuote c || isPowerShellDoubleQuote c || isSpace c || c = 0x85

def isBlank (c : UInt16) : Bool := c = space || c = tab

namespace Reader

def ended (s : Reader) : Option (List JsString) :=
  match s.place with
  | .between     => some s.words
  | .bare        => some (s.words ++ pieces s.word)
  | .afterSingle => some (s.words ++ [s.word])
  | .afterDouble => some (s.words ++ [s.word])
  | _            => none

end Reader

/-- A character between two words; a `}` closes the block, if there is one. -/
def begin (block : Bool) (words : List JsString) (c : UInt16) : Option Reader :=
  if isBlank c then some ⟨words, [], .between⟩
  else if isPowerShellSingleQuote c then some ⟨words, [], .single⟩
  else if isPowerShellDoubleQuote c then some ⟨words, [], .double⟩
  else if block && c = 0x7d then some ⟨words, [], .closed⟩
  else if isActive c || [0x40, hash].contains c then none
  else some ⟨words, [c], .bare⟩

def read (block : Bool) (s : Reader) (c : UInt16) : Option Reader :=
  match s.place with
  | .between     => begin block s.words c
  | .bare        =>
    if isBlank c then some ⟨s.words ++ pieces s.word, [], .between⟩
    else if isActive c then none
    else some { s with word := s.word ++ [c] }
  | .single      =>
    if isPowerShellSingleQuote c then some { s with place := .afterSingle }
    else some { s with word := s.word ++ [c] }
  | .afterSingle =>
    if isPowerShellSingleQuote c then some ⟨s.words, s.word ++ [c], .single⟩
    else if isBlank c then some ⟨s.words ++ [s.word], [], .between⟩
    else none
  | .double      =>
    if isPowerShellDoubleQuote c then some { s with place := .afterDouble }
    else if c = backtick then none
    else if c = dollar then some { s with place := .afterDollar }
    else some { s with word := s.word ++ [c] }
  | .afterDollar =>
    -- before a backslash a `$` names nothing
    if c = backslash then some ⟨s.words, s.word ++ [dollar, c], .double⟩ else none
  | .afterDouble =>
    if isPowerShellDoubleQuote c then some ⟨s.words, s.word ++ [c], .double⟩
    else if isBlank c then some ⟨s.words ++ [s.word], [], .between⟩
    else none
  | .closed      => if isBlank c then some s else none

/-- The words of a text, which in a block its `}` follows. -/
def words (block : Bool) (text : JsString) : Option (List JsString) :=
  (text.foldlM (read block) ⟨[], [], .between⟩).bind (fun s =>
    if block then if s.place = .closed then some s.words else none else s.ended)

/-- A command: behind `&` any word names it, else a bare one. -/
def command (block : Bool) (text : JsString) : Option (List JsString) :=
  if (units "& ").isPrefixOf text then words block (text.drop 2)
  else if text.head?.any (fun c => isPowerShellSingleQuote c || isPowerShellDoubleQuote c) then none
  else words block text

def pin : JsString := units "& \x7b $PSNativeCommandArgumentPassing = 'Legacy'; "

def reads (line : JsString) : Option (Bool × List JsString) :=
  if pin.isPrefixOf line then (command true (line.drop pin.length)).map (true, ·)
  else (command false line).map (false, ·)

/-! ## The native binders -/

/-- The program's split of the text past its `argv[0]`. -/
def msvcrtArgs (text : JsString) : Option (List JsString) := (text.foldlM Argv.read ⟨[], none, false, 0, false⟩).map Argv.finish

/-- What is not of this program: .NET's white space, which JavaScript's covers, and how the newer binder escapes a value for
the program's split. -/
structure Binder where
  isWhiteSpace : UInt16 → Bool
  blank        : ∀ c, isBlank c = true → isWhiteSpace c = true
  covered      : ∀ c, isWhiteSpace c = true → (isSpace c || c = 0x85) = true
  escape       : JsString → JsString
  escaped      : ∀ value, Argv.ReadsAs (escape value) value

/-- `NeedQuotes`: there is white space outside the value's own quotes, of which one after a backslash is none. -/
def needQuotes (B : Binder) : Bool → Bool → JsString → Bool
  | _,      _,          []      => false
  | inside, afterSlash, c :: cs =>
    if c = doubleQuote && !afterSlash then needQuotes B (!inside) false cs
    else (B.isWhiteSpace c && !inside) || needQuotes B inside (c = backslash) cs

/-- The legacy binder passes a value raw, in quotes where it needs them. -/
def legacyForm (B : Binder) (value : JsString) : JsString :=
  if needQuotes B false false value then [doubleQuote] ++ value ++ [doubleQuote] else value

/-- The text the values are handed to a program as; the legacy binder drops empty ones. -/
def nativeText (B : Binder) (legacy : Bool) (values : List JsString) : JsString :=
  joinSpaced (if legacy then (values.filter (· ≠ [])).map (legacyForm B) else values.map B.escape)

/-- The argv a native program gets from a line at a prompt of the newer binder or of the legacy one. -/
def runs (B : Binder) (newer : Bool) (line : JsString) : Option (List JsString) :=
  match reads line with
  | some (pinned, program :: values) => (msvcrtArgs (nativeText B (pinned || !newer) values)).map (program :: ·)
  | _                                => none

/-! ## Reading a word -/

def ReadsAs (block : Bool) (text : JsString) (values : List JsString) : Prop := ∀ words, ∃ s,
  text.foldlM (read block) ⟨words, [], .between⟩ = some s ∧ s.ended = some (words ++ values)

theorem read_space {block : Bool} {s : Reader} {ws : List JsString} (h : s.ended = some ws) :
    read block s space = some ⟨ws, [], .between⟩ := by
  obtain ⟨words, word, place⟩ := s
  have hblank : isBlank space = true := rfl
  have hsingle : isPowerShellSingleQuote space = false := by decide
  have hdouble : isPowerShellDoubleQuote space = false := by decide
  cases place <;> simp only [Reader.ended, Option.some.injEq, reduceCtorEq] at h
  all_goals
    subst h
    simp [read, begin, hblank, hsingle, hdouble]

variable {c : UInt16}

theorem lt_of_isWindowsSafe (h : isWindowsSafe c = true) : c < 128 := by
  rw [isWindowsSafe, Bool.or_eq_true, List.contains_iff_mem] at h
  rcases h with h | h
  · exact lt_of_isWordChar h
  · revert c
    simp only [List.forall_mem_cons, List.not_mem_nil, false_imp_iff, implies_true, and_true]
    decide

def isInert (c : UInt16) : Bool :=
  !(isActive c || isBlank c || c = 0x7d || [0x40, hash].contains c || isPowerShellSingleQuote c || isPowerShellDoubleQuote c)

theorem isInert_of_isWindowsSafe (h : isWindowsSafe c = true) : isInert c = true := by
  have hall : ∀ n < 128, isWindowsSafe (UInt16.ofNat n) = true → isInert (UInt16.ofNat n) = true := by decide
  exact of_ascii (P := fun c => isWindowsSafe c = true → isInert c = true) hall (lt_of_isWindowsSafe h) h

theorem isInert_iff : isInert c = true ↔ isActive c = false ∧ isBlank c = false ∧ c ≠ 0x7d ∧
    [0x40, hash].contains c = false ∧ isPowerShellSingleQuote c = false ∧ isPowerShellDoubleQuote c = false := by
  simp [isInert, and_assoc]

theorem begin_inert (block : Bool) (words : List JsString) (h : isInert c = true) :
    begin block words c = some ⟨words, [c], .bare⟩ := by
  obtain ⟨hactive, hblank, hbrace, hstart, hsingle, hdouble⟩ := isInert_iff.1 h
  unfold begin
  rw [if_neg (by simp [hblank]), if_neg (by simp [hsingle]), if_neg (by simp [hdouble]), if_neg (by simp [hbrace]),
    if_neg (by rw [hactive, hstart]; decide)]

theorem read_inert (block : Bool) (words : List JsString) : ∀ (text : JsString), (∀ c ∈ text, isInert c = true) → ∀ w,
    text.foldlM (read block) ⟨words, w, .bare⟩ = some ⟨words, w ++ text, .bare⟩
  | [], _, w => by rw [List.append_nil]; rfl
  | c :: cs, h, w => by
    obtain ⟨hactive, hblank, -⟩ := isInert_iff.1 (h c List.mem_cons_self)
    have hone : read block ⟨words, w, .bare⟩ c = some ⟨words, w ++ [c], .bare⟩ := by simp [read, hactive, hblank]
    rw [List.foldlM_cons, hone, Option.bind_eq_bind, Option.bind_some,
      read_inert block words cs (fun d hd => h d (List.mem_cons_of_mem c hd)), List.append_assoc, List.singleton_append]

/-- **A bare word** is itself, or broken where its first `.` is. -/
theorem readsAs_bareWord (block : Bool) {word : JsString} (hnil : word ≠ []) (h : ∀ c ∈ word, isInert c = true) :
    ReadsAs block word (pieces word) := by
  intro words
  cases word with
  | nil => exact absurd rfl hnil
  | cons c cs =>
    refine ⟨⟨words, c :: cs, .bare⟩, ?_, rfl⟩
    have hfirst : read block ⟨words, [], .between⟩ c = some ⟨words, [c], .bare⟩ :=
      begin_inert block words (h c List.mem_cons_self)
    rw [List.foldlM_cons, hfirst, Option.bind_eq_bind, Option.bind_some,
      read_inert block words cs (fun d hd => h d (List.mem_cons_of_mem c hd))]
    rfl

theorem read_doubled (block : Bool) (words : List JsString) : ∀ (arg w : JsString),
    (arg.flatMap (fun c => if isPowerShellSingleQuote c then [c, c] else [c])).foldlM (read block) ⟨words, w, .single⟩ =
      some ⟨words, w ++ arg, .single⟩
  | [], w => by rw [List.append_nil]; rfl
  | c :: cs, w => by
    have hone : (if isPowerShellSingleQuote c then [c, c] else [c]).foldlM (read block) ⟨words, w, .single⟩ =
        some ⟨words, w ++ [c], .single⟩ := by
      by_cases hc : isPowerShellSingleQuote c = true
      · simp [read, hc]
      · simp [read, hc]
    rw [List.flatMap_cons, List.foldlM_append, hone, Option.bind_eq_bind, Option.bind_some, read_doubled block words cs,
      List.append_assoc, List.singleton_append]

theorem readsAs_single (block : Bool) (arg : JsString) :
    ReadsAs block ([singleQuote] ++ arg.flatMap (fun c => if isPowerShellSingleQuote c then [c, c] else [c]) ++ [singleQuote])
      [arg] := by
  intro words
  have hblank : isBlank singleQuote = false := rfl
  have hquote : isPowerShellSingleQuote singleQuote = true := rfl
  have hopen : read block ⟨words, [], .between⟩ singleQuote = some ⟨words, [], .single⟩ := by
    simp [read, begin, hblank, hquote]
  have hclose : read block ⟨words, arg, .single⟩ singleQuote = some ⟨words, arg, .afterSingle⟩ := by simp [read, hquote]
  refine ⟨⟨words, arg, .afterSingle⟩, ?_, rfl⟩
  rw [List.foldlM_append, List.singleton_append, List.foldlM_cons, hopen, Option.bind_eq_bind, Option.bind_some, read_doubled,
    Option.bind_some]
  simp [hclose]

theorem read_double (block : Bool) (words : List JsString) : ∀ (arg : JsString), isWindowsPortableUnsafe arg = false → ∀ w,
    (arg ++ [doubleQuote]).foldlM (read block) ⟨words, w, .double⟩ = some ⟨words, w ++ arg, .afterDouble⟩
  | [], _, w => by
    have hquote : isPowerShellDoubleQuote doubleQuote = true := rfl
    simp [read, hquote]
  | [c], h, w => by
    simp only [isWindowsPortableUnsafe, List.head?_nil, Bool.or_eq_false_iff, Bool.and_eq_false_iff] at h
    obtain ⟨⟨⟨hdouble, hset⟩, hdollar⟩, -⟩ := h
    have hquote : isPowerShellDoubleQuote doubleQuote = true := rfl
    have hdollar : c ≠ dollar := by simpa [dollar] using hdollar
    have hbacktick : c ≠ backtick := by
      rintro rfl
      exact absurd hset (by decide)
    simp [read, hdouble, hdollar, hbacktick, hquote]
  | c :: d :: ds, h, w => by
    have htail : isWindowsPortableUnsafe (d :: ds) = false := by
      rw [isWindowsPortableUnsafe, Bool.or_eq_false_iff] at h
      exact h.2
    rw [isWindowsPortableUnsafe, Bool.or_eq_false_iff, Bool.or_eq_false_iff, Bool.or_eq_false_iff] at h
    obtain ⟨⟨⟨hdouble, hset⟩, hdollar⟩, -⟩ := h
    have hbacktick : c ≠ backtick := by
      rintro rfl
      exact absurd hset (by decide)
    by_cases hc : c = dollar
    · have hd : d = backslash := by simpa [hc, dollar] using hdollar
      have hds : isWindowsPortableUnsafe ds = false := by
        rw [isWindowsPortableUnsafe, Bool.or_eq_false_iff] at htail
        exact htail.2
      have hrest := read_double block words ds hds (w ++ [dollar, backslash])
      subst hc hd
      have hfirst : read block ⟨words, w, .double⟩ dollar = some ⟨words, w, .afterDollar⟩ := by
        simp [read, hdouble, hbacktick]
      have hsecond : read block ⟨words, w, .afterDollar⟩ backslash = some ⟨words, w ++ [dollar, backslash], .double⟩ := by
        simp [read]
      rw [List.cons_append, List.cons_append, List.foldlM_cons, hfirst, Option.bind_eq_bind, Option.bind_some,
        List.foldlM_cons, hsecond, Option.bind_eq_bind, Option.bind_some, hrest, List.append_assoc]
      rfl
    · have hone : read block ⟨words, w, .double⟩ c = some ⟨words, w ++ [c], .double⟩ := by
        simp [read, hdouble, hbacktick, hc]
      rw [List.cons_append, List.foldlM_cons, hone, Option.bind_eq_bind, Option.bind_some,
        read_double block words (d :: ds) htail, List.append_assoc, List.singleton_append]

theorem readsAs_double (block : Bool) {arg : JsString} (h : isWindowsPortableUnsafe arg = false) :
    ReadsAs block ([doubleQuote] ++ arg ++ [doubleQuote]) [arg] := by
  intro words
  have hblank : isBlank doubleQuote = false := rfl
  have hsingle : isPowerShellSingleQuote doubleQuote = false := by decide
  have hquote : isPowerShellDoubleQuote doubleQuote = true := rfl
  have hopen : read block ⟨words, [], .between⟩ doubleQuote = some ⟨words, [], .double⟩ := by
    simp [read, begin, hblank, hsingle, hquote]
  refine ⟨⟨words, arg, .afterDouble⟩, ?_, rfl⟩
  rw [List.append_assoc, List.singleton_append, List.foldlM_cons, hopen, Option.bind_eq_bind, Option.bind_some,
    read_double block words arg h]
  rfl

def taken (arg : JsString) : List JsString := if isWindowsSafeArg arg then pieces arg else [arg]

theorem readsAs_quotePowerShellArg (block : Bool) (arg : JsString) : ReadsAs block (quotePowerShellArg arg) (taken arg) := by
  unfold quotePowerShellArg taken
  by_cases hnil : arg = []
  · rw [if_pos hnil, hnil]
    exact readsAs_single block []
  rw [if_neg hnil]
  by_cases hsafe : isWindowsSafeArg arg = true
  · rw [if_pos hsafe, if_pos hsafe]
    exact readsAs_bareWord block hnil (fun c hc => isInert_of_isWindowsSafe (all_isWindowsSafe hsafe c hc))
  · rw [if_neg hsafe, if_neg hsafe]
    exact readsAs_single block arg

/-! ## Reading a line -/

theorem read_words (block : Bool) {texts : List JsString} {values : List (List JsString)}
    (h : List.Forall₂ (ReadsAs block) texts values) : ∀ (s : Reader) (ws : List JsString), s.ended = some ws →
    ∃ s', (texts.flatMap (space :: ·)).foldlM (read block) s = some s' ∧ s'.ended = some (ws ++ values.flatten) := by
  induction h with
  | nil => exact fun s ws hs => ⟨s, rfl, by rw [hs, List.flatten_nil, List.append_nil]⟩
  | @cons text value texts values htext _ ih =>
    intro s ws hs
    obtain ⟨s₁, hfold₁, hended₁⟩ := htext ws
    obtain ⟨s₂, hfold₂, hended₂⟩ := ih s₁ _ hended₁
    refine ⟨s₂, ?_, by rw [hended₂, List.flatten_cons, List.append_assoc]⟩
    rw [List.flatMap_cons, List.foldlM_append, List.foldlM_cons, read_space hs, Option.bind_eq_bind, Option.bind_some, hfold₁,
      Option.bind_some, hfold₂]

def closing (block : Bool) : JsString := if block then units " \x7d" else []

theorem words_joinSpaced (block : Bool) {text : JsString} {value : List JsString} {texts : List JsString}
    {values : List (List JsString)} (h : ReadsAs block text value) (hs : List.Forall₂ (ReadsAs block) texts values) :
    words block (joinSpaced (text :: texts) ++ closing block) = some (value ++ values.flatten) := by
  obtain ⟨s₁, hfold₁, hended₁⟩ := h []
  obtain ⟨s₂, hfold₂, hended₂⟩ := read_words block hs s₁ _ hended₁
  have hfold : (joinSpaced (text :: texts)).foldlM (read block) ⟨[], [], .between⟩ = some s₂ := by
    rw [joinSpaced_cons, List.foldlM_append, hfold₁, Option.bind_eq_bind, Option.bind_some, hfold₂]
  rw [List.nil_append] at hended₂
  rw [words, List.foldlM_append, hfold, Option.bind_eq_bind, Option.bind_some]
  cases block with
  | false => exact hended₂
  | true =>
    have hbrace (ws : List JsString) : read true ⟨ws, [], .between⟩ 0x7d = some ⟨ws, [], .closed⟩ := rfl
    show ([space, 0x7d].foldlM (read true) s₂).bind _ = _
    rw [List.foldlM_cons, read_space hended₂, Option.bind_eq_bind, Option.bind_some, List.foldlM_cons, hbrace]
    rfl

end PowerShell
end Shell
end Dormouse

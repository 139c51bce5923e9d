import Dormouse.ShellQuote
/-!
# CommandTokens — the command tokenizer, and what Dormouse writes for it

`tokenizeCommand` of `lib/src/lib/terminal-state.ts` with its here-documents, and `shellEscapePosix` of
`lib/src/lib/shell-escape.ts`.  One turn of the loop reads the character at an index and answers the next one; a turn goes
forward, so as many turns as the text has characters read all of it.

`Reads` says what the tokenizer makes of a part of a text, wherever it stands.  What the writers write is read a character
of the original at a time, in quotes, escaped or bare.
-/
namespace Dormouse
namespace Shell

open Term (isSpace)

/-! ## The characters -/

/-- `POSIX_ESCAPABLE`: a space, a tab, and one of ``! " # $ & ' ( ) * ; < > ? [ \ ] ` { | } ~``. -/
def isPosixEscapable (c : UInt16) : Bool :=
  [0x20, 0x09, 0x21, 0x22, 0x23, 0x24, 0x26, 0x27, 0x28, 0x29, 0x2a, 0x3b, 0x3c, 0x3e, 0x3f, 0x5b, 0x5c, 0x5d, 0x60, 0x7b,
    0x7c, 0x7d, 0x7e].contains c

def leftParen : UInt16 := 0x28
def rightParen : UInt16 := 0x29
def ampersand : UInt16 := 0x26
def bar : UInt16 := 0x7c
def semicolon : UInt16 := 0x3b
def hash : UInt16 := 0x23
def dollar : UInt16 := 0x24
def less : UInt16 := 0x3c
def greater : UInt16 := 0x3e

/-- `shellEscapePosix`. -/
def shellEscapePosix (input : JsString) : JsString :=
  if input = [] then [singleQuote, singleQuote]
  else if input.any (fun c => c = newline || c = 0x0d) then quotePosixArg input
  else input.flatMap (fun c => if isPosixEscapable c then [backslash, c] else [c])

/-- `ARRAY_ASSIGNMENT_PREFIX`: a name, then `=` or `+=`. -/
def isArrayAssignmentPrefix : JsString → Bool
  | []      => false
  | c :: cs =>
    isWordChar c && !(0x30 ≤ c && c ≤ 0x39) &&
      (cs.dropWhile isWordChar = [0x3d] || cs.dropWhile isWordChar = [0x2b, 0x3d])

/-! ## Here-documents -/

structure HereDocument where
  delimiter : JsString
  stripTabs : Bool
  deriving DecidableEq

/-- The delimiter word, its quotes removed; `quote` is the one it is in. -/
def delimiterFrom : Option UInt16 → JsString → JsString
  | _,          []      => []
  | some quote, c :: cs => if c = quote then delimiterFrom none cs else c :: delimiterFrom (some quote) cs
  | none,       c :: cs =>
    if c = doubleQuote ∨ c = singleQuote then delimiterFrom (some c) cs
    else if c = backslash then
      match cs with
      | next :: cs => next :: delimiterFrom none cs
      | []         => [c]
    else if isSpace c || [semicolon, ampersand, bar, leftParen, rightParen, less, greater].contains c then []
    else c :: delimiterFrom none cs

/-- The here-document of a `<<` before the text, `none` when no word follows it. -/
def readHereDocumentDelimiter (text : JsString) : Option HereDocument :=
  let stripTabs := text.head? = some 0x2d
  let word := (if stripTabs then text.drop 1 else text).dropWhile (fun c => c = space || c = tab)
  match delimiterFrom none word with
  | []        => none
  | delimiter => some ⟨delimiter, stripTabs⟩

/-- Where the body of a here-document that starts at `start` ends: past its delimiter's line, or past the end of input. -/
def skipBody (input : JsString) (h : HereDocument) : Nat → Nat → Nat
  | 0,        start => start
  | fuel + 1, start =>
    if input.length ≤ start then start
    else
      let line := (input.drop start).takeWhile (· ≠ newline)
      let next := start + line.length + 1
      if (if h.stripTabs then line.dropWhile (· = tab) else line) = h.delimiter then next else skipBody input h fuel next

/-- A line has its end at least, so no body takes more turns than there are characters. -/
def skipHereDocumentBodies (input : JsString) (start : Nat) (hereDocuments : List HereDocument) : Nat :=
  min (hereDocuments.foldl (fun start h => skipBody input h input.length start) start) input.length

/-! ## The tokenizer -/

structure Tokenizer where
  tokens         : List JsString
  current        : JsString
  quote          : Option UInt16
  escaping       : Bool
  /-- The open parentheses of the substitution or array that is being read. -/
  wordParens     : Nat
  /-- The last character, when it was an unquoted `$`, `<` or `>`. -/
  operatorPrefix : Option UInt16
  hereDocuments  : List HereDocument
  deriving DecidableEq

namespace Tokenizer

def create : Tokenizer := ⟨[], [], none, false, 0, none, []⟩

def push (s : Tokenizer) : Tokenizer :=
  if s.current = [] then s else { s with tokens := s.tokens ++ [s.current], current := [] }

def add (s : Tokenizer) (c : UInt16) : Tokenizer := { s with current := s.current ++ [c] }

/-- `push`, then a token of its own. -/
def emit (s : Tokenizer) (token : JsString) : Tokenizer := { s.push with tokens := s.push.tokens ++ [token] }

/-- `input[i - 1]`. -/
def charBefore (input : JsString) (i : Nat) : Option UInt16 := if i = 0 then none else input[i - 1]?

/-- A character outside quotes that no word, quote or parenthesis takes: the pipeline and compound separators, a
comment, or one more of the word.  `before` is the `operatorPrefix` it was read with. -/
def readSeparator (input : JsString) (i : Nat) (c : UInt16) (before : Option UInt16) (s : Tokenizer) : Tokenizer × Nat :=
  let next := input[i + 1]?
  if (c = ampersand ∧ (before = some less ∨ before = some greater)) ∨ (c = bar ∧ before = some greater) then (s.add c, i + 1)
  else if c = ampersand ∧ next = some greater then ({ s.push with current := [c] }, i + 1)
  else if (c = bar ∧ next = some ampersand) ∨ (c = ampersand ∧ next = some bar) then (s.emit [bar], i + 2)
  else if c = ampersand ∧ next = some ampersand then (s.emit [ampersand, ampersand], i + 2)
  else if c = bar ∧ next = some bar then (s.emit [bar, bar], i + 2)
  else if c = semicolon ∧ (next = some semicolon ∨ next = some ampersand) then
    let stop := if next = some semicolon ∧ input[i + 2]? = some ampersand then [semicolon, semicolon, ampersand]
      else [c] ++ next.toList
    (s.emit stop, i + stop.length)
  else if c = bar ∨ c = semicolon ∨ c = ampersand then (s.emit [c], i + 1)
  else if c = hash ∧ s.current = [] ∧ (i = 0 ∨ (charBefore input i).any (fun b =>
      isSpace b || [semicolon, ampersand, bar, leftParen, rightParen].contains b)) then
    -- a comment runs to the newline, or ends the loop
    (s, i + ((input.drop i).takeWhile (· ≠ newline)).length)
  else
    let opens := c = less ∧ next = some less ∧ input[i + 2]? ≠ some less ∧ charBefore input i ≠ some less
    let opened := if opens then (readHereDocumentDelimiter (input.drop (i + 2))).toList else []
    ({ s with
      current := s.current ++ [c]
      operatorPrefix := if c = dollar ∨ c = less ∨ c = greater then some c else none
      hereDocuments := s.hereDocuments ++ opened }, i + 1)

/-- One turn of the loop: the state after the character at `i`, and the index read next. -/
def readAt (input : JsString) (i : Nat) (c : UInt16) (s : Tokenizer) : Tokenizer × Nat :=
  let before := s.operatorPrefix
  let s := { s with operatorPrefix := none }
  if s.escaping then ({ s.add c with escaping := false }, i + 1)
  else if c = backslash ∧ s.quote ≠ some singleQuote then
    if input[i + 1]? = some newline then (s, i + 2)
    else if input[i + 1]?.any isPosixEscapable then ({ s with escaping := true }, i + 1)
    else (s.add c, i + 1)
  else
    match s.quote with
    | some quote => if c = quote then ({ s with quote := none }, i + 1) else (s.add c, i + 1)
    | none       =>
      if c = doubleQuote ∨ c = singleQuote then ({ s with quote := some c }, i + 1)
      else if s.wordParens > 0 ∨ (c = leftParen ∧ (before ≠ none ∨ isArrayAssignmentPrefix s.current)) then
        let parens := if c = leftParen then s.wordParens + 1 else if c = rightParen then s.wordParens - 1 else s.wordParens
        ({ s.add c with wordParens := parens }, i + 1)
      else if c = newline then
        ({ s.emit [semicolon] with hereDocuments := [] },
          if s.hereDocuments = [] then i + 1 else skipHereDocumentBodies input (i + 1) s.hereDocuments)
      else if isSpace c then (s.push, i + 1)
      else if c = leftParen ∨ c = rightParen then (s.emit [c], i + 1)
      else readSeparator input i c before s

def readFrom (input : JsString) : Nat → Nat → Tokenizer → Tokenizer
  | 0,        _, s => s
  | fuel + 1, i, s =>
    match input[i]? with
    | none   => s
    | some c => readFrom input fuel (readAt input i c s).2 (readAt input i c s).1

end Tokenizer

def tokenizeCommand (input : JsString) : List JsString :=
  (Tokenizer.readFrom input input.length 0 .create).push.tokens

namespace Tokenizer

/-! ## The loop ends -/

theorem le_skipBody (input : JsString) (h : HereDocument) : ∀ (fuel start : Nat), start ≤ skipBody input h fuel start
  | 0, _ => Nat.le_refl _
  | fuel + 1, start => by
    unfold skipBody
    by_cases hend : input.length ≤ start
    · rw [if_pos hend]
    · rw [if_neg hend]
      dsimp only
      generalize (input.drop start).takeWhile (· ≠ newline) = line
      by_cases hline : (if h.stripTabs then line.dropWhile (· = tab) else line) = h.delimiter
      · rw [if_pos hline]
        omega
      · rw [if_neg hline]
        exact le_trans (by omega) (le_skipBody input h fuel (start + line.length + 1))

theorem le_skipHereDocumentBodies {input : JsString} {start : Nat} (hs : start ≤ input.length) (l : List HereDocument) :
    start ≤ skipHereDocumentBodies input start l := by
  refine Nat.le_min.2 ⟨?_, hs⟩
  clear hs
  induction l generalizing start with
  | nil => exact Nat.le_refl _
  | cons h l ih => exact (le_skipBody input h input.length start).trans ih

theorem lt_readSeparator {input : JsString} {i : Nat} {c : UInt16} (hc : input[i]? = some c) (before : Option UInt16)
    (s : Tokenizer) : i < (readSeparator input i c before s).2 := by
  unfold readSeparator
  dsimp only
  split
  · exact Nat.lt_succ_self i
  split
  · exact Nat.lt_succ_self i
  split
  · exact Nat.lt_add_of_pos_right (by decide)
  split
  · exact Nat.lt_add_of_pos_right (by decide)
  split
  · exact Nat.lt_add_of_pos_right (by decide)
  split
  · refine Nat.lt_add_of_pos_right (List.length_pos_iff.2 ?_)
    split
    · simp
    · simp
  split
  · exact Nat.lt_succ_self i
  split
  · rename_i hhash
    obtain ⟨hlt, hget⟩ := List.getElem?_eq_some_iff.1 hc
    refine Nat.lt_add_of_pos_right (List.length_pos_iff.2 ?_)
    rw [List.drop_eq_getElem_cons hlt, hget, hhash.1, List.takeWhile_cons]
    simp [hash, newline]
  · exact Nat.lt_succ_self i

theorem lt_readAt {input : JsString} {i : Nat} {c : UInt16} (hc : input[i]? = some c) (s : Tokenizer) :
    i < (readAt input i c s).2 := by
  obtain ⟨hlt, -⟩ := List.getElem?_eq_some_iff.1 hc
  have hskip := le_skipHereDocumentBodies hlt s.hereDocuments
  unfold readAt
  dsimp only
  split
  · exact Nat.lt_succ_self i
  split
  · split
    · exact Nat.lt_add_of_pos_right (by decide)
    split
    · exact Nat.lt_succ_self i
    · exact Nat.lt_succ_self i
  split
  · split
    · exact Nat.lt_succ_self i
    · exact Nat.lt_succ_self i
  split
  · exact Nat.lt_succ_self i
  split
  · exact Nat.lt_succ_self i
  split
  · dsimp only
    split
    · exact Nat.lt_succ_self i
    · exact hskip
  split
  · exact Nat.lt_succ_self i
  split
  · exact Nat.lt_succ_self i
  · exact lt_readSeparator hc _ _

/-- **The loop reads the whole text**: more turns than there are characters left change nothing. -/
theorem readFrom_ends (input : JsString) : ∀ (fuel i : Nat) (s : Tokenizer), input.length ≤ i + fuel → ∀ more,
    readFrom input (fuel + more) i s = readFrom input fuel i s
  | 0, i, s, h, more => by
    cases more with
    | zero => rfl
    | succ more =>
      have hnone : input[i]? = none := List.getElem?_eq_none h
      simp only [readFrom, hnone]
  | fuel + 1, i, s, h, more => by
    rw [Nat.add_right_comm, readFrom, readFrom]
    cases hc : input[i]? with
    | none => rfl
    | some c =>
      have hlt := lt_readAt hc s
      exact readFrom_ends input fuel _ _ (by omega) more

end Tokenizer


namespace Tokenizer

/-! ## What a part of a text is read as -/

/-- **The text takes the tokenizer from one state to another**, wherever it stands, a character a turn. -/
def Reads (s : Tokenizer) (text : JsString) (s' : Tokenizer) : Prop :=
  ∀ before after fuel, readFrom (before ++ text ++ after) (text.length + fuel) before.length s =
    readFrom (before ++ text ++ after) fuel (before.length + text.length) s'

theorem Reads.nil (s : Tokenizer) : Reads s [] s := by
  intro before after fuel
  simp

theorem Reads.append {s s' s'' : Tokenizer} {text text' : JsString} (h : Reads s text s') (h' : Reads s' text' s'') :
    Reads s (text ++ text') s'' := by
  intro before after fuel
  have hfirst := h before (text' ++ after) (text'.length + fuel)
  have hthen := h' (before ++ text) after fuel
  have htext : before ++ (text ++ text') ++ after = before ++ text ++ text' ++ after := by simp
  have htext' : before ++ text ++ (text' ++ after) = before ++ text ++ text' ++ after := by simp
  rw [htext'] at hfirst
  rw [List.length_append, Nat.add_assoc] at hthen
  rw [htext, List.length_append, Nat.add_assoc, hfirst, hthen]

variable {c : UInt16}

theorem Reads.one {s s' : Tokenizer} (h : ∀ input i, readAt input i c s = (s', i + 1)) : Reads s [c] s' := by
  intro before after fuel
  have hc : (before ++ [c] ++ after)[before.length]? = some c := by simp
  rw [show [c].length + fuel = fuel + 1 from Nat.add_comm _ _, readFrom, hc]
  dsimp only
  rw [h]
  rfl

theorem tokenizeCommand_of_reads {text : JsString} {s : Tokenizer} (h : Reads .create text s) :
    tokenizeCommand text = s.push.tokens := by
  have hall := h [] [] 0
  rw [List.nil_append, List.append_nil] at hall
  exact congrArg (fun s => s.push.tokens) hall

def outside (tokens : List JsString) (current : JsString) : Tokenizer := ⟨tokens, current, none, false, 0, none, []⟩

def inside (tokens : List JsString) (current : JsString) : Tokenizer := ⟨tokens, current, some singleQuote, false, 0, none, []⟩

variable {tokens : List JsString} {current : JsString}

theorem reads_quoted (hc : c ≠ singleQuote) :
    Reads (inside tokens current) [c] (inside tokens (current ++ [c])) := by
  refine .one (fun input i => ?_)
  simp [readAt, inside, add, hc]

theorem reads_open : Reads (outside tokens current) [singleQuote] (inside tokens current) := by
  refine .one (fun input i => ?_)
  simp [readAt, outside, inside, singleQuote, backslash, doubleQuote]

theorem reads_close : Reads (inside tokens current) [singleQuote] (outside tokens current) := by
  refine .one (fun input i => ?_)
  simp [readAt, outside, inside]

theorem reads_escaped (hc : isPosixEscapable c = true) :
    Reads (outside tokens current) [backslash, c] (outside tokens (current ++ [c])) := by
  intro before after fuel
  have hline : c ≠ newline := by
    rintro rfl
    exact absurd hc (by decide)
  have hfirst : (before ++ [backslash, c] ++ after)[before.length]? = some backslash := by simp
  have hnext : (before ++ [backslash, c] ++ after)[before.length + 1]? = some c := by simp
  rw [show [backslash, c].length + fuel = fuel + 1 + 1 from Nat.add_comm 2 fuel, readFrom, hfirst]
  have hturn : readAt (before ++ [backslash, c] ++ after) before.length backslash (outside tokens current) =
      ({ outside tokens current with escaping := true }, before.length + 1) := by
    unfold readAt
    dsimp only [outside]
    rw [hnext]
    simp [hline, hc]
  dsimp only
  rw [hturn, readFrom, hnext]
  simp [readAt, outside, add]

def isPlain (c : UInt16) : Bool := !isPosixEscapable c && !isSpace c

theorem reads_plain (hc : isPlain c = true) :
    Reads (outside tokens current) [c] (outside tokens (current ++ [c])) := by
  have hne : ∀ d, isPlain d = false → c ≠ d := by
    rintro d hd rfl
    rw [hc] at hd
    cases hd
  have hspace : isSpace c = false := by
    rw [isPlain, Bool.and_eq_true, Bool.not_eq_true', Bool.not_eq_true'] at hc
    exact hc.2
  refine .one (fun input i => ?_)
  have hsep : ∀ s : Tokenizer, readSeparator input i c none s =
      ({ s with current := s.current ++ [c], operatorPrefix := none }, i + 1) := by
    intro s
    simp [readSeparator, hne ampersand (by decide), hne bar (by decide), hne semicolon (by decide), hne hash (by decide),
      hne dollar (by decide), hne less (by decide), hne greater (by decide)]
  simp [readAt, outside, hne backslash (by decide), hne doubleQuote (by decide), hne singleQuote (by decide),
    hne leftParen (by decide), hne rightParen (by decide), hne newline (by decide), hspace, hsep]

theorem reads_space (hc : isSpace c = true) (hline : c ≠ newline) :
    Reads (outside tokens current) [c] (outside tokens current).push := by
  have hne : ∀ d, isSpace d = false → c ≠ d := by
    rintro d hd rfl
    rw [hc] at hd
    cases hd
  refine .one (fun input i => ?_)
  simp [readAt, outside, hne backslash (by decide), hne doubleQuote (by decide), hne singleQuote (by decide),
    hne leftParen (by decide), hline, hc]

end Tokenizer


/-! ## What the writers write -/

variable {c : UInt16}

theorem of_ascii {P : UInt16 → Prop} (h : ∀ n < 128, P (UInt16.ofNat n)) (hc : c < 128) : P c := by
  have hn := h c.toNat (by simpa using UInt16.lt_iff_toNat_lt.1 hc)
  rwa [UInt16.ofNat_toNat] at hn

theorem lt_of_isWordChar (h : isWordChar c = true) : c < 128 := by
  simp only [isWordChar, Bool.or_eq_true, Bool.and_eq_true, decide_eq_true_eq, beq_iff_eq] at h
  rcases h with ((⟨-, h⟩ | ⟨-, h⟩) | ⟨-, h⟩) | rfl
  · exact UInt16.lt_of_le_of_lt h (by decide)
  · exact UInt16.lt_of_le_of_lt h (by decide)
  · exact UInt16.lt_of_le_of_lt h (by decide)
  · decide

theorem lt_of_isPosixSafe (h : isPosixSafe c = true) : c < 128 := by
  rw [isPosixSafe, Bool.or_eq_true, List.contains_iff_mem] at h
  rcases h with h | h
  · exact lt_of_isWordChar h
  · revert c
    simp only [List.forall_mem_cons, List.not_mem_nil, false_imp_iff, implies_true, and_true]
    decide

theorem isPlain_of_isPosixSafe (h : isPosixSafe c = true) : Tokenizer.isPlain c = true := by
  have hall : ∀ n < 128, isPosixSafe (UInt16.ofNat n) = true → Tokenizer.isPlain (UInt16.ofNat n) = true := by decide
  exact of_ascii (P := fun c => isPosixSafe c = true → Tokenizer.isPlain c = true) hall (lt_of_isPosixSafe h) h

theorem all_isPosixSafe {arg : JsString} (h : isPosixSafeArg arg = true) : ∀ c ∈ arg, isPosixSafe c = true := by
  cases arg with
  | nil => cases h
  | cons c cs =>
    simp only [isPosixSafeArg, Bool.and_eq_true, List.all_eq_true] at h
    exact List.forall_mem_cons.2 ⟨h.1.1, h.2⟩

namespace Tokenizer

theorem reads_plains {word : JsString} : ∀ {tokens : List JsString} {current : JsString}, (∀ c ∈ word, isPlain c = true) →
    Reads (outside tokens current) word (outside tokens (current ++ word)) := by
  induction word with
  | nil =>
    intro tokens current _
    rw [List.append_nil]
    exact .nil _
  | cons c cs ih =>
    intro tokens current h
    have hone : Reads (outside tokens current) [c] (outside tokens (current ++ [c])) := reads_plain (h c List.mem_cons_self)
    have hall := hone.append (ih (fun d hd => h d (List.mem_cons_of_mem c hd)))
    rwa [List.append_assoc] at hall

theorem reads_stepped (arg : JsString) : ∀ {tokens : List JsString} {current : JsString},
    Reads (inside tokens current) (arg.flatMap steppedOutside) (inside tokens (current ++ arg)) := by
  induction arg with
  | nil =>
    intro tokens current
    rw [List.append_nil]
    exact .nil _
  | cons c cs ih =>
    intro tokens current
    have hone : Reads (inside tokens current) (steppedOutside c) (inside tokens (current ++ [c])) := by
      unfold steppedOutside
      by_cases hc : c = singleQuote ∨ c = backslash
      · have hesc : isPosixEscapable c = true := by
          rcases hc with rfl | rfl
          · decide
          · decide
        rw [if_pos hc]
        exact (reads_close.append (reads_escaped hesc)).append reads_open
      · rw [if_neg hc]
        exact reads_quoted (fun heq => hc (.inl heq))
    have hall := hone.append ih
    rwa [List.append_assoc] at hall

/-- **A quoted argument is read as itself**, and as no more than a part of a word. -/
theorem reads_quotePosixArg (arg : JsString) {tokens : List JsString} {current : JsString} :
    Reads (outside tokens current) (quotePosixArg arg) (outside tokens (current ++ arg)) := by
  unfold quotePosixArg
  by_cases hnil : arg = []
  · rw [if_pos hnil, hnil, List.append_nil]
    exact reads_open.append reads_close
  rw [if_neg hnil]
  by_cases hsafe : isPosixSafeArg arg = true
  · rw [if_pos hsafe]
    exact reads_plains (fun c hc => isPlain_of_isPosixSafe (all_isPosixSafe hsafe c hc))
  · rw [if_neg hsafe]
    exact (reads_open.append (reads_stepped arg)).append reads_close

theorem push_outside {tokens : List JsString} {current : JsString} (h : current ≠ []) :
    (outside tokens current).push = outside (tokens ++ [current]) [] := by
  simp [push, outside, h]

theorem reads_posix : ∀ (args : List JsString), (∀ arg ∈ args, arg ≠ []) → ∀ tokens,
    ∃ s, Reads (outside tokens []) (joinSpaced (args.map quotePosixArg)) s ∧ s.push.tokens = tokens ++ args
  | [], _, tokens => ⟨outside tokens [], .nil _, (List.append_nil _).symm⟩
  | [arg], h, tokens => by
    refine ⟨outside tokens arg, ?_, ?_⟩
    · have harg : Reads (outside tokens []) (quotePosixArg arg) (outside tokens arg) := reads_quotePosixArg arg
      simpa [joinSpaced] using harg
    · rw [push_outside (h arg (List.mem_singleton.2 rfl))]
      rfl
  | arg :: next :: args, h, tokens => by
    obtain ⟨s, hs, htokens⟩ := reads_posix (next :: args) (fun a ha => h a (List.mem_cons_of_mem _ ha)) (tokens ++ [arg])
    have hspace : Reads (outside tokens arg) [space] (outside (tokens ++ [arg]) []) := by
      rw [← push_outside (h arg List.mem_cons_self)]
      exact reads_space (by decide) (by decide)
    refine ⟨s, ?_, by rw [htokens, List.append_assoc, List.singleton_append]⟩
    have hfirst : Reads (outside tokens []) (quotePosixArg arg) (outside tokens arg) := reads_quotePosixArg arg
    have hall := (hfirst.append hspace).append hs
    simpa [joinSpaced, List.intercalate, List.intersperse] using hall

end Tokenizer


/-! ## A pasted path -/

/-- White space that no writer escapes, and the tokenizer splits at. -/
def isUnescapedSpace (c : UInt16) : Bool := isSpace c && !isPosixEscapable c

theorem isUnescapedSpace_iff : isUnescapedSpace c = true ↔ isSpace c = true ∧ c ≠ space ∧ c ≠ tab := by
  rw [isUnescapedSpace, Bool.and_eq_true, Bool.not_eq_true', and_congr_right_iff]
  intro hspace
  constructor
  · intro hesc
    constructor
    · rintro rfl
      cases hesc
    · rintro rfl
      cases hesc
  · rintro ⟨hne, hne'⟩
    cases hesc : isPosixEscapable c with
    | false => rfl
    | true =>
      have hall : ∀ d ∈ [0x20, 0x09, 0x21, 0x22, 0x23, 0x24, 0x26, 0x27, 0x28, 0x29, 0x2a, 0x3b, 0x3c, 0x3e, 0x3f, 0x5b, 0x5c,
          0x5d, 0x60, 0x7b, 0x7c, 0x7d, 0x7e], isSpace d = true → d = space ∨ d = tab := by
        simp only [List.forall_mem_cons, List.not_mem_nil, false_imp_iff, implies_true, and_true]
        and_intros <;> decide
      rcases hall c (List.contains_iff_mem.1 hesc) hspace with heq | heq
      · exact absurd heq hne
      · exact absurd heq hne'

/-- `replace(POSIX_UNSAFE, '\\$1')`. -/
def escaped (path : JsString) : JsString := path.flatMap (fun c => if isPosixEscapable c then [backslash, c] else [c])

theorem shellEscapePosix_eq {path : JsString} (h : path ≠ []) (hline : newline ∉ path) (hreturn : 0x0d ∉ path) :
    shellEscapePosix path = escaped path := by
  have hnone : path.any (fun c => c = newline || c = 0x0d) = false := by
    rw [List.any_eq_false]
    intro c hc heq
    simp only [Bool.or_eq_true, decide_eq_true_eq] at heq
    rcases heq with rfl | rfl
    · exact hline hc
    · exact hreturn hc
  unfold shellEscapePosix
  rw [if_neg h, hnone]
  rfl

namespace Tokenizer

theorem reads_escapedPath : ∀ (path : JsString), (∀ c ∈ path, isUnescapedSpace c = false) →
    ∀ {tokens : List JsString} {current : JsString}, Reads (outside tokens current) (escaped path)
    (outside tokens (current ++ path))
  | [], _, tokens, current => by
    rw [List.append_nil]
    exact .nil _
  | c :: cs, h, tokens, current => by
    have hone : Reads (outside tokens current) (if isPosixEscapable c then [backslash, c] else [c])
        (outside tokens (current ++ [c])) := by
      by_cases hesc : isPosixEscapable c = true
      · rw [if_pos hesc]
        exact reads_escaped hesc
      · rw [if_neg hesc]
        refine reads_plain ?_
        have hc := h c List.mem_cons_self
        simp only [isUnescapedSpace, hesc, Bool.not_false, Bool.and_true] at hc
        simp [isPlain, hesc, hc]
    have hall := hone.append (reads_escapedPath cs (fun d hd => h d (List.mem_cons_of_mem c hd)))
    rwa [List.append_assoc] at hall

def Unspaced (tokens : List JsString) : Prop := ∀ word ∈ tokens, ∀ c ∈ word, isUnescapedSpace c = false

theorem unspaced_push {tokens : List JsString} {current : JsString} (h : Unspaced (current :: tokens)) :
    ∃ tokens', (outside tokens current).push = outside tokens' [] ∧ Unspaced ([] :: tokens') := by
  by_cases hnil : current = []
  · refine ⟨tokens, by simp [push, outside, hnil], ?_⟩
    rwa [hnil] at h
  · refine ⟨tokens ++ [current], push_outside hnil, fun word hword => ?_⟩
    rw [List.mem_cons, List.mem_append, List.mem_singleton] at hword
    rcases hword with rfl | hword | rfl
    · exact fun c hc => absurd hc List.not_mem_nil
    · exact h word (List.mem_cons_of_mem _ hword)
    · exact h word List.mem_cons_self

theorem reads_path_unspaced : ∀ (path : JsString), newline ∉ path → ∀ {tokens : List JsString} {current : JsString},
    Unspaced (current :: tokens) → ∃ tokens' current', Reads (outside tokens current) (escaped path)
    (outside tokens' current') ∧
      Unspaced (current' :: tokens')
  | [], _, tokens, current, h => ⟨tokens, current, .nil _, h⟩
  | c :: cs, hline, tokens, current, h => by
    have hstep : ∃ tokens' current', Reads (outside tokens current) (if isPosixEscapable c then [backslash, c] else [c])
        (outside tokens' current') ∧ Unspaced (current' :: tokens') := by
      cases hodd : isUnescapedSpace c with
      | false =>
        have hone : Reads (outside tokens current) (escaped [c]) (outside tokens (current ++ [c])) :=
          reads_escapedPath [c] (fun d hd => by rw [List.mem_singleton.1 hd, hodd])
        refine ⟨tokens, current ++ [c], by simpa [escaped] using hone, List.forall_mem_cons.2 ⟨fun d hd => ?_, ?_⟩⟩
        · rcases List.mem_append.1 hd with hd | hd
          · exact h current List.mem_cons_self d hd
          · rw [List.mem_singleton.1 hd, hodd]
        · exact fun word hword => h word (List.mem_cons_of_mem _ hword)
      | true =>
        obtain ⟨tokens', hpush, hunspaced⟩ := unspaced_push h
        rw [isUnescapedSpace, Bool.and_eq_true, Bool.not_eq_true'] at hodd
        refine ⟨tokens', [], ?_, hunspaced⟩
        rw [hodd.2, ← hpush, if_neg Bool.false_ne_true]
        exact reads_space hodd.1 (fun heq => hline (by rw [heq]; exact List.mem_cons_self))
    obtain ⟨tokens₁, current₁, hfirst, hunspaced₁⟩ := hstep
    obtain ⟨tokens₂, current₂, hrest, hunspaced₂⟩ :=
      reads_path_unspaced cs (fun hin => hline (List.mem_cons_of_mem c hin)) hunspaced₁
    exact ⟨tokens₂, current₂, hfirst.append hrest, hunspaced₂⟩

end Tokenizer

theorem tokenizeCommand_posix (args : List JsString) (h : ∀ arg ∈ args, arg ≠ []) :
    tokenizeCommand (buildShellCommandForKind .posix args) = args := by
  obtain ⟨s, hs, htokens⟩ := Tokenizer.reads_posix args h []
  exact (Tokenizer.tokenizeCommand_of_reads hs).trans htokens

theorem tokenizeCommand_path_iff {path : JsString} (h : path ≠ []) (hline : newline ∉ path) (hreturn : 0x0d ∉ path) :
    tokenizeCommand (shellEscapePosix path) = [path] ↔ ∀ c ∈ path, isSpace c = true → c = space ∨ c = tab := by
  rw [shellEscapePosix_eq h hline hreturn]
  constructor
  · intro heq c hc hspace
    have hempty : Tokenizer.Unspaced [[]] := by
      intro word hword d hd
      rw [List.mem_singleton.1 hword] at hd
      exact absurd hd List.not_mem_nil
    obtain ⟨tokens, current, hreads, hunspaced⟩ := Tokenizer.reads_path_unspaced path hline hempty
    obtain ⟨tokens', hpush, hunspaced'⟩ := Tokenizer.unspaced_push hunspaced
    rw [Tokenizer.tokenizeCommand_of_reads hreads, hpush] at heq
    have htokens : tokens' = [path] := heq
    have hodd := hunspaced' path (by rw [htokens]; simp) c hc
    by_contra hne
    rw [not_or] at hne
    rw [isUnescapedSpace_iff.2 ⟨hspace, hne⟩] at hodd
    cases hodd
  · intro hall
    have hreads : Tokenizer.Reads .create (escaped path) (Tokenizer.outside [] path) := by
      refine Tokenizer.reads_escapedPath path (fun c hc => ?_)
      rw [Bool.eq_false_iff, Ne, isUnescapedSpace_iff]
      rintro ⟨hspace, hne, hne'⟩
      rcases hall c hc hspace with heq | heq
      · exact hne heq
      · exact hne' heq
    rw [Tokenizer.tokenizeCommand_of_reads hreads, Tokenizer.push_outside h]
    rfl

/-- **The tokenizer reads back what Dormouse writes for POSIX shells**: every argv, and of the paths with no line break just
those whose white space is all spaces and tabs. -/
theorem tokenizeCommand_reads_back (args : List JsString) (path : JsString) :
    ((∀ arg ∈ args, arg ≠ []) → tokenizeCommand (buildShellCommandForKind .posix args) = args) ∧
    (path ≠ [] → newline ∉ path → 0x0d ∉ path →
      (tokenizeCommand (shellEscapePosix path) = [path] ↔ ∀ c ∈ path, isSpace c = true → c = space ∨ c = tab)) :=
  ⟨tokenizeCommand_posix args, fun h hline hreturn => tokenizeCommand_path_iff h hline hreturn⟩

/-- A name with a narrow no-break space, as a screenshot's has before its `PM`. -/
def narrowSpaced : JsString := units "at 9.41" ++ [0x202f] ++ units "PM.png"

theorem tokenizeCommand_splits_path :
    ¬ ((∀ args : List JsString, (∀ arg ∈ args, arg ≠ []) → tokenizeCommand (buildShellCommandForKind .posix args) = args) ∧
      ∀ path : JsString, path ≠ [] → newline ∉ path → 0x0d ∉ path → tokenizeCommand (shellEscapePosix path) = [path]) := by
  rintro ⟨-, h⟩
  have hsplit : tokenizeCommand (shellEscapePosix narrowSpaced) = [units "at 9.41", units "PM.png"] := by decide +kernel
  rw [h narrowSpaced (by decide +kernel) (by decide +kernel) (by decide +kernel)] at hsplit
  exact absurd hsplit (by decide +kernel)

end Shell
end Dormouse

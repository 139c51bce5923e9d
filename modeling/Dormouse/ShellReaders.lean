import Dormouse.CommandTokens
/-!
# ShellReaders — what the shells make of a command line

Reference readers, and that they read back the argv `buildShellCommandForKind` wrote.  Two read words: the POSIX one and
fish's, which differ inside single quotes; a character either would read as an operator, an expansion or a comment is
refused.  A cmd line has two readers, cmd at a prompt and then the program's own split of what cmd hands on.
-/
namespace Dormouse
namespace Shell

/-! ## Words -/

inductive Place where
  | bare
  /-- After a backslash outside quotes. -/
  | bareEscape
  | quoted
  /-- After a backslash inside single quotes. -/
  | quotedEscape
  deriving DecidableEq

structure Dialect where
  /-- Outside quotes the character is of an operator or an expansion, or opens double quotes. -/
  active        : UInt16 → Bool
  /-- At the start of a word it opens a comment or an expansion. -/
  opens         : UInt16 → Bool
  /-- A backslash outside quotes makes the character stand for itself. -/
  escapable     : UInt16 → Bool
  /-- Inside single quotes a backslash escapes a quote and a backslash. -/
  quotedEscapes : Bool

/-- Single quotes are literal, and a backslash outside them escapes the next character.  A leading `=` is zsh's. -/
def posix : Dialect where
  active c      := [newline, doubleQuote, dollar, ampersand, leftParen, rightParen, 0x2a, semicolon, less, greater, 0x3f, 0x5b,
    0x60, 0x7b, bar, 0x7d, 0x7e, 0x21].contains c
  opens c       := [hash, 0x3d].contains c
  escapable _   := true
  quotedEscapes := false

/-- Outside quotes a backslash before one of `abcefnrtuvxUX` or a digit stands for another character. -/
def fish : Dialect where
  active c      := [newline, doubleQuote, dollar, ampersand, leftParen, rightParen, 0x2a, semicolon, less, greater, 0x3f, 0x5b,
    0x5d, 0x5e, 0x7b, bar, 0x7d, 0x7e].contains c
  opens c       := c = hash
  escapable c   := ! [0x61, 0x62, 0x63, 0x65, 0x66, 0x6e, 0x72, 0x74, 0x75, 0x76, 0x78, 0x55, 0x58].contains c &&
    !(0x30 ≤ c && c ≤ 0x39)
  quotedEscapes := true

structure Words where
  words : List JsString
  word  : Option JsString
  place : Place
  deriving DecidableEq

namespace Words

def create : Words := ⟨[], none, .bare⟩

def put (s : Words) (text : JsString) (place : Place) : Words :=
  { s with word := some (s.word.getD [] ++ text), place := place }

def close (s : Words) : Words := { s with words := s.words ++ s.word.toList, word := none }

/-- The words read; none when a quote is open or nothing follows a backslash. -/
def finish (s : Words) : Option (List JsString) := if s.place = .bare then some s.close.words else none

end Words

namespace Dialect

def read (d : Dialect) (s : Words) (c : UInt16) : Option Words :=
  match s.place with
  | .bareEscape   =>
    -- a backslash before a newline continues the line
    if c = newline then some { s with place := .bare }
    else if d.escapable c then some (s.put [c] .bare)
    else none
  | .quoted       =>
    if c = singleQuote then some { s with place := .bare }
    else if c = backslash && d.quotedEscapes then some { s with place := .quotedEscape }
    else some (s.put [c] .quoted)
  | .quotedEscape => some (s.put (if c = singleQuote ∨ c = backslash then [c] else [backslash, c]) .quoted)
  | .bare         =>
    if c = singleQuote then some (s.put [] .quoted)
    else if c = backslash then some { s with place := .bareEscape }
    else if c = space ∨ c = tab then some s.close
    else if d.active c ∨ (s.word = none ∧ d.opens c) then none
    else some (s.put [c] .bare)

def words (d : Dialect) (line : JsString) : Option (List JsString) := (line.foldlM d.read Words.create).bind Words.finish

structure Takes (d : Dialect) : Prop where
  inactive  : ∀ c, isPosixSafe c = true → d.active c = false
  unopening : ∀ c, isPosixSafe c = true → c ≠ 0x3d → d.opens c = false
  quote     : d.escapable singleQuote = true
  slash     : d.escapable backslash = true

theorem posix_takes : posix.Takes where
  inactive := fun c h => of_ascii (P := fun c => isPosixSafe c = true → posix.active c = false) (by decide)
    (lt_of_isPosixSafe h) h
  unopening := fun c h => of_ascii (P := fun c => isPosixSafe c = true → c ≠ 0x3d → posix.opens c = false) (by decide)
    (lt_of_isPosixSafe h) h
  quote := rfl
  slash := rfl

theorem fish_takes : fish.Takes where
  inactive := fun c h => of_ascii (P := fun c => isPosixSafe c = true → fish.active c = false) (by decide)
    (lt_of_isPosixSafe h) h
  unopening := fun c h => of_ascii (P := fun c => isPosixSafe c = true → c ≠ 0x3d → fish.opens c = false) (by decide)
    (lt_of_isPosixSafe h) h
  quote := by decide
  slash := by decide

variable {d : Dialect} {ws : List JsString} {w : JsString}

theorem read_safe (h : d.Takes) {c : UInt16} (hc : isPosixSafe c = true) (s : Option JsString) (hs : s = none → c ≠ 0x3d) :
    d.read ⟨ws, s, .bare⟩ c = some ⟨ws, some (s.getD [] ++ [c]), .bare⟩ := by
  have hne : ∀ e, isPosixSafe e = false → c ≠ e := by
    rintro e he rfl
    rw [hc] at he
    cases he
  have hopens : ¬ (s = none ∧ d.opens c = true) := by
    rintro ⟨hnone, hopen⟩
    rw [h.unopening c hc (hs hnone)] at hopen
    cases hopen
  simp [read, Words.put, hne singleQuote (by decide), hne backslash (by decide), hne space (by decide), hne tab (by decide),
    h.inactive c hc, hopens]

theorem read_safes (h : d.Takes) : ∀ (word : JsString), (∀ c ∈ word, isPosixSafe c = true) → ∀ w,
    word.foldlM d.read ⟨ws, some w, .bare⟩ = some ⟨ws, some (w ++ word), .bare⟩
  | [], _, w => by rw [List.append_nil]; rfl
  | c :: cs, hc, w => by
    rw [List.foldlM_cons, read_safe h (hc c List.mem_cons_self) (some w) (fun hnone => nomatch hnone), Option.bind_eq_bind,
      Option.bind_some, Option.getD_some, read_safes h cs (fun e he => hc e (List.mem_cons_of_mem c he)), List.append_assoc]
    rfl

/-- No escape is left inside the quotes, so both dialects read a quoted run literally. -/
theorem read_steppedOutside (h : d.Takes) (c : UInt16) :
    (steppedOutside c).foldlM d.read ⟨ws, some w, .quoted⟩ = some ⟨ws, some (w ++ [c]), .quoted⟩ := by
  unfold steppedOutside
  by_cases hc : c = singleQuote ∨ c = backslash
  · have hesc : d.escapable c = true := by
      rcases hc with rfl | rfl
      · exact h.quote
      · exact h.slash
    have hline : c ≠ newline := by
      rcases hc with rfl | rfl
      · decide
      · decide
    have hslash : backslash ≠ singleQuote := by decide
    rw [if_pos hc]
    simp [read, Words.put, hesc, hline, hslash]
  · rw [not_or] at hc
    rw [if_neg (not_or.2 hc)]
    simp [read, Words.put, hc.1, hc.2]

theorem read_stepped (h : d.Takes) : ∀ (arg w : JsString),
    (arg.flatMap steppedOutside).foldlM d.read ⟨ws, some w, .quoted⟩ = some ⟨ws, some (w ++ arg), .quoted⟩
  | [], w => by rw [List.append_nil]; rfl
  | c :: cs, w => by
    rw [List.flatMap_cons, List.foldlM_append, read_steppedOutside h, Option.bind_eq_bind, Option.bind_some, read_stepped h cs,
      List.append_assoc]
    rfl

/-- **A quoted argument is one word, itself.** -/
theorem read_quotePosixArg (h : d.Takes) (arg : JsString) :
    (quotePosixArg arg).foldlM d.read ⟨ws, none, .bare⟩ = some ⟨ws, some arg, .bare⟩ := by
  have hopen : d.read ⟨ws, none, .bare⟩ singleQuote = some ⟨ws, some [], .quoted⟩ := by simp [read, Words.put]
  have hclose : ∀ w, d.read ⟨ws, some w, .quoted⟩ singleQuote = some ⟨ws, some w, .bare⟩ := by
    intro w
    simp [read]
  unfold quotePosixArg
  by_cases hnil : arg = []
  · rw [if_pos hnil, hnil]
    simp [hopen, hclose]
  rw [if_neg hnil]
  by_cases hsafe : isPosixSafeArg arg = true
  · rw [if_pos hsafe]
    have hall := all_isPosixSafe hsafe
    cases arg with
    | nil => exact absurd rfl hnil
    | cons c cs =>
      have hfirst : c ≠ 0x3d := by
        simp only [isPosixSafeArg, Bool.and_eq_true, decide_eq_true_eq] at hsafe
        exact hsafe.1.2
      rw [List.foldlM_cons, read_safe h (hall c List.mem_cons_self) none (fun _ => hfirst),
        Option.bind_eq_bind, Option.bind_some,
        Option.getD_none, read_safes h cs (fun e he => hall e (List.mem_cons_of_mem c he))]
      rfl
  · rw [if_neg hsafe, List.foldlM_append, List.foldlM_append]
    simp [hopen, hclose, read_stepped h]

end Dialect

theorem joinSpaced_cons (w : JsString) (ws : List JsString) : joinSpaced (w :: ws) = w ++ ws.flatMap (space :: ·) := by
  induction ws generalizing w with
  | nil => simp [joinSpaced]
  | cons w' ws ih =>
    have hjoin : joinSpaced (w :: w' :: ws) = w ++ [space] ++ joinSpaced (w' :: ws) := by
      simp [joinSpaced, List.intercalate, List.intersperse]
    rw [hjoin, ih]
    simp

theorem Dialect.read_posix {d : Dialect} (h : d.Takes) : ∀ (args ws : List JsString) (w : JsString),
    ∃ s, ((args.map quotePosixArg).flatMap (space :: ·)).foldlM d.read ⟨ws, some w, .bare⟩ = some s ∧
      s.finish = some (ws ++ w :: args)
  | [], ws, w => ⟨⟨ws, some w, .bare⟩, rfl, rfl⟩
  | arg :: args, ws, w => by
    have hspace : d.read ⟨ws, some w, .bare⟩ space = some ⟨ws ++ [w], none, .bare⟩ := by
      simp [Dialect.read, Words.close, space, singleQuote, backslash]
    obtain ⟨s, hs, hfinish⟩ := Dialect.read_posix h args (ws ++ [w]) arg
    refine ⟨s, ?_, by rw [hfinish, List.append_assoc, List.singleton_append]⟩
    rw [List.map_cons, List.flatMap_cons, List.foldlM_append, List.foldlM_cons, hspace, Option.bind_eq_bind,
      Option.bind_some, Dialect.read_quotePosixArg h, Option.bind_some, hs]

theorem Dialect.words_posix {d : Dialect} (h : d.Takes) (args : List JsString) :
    d.words (buildShellCommandForKind .posix args) = some args := by
  show ((joinSpaced (args.map quotePosixArg)).foldlM d.read Words.create).bind Words.finish = some args
  cases args with
  | nil => rfl
  | cons arg args =>
    obtain ⟨s, hs, hfinish⟩ := Dialect.read_posix h args [] arg
    rw [List.map_cons, joinSpaced_cons, List.foldlM_append, Words.create, Dialect.read_quotePosixArg h, Option.bind_eq_bind,
      Option.bind_some, hs, Option.bind_some, hfinish]
    rfl

/-- **Every argv is read back, as words alone, by both readers.** -/
theorem posix_words_read_back (args : List JsString) :
    posix.words (buildShellCommandForKind .posix args) = some args ∧
      fish.words (buildShellCommandForKind .posix args) = some args :=
  ⟨Dialect.words_posix Dialect.posix_takes args, Dialect.words_posix Dialect.fish_takes args⟩

/-! ## cmd -/

def colon : UInt16 := 0x3a

/-- The variables of a prompt, and what a `:` and what follows it make of a value.  No name starts with a caret. -/
structure CmdEnv where
  value    : JsString → Option JsString
  modified : JsString → JsString → JsString
  careted  : ∀ name, name.head? = some caret → value name = none

namespace CmdEnv

def lookup (E : CmdEnv) (text : JsString) : Option JsString :=
  let name := text.takeWhile (· ≠ colon)
  let modifier := text.dropWhile (· ≠ colon)
  if name = [] then none else (E.value name).map (fun v => if modifier = [] then v else E.modified v modifier)

/-- `%NAME%` is replaced by a set variable's value; a percent sign that opens none stays. -/
def expand (E : CmdEnv) : JsString → JsString
  | []      => []
  | c :: cs =>
    if c = percent then
      match E.lookup (cs.takeWhile (· ≠ percent)), _h : cs.dropWhile (· ≠ percent) with
      | some v, _ :: rest => v ++ expand E rest
      | _,      _         => c :: expand E cs
    else c :: expand E cs
termination_by line => line.length
decreasing_by
  · have hlen := (cs.dropWhile_suffix (· ≠ percent)).length_le
    rw [_h, List.length_cons] at hlen
    simp only [List.length_cons]
    omega
  · simp
  · simp

end CmdEnv

/-- `[&|<>()]`. -/
def isCmdOperator (c : UInt16) : Bool := [ampersand, bar, less, greater, leftParen, rightParen].contains c

inductive CmdPlace where
  | outside
  /-- Inside quotes, which every `"` toggles and in which nothing else counts. -/
  | inside
  /-- After a caret outside quotes. -/
  | escaped
  deriving DecidableEq

/-- What cmd hands on of an expanded line; none when an operator is active, or a caret makes the line go on. -/
def readCmd : CmdPlace → JsString → Option JsString
  | .escaped, []      => none
  | .outside, []      => some []
  | .inside,  []      => some []
  | .escaped, c :: cs => (readCmd .outside cs).map (c :: ·)
  | .inside,  c :: cs => (readCmd (if c = doubleQuote then .outside else .inside) cs).map (c :: ·)
  | .outside, c :: cs =>
    if c = doubleQuote then (readCmd .inside cs).map (c :: ·)
    else if c = caret then readCmd .escaped cs
    else if isCmdOperator c then none
    else (readCmd .outside cs).map (c :: ·)

def CmdEnv.reads (E : CmdEnv) (line : JsString) : Option JsString := readCmd .outside (E.expand line)

/-! ## The program's argv -/

/-- `argv[0]` and what follows it: it ends at a blank outside quotes, and has no escapes. -/
def readProgram : Bool → JsString → JsString × JsString
  | _,      []      => ([], [])
  | quoted, c :: cs =>
    if c = doubleQuote then readProgram (!quoted) cs
    else if (c = space ∨ c = tab) ∧ quoted = false then ([], c :: cs)
    else (c :: (readProgram quoted cs).1, (readProgram quoted cs).2)

structure Argv where
  args    : List JsString
  arg     : Option JsString
  quoted  : Bool
  /-- The backslashes just read. -/
  slashes : Nat
  /-- A quote just read closed the quotes. -/
  closed  : Bool
  deriving DecidableEq

namespace Argv

def pending (s : Argv) : Option JsString := s.arg.map (· ++ List.replicate s.slashes backslash)

def finish (s : Argv) : List JsString := s.args ++ s.pending.toList

def put (s : Argv) (text : JsString) : Argv :=
  { s with arg := some (s.arg.getD [] ++ text), slashes := 0, closed := false }

/-- 2n backslashes before a quote are n and the quote toggles; 2n+1 are n and a literal quote.  A `""` inside quotes is where
the runtimes part, and is refused. -/
def read (s : Argv) (c : UInt16) : Option Argv :=
  if c = backslash then some { s with arg := some (s.arg.getD []), slashes := s.slashes + 1, closed := false }
  else if c = doubleQuote then
    if s.closed then none
    else if s.slashes % 2 = 1 then some (s.put (List.replicate (s.slashes / 2) backslash ++ [doubleQuote]))
    else some { s.put (List.replicate (s.slashes / 2) backslash) with quoted := !s.quoted, closed := s.quoted }
  else if (c = space ∨ c = tab) ∧ s.quoted = false then some ⟨s.finish, none, false, 0, false⟩
  else some (s.put (List.replicate s.slashes backslash ++ [c]))

end Argv

def msvcrtArgv (line : JsString) : Option (List JsString) :=
  ((readProgram false line).2.foldlM Argv.read ⟨[], none, false, 0, false⟩).map (fun s =>
    (readProgram false line).1 :: s.finish)


/-! ## No percent pair names a variable -/

def isCareted : JsString → Bool
  | []      => true
  | c :: cs => (c ≠ percent || cs.head? = some caret) && isCareted cs

theorem CmdEnv.lookup_careted (E : CmdEnv) {text : JsString} (h : text.head? = some caret) : E.lookup text = none := by
  cases text with
  | nil => cases h
  | cons c cs =>
    obtain rfl : c = caret := Option.some.inj h
    have hname : ((caret :: cs).takeWhile (· ≠ colon)).head? = some caret := by
      rw [List.takeWhile_cons, if_pos (by decide)]
      rfl
    unfold CmdEnv.lookup
    dsimp only
    rw [E.careted _ hname]
    split
    · rfl
    · rfl

theorem CmdEnv.expand_careted (E : CmdEnv) : ∀ (line : JsString), isCareted line = true → E.expand line = line
  | [], _ => by rw [CmdEnv.expand]
  | c :: cs, h => by
    rw [isCareted, Bool.and_eq_true, Bool.or_eq_true, decide_eq_true_eq, decide_eq_true_eq] at h
    have hrest := CmdEnv.expand_careted E cs h.2
    rw [CmdEnv.expand]
    by_cases hc : c = percent
    · have hcaret : cs.head? = some caret := by
        rcases h.1 with hne | hcaret
        · exact absurd hc hne
        · exact hcaret
      have hhead : (cs.takeWhile (· ≠ percent)).head? = some caret := by
        cases cs with
        | nil => cases hcaret
        | cons d ds =>
          obtain rfl : d = caret := Option.some.inj hcaret
          rw [List.takeWhile_cons, if_pos (by decide)]
          rfl
      rw [if_pos hc, E.lookup_careted hhead, hrest]
    · rw [if_neg hc, hrest]

theorem isCareted_append {text tail : JsString} (h : percent ∉ text) (ht : isCareted tail = true) :
    isCareted (text ++ tail) = true := by
  induction text with
  | nil => exact ht
  | cons c cs ih =>
    have hc : c ≠ percent := fun heq => h (heq ▸ List.mem_cons_self)
    rw [List.cons_append, isCareted, ih (fun hin => h (List.mem_cons_of_mem c hin))]
    simp [hc]

/-- A caret form has one after each of its percent signs, the last of which another character follows. -/
theorem isCareted_caretEscape {tail : JsString} (ht : isCareted tail = true) : ∀ (text : JsString) (afterPercent : Bool),
    text.getLast? ≠ some percent → isCareted (caretEscapeFrom afterPercent text ++ tail) = true
  | [], _, _ => ht
  | [c], b, h => by
    have hc : c ≠ percent := fun heq => h (by rw [heq]; rfl)
    refine isCareted_append (fun hin => ?_) ht
    rw [caretEscapeFrom, caretEscapeFrom, List.append_nil] at hin
    split at hin
    · rcases List.mem_cons.1 hin with heq | hin
      · exact absurd heq (by decide)
      · exact hc (List.mem_singleton.1 hin).symm
    · exact hc (List.mem_singleton.1 hin).symm
  | c :: d :: ds, b, h => by
    have hrest := isCareted_caretEscape ht (d :: ds) (c = percent) (by rwa [List.getLast?_cons_cons] at h)
    have hhead : c = percent → (caretEscapeFrom (c = percent) (d :: ds) ++ tail).head? = some caret := by
      intro hc
      simp [caretEscapeFrom, hc]
    rw [caretEscapeFrom, List.append_assoc]
    generalize caretEscapeFrom (c = percent) (d :: ds) ++ tail = after at hrest hhead
    have hone : isCareted (c :: after) = true := by
      rw [isCareted, hrest, Bool.and_true, Bool.or_eq_true, decide_eq_true_eq, decide_eq_true_eq]
      by_cases hc : c = percent
      · exact .inr (hhead hc)
      · exact .inl hc
    split
    · show isCareted ([caret] ++ c :: after) = true
      exact isCareted_append (by decide) hone
    · exact hone

theorem mem_escapeMsvcrt {c : UInt16} (hc : c ≠ backslash) : ∀ {arg : JsString} {slashes : Nat},
    c ∈ escapeMsvcrt slashes arg → c ∈ arg
  | [], slashes, h => absurd (List.eq_of_mem_replicate h) hc
  | d :: ds, slashes, h => by
    rw [escapeMsvcrt] at h
    split at h
    · exact List.mem_cons_of_mem d (mem_escapeMsvcrt hc h)
    split at h
    · rename_i hquote
      simp only [List.mem_append, List.mem_replicate, List.mem_cons, List.not_mem_nil, or_false] at h
      rcases h with ((⟨-, h⟩ | h) | h)
      · exact absurd h hc
      · rcases h with h | h
        · exact absurd h hc
        · rw [h, hquote]
          exact List.mem_cons_self
      · exact List.mem_cons_of_mem d (mem_escapeMsvcrt hc h)
    · simp only [List.mem_append, List.mem_replicate, List.mem_singleton] at h
      rcases h with ((⟨-, h⟩ | h) | h)
      · exact absurd h hc
      · rw [h]
        exact List.mem_cons_self
      · exact List.mem_cons_of_mem d (mem_escapeMsvcrt hc h)

theorem mem_quoteMsvcrtArg {c : UInt16} {arg : JsString} (hc : c ≠ backslash) (hquote : c ≠ doubleQuote)
    (h : c ∈ quoteMsvcrtArg arg) : c ∈ arg := by
  rw [quoteMsvcrtArg, List.mem_append, List.mem_append, List.mem_singleton] at h
  rcases h with (h | h) | h
  · exact absurd h hquote
  · exact mem_escapeMsvcrt hc h
  · exact absurd h hquote

theorem all_isWindowsSafe {arg : JsString} (h : isWindowsSafeArg arg = true) : ∀ c ∈ arg, isWindowsSafe c = true := by
  rw [isWindowsSafeArg, Bool.and_eq_true, List.all_eq_true] at h
  exact h.2

theorem not_mem_of_isWindowsSafe {arg : JsString} (h : isWindowsSafeArg arg = true) {c : UInt16}
    (hc : isWindowsSafe c = false) :
    c ∉ arg := by
  intro hin
  rw [all_isWindowsSafe h c hin] at hc
  cases hc

theorem isCareted_quoteCmdArg (arg : JsString) {tail : JsString} (ht : isCareted tail = true) :
    isCareted (quoteCmdArg arg ++ tail) = true := by
  unfold quoteCmdArg
  split
  · exact isCareted_append (by decide) ht
  split
  · rename_i hsafe
    exact isCareted_append (not_mem_of_isWindowsSafe hsafe (by decide)) ht
  split
  · refine isCareted_caretEscape ht _ _ ?_
    rw [quoteMsvcrtArg, List.getLast?_append]
    simp [doubleQuote, percent]
  · rename_i hany
    refine isCareted_append (fun hin => hany (List.any_eq_true.2 ⟨percent, ?_, by decide⟩)) ht
    exact mem_quoteMsvcrtArg (by decide) (by decide) hin

theorem isCareted_quoteCmdArgs (args : List JsString) : isCareted ((args.map quoteCmdArg).flatMap (space :: ·)) = true := by
  induction args with
  | nil => rfl
  | cons arg args ih =>
    rw [List.map_cons, List.flatMap_cons, List.cons_append]
    show isCareted ([space] ++ (quoteCmdArg arg ++ (args.map quoteCmdArg).flatMap (space :: ·))) = true
    exact isCareted_append (by decide) (isCareted_quoteCmdArg arg ih)

theorem isCareted_quoteCmdProgram {program tail : JsString} (h : percent ∉ program) (ht : isCareted tail = true) :
    isCareted (quoteCmdProgram program ++ tail) = true := by
  refine isCareted_append ?_ ht
  unfold quoteCmdProgram
  split
  · decide
  split
  · exact h
  · intro hin
    rw [List.mem_append, List.mem_append, List.mem_singleton] at hin
    rcases hin with (hin | hin) | hin
    · exact absurd hin (by decide)
    · exact h hin
    · exact absurd hin (by decide)


/-! ## What cmd hands on -/

/-- Cmd reads the text from outside quotes to outside quotes, and hands on another. -/
def Hands (text handed : JsString) : Prop :=
  ∀ tail, readCmd .outside (text ++ tail) = (readCmd .outside tail).map (handed ++ ·)

theorem Hands.nil : Hands [] [] := by
  intro tail
  simp

theorem Hands.append {text handed text' handed' : JsString} (h : Hands text handed) (h' : Hands text' handed') :
    Hands (text ++ text') (handed ++ handed') := by
  intro tail
  rw [List.append_assoc, h, h', Option.map_map]
  simp [Function.comp_def]

theorem Hands.whole {text handed : JsString} (h : Hands text handed) : readCmd .outside text = some handed := by
  have hall := h []
  simpa [readCmd] using hall

theorem hands_escaped (c : UInt16) : Hands [caret, c] [c] := by
  intro tail
  simp [readCmd, caret, doubleQuote]

theorem hands_one {c : UInt16} (h : isCaretEscaped c = false) : Hands [c] [c] := by
  have hne : ∀ d, isCaretEscaped d = true → c ≠ d := by
    rintro d hd rfl
    rw [h] at hd
    cases hd
  have hop : isCmdOperator c = false := by
    cases hop : isCmdOperator c with
    | false => rfl
    | true =>
      have hall : ∀ d ∈ [ampersand, bar, less, greater, leftParen, rightParen], isCaretEscaped d = true := by
        simp only [List.forall_mem_cons, List.not_mem_nil, false_imp_iff, implies_true, and_true]
        decide
      exact absurd rfl (hne c (hall c (List.contains_iff_mem.1 hop)))
  intro tail
  simp [readCmd, hne doubleQuote (by decide), hne caret (by decide), hop]

theorem hands_same : ∀ {text : JsString}, (∀ c ∈ text, isCaretEscaped c = false) → Hands text text
  | [], _ => .nil
  | c :: _, h => (hands_one (h c List.mem_cons_self)).append (hands_same (fun d hd => h d (List.mem_cons_of_mem c hd)))

theorem hands_caretEscape : ∀ (text : JsString) (afterPercent : Bool), Hands (caretEscapeFrom afterPercent text) text
  | [], _ => .nil
  | c :: cs, afterPercent => by
    rw [caretEscapeFrom]
    by_cases hc : (afterPercent || isCaretEscaped c) = true
    · rw [if_pos hc]
      exact (hands_escaped c).append (hands_caretEscape cs _)
    · rw [if_neg hc]
      rw [Bool.or_eq_true, not_or] at hc
      exact (hands_one (Bool.eq_false_iff.2 hc.2)).append (hands_caretEscape cs _)

theorem hands_quoted {text : JsString} (h : doubleQuote ∉ text) :
    Hands ([doubleQuote] ++ text ++ [doubleQuote]) ([doubleQuote] ++ text ++ [doubleQuote]) := by
  have hinside : ∀ tail, readCmd .inside (text ++ doubleQuote :: tail) =
      (readCmd .outside tail).map (fun r => text ++ doubleQuote :: r) := by
    intro tail
    induction text with
    | nil => simp [readCmd]
    | cons c cs ih =>
      have hc : c ≠ doubleQuote := fun heq => h (heq ▸ List.mem_cons_self)
      rw [List.cons_append, readCmd, if_neg hc, ih (fun hin => h (List.mem_cons_of_mem c hin)), Option.map_map]
      rfl
  intro tail
  have hopen : readCmd .outside (doubleQuote :: (text ++ doubleQuote :: tail)) =
      (readCmd .inside (text ++ doubleQuote :: tail)).map (doubleQuote :: ·) := by simp [readCmd]
  simpa [Function.comp_def, hinside] using hopen

theorem hands_empty : Hands [doubleQuote, doubleQuote] [doubleQuote, doubleQuote] :=
  hands_quoted (List.not_mem_nil (a := doubleQuote))

def msvcrtForm (arg : JsString) : JsString :=
  if arg = [] then [doubleQuote, doubleQuote] else if isWindowsSafeArg arg then arg else quoteMsvcrtArg arg

theorem hands_safe {text : JsString} (h : isWindowsSafeArg text = true) : Hands text text := by
  refine hands_same (fun c hc => ?_)
  cases hesc : isCaretEscaped c with
  | false => rfl
  | true =>
    have hall : ∀ d ∈ [caret, 0x26, 0x7c, 0x3c, 0x3e, 0x28, 0x29, 0x21, doubleQuote], isWindowsSafe d = false := by
      simp only [List.forall_mem_cons, List.not_mem_nil, false_imp_iff, implies_true, and_true]
      decide
    have hsafe := hall c (List.contains_iff_mem.1 hesc)
    rw [all_isWindowsSafe h c hc] at hsafe
    cases hsafe

theorem hands_quoteCmdArg (arg : JsString) : Hands (quoteCmdArg arg) (msvcrtForm arg) := by
  unfold quoteCmdArg msvcrtForm
  by_cases hnil : arg = []
  · rw [if_pos hnil, if_pos hnil]
    exact hands_empty
  rw [if_neg hnil, if_neg hnil]
  by_cases hsafe : isWindowsSafeArg arg = true
  · rw [if_pos hsafe, if_pos hsafe]
    exact hands_safe hsafe
  rw [if_neg hsafe, if_neg hsafe]
  by_cases hany : arg.any (fun c => c = doubleQuote || c = percent) = true
  · rw [if_pos hany]
    exact hands_caretEscape _ _
  · rw [if_neg hany]
    refine hands_quoted (fun hin => hany (List.any_eq_true.2 ⟨doubleQuote, ?_, by decide⟩))
    exact mem_escapeMsvcrt (by decide) hin

theorem hands_quoteCmdArgs : ∀ (args : List JsString),
    Hands ((args.map quoteCmdArg).flatMap (space :: ·)) ((args.map msvcrtForm).flatMap (space :: ·))
  | [] => .nil
  | arg :: args => ((hands_one (c := space) (by decide)).append (hands_quoteCmdArg arg)).append (hands_quoteCmdArgs args)

theorem hands_quoteCmdProgram {program : JsString} (h : doubleQuote ∉ program) :
    Hands (quoteCmdProgram program) (quoteCmdProgram program) := by
  unfold quoteCmdProgram
  split
  · exact hands_empty
  split
  · rename_i hsafe
    exact hands_safe hsafe
  · exact hands_quoted h


/-! ## The split of what is handed on -/

namespace Argv

theorem foldlM_slashes : ∀ (n : Nat) (s : Argv), n ≠ 0 → (List.replicate n backslash).foldlM read s =
    some { s with arg := some (s.arg.getD []), slashes := s.slashes + n, closed := false }
  | 0, _, h => absurd rfl h
  | 1, s, _ => by simp [read]
  | n + 1 + 1, s, _ => by
    rw [List.replicate_succ, List.foldlM_cons]
    have hone : read s backslash = some { s with arg := some (s.arg.getD []), slashes := s.slashes + 1, closed := false } := by
      simp [read]
    have hcount : s.slashes + 1 + (n + 1) = s.slashes + (n + 1 + 1) := by omega
    rw [hone, Option.bind_eq_bind, Option.bind_some, foldlM_slashes (n + 1) _ (Nat.succ_ne_zero n)]
    simp [hcount]

theorem foldlM_run (n : Nat) (args : List JsString) (w : JsString) (c : UInt16) :
    (List.replicate n backslash ++ [c]).foldlM read ⟨args, some w, true, 0, false⟩ = read ⟨args, some w, true, n, false⟩ c := by
  by_cases hn : n = 0
  · rw [hn]
    simp
  · rw [List.foldlM_append, foldlM_slashes n _ hn]
    simp

/-- **Inside its quotes the argument is read back**, up to the closing one. -/
theorem read_escapeMsvcrt : ∀ (arg : JsString) (n : Nat) (args : List JsString) (w : JsString),
    (escapeMsvcrt n arg ++ [doubleQuote]).foldlM read ⟨args, some w, true, 0, false⟩ =
      some ⟨args, some (w ++ List.replicate n backslash ++ arg), false, 0, true⟩
  | [], n, args, w => by
    have heven : (n + n) % 2 = 0 := by omega
    have hhalf : (n + n) / 2 = n := by omega
    rw [escapeMsvcrt, foldlM_run]
    simp [read, put, doubleQuote, backslash, heven, hhalf]
  | c :: cs, n, args, w => by
    rw [escapeMsvcrt]
    by_cases hslash : c = backslash
    · rw [if_pos hslash, read_escapeMsvcrt cs (n + 1) args w, hslash, List.replicate_succ']
      simp
    rw [if_neg hslash]
    by_cases hquote : c = doubleQuote
    · have hodd : (n + n + 1) % 2 = 1 := by omega
      have hhalf : (n + n + 1) / 2 = n := by omega
      have hrun : List.replicate (n + n) backslash ++ [backslash, doubleQuote] =
          List.replicate (n + n + 1) backslash ++ [doubleQuote] := by
        rw [List.replicate_succ', List.append_assoc]
        rfl
      rw [if_pos hquote, hrun, List.append_assoc, List.foldlM_append, foldlM_run]
      have hread : read ⟨args, some w, true, n + n + 1, false⟩ doubleQuote =
          some ⟨args, some (w ++ (List.replicate n backslash ++ [doubleQuote])), true, 0, false⟩ := by
        simp [read, put, doubleQuote, backslash, hodd, hhalf]
      rw [hread, Option.bind_eq_bind, Option.bind_some, read_escapeMsvcrt cs 0 args, hquote]
      simp
    · rw [if_neg hquote, List.append_assoc, List.foldlM_append, foldlM_run]
      have hread : read ⟨args, some w, true, n, false⟩ c =
          some ⟨args, some (w ++ (List.replicate n backslash ++ [c])), true, 0, false⟩ := by
        simp [read, put, hslash, hquote]
      rw [hread, Option.bind_eq_bind, Option.bind_some, read_escapeMsvcrt cs 0 args]
      simp

def isBare (c : UInt16) : Bool := c ≠ doubleQuote && c ≠ space && c ≠ tab

theorem isBare_ne {c : UInt16} (h : isBare c = true) : c ≠ doubleQuote ∧ c ≠ space ∧ c ≠ tab := by
  simpa [isBare, and_assoc] using h

theorem read_bare : ∀ (text : JsString), (∀ c ∈ text, isBare c = true) → ∀ (args : List JsString)
    (w : JsString) (n : Nat) (b : Bool),
    ∃ w' n' b', text.foldlM read ⟨args, some w, false, n, b⟩ = some ⟨args, some w', false, n', b'⟩ ∧
      w' ++ List.replicate n' backslash = w ++ List.replicate n backslash ++ text
  | [], _, args, w, n, b => ⟨w, n, b, rfl, (List.append_nil _).symm⟩
  | c :: cs, h, args, w, n, b => by
    obtain ⟨hquote, hspace, htab⟩ := isBare_ne (h c List.mem_cons_self)
    have hrest := read_bare cs (fun d hd => h d (List.mem_cons_of_mem c hd))
    by_cases hslash : c = backslash
    · obtain ⟨w', n', b', hfold, heq⟩ := hrest args w (n + 1) false
      refine ⟨w', n', b', ?_, ?_⟩
      · rw [List.foldlM_cons]
        simpa [read, hslash] using hfold
      · rw [heq, hslash, List.replicate_succ']
        simp
    · obtain ⟨w', n', b', hfold, heq⟩ := hrest args (w ++ (List.replicate n backslash ++ [c])) 0 false
      refine ⟨w', n', b', ?_, ?_⟩
      · rw [List.foldlM_cons]
        simpa [read, put, hslash, hquote, hspace, htab] using hfold
      · rw [heq]
        simp

theorem read_begin {c : UInt16} (h : isBare c = true) (args : List JsString) :
    read ⟨args, none, false, 0, false⟩ c = read ⟨args, some [], false, 0, false⟩ c := by
  obtain ⟨hquote, hspace, htab⟩ := isBare_ne h
  simp [read, put, hquote, hspace, htab]

theorem isBare_of_isWindowsSafe {c : UInt16} (h : isWindowsSafe c = true) : isBare c = true := by
  have hne : ∀ d, isWindowsSafe d = false → c ≠ d := by
    rintro d hd rfl
    rw [h] at hd
    cases hd
  simp [isBare, hne doubleQuote (by decide), hne space (by decide), hne tab (by decide)]

def ReadsAs (text value : JsString) : Prop := ∀ args, ∃ s,
  text.foldlM read ⟨args, none, false, 0, false⟩ = some s ∧ s.quoted = false ∧ s.finish = args ++ [value]

theorem readsAs_bare {arg : JsString} (hnil : arg ≠ []) (h : ∀ c ∈ arg, isBare c = true) : ReadsAs arg arg := by
  intro args
  obtain ⟨w, n, b, hfold, heq⟩ := read_bare arg h args [] 0 false
  refine ⟨⟨args, some w, false, n, b⟩, ?_, rfl, by simp [finish, pending, heq]⟩
  rw [← hfold]
  cases arg with
  | nil => exact absurd rfl hnil
  | cons c cs => rw [List.foldlM_cons, List.foldlM_cons, read_begin (h c List.mem_cons_self)]

theorem readsAs_quoteMsvcrtArg (arg : JsString) : ReadsAs (quoteMsvcrtArg arg) arg := by
  intro args
  have hopen : read ⟨args, none, false, 0, false⟩ doubleQuote = some ⟨args, some [], true, 0, false⟩ := by
    simp [read, put, doubleQuote, backslash]
  refine ⟨⟨args, some arg, false, 0, true⟩, ?_, rfl, by simp [finish, pending]⟩
  rw [quoteMsvcrtArg, List.append_assoc, List.singleton_append, List.foldlM_cons, hopen, Option.bind_eq_bind, Option.bind_some,
    read_escapeMsvcrt arg 0 args []]
  simp

theorem readsAs_msvcrtForm (arg : JsString) : ReadsAs (msvcrtForm arg) arg := by
  unfold msvcrtForm
  by_cases hnil : arg = []
  · rw [if_pos hnil, hnil]
    exact readsAs_quoteMsvcrtArg []
  rw [if_neg hnil]
  by_cases hsafe : isWindowsSafeArg arg = true
  · rw [if_pos hsafe]
    exact readsAs_bare hnil (fun c hc => isBare_of_isWindowsSafe (all_isWindowsSafe hsafe c hc))
  · rw [if_neg hsafe]
    exact readsAs_quoteMsvcrtArg arg

theorem read_forms {forms values : List JsString} (h : List.Forall₂ ReadsAs forms values) : ∀ s : Argv, s.quoted = false →
    ∃ s', (forms.flatMap (space :: ·)).foldlM read s = some s' ∧ s'.finish = s.finish ++ values := by
  induction h with
  | nil => exact fun s _ => ⟨s, rfl, (List.append_nil _).symm⟩
  | @cons form value forms values hform _ ih =>
    intro s hs
    have hspace : read s space = some ⟨s.finish, none, false, 0, false⟩ := by
      simp [read, hs, space, backslash, doubleQuote]
    obtain ⟨s₁, hfold₁, hquoted₁, hfinish₁⟩ := hform s.finish
    obtain ⟨s₂, hfold₂, hfinish₂⟩ := ih s₁ hquoted₁
    refine ⟨s₂, ?_, by rw [hfinish₂, hfinish₁, List.append_assoc, List.singleton_append]⟩
    rw [List.flatMap_cons, List.foldlM_append, List.foldlM_cons, hspace, Option.bind_eq_bind, Option.bind_some, hfold₁,
      Option.bind_some, hfold₂]

theorem forms_msvcrtForm : ∀ args : List JsString, List.Forall₂ ReadsAs (args.map msvcrtForm) args
  | [] => .nil
  | arg :: args => .cons (readsAs_msvcrtForm arg) (forms_msvcrtForm args)

end Argv


theorem readProgram_bare {tail : JsString} (ht : tail = [] ∨ tail.head? = some space) : ∀ {text : JsString},
    (∀ c ∈ text, Argv.isBare c = true) → readProgram false (text ++ tail) = (text, tail)
  | [], _ => by
    cases tail with
    | nil => rfl
    | cons c cs =>
      have hc : c = space := by
        rcases ht with ht | ht
        · cases ht
        · exact Option.some.inj ht
      rw [hc]
      simp [readProgram, space, doubleQuote]
  | c :: cs, h => by
    obtain ⟨hquote, hspace, htab⟩ := Argv.isBare_ne (h c List.mem_cons_self)
    have hrest := readProgram_bare ht (fun d hd => h d (List.mem_cons_of_mem c hd))
    simp [readProgram, hquote, hspace, htab, hrest]

theorem readProgram_quoted {tail : JsString} (ht : tail = [] ∨ tail.head? = some space) {program : JsString}
    (h : doubleQuote ∉ program) : readProgram false ([doubleQuote] ++ program ++ [doubleQuote] ++ tail) = (program, tail) := by
  have hinside : readProgram true (program ++ doubleQuote :: tail) = (program, tail) := by
    induction program with
    | nil =>
      have hend : readProgram false ([] ++ tail) = ([], tail) := readProgram_bare ht (fun _ hc => absurd hc List.not_mem_nil)
      simpa [readProgram] using hend
    | cons c cs ih =>
      have hc : c ≠ doubleQuote := fun heq => h (heq ▸ List.mem_cons_self)
      simp [readProgram, hc, ih (fun hin => h (List.mem_cons_of_mem c hin))]
  simpa [readProgram] using hinside

theorem readProgram_quoteCmdProgram {tail : JsString} (ht : tail = [] ∨ tail.head? = some space) {program : JsString}
    (h : doubleQuote ∉ program) : readProgram false (quoteCmdProgram program ++ tail) = (program, tail) := by
  unfold quoteCmdProgram
  by_cases hnil : program = []
  · rw [if_pos hnil, hnil]
    exact readProgram_quoted ht (List.not_mem_nil (a := doubleQuote))
  rw [if_neg hnil]
  by_cases hsafe : isWindowsSafeArg program = true
  · rw [if_pos hsafe]
    exact readProgram_bare ht (fun c hc => Argv.isBare_of_isWindowsSafe (all_isWindowsSafe hsafe c hc))
  · rw [if_neg hsafe]
    exact readProgram_quoted ht h

/-- **A cmd line passes both its readers**: at a prompt no operator of it is active, and the program's split of what cmd hands
on is the argv. -/
theorem cmd_line_reads_back (E : CmdEnv) (program : JsString) (args : List JsString) (hquote : doubleQuote ∉ program)
    (hpercent : percent ∉ program) :
    ∃ handed, E.reads (buildShellCommandForKind .cmd (program :: args)) = some handed ∧
      msvcrtArgv handed = some (program :: args) := by
  have hline : buildShellCommandForKind .cmd (program :: args) =
      quoteCmdProgram program ++ (args.map quoteCmdArg).flatMap (space :: ·) :=
    joinSpaced_cons (quoteCmdProgram program) (args.map quoteCmdArg)
  refine ⟨quoteCmdProgram program ++ (args.map msvcrtForm).flatMap (space :: ·), ?_, ?_⟩
  · rw [CmdEnv.reads, hline, E.expand_careted _ (isCareted_quoteCmdProgram hpercent (isCareted_quoteCmdArgs args))]
    exact ((hands_quoteCmdProgram hquote).append (hands_quoteCmdArgs args)).whole
  · have htail : (args.map msvcrtForm).flatMap (space :: ·) = [] ∨
        ((args.map msvcrtForm).flatMap (space :: ·)).head? = some space := by
      cases args with
      | nil           => exact .inl rfl
      | cons arg args => exact .inr rfl
    obtain ⟨s, hfold, hfinish⟩ := Argv.read_forms (Argv.forms_msvcrtForm args) ⟨[], none, false, 0, false⟩ rfl
    rw [msvcrtArgv, readProgram_quoteCmdProgram htail hquote, hfold, Option.map_some, hfinish]
    rfl

/-- A prompt where `PATH` is set. -/
def pathEnv : CmdEnv where
  value name   := if name = units "PATH" then some (units "C:\\Windows") else none
  modified v _ := v
  careted      := by
    intro name hname
    rw [if_neg]
    rintro rfl
    exact absurd hname (by decide +kernel)

theorem cmd_line_reads_back_node :
    (doubleQuote ∉ units "C:\\Program Files\\node.exe" ∧ percent ∉ units "C:\\Program Files\\node.exe") ∧
    ∃ handed, pathEnv.reads (buildShellCommandForKind .cmd [units "C:\\Program Files\\node.exe",
      units "\"%PATH%\" & go\\", []]) =
        some handed ∧
      msvcrtArgv handed = some [units "C:\\Program Files\\node.exe", units "\"%PATH%\" & go\\", []] :=
  ⟨by decide +kernel, cmd_line_reads_back pathEnv _ _ (by decide +kernel) (by decide +kernel)⟩

end Shell
end Dormouse

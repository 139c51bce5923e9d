import Dormouse.PowerShellReader
import Mathlib.Data.List.TakeWhile
/-!
# PowerShellLines — the lines for PowerShell, and those for every Windows shell

What `buildShellCommandForKind` writes for PowerShell delivers an argv through either binder, and what
`buildWindowsPortableCommand` writes does so at cmd as well, but for one kind of word.  A word of the characters that need no
quotes is left bare, and PowerShell breaks a bare word that starts with a `-` and a letter at its first `.`.
-/
namespace Dormouse
namespace Shell
namespace PowerShell

open Term (isSpace)

/-! ## The words that break -/

def breaks (word : JsString) : Bool := isWindowsSafeArg word && isDashed word

theorem taken_of_not_breaks {word : JsString} (h : breaks word = false) : taken word = [word] := by
  unfold taken pieces
  by_cases hsafe : isWindowsSafeArg word = true
  · have hdashed : isDashed word = false := by simpa [breaks, hsafe] using h
    rw [if_pos hsafe, if_neg (by simp [hdashed])]
  · rw [if_neg hsafe]

theorem taken_of_breaks {word : JsString} (h : breaks word = true) :
    taken word = [word.takeWhile (· ≠ dot), word.dropWhile (· ≠ dot)] := by
  obtain ⟨hsafe, hdashed⟩ := Bool.and_eq_true_iff.1 h
  rw [taken, if_pos hsafe, pieces, if_pos hdashed]

theorem length_flatMap_taken : ∀ argv : List JsString, (argv.flatMap taken).length = argv.length + argv.countP breaks
  | [] => rfl
  | word :: argv => by
    rw [List.flatMap_cons, List.length_append, length_flatMap_taken argv, List.countP_cons, List.length_cons]
    cases h : breaks word with
    | false =>
      rw [taken_of_not_breaks h]
      simp
      omega
    | true =>
      rw [taken_of_breaks h]
      simp
      omega

/-- **Read word for word, an argv is itself exactly when no word of it breaks.** -/
theorem flatMap_taken_eq_iff (argv : List JsString) : argv.flatMap taken = argv ↔ ∀ word ∈ argv, breaks word = false := by
  constructor
  · intro heq word hword
    have hlen := length_flatMap_taken argv
    rw [heq] at hlen
    have hnone : argv.countP breaks = 0 := by omega
    exact Bool.eq_false_iff.2 (List.countP_eq_zero.1 hnone word hword)
  · intro h
    induction argv with
    | nil => rfl
    | cons word argv ih =>
      rw [List.flatMap_cons, taken_of_not_breaks (h word List.mem_cons_self), ih (fun w hw => h w (List.mem_cons_of_mem _ hw))]
      rfl

theorem mem_taken_of_safe {word part : JsString} (hsafe : isWindowsSafeArg word = true) (h : part ∈ taken word) :
    part ≠ [] ∧ ∀ c ∈ part, isWindowsSafe c = true := by
  have hall := all_isWindowsSafe hsafe
  cases hbreaks : breaks word with
  | false =>
    rw [taken_of_not_breaks hbreaks, List.mem_singleton] at h
    subst h
    refine ⟨?_, hall⟩
    rintro rfl
    cases hsafe
  | true =>
    rw [taken_of_breaks hbreaks, List.mem_cons, List.mem_singleton] at h
    obtain ⟨-, hdashed⟩ := Bool.and_eq_true_iff.1 hbreaks
    match word, hdashed with
    | c :: d :: cs, hdashed =>
    obtain ⟨hcd, hdot⟩ := Bool.and_eq_true_iff.1 hdashed
    obtain ⟨hc, -⟩ := Bool.and_eq_true_iff.1 hcd
    have hc : c ≠ dot := by
      rw [of_decide_eq_true hc]
      decide
    rcases h with rfl | rfl
    · refine ⟨?_, fun e he => hall e ((List.takeWhile_prefix _).subset he)⟩
      rw [List.takeWhile_cons, if_pos (decide_eq_true hc)]
      exact List.cons_ne_nil _ _
    · refine ⟨?_, fun e he => hall e ((List.dropWhile_suffix _).subset he)⟩
      intro hnone
      have hnone := List.dropWhile_eq_nil_iff.1 hnone
      have hin : dot ∈ c :: d :: cs := List.mem_cons_of_mem c (List.mem_cons_of_mem d (List.contains_iff_mem.1 hdot))
      simpa using hnone dot hin

/-! ## What the legacy binder hands on -/

/-- The legacy binder hands a value on, as what the program's split takes for one argument. -/
def Binds (B : Binder) (value arg : JsString) : Prop := value ≠ [] ∧ Argv.ReadsAs (legacyForm B value) arg

theorem msvcrtArgs_joinSpaced {forms values : List JsString} (h : List.Forall₂ Argv.ReadsAs forms values) :
    msvcrtArgs (joinSpaced forms) = some values := by
  cases h with
  | nil => rfl
  | @cons form value forms values hform hforms =>
    obtain ⟨s₁, hfold₁, hquoted₁, hfinish₁⟩ := hform []
    obtain ⟨s₂, hfold₂, hfinish₂⟩ := Argv.read_forms hforms s₁ hquoted₁
    rw [msvcrtArgs, joinSpaced_cons, List.foldlM_append, hfold₁, Option.bind_eq_bind, Option.bind_some, hfold₂, Option.map_some,
      hfinish₂, hfinish₁]
    rfl

theorem native_legacy {B : Binder} {values args : List JsString} (h : List.Forall₂ (Binds B) values args) :
    msvcrtArgs (nativeText B true values) = some args := by
  have hforms : List.Forall₂ Argv.ReadsAs ((values.filter (· ≠ [])).map (legacyForm B)) args := by
    induction h with
    | nil => exact .nil
    | @cons value arg values args hvalue _ ih =>
      rw [List.filter_cons, if_pos (decide_eq_true hvalue.1), List.map_cons]
      exact .cons hvalue.2 ih
  exact msvcrtArgs_joinSpaced hforms

theorem native_newer (B : Binder) (values : List JsString) : msvcrtArgs (nativeText B false values) = some values := by
  refine msvcrtArgs_joinSpaced ?_
  rw [if_neg (by decide), List.forall₂_map_left_iff]
  exact List.forall₂_same.2 (fun value _ => B.escaped value)

theorem needQuotes_plain (B : Binder) : ∀ {value : JsString}, doubleQuote ∉ value → ∀ after,
    needQuotes B false after value = value.any B.isWhiteSpace
  | [], _, _ => rfl
  | c :: cs, h, after => by
    have hc : c ≠ doubleQuote := fun heq => h (heq ▸ List.mem_cons_self)
    rw [needQuotes, if_neg (by simp [hc]), needQuotes_plain B (fun hin => h (List.mem_cons_of_mem c hin))]
    simp

theorem needQuotes_slashes (B : Binder) : ∀ (n : Nat) (after : Bool) (text : JsString), n ≠ 0 →
    needQuotes B true after (List.replicate n backslash ++ text) = needQuotes B true true text
  | 0, _, _, h => absurd rfl h
  | 1, after, text, _ => by
    rw [List.replicate_one, List.singleton_append, needQuotes, if_neg (by simp [backslash, doubleQuote])]
    simp
  | n + 1 + 1, after, text, _ => by
    rw [List.replicate_succ, List.cons_append, needQuotes, if_neg (by simp [backslash, doubleQuote]),
      needQuotes_slashes B (n + 1) _ text (Nat.succ_ne_zero n)]
    simp

theorem needQuotes_run (B : Binder) (n : Nat) {c : UInt16} (hc : c ≠ doubleQuote) (after : Bool) (text : JsString) :
    needQuotes B true after (List.replicate n backslash ++ [c] ++ text) = needQuotes B true (c = backslash) text := by
  have hone (after : Bool) : needQuotes B true after (c :: text) = needQuotes B true (c = backslash) text := by
    rw [needQuotes, if_neg (by simp [hc])]
    simp
  rw [List.append_assoc, List.singleton_append]
  by_cases hn : n = 0
  · rw [hn, List.replicate_zero, List.nil_append, hone]
  · rw [needQuotes_slashes B n after _ hn, hone]

/-- **Inside the quotes of the MSVCRT form** every quote is after a backslash, so no white space is outside them. -/
theorem needQuotes_escapeMsvcrt (B : Binder) : ∀ (arg : JsString) (n : Nat) (after : Bool),
    needQuotes B true after (escapeMsvcrt n arg ++ [doubleQuote]) = false
  | [], n, after => by
    have hlast (after : Bool) : needQuotes B true after [doubleQuote] = false := by
      cases after
      · simp [needQuotes]
      · simp [needQuotes]
    rw [escapeMsvcrt]
    by_cases hn : n + n = 0
    · rw [hn, List.replicate_zero, List.nil_append, hlast]
    · rw [needQuotes_slashes B (n + n) after _ hn, hlast]
  | c :: cs, n, after => by
    rw [escapeMsvcrt]
    by_cases hslash : c = backslash
    · rw [if_pos hslash]
      exact needQuotes_escapeMsvcrt B cs (n + 1) after
    rw [if_neg hslash]
    by_cases hquote : c = doubleQuote
    · have hrun : List.replicate (n + n) backslash ++ [backslash, doubleQuote] ++ escapeMsvcrt 0 cs ++ [doubleQuote] =
          List.replicate (n + n + 1) backslash ++ doubleQuote :: (escapeMsvcrt 0 cs ++ [doubleQuote]) := by
        rw [List.replicate_succ']
        simp
      rw [if_pos hquote, hrun, needQuotes_slashes B _ after _ (Nat.succ_ne_zero _), needQuotes, if_neg (by simp),
        needQuotes_escapeMsvcrt B cs 0]
      simp
    · rw [if_neg hquote, List.append_assoc, needQuotes_run B n hquote, needQuotes_escapeMsvcrt B cs 0]

theorem binds_quoteMsvcrtArg (B : Binder) (arg : JsString) : Binds B (quoteMsvcrtArg arg) arg := by
  have hneed : needQuotes B false false (quoteMsvcrtArg arg) = false := by
    rw [quoteMsvcrtArg, List.append_assoc, List.singleton_append, needQuotes, if_pos (by simp)]
    exact needQuotes_escapeMsvcrt B arg 0 false
  refine ⟨List.cons_ne_nil _ _, ?_⟩
  rw [legacyForm, hneed, if_neg (by decide)]
  exact Argv.readsAs_quoteMsvcrtArg arg

theorem escapeMsvcrt_plain : ∀ {arg : JsString} {n : Nat}, doubleQuote ∉ arg → arg.getLast? ≠ some backslash →
    (arg = [] → n = 0) → escapeMsvcrt n arg = List.replicate n backslash ++ arg
  | [], n, _, _, hn => by
    rw [hn rfl]
    rfl
  | c :: cs, n, h, hlast, _ => by
    have hrest : doubleQuote ∉ cs := fun hin => h (List.mem_cons_of_mem c hin)
    have hquote : c ≠ doubleQuote := fun heq => h (heq ▸ List.mem_cons_self)
    have hlast' : cs.getLast? ≠ some backslash := by
      cases cs with
      | nil => exact fun hnone => nomatch hnone
      | cons d ds => rwa [List.getLast?_cons_cons] at hlast
    rw [escapeMsvcrt]
    by_cases hslash : c = backslash
    · have hmore : cs = [] → n + 1 = 0 := by
        rintro rfl
        exact absurd (by rw [hslash]; rfl) hlast
      rw [if_pos hslash, escapeMsvcrt_plain hrest hlast' hmore, hslash, List.replicate_succ', List.append_assoc]
      rfl
    · rw [if_neg hslash, if_neg hquote, escapeMsvcrt_plain hrest hlast' (fun _ => rfl), List.append_assoc]
      rfl

theorem quoteMsvcrtArg_plain {arg : JsString} (h : doubleQuote ∉ arg) (hlast : arg.getLast? ≠ some backslash) :
    quoteMsvcrtArg arg = [doubleQuote] ++ arg ++ [doubleQuote] := by
  rw [quoteMsvcrtArg, escapeMsvcrt_plain h hlast (fun _ => rfl)]
  rfl

/-- **A value without quotes is handed on and read back**, unless it is wrapped and ends in a backslash. -/
theorem binds_plain (B : Binder) {value : JsString} (hnil : value ≠ []) (hquote : doubleQuote ∉ value)
    (hlast : value.any (fun c => isSpace c || c = 0x85) = true → value.getLast? ≠ some backslash) : Binds B value value := by
  refine ⟨hnil, ?_⟩
  rw [legacyForm, needQuotes_plain B hquote]
  by_cases hwhite : value.any B.isWhiteSpace = true
  · obtain ⟨c, hc, hcw⟩ := List.any_eq_true.1 hwhite
    rw [if_pos hwhite, ← quoteMsvcrtArg_plain hquote (hlast (List.any_eq_true.2 ⟨c, hc, B.covered c hcw⟩))]
    exact Argv.readsAs_quoteMsvcrtArg value
  · rw [if_neg hwhite]
    refine Argv.readsAs_bare hnil (fun c hc => ?_)
    have hblank : isBlank c = false := by
      refine Bool.eq_false_iff.2 (fun hb => hwhite (List.any_eq_true.2 ⟨c, hc, B.blank c hb⟩))
    have hne : c ≠ doubleQuote := fun heq => hquote (heq ▸ hc)
    have hspace : c ≠ space ∧ c ≠ tab := by simpa [isBlank] using hblank
    simp [Argv.isBare, hne, hspace.1, hspace.2]

theorem binds_safe (B : Binder) {value : JsString} (hnil : value ≠ []) (h : ∀ c ∈ value, isWindowsSafe c = true) :
    Binds B value value := by
  refine binds_plain B hnil (fun hin => absurd (h _ hin) (by decide)) (fun hwhite => ?_)
  obtain ⟨c, hc, hcw⟩ := List.any_eq_true.1 hwhite
  obtain ⟨hactive, -⟩ := isInert_iff.1 (isInert_of_isWindowsSafe (h c hc))
  rw [isActive, Bool.or_assoc, Bool.or_eq_false_iff] at hactive
  rw [hactive.2] at hcw
  cases hcw

/-! ## A line for PowerShell -/

theorem not_loses_of_safe {arg : JsString} (h : isWindowsSafeArg arg = true) : legacyBinderLoses arg = false := by
  have hall := all_isWindowsSafe h
  have hnone : ∀ n < 128, isWindowsSafe (UInt16.ofNat n) = true →
      [doubleQuote, 0x26, 0x7c, 0x3c, 0x3e, caret].contains (UInt16.ofNat n) = false ∧
        (isSpace (UInt16.ofNat n) || UInt16.ofNat n = 0x85) = false := by
    decide
  have hc (c : UInt16) (hc : c ∈ arg) := of_ascii (P := fun c => isWindowsSafe c = true →
    [doubleQuote, 0x26, 0x7c, 0x3c, 0x3e, caret].contains c = false ∧ (isSpace c || c = 0x85) = false) hnone
    (lt_of_isWindowsSafe (hall c hc)) (hall c hc)
  have hnil : arg ≠ [] := by
    rintro rfl
    cases h
  rw [legacyBinderLoses, List.any_eq_false.2 (fun c hin => by rw [(hc c hin).1]; decide),
    List.any_eq_false.2 (fun c hin => by rw [(hc c hin).2]; decide)]
  simp [hnil]

def handed (legacy : Bool) (arg : JsString) : JsString := if legacy && legacyBinderLoses arg then quoteMsvcrtArg arg else arg

/-- **Each argument is handed on through the legacy binder**, as the words it is read as. -/
theorem binds_handed (B : Binder) (legacy : Bool) (arg : JsString) (h : legacyBinderLoses arg = true → legacy = true) :
    List.Forall₂ (Binds B) (taken (handed legacy arg)) (taken arg) := by
  unfold handed
  cases hloses : legacyBinderLoses arg with
  | true =>
    have hsafe : isWindowsSafeArg arg = false := by
      refine Bool.eq_false_iff.2 (fun hsafe => ?_)
      rw [not_loses_of_safe hsafe] at hloses
      cases hloses
    have hquoted : isWindowsSafeArg (quoteMsvcrtArg arg) = false := by
      refine Bool.eq_false_iff.2 (fun hsafe => ?_)
      exact absurd (all_isWindowsSafe hsafe doubleQuote (by simp [quoteMsvcrtArg])) (by decide)
    rw [h hloses, if_pos (by decide), taken, taken, hsafe, hquoted]
    exact .cons (binds_quoteMsvcrtArg B arg) .nil
  | false =>
    rw [Bool.and_false, if_neg (by decide)]
    by_cases hsafe : isWindowsSafeArg arg = true
    · refine List.forall₂_same.2 (fun part hpart => ?_)
      obtain ⟨hnil, hall⟩ := mem_taken_of_safe hsafe hpart
      exact binds_safe B hnil hall
    · rw [taken, if_neg hsafe]
      simp only [legacyBinderLoses, Bool.or_eq_false_iff, decide_eq_false_iff_not] at hloses
      obtain ⟨⟨hnil, hset⟩, hend⟩ := hloses
      refine .cons (binds_plain B hnil (fun hin => ?_) (fun hwhite hlast => ?_)) .nil
      · exact absurd (List.any_eq_false.1 hset doubleQuote hin) (by decide)
      · rw [hwhite, hlast] at hend
        cases hend

theorem head_quotePowerShellArg (arg : JsString) : ∃ c cs, quotePowerShellArg arg = c :: cs ∧
    (c = singleQuote ∨ isWindowsSafe c = true) := by
  unfold quotePowerShellArg
  split
  · exact ⟨_, _, rfl, .inl rfl⟩
  split
  · next hnil hsafe =>
    cases arg with
    | nil => exact absurd rfl hnil
    | cons c cs => exact ⟨c, cs, rfl, .inr (all_isWindowsSafe hsafe c List.mem_cons_self)⟩
  · exact ⟨_, _, rfl, .inl rfl⟩

theorem safe_ne_ampersand {c : UInt16} (h : isWindowsSafe c = true) : c ≠ ampersand := by
  rintro rfl
  exact absurd h (by decide)

theorem units_call : units "& " = [ampersand, space] := by decide +kernel

theorem pin_eq : pin = ampersand :: space :: 0x7b :: pin.drop 3 := by decide +kernel

def commandPrefix (quoted : JsString) : JsString := if quoted.head? = some singleQuote then units "& " else []

theorem prefixed_cases (program : JsString) : (∃ rest, commandPrefix (quotePowerShellArg program) = [ampersand, space] ∧
      quotePowerShellArg program = singleQuote :: rest) ∨
    ∃ c rest, commandPrefix (quotePowerShellArg program) = [] ∧ quotePowerShellArg program = c :: rest ∧
      isWindowsSafe c = true := by
  obtain ⟨c, cs, hquoted, hc⟩ := head_quotePowerShellArg program
  rw [hquoted, commandPrefix]
  rcases hc with rfl | hc
  · exact .inl ⟨cs, by rw [List.head?_cons, if_pos rfl, units_call], rfl⟩
  · have hquote : c ≠ singleQuote := by
      rintro rfl
      exact absurd hc (by decide)
    exact .inr ⟨c, cs, by rw [List.head?_cons, if_neg (by simpa using hquote)], rfl, hc⟩

theorem command_prefixed (block : Bool) (program text : JsString) :
    command block (commandPrefix (quotePowerShellArg program) ++ (quotePowerShellArg program ++ text)) =
      words block (quotePowerShellArg program ++ text) := by
  rw [command, units_call]
  rcases prefixed_cases program with ⟨rest, hcall, hquoted⟩ | ⟨c, rest, hcall, hquoted, hc⟩
  · rw [hcall, hquoted]
    exact if_pos rfl
  · obtain ⟨-, -, -, -, hsingle, hdouble⟩ := isInert_iff.1 (isInert_of_isWindowsSafe hc)
    have hfirst : [ampersand, space].isPrefixOf (c :: (rest ++ text)) = false := by
      rw [List.isPrefixOf, beq_false_of_ne (safe_ne_ampersand hc).symm, Bool.false_and]
    rw [hcall, hquoted, List.nil_append, List.cons_append, hfirst, if_neg (by decide),
      if_neg (by simp [hsingle, hdouble])]

theorem not_pinned (program text : JsString) :
    pin.isPrefixOf (commandPrefix (quotePowerShellArg program) ++ (quotePowerShellArg program ++ text)) = false := by
  rw [pin_eq]
  rcases prefixed_cases program with ⟨rest, hcall, hquoted⟩ | ⟨c, rest, hcall, hquoted, hc⟩
  · rw [hcall, hquoted]
    rfl
  · rw [hcall, hquoted, List.nil_append, List.cons_append, List.isPrefixOf, beq_false_of_ne (safe_ne_ampersand hc).symm,
      Bool.false_and]

theorem forall₂_handed (block legacy : Bool) : ∀ args : List JsString,
    List.Forall₂ (ReadsAs block) (args.map (fun arg => quotePowerShellArg (handed legacy arg)))
      (args.map (fun arg => taken (handed legacy arg)))
  | [] => .nil
  | arg :: args => .cons (readsAs_quotePowerShellArg block (handed legacy arg)) (forall₂_handed block legacy args)

def inBlock (legacy : Bool) (line : JsString) : JsString := if legacy then pin ++ line ++ closing true else line

theorem quotePowerShellCommand_eq (program : JsString) (args : List JsString) :
    quotePowerShellCommand (program :: args) = inBlock (args.any legacyBinderLoses)
      (commandPrefix (quotePowerShellArg program) ++ joinSpaced (quotePowerShellArg program ::
        args.map (fun arg => quotePowerShellArg (handed (args.any legacyBinderLoses) arg)))) := rfl

/-- **What PowerShell reads of the line**: the words, the arguments that legacy binding would lose in their MSVCRT form. -/
theorem reads_quotePowerShellCommand (program : JsString) (args : List JsString) :
    reads (quotePowerShellCommand (program :: args)) = some (args.any legacyBinderLoses,
      taken program ++ (args.map (fun arg => taken (handed (args.any legacyBinderLoses) arg))).flatten) := by
  rw [quotePowerShellCommand_eq]
  generalize args.any legacyBinderLoses = legacy
  have hwords := words_joinSpaced legacy (readsAs_quotePowerShellArg legacy program) (forall₂_handed legacy legacy args)
  rw [joinSpaced_cons] at hwords ⊢
  generalize (args.map (fun arg => quotePowerShellArg (handed legacy arg))).flatMap (space :: ·) = rest at hwords ⊢
  rw [List.append_assoc, ← command_prefixed] at hwords
  cases legacy with
  | true =>
    have hbody : inBlock true (commandPrefix (quotePowerShellArg program) ++ (quotePowerShellArg program ++ rest)) =
        pin ++ (commandPrefix (quotePowerShellArg program) ++ (quotePowerShellArg program ++ (rest ++ closing true))) := by
      rw [inBlock, if_pos rfl]
      simp only [List.append_assoc]
    rw [hbody, reads, if_pos (List.isPrefixOf_iff_prefix.2 (List.prefix_append _ _)), List.drop_left, hwords]
    rfl
  | false =>
    have hbody : inBlock false (commandPrefix (quotePowerShellArg program) ++ (quotePowerShellArg program ++ rest)) =
        commandPrefix (quotePowerShellArg program) ++ (quotePowerShellArg program ++ (rest ++ closing false)) := by
      rw [inBlock, if_neg (by decide), closing, if_neg (by decide), List.append_nil]
    rw [hbody, reads, not_pinned, if_neg (by decide), hwords]
    rfl

variable {line : JsString}

theorem runs_of_reads (B : Binder) (newer : Bool) {pinned : Bool} {values argv : List JsString}
    (h : reads line = some (pinned, values)) (hnil : values ≠ []) (hhead : values.head? = argv.head?)
    (htail : List.Forall₂ (Binds B) values.tail argv.tail) (hnewer : pinned = false → values = argv) :
    runs B newer line = some argv := by
  rw [runs, h]
  match values, argv, hhead with
  | [], _, _ => exact absurd rfl hnil
  | program :: rest, [], hhead => cases hhead
  | program :: rest, program' :: args, hhead =>
    obtain rfl : program = program' := Option.some.inj hhead
    dsimp only
    by_cases hlegacy : (pinned || !newer) = true
    · have htail : List.Forall₂ (Binds B) rest args := htail
      rw [hlegacy, native_legacy htail]
      rfl
    · obtain ⟨rfl, hnew⟩ := Bool.or_eq_false_iff.1 (Bool.eq_false_iff.2 hlegacy)
      obtain ⟨-, rfl⟩ := List.cons.inj (hnewer rfl)
      rw [hnew, Bool.or_false, native_newer]
      rfl

theorem taken_cons (word : JsString) : ∃ first parts, taken word = first :: parts := by
  cases h : breaks word with
  | false => exact ⟨_, _, taken_of_not_breaks h⟩
  | true => exact ⟨_, _, taken_of_breaks h⟩

theorem binds_parts (B : Binder) (word : JsString) : List.Forall₂ (Binds B) (taken word).tail (taken word).tail := by
  cases hbreaks : breaks word with
  | false =>
    rw [taken_of_not_breaks hbreaks]
    exact .nil
  | true =>
    refine List.forall₂_same.2 (fun part hpart => ?_)
    obtain ⟨hnil, hall⟩ := mem_taken_of_safe (Bool.and_eq_true_iff.1 hbreaks).1 (List.mem_of_mem_tail hpart)
    exact binds_safe B hnil hall

theorem binds_args (B : Binder) (legacy : Bool) : ∀ args : List JsString,
    (∀ arg ∈ args, legacyBinderLoses arg = true → legacy = true) →
    List.Forall₂ (Binds B) (args.map (fun arg => taken (handed legacy arg))).flatten (args.flatMap taken)
  | [], _ => .nil
  | arg :: args, h => by
    rw [List.map_cons, List.flatten_cons, List.flatMap_cons]
    exact List.rel_append (binds_handed B legacy arg (h arg List.mem_cons_self))
      (binds_args B legacy args (fun a ha => h a (List.mem_cons_of_mem _ ha)))

/-- **What a native program gets of the line**, through either binder: the words, each as it is read. -/
theorem runs_powershell (B : Binder) (newer : Bool) (program : JsString) (args : List JsString) :
    runs B newer (buildShellCommandForKind .powershell (program :: args)) = some ((program :: args).flatMap taken) := by
  obtain ⟨first, parts, htaken⟩ := taken_cons program
  have hbound := binds_args B (args.any legacyBinderLoses) args (fun arg harg hloses => List.any_eq_true.2 ⟨arg, harg, hloses⟩)
  refine runs_of_reads B newer (reads_quotePowerShellCommand program args) ?_ ?_ ?_ ?_
  · rw [htaken]
    exact List.cons_ne_nil _ _
  · rw [List.flatMap_cons, htaken]
    rfl
  · have hparts := binds_parts B program
    rw [htaken] at hparts
    rw [List.flatMap_cons, htaken]
    exact List.rel_append hparts hbound
  · intro hlegacy
    rw [hlegacy, List.flatMap_cons]
    rfl

/-- **A line for PowerShell delivers the argv through both binders exactly when no word of it breaks.** -/
theorem powershell_delivers_iff (B : Binder) (program : JsString) (args : List JsString) :
    (∀ newer, runs B newer (buildShellCommandForKind .powershell (program :: args)) = some (program :: args)) ↔
      ∀ word ∈ program :: args, breaks word = false := by
  rw [← flatMap_taken_eq_iff]
  constructor
  · intro h
    have hruns := h false
    rw [runs_powershell] at hruns
    exact Option.some.inj hruns
  · intro h newer
    rw [runs_powershell, h]

def dotNet : Binder where
  isWhiteSpace c := (isSpace c && c ≠ 0xfeff) || c = 0x85
  blank c h      := by
    rw [isBlank, Bool.or_eq_true, decide_eq_true_eq, decide_eq_true_eq] at h
    rcases h with rfl | rfl
    · decide
    · decide
  covered c h    := by
    rw [Bool.or_eq_true] at h ⊢
    exact h.imp (fun h => (Bool.and_eq_true_iff.1 h).1) id
  escape         := msvcrtForm
  escaped        := Argv.readsAs_msvcrtForm

theorem powershell_breaks_property :
    ¬ ∀ (B : Binder) (program : JsString) (args : List JsString),
      (∀ word ∈ program :: args, hasShellInputControls word = false) → ∀ newer,
      runs B newer (buildShellCommandForKind .powershell (program :: args)) = some (program :: args) := by
  intro h
  have hbroken : runs dotNet false (buildShellCommandForKind .powershell [units "java", units "-Dfile.encoding=UTF-8"]) =
      some [units "java", units "-Dfile", units ".encoding=UTF-8"] := by decide +kernel
  rw [h dotNet _ _ (by decide +kernel)] at hbroken
  exact absurd hbroken (by decide +kernel)

/-! ## A line for every Windows shell -/

/-- No character of a portable argument is one that cmd or PowerShell reads inside double quotes. -/
theorem mem_portable : ∀ {arg : JsString}, isWindowsPortableUnsafe arg = false → ∀ c ∈ arg,
    isPowerShellDoubleQuote c = false ∧ [0x60, percent, 0x21].contains c = false
  | [], _, _, hc => absurd hc List.not_mem_nil
  | d :: ds, h, c, hc => by
    rw [isWindowsPortableUnsafe, Bool.or_eq_false_iff, Bool.or_eq_false_iff, Bool.or_eq_false_iff] at h
    obtain ⟨⟨⟨hdouble, hset⟩, -⟩, hrest⟩ := h
    rcases List.mem_cons.1 hc with rfl | hc
    · exact ⟨hdouble, hset⟩
    · exact mem_portable hrest c hc

/-- In double quotes, with nothing inside that any of the shells reads. -/
structure Quotable (arg : JsString) : Prop where
  inert : isWindowsPortableUnsafe arg = false
  last  : arg.getLast? ≠ some backslash

theorem Quotable.doubleQuote {arg : JsString} (h : Quotable arg) : doubleQuote ∉ arg :=
  fun hin => absurd (mem_portable h.inert _ hin).1 (by decide)

theorem Quotable.percent {arg : JsString} (h : Quotable arg) : percent ∉ arg :=
  fun hin => absurd (mem_portable h.inert _ hin).2 (by decide)

variable {arg text : JsString}

/-- **The forms of an argument**: bare, or in double quotes. -/
theorem quoteWindowsPortableArg_cases (h : quoteWindowsPortableArg arg = some text) : arg ≠ [] ∧
    ((isWindowsSafeArg arg = true ∧ text = arg) ∨
      (isWindowsSafeArg arg = false ∧ Quotable arg ∧ text = [doubleQuote] ++ arg ++ [doubleQuote])) := by
  unfold quoteWindowsPortableArg at h
  split at h
  · cases h
  next hnil =>
  refine ⟨hnil, ?_⟩
  split at h
  · next hsafe =>
    cases h
    exact .inl ⟨hsafe, rfl⟩
  next hsafe =>
  split at h
  · cases h
  next hinert =>
  split at h
  · cases h
  next hend =>
  cases h
  simp only [Bool.or_eq_true, decide_eq_true_eq, not_or, Bool.not_eq_true] at hinert hend
  exact .inr ⟨Bool.eq_false_iff.2 hsafe, ⟨hinert.1, hend.2⟩, rfl⟩

theorem cmd_portable (h : quoteWindowsPortableArg arg = some text) :
    text = msvcrtForm arg ∧ percent ∉ text ∧ Hands text text := by
  obtain ⟨hnil, ⟨hsafe, rfl⟩ | ⟨hsafe, hquotable, rfl⟩⟩ := quoteWindowsPortableArg_cases h
  · exact ⟨by rw [msvcrtForm, if_neg hnil, if_pos hsafe], not_mem_of_isWindowsSafe hsafe (by decide), hands_safe hsafe⟩
  · refine ⟨?_, ?_, hands_quoted hquotable.doubleQuote⟩
    · rw [msvcrtForm, if_neg hnil, if_neg (by rw [hsafe]; decide),
        quoteMsvcrtArg_plain hquotable.doubleQuote hquotable.last]
    · have hquote : percent ≠ doubleQuote := by decide
      simp [hquote, hquotable.percent]

theorem readsAs_portable (h : quoteWindowsPortableArg arg = some text) :
    ReadsAs false text (taken arg) := by
  obtain ⟨hnil, ⟨hsafe, rfl⟩ | ⟨hsafe, hquotable, rfl⟩⟩ := quoteWindowsPortableArg_cases h
  · rw [taken, if_pos hsafe]
    exact readsAs_bareWord false hnil (fun c hc => isInert_of_isWindowsSafe (all_isWindowsSafe hsafe c hc))
  · rw [taken, hsafe, if_neg (by decide)]
    exact readsAs_double false hquotable.inert

theorem binds_portable (B : Binder) (h : quoteWindowsPortableArg arg = some text) :
    List.Forall₂ (Binds B) (taken arg) (taken arg) := by
  obtain ⟨hnil, ⟨hsafe, rfl⟩ | ⟨hsafe, hquotable, rfl⟩⟩ := quoteWindowsPortableArg_cases h
  · refine List.forall₂_same.2 (fun part hpart => ?_)
    obtain ⟨hnil, hall⟩ := mem_taken_of_safe hsafe hpart
    exact binds_safe B hnil hall
  · rw [taken, hsafe, if_neg (by decide)]
    exact .cons (binds_plain B hnil hquotable.doubleQuote (fun _ => hquotable.last)) .nil

theorem binds_portables (B : Binder) {rest quoted : List JsString}
    (h : List.Forall₂ (fun arg text => quoteWindowsPortableArg arg = some text) rest quoted) :
    List.Forall₂ (Binds B) (rest.flatMap taken) (rest.flatMap taken) := by
  induction h with
  | nil => exact .nil
  | cons htext _ ih => exact List.rel_append (binds_portable B htext) ih

variable {argv : List JsString}

theorem buildWindowsPortableCommand_some (h : buildWindowsPortableCommand argv = some line) :
    ∃ command rest quoted, argv = command :: rest ∧
      isWindowsSafeArg command = true ∧ List.Forall₂ (fun arg text => quoteWindowsPortableArg arg = some text) rest quoted ∧
      line = joinSpaced (command :: quoted) := by
  have hforms : ∀ (rest quoted : List JsString), rest.mapM quoteWindowsPortableArg = some quoted →
      List.Forall₂ (fun arg text => quoteWindowsPortableArg arg = some text) rest quoted := by
    intro rest
    induction rest with
    | nil =>
      intro quoted hquoted
      cases hquoted
      exact .nil
    | cons arg rest ih =>
      intro quoted hquoted
      rw [List.mapM_cons] at hquoted
      obtain ⟨text, htext, hquoted⟩ := Option.bind_eq_some_iff.1 hquoted
      obtain ⟨texts, htexts, hquoted⟩ := Option.bind_eq_some_iff.1 hquoted
      cases hquoted
      exact .cons htext (ih texts htexts)
  cases argv with
  | nil => cases h
  | cons command rest =>
    rw [buildWindowsPortableCommand] at h
    split at h
    · next hsafe =>
      obtain ⟨quoted, hquoted, rfl⟩ := Option.map_eq_some_iff.1 h
      exact ⟨command, rest, quoted, rfl, hsafe, hforms rest quoted hquoted, rfl⟩
    · cases h

theorem cmd_portables {rest quoted : List JsString}
    (h : List.Forall₂ (fun arg text => quoteWindowsPortableArg arg = some text) rest quoted) :
    quoted = rest.map msvcrtForm ∧ percent ∉ quoted.flatMap (space :: ·) ∧
      Hands (quoted.flatMap (space :: ·)) (quoted.flatMap (space :: ·)) := by
  induction h with
  | nil => exact ⟨rfl, List.not_mem_nil, .nil⟩
  | @cons arg text rest quoted htext _ ih =>
    obtain ⟨hform, hpercent, hhands⟩ := cmd_portable htext
    obtain ⟨hforms, hpercents, hhands'⟩ := ih
    refine ⟨by rw [List.map_cons, hform, hforms], ?_, ((hands_one (c := space) (by decide)).append hhands).append hhands'⟩
    rw [List.flatMap_cons, List.mem_append, List.mem_cons]
    rintro ((hspace | hin) | hin)
    · exact absurd hspace (by decide)
    · exact hpercent hin
    · exact hpercents hin

/-- **At cmd the line passes both readers**: no character is an operator's or a variable's. -/
theorem cmd_reads_portable (E : CmdEnv) (h : buildWindowsPortableCommand argv = some line) :
    E.reads line = some line ∧ msvcrtArgv line = some argv := by
  obtain ⟨command, rest, quoted, rfl, hsafe, hquoted, rfl⟩ := buildWindowsPortableCommand_some h
  obtain ⟨hforms, hpercents, hhands⟩ := cmd_portables hquoted
  rw [joinSpaced_cons]
  constructor
  · have hcareted : isCareted (command ++ quoted.flatMap (space :: ·)) = true := by
      have hend : isCareted [] = true := rfl
      have htail := isCareted_append hpercents hend
      rw [List.append_nil] at htail
      exact isCareted_append (not_mem_of_isWindowsSafe hsafe (by decide)) htail
    rw [CmdEnv.reads, E.expand_careted _ hcareted]
    exact ((hands_safe hsafe).append hhands).whole
  · have htail : quoted.flatMap (space :: ·) = [] ∨ (quoted.flatMap (space :: ·)).head? = some space := by
      cases quoted with
      | nil => exact .inl rfl
      | cons text quoted => exact .inr rfl
    have hbare : ∀ c ∈ command, Argv.isBare c = true :=
      fun c hc => Argv.isBare_of_isWindowsSafe (all_isWindowsSafe hsafe c hc)
    obtain ⟨s, hfold, hfinish⟩ := Argv.read_forms (Argv.forms_msvcrtForm rest) ⟨[], none, false, 0, false⟩ rfl
    rw [msvcrtArgv, readProgram_bare htail hbare, hforms, hfold, Option.map_some, hfinish]
    rfl

/-- **What a native program gets of the line from PowerShell**, through either binder. -/
theorem runs_portable (B : Binder) (newer : Bool) (h : buildWindowsPortableCommand argv = some line) :
    runs B newer line = some (argv.flatMap taken) := by
  obtain ⟨command, rest, quoted, rfl, hsafe, hquoted, rfl⟩ := buildWindowsPortableCommand_some h
  have hnil : command ≠ [] := by
    rintro rfl
    cases hsafe
  have hbare : quotePowerShellArg command = command := by rw [quotePowerShellArg, if_neg hnil, if_pos hsafe]
  obtain ⟨first, parts, htaken⟩ := taken_cons command
  have hreads : List.Forall₂ (ReadsAs false) quoted (rest.map taken) := by
    rw [List.forall₂_map_right_iff]
    exact hquoted.flip.imp (fun _ _ => readsAs_portable)
  have hline : reads (joinSpaced (command :: quoted)) = some (false, (command :: rest).flatMap taken) := by
    have hwords := words_joinSpaced false (readsAs_quotePowerShellArg false command) hreads
    have hcall : commandPrefix (quotePowerShellArg command) = [] := by
      rw [hbare, commandPrefix, if_neg]
      intro hhead
      exact absurd (all_isWindowsSafe hsafe singleQuote (List.mem_of_mem_head? hhead)) (by decide)
    have hcommand := command_prefixed false command (quoted.flatMap (space :: ·))
    have hpin := not_pinned command (quoted.flatMap (space :: ·))
    rw [hcall, List.nil_append, hbare] at hcommand hpin
    rw [hbare, joinSpaced_cons, closing, if_neg (by decide), List.append_nil] at hwords
    rw [joinSpaced_cons, reads, hpin, if_neg (by decide), hcommand, hwords]
    rfl
  refine runs_of_reads B newer hline ?_ rfl ?_ (fun _ => rfl)
  · rw [List.flatMap_cons, htaken]
    exact List.cons_ne_nil _ _
  · have hparts := binds_parts B command
    rw [htaken] at hparts
    rw [List.flatMap_cons, htaken]
    exact List.rel_append hparts (binds_portables B hquoted)

def argument (B : Binder) (legacy : Bool) (text : JsString) : Option (List JsString) :=
  (words false text).bind (fun values => msvcrtArgs (nativeText B legacy values))

theorem argument_portable (B : Binder) (legacy : Bool) (h : quoteWindowsPortableArg arg = some text) :
    argument B legacy text = some (taken arg) := by
  have hwords := words_joinSpaced false (readsAs_portable h) .nil
  have hjoin : joinSpaced [text] ++ closing false = text := by
    rw [joinSpaced_cons]
    simp [closing]
  rw [hjoin, List.flatten_nil, List.append_nil] at hwords
  rw [argument, hwords, Option.bind_some]
  cases legacy with
  | true => exact native_legacy (binds_portable B h)
  | false => exact native_newer B _

/-- **cmd, PowerShell with its legacy binder and PowerShell with the newer one agree on a portable argument, and on every
portable line, exactly when no word of it breaks.** -/
theorem portable_reads_alike_iff (E : CmdEnv) (B : Binder) :
    (∀ arg text, quoteWindowsPortableArg arg = some text →
      ((E.reads text = some text ∧ msvcrtArgs text = some [arg] ∧ ∀ legacy, argument B legacy text = some [arg]) ↔
        breaks arg = false)) ∧
    ∀ argv line, buildWindowsPortableCommand argv = some line →
      ((E.reads line = some line ∧ msvcrtArgv line = some argv ∧ ∀ newer, runs B newer line = some argv) ↔
        ∀ word ∈ argv, breaks word = false) := by
  constructor
  · intro arg text h
    have hone : taken arg = [arg] ↔ breaks arg = false := by
      have hiff := flatMap_taken_eq_iff [arg]
      rw [List.flatMap_singleton] at hiff
      simpa using hiff
    rw [← hone]
    constructor
    · rintro ⟨-, -, hargument⟩
      have hlegacy := hargument true
      rw [argument_portable B true h] at hlegacy
      exact Option.some.inj hlegacy
    · intro htaken
      obtain ⟨hform, hpercent, hhands⟩ := cmd_portable h
      refine ⟨?_, ?_, fun legacy => by rw [argument_portable B legacy h, htaken]⟩
      · have hend : isCareted [] = true := rfl
        have hcareted := isCareted_append hpercent hend
        rw [List.append_nil] at hcareted
        rw [CmdEnv.reads, E.expand_careted _ hcareted]
        exact hhands.whole
      · have hsplit := msvcrtArgs_joinSpaced (.cons (Argv.readsAs_msvcrtForm arg) .nil)
        rw [joinSpaced_cons, List.flatMap_nil, List.append_nil] at hsplit
        rw [hform, hsplit]
  · intro argv line h
    rw [← flatMap_taken_eq_iff]
    constructor
    · rintro ⟨-, -, hruns⟩
      have hnewer := hruns true
      rw [runs_portable B true h] at hnewer
      exact Option.some.inj hnewer
    · intro htaken
      obtain ⟨hcmd, hsplit⟩ := cmd_reads_portable E h
      exact ⟨hcmd, hsplit, fun newer => by rw [runs_portable B newer h, htaken]⟩

/-- An option with a version after its dash is written bare, and PowerShell reads two words. -/
theorem portable_breaks_option : ¬ ∀ (B : Binder) (arg text : JsString), quoteWindowsPortableArg arg = some text →
    ∀ legacy, argument B legacy text = some [arg] := by
  intro h
  have hbroken : argument dotNet true (units "-std=c11.5") = some [units "-std=c11", units ".5"] := by decide +kernel
  rw [h dotNet (units "-std=c11.5") (units "-std=c11.5") (by decide +kernel)] at hbroken
  exact absurd hbroken (by decide +kernel)

end PowerShell
end Shell
end Dormouse

import Dormouse.TermText
/-!
# ShellQuote — an argv as one command line of a shell

`dor/src/commands/shell-quote.ts`, but for what refuses a Tool's text.  A string is its UTF-16 units and none of the classes here
holds a surrogate, so reading by units and by code points agree.
-/
namespace Dormouse
namespace Shell

open Term (isSpace)

def backslash : UInt16 := 0x5c
def singleQuote : UInt16 := 0x27
def doubleQuote : UInt16 := 0x22
def space : UInt16 := 0x20
def tab : UInt16 := 0x09
def newline : UInt16 := 0x0a
def caret : UInt16 := 0x5e
def percent : UInt16 := 0x25

/-- `[A-Za-z0-9_]`. -/
def isWordChar (c : UInt16) : Bool :=
  (0x41 ≤ c && c ≤ 0x5a) || (0x61 ≤ c && c ≤ 0x7a) || (0x30 ≤ c && c ≤ 0x39) || c == 0x5f

inductive ShellCommandKind where
  | cmd
  | posix
  | powershell
  deriving DecidableEq

/-! ## posix -/

/-- A character of `POSIX_SAFE_ARG` past the first: of a word, or one of `@ % + = : , . /` and `-`. -/
def isPosixSafe (c : UInt16) : Bool := isWordChar c || [0x40, 0x25, 0x2b, 0x3d, 0x3a, 0x2c, 0x2e, 0x2f, 0x2d].contains c

/-- `POSIX_SAFE_ARG`, which has no leading `=`. -/
def isPosixSafeArg : JsString → Bool
  | []      => false
  | c :: cs => isPosixSafe c && c ≠ 0x3d && cs.all isPosixSafe

/-- A `'` or a `\`, stepped outside the quotes. -/
def steppedOutside (c : UInt16) : JsString :=
  if c = singleQuote ∨ c = backslash then [singleQuote, backslash, c, singleQuote] else [c]

def quotePosixArg (arg : JsString) : JsString :=
  if arg = [] then [singleQuote, singleQuote]
  else if isPosixSafeArg arg then arg
  else [singleQuote] ++ arg.flatMap steppedOutside ++ [singleQuote]

/-! ## Windows -/

/-- Of a word, or one of `+ = : . / \` and `-`. -/
def isWindowsSafe (c : UInt16) : Bool := isWordChar c || [0x2b, 0x3d, 0x3a, 0x2e, 0x2f, 0x5c, 0x2d].contains c

/-- `WINDOWS_SAFE_ARG`. -/
def isWindowsSafeArg (arg : JsString) : Bool := arg ≠ [] && arg.all isWindowsSafe

/-- The replacement of `(\\*)("|$)`, with the backslashes of a run that is being read. -/
def escapeMsvcrt : Nat → JsString → JsString
  | slashes, []      => List.replicate (slashes + slashes) backslash
  | slashes, c :: cs =>
    if c = backslash then escapeMsvcrt (slashes + 1) cs
    else if c = doubleQuote then
      List.replicate (slashes + slashes) backslash ++ [backslash, doubleQuote] ++ escapeMsvcrt 0 cs
    else List.replicate slashes backslash ++ [c] ++ escapeMsvcrt 0 cs

def quoteMsvcrtArg (arg : JsString) : JsString := [doubleQuote] ++ escapeMsvcrt 0 arg ++ [doubleQuote]

def legacyBinderLoses (arg : JsString) : Bool :=
  arg = [] || arg.any (fun c => [doubleQuote, 0x26, 0x7c, 0x3c, 0x3e, caret].contains c) ||
    (arg.any (fun c => isSpace c || c = 0x85) && arg.getLast? = some backslash)

/-- `POWERSHELL_SINGLE_QUOTES`. -/
def isPowerShellSingleQuote (c : UInt16) : Bool := c = singleQuote || (0x2018 ≤ c && c ≤ 0x201b)

def quotePowerShellArg (arg : JsString) : JsString :=
  if arg = [] then [singleQuote, singleQuote]
  else if isWindowsSafeArg arg then arg
  else [singleQuote] ++ arg.flatMap (fun c => if isPowerShellSingleQuote c then [c, c] else [c]) ++ [singleQuote]

/-- `join(' ')`. -/
def joinSpaced (words : List JsString) : JsString := List.intercalate [space] words

def quotePowerShellCommand : List JsString → JsString
  | []              => []
  | command :: rest =>
    let quotedCommand := quotePowerShellArg command
    let legacy := rest.any legacyBinderLoses
    let quotedRest := rest.map (fun arg => quotePowerShellArg (if legacy && legacyBinderLoses arg then
      quoteMsvcrtArg arg else arg))
    let line := (if quotedCommand.head? = some singleQuote then units "& " else []) ++ joinSpaced (quotedCommand :: quotedRest)
    if legacy then units "& \x7b $PSNativeCommandArgumentPassing = 'Legacy'; " ++ line ++ units " \x7d" else line

/-- `[\x00-\x1f\x7f-\x9f]`. -/
def hasShellInputControls (value : JsString) : Bool := value.any (fun c => c ≤ 0x1f || (0x7f ≤ c && c ≤ 0x9f))

def isPowerShellDoubleQuote (c : UInt16) : Bool := c = doubleQuote || (0x201c ≤ c && c ≤ 0x201e)

/-- `WINDOWS_PORTABLE_UNSAFE`: a double quote of PowerShell, a backtick, a `%`, a `!`, or a `$` that no `\` follows. -/
def isWindowsPortableUnsafe : JsString → Bool
  | []      => false
  | c :: cs =>
    isPowerShellDoubleQuote c || [0x60, percent, 0x21].contains c || (c = 0x24 && cs.head? ≠ some backslash) ||
      isWindowsPortableUnsafe cs

def quoteWindowsPortableArg (arg : JsString) : Option JsString :=
  if arg = [] then none
  else if isWindowsSafeArg arg then some arg
  else if isWindowsPortableUnsafe arg || hasShellInputControls arg then none
  else if (! arg.contains space && arg.any (fun c => [0x26, 0x7c, 0x3c, 0x3e, caret].contains c)) ||
      arg.getLast? = some backslash then none
  else some ([doubleQuote] ++ arg ++ [doubleQuote])

def buildWindowsPortableCommand : List JsString → Option JsString
  | []              => none
  | command :: rest =>
    if isWindowsSafeArg command then (rest.mapM quoteWindowsPortableArg).map (fun quoted => joinSpaced (command :: quoted))
    else none

def quoteCmdProgram (program : JsString) : JsString :=
  if program = [] then [doubleQuote, doubleQuote]
  else if isWindowsSafeArg program then program
  else [doubleQuote] ++ program ++ [doubleQuote]

/-- `[\^&|<>()!"]`. -/
def isCaretEscaped (c : UInt16) : Bool := [caret, 0x26, 0x7c, 0x3c, 0x3e, 0x28, 0x29, 0x21, doubleQuote].contains c

/-- What is written for the characters of a text, the flag for one after a `%`. -/
def caretEscapeFrom : Bool → JsString → JsString
  | _,            []      => []
  | afterPercent, c :: cs => (if afterPercent || isCaretEscaped c then [caret, c] else [c]) ++ caretEscapeFrom (c = percent) cs

def caretEscapeCmd (text : JsString) : JsString := caretEscapeFrom false text

def quoteCmdArg (arg : JsString) : JsString :=
  if arg = [] then [doubleQuote, doubleQuote]
  else if isWindowsSafeArg arg then arg
  else if arg.any (fun c => c = doubleQuote || c = percent) then caretEscapeCmd (quoteMsvcrtArg arg)
  else quoteMsvcrtArg arg

def quoteCmdCommand : List JsString → List JsString
  | []              => []
  | program :: args => quoteCmdProgram program :: args.map quoteCmdArg

def buildShellCommandForKind : ShellCommandKind → List JsString → JsString
  | .cmd,        args => joinSpaced (quoteCmdCommand args)
  | .powershell, args => quotePowerShellCommand args
  | .posix,      args => joinSpaced (args.map quotePosixArg)

end Shell
end Dormouse

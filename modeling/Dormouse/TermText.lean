import Dormouse.Js
/-!
# The values of terminal reports

`lib/src/lib/osc-sanitize.ts`, and of `lib/src/lib/terminal-protocol.ts` the decoders of a reported command line.  A
regular expression with a `g` flag is one pass over the text; `\s` and `trim` are JavaScript's white space.  Decoding
bytes as UTF-8 (`TextDecoder`) is a parameter.

`truncateText` cuts by code points: `codePoints_truncateText`.
-/
namespace Dormouse
namespace Term

/-! ## Code points -/

/-- `Array.from` of a string: a surrogate pair is one entry. -/
def codePoints : JsString → List JsString
  | []           => []
  | [u]          => [[u]]
  | u :: v :: us =>
    if isHighSurrogate u && isLowSurrogate v then [u, v] :: codePoints us else [u] :: codePoints (v :: us)

def truncateText (input : JsString) (limit : Nat) : JsString :=
  if input.length ≤ limit then input else ((codePoints input).take limit).flatten

theorem codePoints_cons_pair {u v : UInt16} (h : (isHighSurrogate u && isLowSurrogate v) = true) (us : JsString) :
    codePoints (u :: v :: us) = [u, v] :: codePoints us := by
  rw [codePoints, if_pos h]

theorem codePoints_length_le : ∀ (s : JsString), (codePoints s).length ≤ s.length
  | [] => by simp [codePoints]
  | [u] => by simp [codePoints]
  | u :: v :: us => by
    rw [codePoints]
    split
    · have := codePoints_length_le us
      simp only [List.length_cons]
      omega
    · have := codePoints_length_le (v :: us)
      simp only [List.length_cons] at this ⊢
      omega

theorem codePoints_take : ∀ (s : JsString) (n : Nat),
    codePoints ((codePoints s).take n).flatten = (codePoints s).take n
  | _, 0 => by simp [codePoints]
  | [], _ + 1 => by simp [codePoints]
  | [u], n + 1 => by simp [codePoints]
  | u :: v :: us, n + 1 => by
    rw [codePoints]
    split
    · rename_i h
      rw [List.take_succ_cons, List.flatten_cons, List.cons_append, List.cons_append, List.nil_append,
        codePoints_cons_pair h, codePoints_take us n]
    · rename_i h
      rw [List.take_succ_cons, List.flatten_cons, List.cons_append, List.nil_append]
      have ih := codePoints_take (v :: us) n
      cases hc : ((codePoints (v :: us)).take n).flatten with
      | nil =>
        rw [hc] at ih
        rw [← ih]
        rfl
      | cons w ws =>
        -- the next code point starts with the unit that follows `u` in the text
        have hw : w = v := by
          cases n with
          | zero => simp at hc
          | succ n =>
            rw [codePoints.eq_def] at hc
            split at hc
            · cases hc
            · simp_all
            · split at hc <;> simp_all
        rw [hc] at ih
        subst hw
        rw [codePoints, if_neg h, ih]

/-- **A truncated text has at most the limit's code points.** -/
theorem codePoints_truncateText (s : JsString) (limit : Nat) : (codePoints (truncateText s limit)).length ≤ limit := by
  unfold truncateText
  split
  · exact le_trans (codePoints_length_le s) (by assumption)
  · rw [codePoints_take]
    exact List.length_take_le _ _

/-! ## `osc-sanitize.ts` -/

/-- `\s`. -/
def isSpace (c : UInt16) : Bool :=
  (0x09 ≤ c && c ≤ 0x0d) || c == 0x20 || c == 0xa0 || c == 0x1680 || (0x2000 ≤ c && c ≤ 0x200a) || c == 0x2028 ||
    c == 0x2029 || c == 0x202f || c == 0x205f || c == 0x3000 || c == 0xfeff

/-- `[\x00-\x1f\x7f-\x9f]`. -/
def isControl (c : UInt16) : Bool := c ≤ 0x1f || (0x7f ≤ c && c ≤ 0x9f)

/-- `replace(/[…]+/g, f)`; `run` is the part of a run already read. -/
def replaceRunsFrom (p : UInt16 → Bool) (f : JsString → JsString) : JsString → JsString → JsString
  | run, []      => if run = [] then [] else f run
  | run, c :: cs =>
    if p c then replaceRunsFrom p f (run ++ [c]) cs
    else (if run = [] then [] else f run) ++ c :: replaceRunsFrom p f [] cs

def replaceRuns (p : UInt16 → Bool) (f : JsString → JsString) (s : JsString) : JsString := replaceRunsFrom p f [] s

def trim (s : JsString) : JsString := ((s.dropWhile isSpace).reverse.dropWhile isSpace).reverse

def sanitizeText (input : JsString) (limit : Nat) : Option JsString :=
  let collapsed := trim (replaceRuns isSpace (fun _ => [0x20]) (replaceRuns isControl (fun _ => [0x20]) input))
  if collapsed = [] then none else some (truncateText collapsed limit)

/-- `replace(/\r\n?/g, '\n')`. -/
def normalizeLines : JsString → JsString
  | []           => []
  | [c]          => if c = 0x0d then [0x0a] else [c]
  | c :: d :: cs =>
    if c = 0x0d then
      if d = 0x0a then 0x0a :: normalizeLines cs else 0x0a :: normalizeLines (d :: cs)
    else c :: normalizeLines (d :: cs)

def sanitizeCommandLine (input : JsString) (limit : Nat) : Option JsString :=
  let spaced := replaceRuns (fun c => isControl c && c != 0x0a) (fun _ => [0x20]) (normalizeLines input)
  let collapsed := trim (replaceRuns isSpace (fun run => if run.contains 0x0a then [0x0a] else [0x20]) spaced)
  if collapsed = [] then none else some (truncateText collapsed limit)

def sanitizeClipboardText (input : JsString) : Option JsString :=
  let text := (normalizeLines input).filter (fun c => !(isControl c && c != 0x09 && c != 0x0a))
  if text = [] then none else some text

/-! ## Search -/

def after? (literal s : JsString) : Option JsString :=
  if literal.isPrefixOf s then some (s.drop literal.length) else none

def startsWith (s literal : JsString) : Bool := literal.isPrefixOf s

/-- `indexOf` of a literal: the text before its first occurrence, and the text after. -/
def splitAt? (literal : JsString) : JsString → Option (JsString × JsString)
  | []      => if literal = [] then some ([], []) else none
  | c :: cs =>
    match after? literal (c :: cs) with
    | some rest => some ([], rest)
    | none      => (splitAt? literal cs).map (fun m => (c :: m.1, m.2))

/-! ## The decoders of a command line -/

def isDigit (c : UInt16) : Bool := 0x30 ≤ c && c ≤ 0x39

def isHexDigit (c : UInt16) : Bool := isDigit c || (0x41 ≤ c && c ≤ 0x46) || (0x61 ≤ c && c ≤ 0x66)

def digitValue (c : UInt16) : Nat :=
  if c ≤ 0x39 then c.toNat - 0x30 else if c ≤ 0x46 then c.toNat - 0x37 else c.toNat - 0x57

/-- `Number.parseInt` of digits of a base. -/
def parseDigits (base : Nat) (digits : JsString) : Nat := digits.foldl (fun n c => n * base + digitValue c) 0

/-- `String.fromCodePoint`. -/
def fromCodePoint (code : Nat) : JsString :=
  if code < 0x10000 then [code.toUInt16]
  else [(0xd800 + (code - 0x10000) / 0x400).toUInt16, (0xdc00 + (code - 0x10000) % 0x400).toUInt16]

/-- `decodePercentEncoded`; `bytes` is the part of a `%XX` run already read. -/
def decodePercentFrom (decodeUtf8 : List Nat → JsString) : List Nat → JsString → JsString
  | bytes, 0x25 :: a :: b :: rest =>
    if isHexDigit a && isHexDigit b then decodePercentFrom decodeUtf8 (bytes ++ [parseDigits 16 [a, b]]) rest
    else (if bytes = [] then [] else decodeUtf8 bytes) ++ 0x25 :: decodePercentFrom decodeUtf8 [] (a :: b :: rest)
  | bytes, c :: rest =>
    (if bytes = [] then [] else decodeUtf8 bytes) ++ c :: decodePercentFrom decodeUtf8 [] rest
  | bytes, [] => if bytes = [] then [] else decodeUtf8 bytes

def decodePercentEncoded (decodeUtf8 : List Nat → JsString) (value : JsString) : JsString :=
  decodePercentFrom decodeUtf8 [] value

/-- `ANSI_C_ESCAPES`. -/
def ansiCEscapes : List (UInt16 × UInt16) :=
  [(0x61, 0x07), (0x62, 0x08), (0x65, 0x1b), (0x45, 0x1b), (0x66, 0x0c), (0x6e, 0x0a), (0x72, 0x0d), (0x74, 0x09),
    (0x76, 0x0b)]

/-- `ANSI_C_NUMERIC_ESCAPE`: the base, the digits and the width of a match. -/
def ansiCNumericEscape (rest : JsString) : Option (Nat × JsString × Nat) :=
  let hex (most : Nat) (tail : JsString) : Option (Nat × JsString × Nat) :=
    let digits := (tail.take most).takeWhile isHexDigit
    if digits = [] then none else some (16, digits, digits.length + 1)
  match rest with
  | 0x78 :: tail => hex 2 tail
  | 0x75 :: tail => hex 4 tail
  | 0x55 :: tail => hex 8 tail
  | _            =>
    let digits := (rest.take 3).takeWhile (fun c => 0x30 ≤ c && c ≤ 0x37)
    if digits = [] then none else some (8, digits, digits.length)

/-- The text of one escape, and how much of `rest` it spans. -/
def decodeAnsiCEscape (rest : JsString) : JsString × Nat :=
  match ansiCNumericEscape rest with
  | some (base, digits, width) =>
    let code := parseDigits base digits
    (if code ≤ 0x10ffff then fromCodePoint code else [], width)
  | none =>
    match rest with
    | 0x63 :: c :: _ => ([c &&& 0x1f], 2)
    | c :: _         => ([(ansiCEscapes.lookup c).getD c], 1)
    | []             => ([], 1)

theorem drop_succ_lt (c : UInt16) (cs : JsString) (n : Nat) : (cs.drop n).length < (c :: cs).length := by
  simp only [List.length_drop, List.length_cons]
  omega

/-- The body of a `$'…'` word, and what follows its closing quote. -/
def decodeAnsiCQuote : JsString → JsString × JsString
  | []      => ([], [])
  | c :: cs =>
    if c = 0x27 then ([], cs)
    else if c = 0x5c then
      let escape := decodeAnsiCEscape (cs.take 9)
      let r := decodeAnsiCQuote (cs.drop escape.2)
      (escape.1 ++ r.1, r.2)
    else
      let r := decodeAnsiCQuote cs
      (c :: r.1, r.2)
termination_by value => value.length
decreasing_by
  · exact drop_succ_lt c cs _
  · simp

theorem decodeAnsiCQuote_length (value : JsString) : (decodeAnsiCQuote value).2.length ≤ value.length := by
  fun_induction decodeAnsiCQuote value with
  | case1 => simp
  | case2 cs => simp
  | case3 cs escape r _ ih => exact ih.trans (drop_succ_lt 0x5c cs escape.2).le
  | case4 c cs _ _ r ih => exact ih.trans (Nat.le_succ _)

def decodeShellQuotedWord : JsString → JsString
  | []      => []
  | c :: cs =>
    if c = 0x5c then cs.take 1 ++ decodeShellQuotedWord (cs.drop 1)
    else if c = 0x27 then
      cs.takeWhile (· != 0x27) ++ decodeShellQuotedWord ((cs.dropWhile (· != 0x27)).drop 1)
    else if c = 0x24 ∧ cs.head? = some 0x27 then
      let quoted := decodeAnsiCQuote (cs.drop 1)
      quoted.1 ++ decodeShellQuotedWord quoted.2
    else c :: decodeShellQuotedWord cs
termination_by value => value.length
decreasing_by
  · exact drop_succ_lt c cs 1
  · have := (List.dropWhile_suffix (fun x => x != 0x27) (l := cs)).length_le
    simp only [List.length_drop, List.length_cons]
    omega
  · have := decodeAnsiCQuote_length (cs.drop 1)
    simp only [List.length_drop, List.length_cons] at *
    omega
  · simp

def decodeOsc633Value : JsString → JsString
  | 0x5c :: 0x5c :: rest           => 0x5c :: decodeOsc633Value rest
  | 0x5c :: 0x78 :: a :: b :: rest =>
    if isHexDigit a && isHexDigit b then (parseDigits 16 [a, b]).toUInt16 :: decodeOsc633Value rest
    else 0x5c :: decodeOsc633Value (0x78 :: a :: b :: rest)
  | c :: rest                      => c :: decodeOsc633Value rest
  | []                             => []

end Term
end Dormouse

import Mathlib.Data.Rat.Floor
/-!
# The JavaScript values the sources compute with

A JavaScript string is a sequence of UTF-16 code units, and a lone surrogate is a legal one: `JsString` is the list of
its units, never a Lean `String`.  A JavaScript number is `JsNum`: `NaN`, an infinity, or a value read as an exact
rational.  `Json` is what a reader of persisted data is handed (`unknown` in the sources): a field is looked up, and a
missing one is `none`, the sources' `undefined`.

`quote` is `JSON.stringify` of a string.  Its one fact here is that it is uniquely readable (`quote_append_inj`): what
follows the closing quote is recovered with the string.
-/
namespace Dormouse

abbrev JsString := List UInt16

instance : LawfulBEq JsString := inferInstance

def units (s : String) : JsString := s.toList.map (fun c => c.toNat.toUInt16)

/-- A JavaScript number, its finite values read as exact rationals. -/
inductive JsNum where
  | nan
  | posInf
  | negInf
  | fin (q : ℚ)
  deriving DecidableEq

namespace JsNum

/-- The integer of `Number.isInteger`. -/
def int? : JsNum → Option Int
  | .fin q => if q.den = 1 then some q.num else none
  | _      => none

/-- The array element a number names: `xs[i]` is `undefined` at every other number. -/
def index? (x : JsNum) : Option Nat :=
  match x.int? with
  | some (.ofNat k) => some k
  | _               => none

def ofNat (k : Nat) : JsNum := .fin k

@[simp] theorem int?_ofNat (k : Nat) : (ofNat k).int? = some (k : Int) := by
  simp [ofNat, int?]

@[simp] theorem index?_ofNat (k : Nat) : (ofNat k).index? = some k := by
  simp only [index?, int?_ofNat]

end JsNum

/-- A value a reader is handed: `JSON.parse`'s, with the numbers of `JsNum`. -/
inductive Json where
  | null
  | bool (b : Bool)
  | num (x : JsNum)
  | str (s : JsString)
  | arr (xs : List Json)
  | obj (fields : List (JsString × Json))

namespace Json

/-- `value.key`; `none` is `undefined`. -/
def field : Json → JsString → Option Json
  | .obj fields, k => fields.lookup k
  | _,           _ => none

/-- The entries of an array, `none` once one is not a string. -/
def strings? : List Json → Option (List JsString)
  | []           => some []
  | .str s :: xs => (strings? xs).map (s :: ·)
  | _ :: _       => none

@[simp] theorem strings?_map_str : ∀ (ss : List JsString), strings? (ss.map .str) = some ss
  | []      => rfl
  | s :: ss => by simp [strings?, strings?_map_str ss]

end Json

/-! ## `JSON.stringify` of a string -/

def isHighSurrogate (u : UInt16) : Bool := 0xd800 ≤ u && u ≤ 0xdbff
def isLowSurrogate (u : UInt16) : Bool := 0xdc00 ≤ u && u ≤ 0xdfff

def hexDigit (n : Nat) : UInt16 := if n < 10 then (48 + n).toUInt16 else (87 + n).toUInt16

/-- `\uXXXX`, lower case. -/
def unicodeEscape (u : UInt16) : JsString :=
  [0x5c, 0x75, hexDigit (u.toNat / 4096), hexDigit (u.toNat / 256 % 16), hexDigit (u.toNat / 16 % 16),
    hexDigit (u.toNat % 16)]

def quoteUnit (u : UInt16) : JsString :=
  if u = 0x08 then [0x5c, 0x62]
  else if u = 0x09 then [0x5c, 0x74]
  else if u = 0x0a then [0x5c, 0x6e]
  else if u = 0x0c then [0x5c, 0x66]
  else if u = 0x0d then [0x5c, 0x72]
  else if u = 0x22 then [0x5c, 0x22]
  else if u = 0x5c then [0x5c, 0x5c]
  else if u < 0x20 || isHighSurrogate u || isLowSurrogate u then unicodeEscape u
  else [u]

/-- The units of a string, escaped; the flag says that the unit before opened a surrogate pair. -/
def quoteFrom : Bool → JsString → JsString
  | _,      []      => []
  | paired, u :: us =>
    let opens := isHighSurrogate u && us.head?.any isLowSurrogate
    (if (paired && isLowSurrogate u) || opens then [u] else quoteUnit u) ++ quoteFrom opens us

def quote (s : JsString) : JsString := 0x22 :: quoteFrom false s ++ [0x22]

/-! A quoted unit reads back, so a quoted string does. -/

def hexVal (c : UInt16) : Nat := if c.toNat < 58 then c.toNat - 48 else c.toNat - 87

def readEscape : JsString → Option (UInt16 × JsString)
  | []        => none
  | e :: rest =>
    if e = 0x75 then
      match rest with
      | a :: b :: c :: d :: r =>
        some ((hexVal a * 4096 + hexVal b * 256 + hexVal c * 16 + hexVal d).toUInt16, r)
      | _ => none
    else if e = 0x62 then some (0x08, rest)
    else if e = 0x74 then some (0x09, rest)
    else if e = 0x6e then some (0x0a, rest)
    else if e = 0x66 then some (0x0c, rest)
    else if e = 0x72 then some (0x0d, rest)
    else some (e, rest)

def readUnit : JsString → Option (UInt16 × JsString)
  | []        => none
  | c :: rest => if c = 0x22 then none else if c = 0x5c then readEscape rest else some (c, rest)

theorem hexVal_hexDigit {n : Nat} (h : n < 16) : hexVal (hexDigit n) = n := by
  have hall : ∀ k : Fin 16, hexVal (hexDigit k) = k := by decide
  exact hall ⟨n, h⟩

theorem readUnit_unicodeEscape (u : UInt16) (r : JsString) : readUnit (unicodeEscape u ++ r) = some (u, r) := by
  have hu : u.toNat < 65536 := u.toNat_lt
  have hsum : u.toNat / 4096 * 4096 + u.toNat / 256 % 16 * 256 + u.toNat / 16 % 16 * 16 + u.toNat % 16 = u.toNat := by
    omega
  simp only [unicodeEscape, List.cons_append, List.nil_append, readUnit, readEscape]
  rw [hexVal_hexDigit (by omega), hexVal_hexDigit (by omega), hexVal_hexDigit (by omega), hexVal_hexDigit (by omega),
    hsum]
  simp

theorem readUnit_raw {u : UInt16} (h1 : u ≠ 0x22) (h2 : u ≠ 0x5c) (r : JsString) :
    readUnit (u :: r) = some (u, r) := by
  simp [readUnit, h1, h2]

theorem readUnit_quoteUnit (u : UInt16) (r : JsString) : readUnit (quoteUnit u ++ r) = some (u, r) := by
  unfold quoteUnit
  split_ifs with h1 h2 h3 h4 h5 h6 h7 h8
  · subst h1; rfl
  · subst h2; rfl
  · subst h3; rfl
  · subst h4; rfl
  · subst h5; rfl
  · subst h6; rfl
  · subst h7; rfl
  · exact readUnit_unicodeEscape u r
  · exact readUnit_raw h6 h7 r

theorem surrogate_ne {u : UInt16} (h : isHighSurrogate u = true ∨ isLowSurrogate u = true) : u ≠ 0x22 ∧ u ≠ 0x5c := by
  constructor <;> (rintro rfl; revert h; decide)

theorem readUnit_quoteFrom (paired : Bool) (u : UInt16) (us r : JsString) :
    readUnit (quoteFrom paired (u :: us) ++ r) =
      some (u, quoteFrom (isHighSurrogate u && us.head?.any isLowSurrogate) us ++ r) := by
  rw [quoteFrom, List.append_assoc]
  split_ifs with h
  · have hs : isHighSurrogate u = true ∨ isLowSurrogate u = true := by
      simp only [Bool.or_eq_true, Bool.and_eq_true] at h
      exact h.elim (fun h => .inr h.2) (fun h => .inl h.1)
    exact readUnit_raw (surrogate_ne hs).1 (surrogate_ne hs).2 _
  · exact readUnit_quoteUnit u _

theorem readUnit_quote_end (r : JsString) : readUnit (0x22 :: r) = none := rfl

theorem quoteFrom_append_inj : ∀ (a b : JsString) (p q : Bool) (r s : JsString),
    quoteFrom p a ++ 0x22 :: r = quoteFrom q b ++ 0x22 :: s → a = b ∧ r = s
  | [], [], _, _, r, s, h => by simpa [quoteFrom] using h
  | [], v :: vs, p, q, r, s, h => by
    have := readUnit_quoteFrom q v vs (0x22 :: s)
    rw [← h] at this
    simp [quoteFrom, readUnit_quote_end] at this
  | u :: us, [], p, q, r, s, h => by
    have := readUnit_quoteFrom p u us (0x22 :: r)
    rw [h] at this
    simp [quoteFrom, readUnit_quote_end] at this
  | u :: us, v :: vs, p, q, r, s, h => by
    have hu := readUnit_quoteFrom p u us (0x22 :: r)
    rw [h, readUnit_quoteFrom q v vs (0x22 :: s)] at hu
    simp only [Option.some.injEq, Prod.mk.injEq] at hu
    obtain ⟨rfl, ht⟩ := hu
    obtain ⟨rfl, hr⟩ := quoteFrom_append_inj us vs _ _ r s ht.symm
    exact ⟨rfl, hr⟩

/-- **A quoted string is uniquely readable**: it and what follows it are recovered. -/
theorem quote_append_inj {a b r s : JsString} (h : quote a ++ r = quote b ++ s) : a = b ∧ r = s := by
  simp only [quote, List.cons_append, List.append_assoc, List.nil_append, List.cons.injEq, true_and] at h
  exact quoteFrom_append_inj a b _ _ r s h

end Dormouse

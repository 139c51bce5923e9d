import Dormouse.TermText
import Mathlib.Data.List.DropRight
/-!
# SmartToken — the URL or path around a position of a text

The part of `smart-token.ts` that reads a string.  The token of a part that reaches past white space on both sides is the token
of the whole (`detectTokenAt_append`).
-/
namespace Dormouse
namespace SmartToken

open Term (isSpace isDigit after?)

/-! ## Shapes -/

inductive Kind where
  | url
  | path
  deriving DecidableEq

/-- `stop` is past the last unit. -/
structure DetectedToken where
  kind  : Kind
  start : Nat
  stop  : Nat
  text  : JsString
  deriving DecidableEq

/-- A literal, then no white space to the end: `least` units of it at least. -/
def shaped (literal : JsString) (least : Nat) (s : JsString) : Bool :=
  (after? literal s).any (fun rest => decide (least ≤ rest.length) && rest.all (fun c => !isSpace c))

/-- `/^\S+:\d+(:\d+)?$/`: with two numbers the first one is in what `\S+` reads. -/
def isLocation (s : JsString) : Bool :=
  let rest := s.rdropWhile isDigit
  s.all (fun c => !isSpace c) && decide (rest.length < s.length) && rest.getLast? = some 0x3a && decide (2 ≤ rest.length)

def isLetter (c : UInt16) : Bool := (0x41 ≤ c && c ≤ 0x5a) || (0x61 ≤ c && c ≤ 0x7a)

/-- `/^[A-Za-z]:\\\S*$/`. -/
def isDrivePath : JsString → Bool
  | []        => false
  | c :: rest => isLetter c && shaped [0x3a, 0x5c] 0 rest

def patterns : List (Kind × (JsString → Bool)) :=
  [ (.url, fun s => shaped (units "http://") 1 s || shaped (units "https://") 1 s),
    (.url, shaped (units "file://") 1),
    (.path, isLocation),
    (.path, shaped (units "~/") 0),
    (.path, shaped (units "/") 1),
    (.path, fun s => shaped (units "./") 0 s || shaped (units "../") 0 s),
    (.path, isDrivePath) ]

/-! ## Trailing punctuation -/

/-- `[.,;:!?'"]`. -/
def isTrailingPunct (c : UInt16) : Bool := (units ".,;:!?'\"").contains c

def pairs : List (UInt16 × UInt16) := [(0x28, 0x29), (0x5b, 0x5d), (0x7b, 0x7d), (0x3c, 0x3e)]

/-- Brackets are no surrogates, so the units of a text do for its characters. -/
def balancedFrom (opening closing : UInt16) : Nat → JsString → Bool
  | depth, []        => depth = 0
  | depth, ch :: rest =>
    if ch = opening then balancedFrom opening closing (depth + 1) rest
    else if ch = closing then
      match depth with
      | 0         => false
      | depth + 1 => balancedFrom opening closing depth rest
    else balancedFrom opening closing depth rest

def isBalanced (text : JsString) (opening closing : UInt16) : Bool := balancedFrom opening closing 0 text

def stripPair (out : JsString) (pair : UInt16 × UInt16) : JsString :=
  if out.getLast? = some pair.2 && !isBalanced out pair.1 pair.2 then out.dropLast else out

def stripOnce (out : JsString) : JsString := pairs.foldl stripPair (out.rdropWhile isTrailingPunct)

theorem stripPair_prefix (out : JsString) (pair : UInt16 × UInt16) : stripPair out pair <+: out := by
  unfold stripPair
  split
  · exact List.dropLast_prefix out
  · exact List.prefix_refl out

theorem stripOnce_prefix (out : JsString) : stripOnce out <+: out := by
  have hpairs : ∀ (ps : List (UInt16 × UInt16)) (s : JsString), ps.foldl stripPair s <+: s := by
    intro ps
    induction ps with
    | nil => exact fun s => List.prefix_refl s
    | cons pair ps ih => exact fun s => (ih (stripPair s pair)).trans ( stripPair_prefix s pair)
  exact (hpairs pairs _).trans (List.rdropWhile_prefix isTrailingPunct out)

def stripTrailing (token : JsString) : JsString :=
  if stripOnce token = token then token else stripTrailing (stripOnce token)
  termination_by token.length
  decreasing_by
    have hle := ( stripOnce_prefix token).length_le
    have hne : (stripOnce token).length ≠ token.length := fun h => by
      have := ( stripOnce_prefix token).eq_of_length h
      contradiction
    omega

theorem stripTrailing_prefix (token : JsString) : stripTrailing token <+: token := by
  induction token using stripTrailing.induct with
  | case1 token h =>
    have hself : stripTrailing token = token := by
      unfold stripTrailing
      exact if_pos h
    exact ⟨[], by rw [List.append_nil, hself]⟩
  | case2 token h ih =>
    have hround : stripTrailing token = stripTrailing (stripOnce token) := by
      conv => lhs; unfold stripTrailing
      exact if_neg h
    rw [hround]
    exact ih.trans ( stripOnce_prefix token)

/-! ## The token at a position -/

def isWhitespace (ch : UInt16) : Bool := ch = 0x20 || ch = 0x09 || ch = 0x0a || ch = 0x0d

/-- The token at `col`, or at the last unit where `col` is past it. -/
def detectTokenAt (line : JsString) (col : Nat) : Option DetectedToken :=
  if line = [] then none
  else
    let probe := min col (line.length - 1)
    if (line)[probe]?.any isWhitespace then none
    else
      let start := ((line.take probe).rdropWhile (fun c => !isWhitespace c)).length
      let stop := probe + ((line.drop probe).takeWhile (fun c => !isWhitespace c)).length
      let raw := (line.take stop).drop start
      if raw = [] then none
      else
        let cleaned := stripTrailing raw
        if cleaned = [] then none
        else (patterns.find? (fun p => p.2 cleaned)).map (fun p => ⟨p.1, start, start + cleaned.length, cleaned⟩)

theorem detectTokenAt_bounds {line : JsString} {col : Nat} {token : DetectedToken} (h : detectTokenAt line col = some token) :
    token.start < token.stop ∧ token.stop ≤ line.length := by
  unfold detectTokenAt at h
  by_cases hline : line = []
  · rw [if_pos hline] at h
    cases h
  rw [if_neg hline] at h
  dsimp only at h
  generalize hstart : ((line.take (min col (line.length - 1))).rdropWhile (fun c => !isWhitespace c)).length = start at h
  generalize hstop : min col (line.length - 1) + ((line.drop (min col (line.length - 1))).takeWhile (fun c =>
    !isWhitespace c)).length = stop at h
  split at h
  · cases h
  split at h
  · cases h
  split at h
  · cases h
  next hclean =>
  obtain ⟨p, _, rfl⟩ := Option.map_eq_some_iff.1 h
  have hpos := List.length_pos_iff.2 hclean
  have hle := ( stripTrailing_prefix ((line.take stop).drop start)).length_le
  rw [List.length_drop, List.length_take] at hle
  dsimp only
  omega

def DetectedToken.shift (n : Nat) (token : DetectedToken) : DetectedToken :=
  { token with start := n + token.start, stop := n + token.stop }

theorem rdropWhile_append_of_mem {p : UInt16 → Bool} {X S : JsString} (h : X = [] ∨ ∃ c ∈ S, p c = false) :
    ((X ++ S).rdropWhile p).length = X.length + (S.rdropWhile p).length := by
  rcases h with rfl | ⟨c, hc, hp⟩
  · rw [List.nil_append, List.length_nil, Nat.zero_add]
  · rw [List.rdropWhile, List.rdropWhile, List.reverse_append, List.dropWhile_append, if_neg, List.reverse_append,
      List.reverse_reverse, List.length_append]
    rw [List.isEmpty_iff, List.dropWhile_eq_nil_iff]
    intro hall
    rw [hall c (List.mem_reverse.2 hc)] at hp
    cases hp

theorem takeWhile_append_of_mem {p : UInt16 → Bool} {S Y : JsString} (h : Y = [] ∨ ∃ c ∈ S, p c = false) :
    (S ++ Y).takeWhile p = S.takeWhile p := by
  rcases h with rfl | ⟨c, hc, hp⟩
  · rw [List.append_nil]
  · rw [List.takeWhile_append, if_neg]
    intro hall
    have := List.takeWhile_eq_self_iff.1 (List.Sublist.eq_of_length (List.takeWhile_sublist p) hall) c hc
    rw [this] at hp
    cases hp

/-- **A part that reaches past white space on both sides holds the whole text's token.** -/
theorem detectTokenAt_append {X S Y : JsString} {u : Nat} (hu : u < S.length) (hX : X = [] ∨ ∃ c ∈ S.take u, isWhitespace c)
    (hY : Y = [] ∨ ∃ c ∈ S.drop u, isWhitespace c) :
    detectTokenAt (X ++ S ++ Y) (X.length + u) = (detectTokenAt S u).map (·.shift X.length) := by
  have hprobe : min (X.length + u) ((X ++ S ++ Y).length - 1) = X.length + u := by
    rw [List.length_append, List.length_append]
    omega
  have hS : S ≠ [] := List.ne_nil_of_length_pos (by omega)
  have hat : (X ++ S ++ Y)[X.length + u]? = S[u]? := by
    rw [List.append_assoc, List.getElem?_append_right (Nat.le_add_right _ _), Nat.add_sub_cancel_left,
      List.getElem?_append_left hu]
  have htake : (X ++ S ++ Y).take (X.length + u) = X ++ S.take u := by
    rw [List.append_assoc, List.take_length_add_append, List.take_append_of_le_length (by omega)]
  have hdrop : (X ++ S ++ Y).drop (X.length + u) = S.drop u ++ Y := by
    rw [List.append_assoc, List.drop_length_add_append, List.drop_append_of_le_length (by omega)]
  have hstart : ((X ++ S.take u).rdropWhile (fun c => !isWhitespace c)).length =
      X.length + ((S.take u).rdropWhile (fun c => !isWhitespace c)).length :=
    rdropWhile_append_of_mem (hX.imp_right (fun ⟨c, hc, hw⟩ => ⟨c, hc, by rw [hw]; rfl⟩))
  have hstop : (S.drop u ++ Y).takeWhile (fun c => !isWhitespace c) = (S.drop u).takeWhile (fun c => !isWhitespace c) :=
    takeWhile_append_of_mem (hY.imp_right (fun ⟨c, hc, hw⟩ => ⟨c, hc, by rw [hw]; rfl⟩))
  unfold detectTokenAt
  rw [if_neg hS, if_neg (by simp [hS])]
  dsimp only
  rw [hprobe, hat, htake, hdrop, hstart, hstop, Nat.min_eq_left (by omega)]
  generalize ((S.take u).rdropWhile (fun c => !isWhitespace c)).length = start
  have hlen : u + ((S.drop u).takeWhile (fun c => !isWhitespace c)).length ≤ S.length := by
    have := (List.takeWhile_sublist (fun c => !isWhitespace c) (l := S.drop u)).length_le
    rw [List.length_drop] at this
    omega
  rw [Nat.add_assoc]
  generalize u + ((S.drop u).takeWhile (fun c => !isWhitespace c)).length = stop at hlen
  have hraw : ((X ++ S ++ Y).take (X.length + stop)).drop (X.length + start) = (S.take stop).drop start := by
    rw [List.append_assoc, List.take_length_add_append, List.take_append_of_le_length hlen, List.drop_length_add_append]
  rw [hraw]
  split
  · rfl
  split
  · rfl
  split
  · rfl
  rw [Option.map_map]
  refine congrArg (fun f => Option.map f _) (funext fun p => ?_)
  rw [Function.comp_apply, DetectedToken.shift, Nat.add_assoc]

end SmartToken
end Dormouse

import Dormouse.PtyStream
/-!
# PacedInput — input cut into text and keys

`keyTokenEnd` and `pacedInputSegments` of `pty-core.js`.  What is read from a string, one escape sequence or one other unit at a time,
is said apart from the code (`Reached`): every end of a segment is reached (`reached_of_split`), so none is inside an escape sequence,
and a surrogate pair is cut only where an escape sequence ends between its halves (`splits_iff`).
-/
namespace Dormouse
namespace Paced

open Term (SplitsPair)

/-! ## UTF-8 -/

/-- `codePointAt(0)`. -/
def codePointAt : JsString → Nat
  | []          => 0
  | [u]         => u.toNat
  | u :: v :: _ =>
    if isHighSurrogate u && isLowSurrogate v then 0x10000 + (u.toNat - 0xd800) * 0x400 + (v.toNat - 0xdc00) else u.toNat

def pointUnits (data : JsString) : Nat := if codePointAt data > 0xffff then 2 else 1

def pointBytes (codePoint : Nat) : Nat :=
  if codePoint < 0x80 then 1 else if codePoint < 0x800 then 2 else if codePoint < 0x10000 then 3 else 4

def encodePoint (c : Nat) : List UInt8 :=
  if c < 0x80 then [c.toUInt8]
  else if c < 0x800 then [(0xc0 + c / 64).toUInt8, (0x80 + c % 64).toUInt8]
  else if 0xd800 ≤ c ∧ c ≤ 0xdfff then [0xef, 0xbf, 0xbd]
  else if c < 0x10000 then [(0xe0 + c / 4096).toUInt8, (0x80 + c / 64 % 64).toUInt8, (0x80 + c % 64).toUInt8]
  else [(0xf0 + c / 262144).toUInt8, (0x80 + c / 4096 % 64).toUInt8, (0x80 + c / 64 % 64).toUInt8, (0x80 + c % 64).toUInt8]

def utf8 : JsString → List UInt8
  | []             => []
  | [u]            => encodePoint u.toNat
  | u :: v :: rest =>
    if isHighSurrogate u && isLowSurrogate v then encodePoint (codePointAt (u :: v :: rest)) ++ utf8 rest
    else encodePoint u.toNat ++ utf8 (v :: rest)

/-! ## Segments -/

def pacedChunkBytes : Nat := 256

def isParameter (u : UInt16) : Bool := 0x20 ≤ u && u ≤ 0x3f

def isFinal (u : UInt16) : Bool := 0x40 ≤ u && u ≤ 0x7e

/-- `keyTokenEnd`: how many units the key at the start takes, none where text starts there. -/
def keyLength (data : JsString) : Nat :=
  match data with
  | []           => 0
  | code :: rest =>
    if code = 0x1b then
      if rest.head? = some 0x5b then
        let params := ((rest.drop 1).takeWhile isParameter).length
        if (rest[params + 1]?).any isFinal then params + 3 else params + 2
      else if rest.head? = some 0x4f then min 3 data.length
      else min 2 data.length
    else if code = 0x7f ∨ (code < 0x20 ∧ code ≠ 0x09 ∧ code ≠ 0x0a) then 1
    else 0

structure Segment where
  data : JsString
  key  : Bool
  deriving DecidableEq

/-- `flush`. -/
def flush (run : JsString) : List Segment := if run = [] then [] else [⟨run, false⟩]

/-- The loop over what is left, with the text not yet flushed and its bytes. -/
def segmentsFrom (run : JsString) (bytes : Nat) (data : JsString) : List Segment :=
  if data = [] then flush run
  else if 0 < keyLength data then
    flush run ++ ⟨data.take (keyLength data), true⟩ :: segmentsFrom [] 0 (data.drop (keyLength data))
  else
    let size := pointBytes (codePointAt data)
    if bytes + size > pacedChunkBytes then
      flush run ++ segmentsFrom (data.take (pointUnits data)) size (data.drop (pointUnits data))
    else segmentsFrom (run ++ data.take (pointUnits data)) (bytes + size) (data.drop (pointUnits data))
  termination_by data.length
  decreasing_by
    all_goals
      have hne : 0 < data.length := List.length_pos_iff.2 ‹_›
      have hunits : 0 < pointUnits data := by unfold pointUnits; split <;> omega
      rw [List.length_drop]
      omega

def pacedInputSegments (data : JsString) : List Segment := segmentsFrom [] 0 data

def textOf (segments : List Segment) : JsString := segments.flatMap (·.data)

/-! ## What is read -/

/-- How many units the whole escape sequence at the start takes; 0 where there is none. -/
def escapeLength : JsString → Nat
  | 0x1b :: 0x5b :: rest =>
    let params := (rest.takeWhile isParameter).length
    if (rest[params]?).any isFinal then params + 3 else 0
  | 0x1b :: 0x4f :: rest => if rest = [] then 0 else 3
  | 0x1b :: _ :: _       => 2
  | _                    => 0

/-- What is left of a string after some of its escape sequences and other units were read, from its start. -/
inductive Reached (data : JsString) : JsString → Prop where
  | here : Reached data data
  | next {rest : JsString} (h : Reached data rest) (hne : rest ≠ []) : Reached data (rest.drop (max 1 (escapeLength rest)))

def InsideEscape (data : JsString) (p : Nat) : Prop :=
  ∃ rest, Reached data rest ∧ data.length - rest.length < p ∧ p < data.length - rest.length + escapeLength rest

/-! ## One step -/

theorem pointUnits_cases (data : JsString) : pointUnits data = 1 ∨ (pointUnits data = 2 ∧ ∃ u v rest, data = u :: v :: rest ∧
    isHighSurrogate u = true ∧ isLowSurrogate v = true) := by
  rw [pointUnits]
  split
  · next hbig =>
    refine Or.inr ⟨rfl, ?_⟩
    match data, hbig with
    | [], h => exact absurd h (by decide)
    | [u], h => exact absurd h (by rw [codePointAt]; have := u.toNat_lt; omega)
    | u :: v :: rest, h =>
      rw [codePointAt] at h
      split at h
      · next hpair => exact ⟨u, v, rest, rfl, (Bool.and_eq_true_iff.1 hpair).1, (Bool.and_eq_true_iff.1 hpair).2⟩
      · exact absurd h (by have := u.toNat_lt; omega)
  · exact Or.inl rfl

theorem pointUnits_of_pair {u v : UInt16} {rest : JsString} (hu : isHighSurrogate u = true) (hv : isLowSurrogate v = true) :
    pointUnits (u :: v :: rest) = 2 := by
  rw [pointUnits, codePointAt, hu, hv, Bool.true_and, if_pos rfl, if_pos (by omega)]

theorem length_encodePoint (c : Nat) : (encodePoint c).length = pointBytes c := by
  unfold encodePoint pointBytes
  repeat' split
  all_goals first | rfl | omega

variable {data : JsString}

theorem utf8_point (h : data ≠ []) :
    utf8 data = encodePoint (codePointAt data) ++ utf8 (data.drop (pointUnits data)) := by
  match data, h with
  | [u], _ =>
    have hone : pointUnits [u] = 1 := by
      rcases pointUnits_cases [u] with h | ⟨-, _, _, _, h, -⟩
      · exact h
      · cases h
    rw [hone, utf8, codePointAt, List.drop_one, List.tail_cons, utf8, List.append_nil]
  | u :: v :: rest, _ =>
    rw [utf8]
    split
    · next hpair =>
      rw [Bool.and_eq_true] at hpair
      rw [pointUnits_of_pair hpair.1 hpair.2]
      rfl
    · next hpair =>
      have hone : pointUnits (u :: v :: rest) = 1 := by
        rcases pointUnits_cases (u :: v :: rest) with h | ⟨-, u', v', rest', heq, hu, hv⟩
        · exact h
        · cases heq
          exact absurd (by rw [hu, hv]; rfl) hpair
      rw [hone, codePointAt, if_neg hpair]
      rfl

/-- **UTF-8 of two strings is that of each, where no pair lies across them.** -/
theorem utf8_append : ∀ {p q : JsString}, ¬SplitsPair p q → utf8 (p ++ q) = utf8 p ++ utf8 q
  | [], q, _ => rfl
  | [u], [], _ => by rw [List.append_nil]; exact (List.append_nil _).symm
  | [u], v :: q, h => by
    have hnot : ¬(isHighSurrogate u && isLowSurrogate v) = true := by
      rw [Bool.and_eq_true]
      exact fun hpair => h ⟨hpair.1, hpair.2⟩
    have hstep : utf8 (u :: v :: q) = encodePoint u.toNat ++ utf8 (v :: q) := by
      rw [utf8, if_neg hnot]
    exact hstep
  | u :: v :: p, q, h => by
    have hsplit : ∀ {w : UInt16} {p : JsString}, ¬SplitsPair (w :: p) q → p ≠ [] → ¬SplitsPair p q := by
      intro w p h hne hp
      refine h ⟨?_, hp.2⟩
      obtain ⟨x, p, rfl⟩ := List.exists_cons_of_ne_nil hne
      rw [List.getLast?_cons_cons]
      exact hp.1
    rw [List.cons_append, List.cons_append, utf8, utf8]
    have hrest : ¬SplitsPair (v :: p) q := hsplit h (List.cons_ne_nil v p)
    split
    · next hpair =>
      have hp : ¬SplitsPair p q := by
        by_cases hp : p = []
        · rw [hp]
          exact fun hnil => Bool.noConfusion hnil.1
        · exact hsplit hrest hp
      rw [utf8_append hp, ← List.append_assoc]
      congr 2
    · rw [show v :: (p ++ q) = (v :: p) ++ q from rfl, utf8_append hrest, List.append_assoc]

theorem not_splits_point (data : JsString) : ¬SplitsPair (data.take (pointUnits data)) (data.drop (pointUnits data)) := by
  rintro ⟨hhigh, hlow⟩
  rcases pointUnits_cases data with hone | ⟨htwo, u, v, rest, rfl, hu, hv⟩
  · rw [hone] at hhigh hlow
    match data, hone, hhigh, hlow with
    | [], _, h, _ => exact Bool.noConfusion h
    | [u], _, _, h => exact Bool.noConfusion h
    | u :: v :: rest, hone, h, h' =>
      have hu : isHighSurrogate u = true := h
      have hv : isLowSurrogate v = true := h'
      rw [pointUnits_of_pair hu hv] at hone
      exact absurd hone (by decide)
  · rw [htwo] at hhigh
    have hhigh : isHighSurrogate v = true := hhigh
    rw [Term.high_not_low hhigh] at hv
    exact Bool.noConfusion hv

/-! ## What is read, in order -/

theorem escapeLength_head (h : 0 < escapeLength data) : data.head? = some 0x1b := by
  unfold escapeLength at h
  split at h
  · rfl
  · rfl
  · rfl
  · exact absurd h (Nat.lt_irrefl 0)

theorem escapeLength_csi (rest : JsString) : escapeLength (0x1b :: 0x5b :: rest) =
    if (rest[(rest.takeWhile isParameter).length]?).any isFinal then (rest.takeWhile isParameter).length + 3 else 0 := rfl

theorem escapeLength_two {u : UInt16} (rest : JsString) (hcsi : u ≠ 0x5b) (hss3 : u ≠ 0x4f) :
    escapeLength (0x1b :: u :: rest) = 2 := by
  unfold escapeLength
  split
  · next heq => cases heq; exact absurd rfl hcsi
  · next heq => cases heq; exact absurd rfl hss3
  · rfl
  · next hnot => exact absurd rfl (hnot u rest)

theorem escapeLength_le (data : JsString) : escapeLength data ≤ data.length := by
  unfold escapeLength
  split
  · next rest =>
    dsimp only
    split
    · next hfinal =>
      obtain ⟨u, hu, -⟩ := (Option.any_eq_true _ _).1 hfinal
      have := (List.getElem?_eq_some_iff.1 hu).1
      rw [List.length_cons, List.length_cons]
      omega
    · exact Nat.zero_le _
  · next rest =>
    split
    · exact Nat.zero_le _
    · next hne =>
      have := List.length_pos_iff.2 hne
      rw [List.length_cons, List.length_cons]
      omega
  · rw [List.length_cons, List.length_cons]
    omega
  · exact Nat.zero_le _

theorem reached_drop {data : JsString} : ∀ (n : Nat) {rest : JsString}, Reached data rest → n ≤ rest.length →
    (∀ u ∈ rest.take n, u ≠ 0x1b) → Reached data (rest.drop n)
  | 0, rest, h, _, _ => h
  | n + 1, [], _, hn, _ => absurd hn (Nat.not_succ_le_zero n)
  | n + 1, u :: rest, h, hn, hnot => by
    have hzero : escapeLength (u :: rest) = 0 := by
      by_contra hpos
      have hhead := escapeLength_head (Nat.pos_of_ne_zero hpos)
      exact hnot u List.mem_cons_self (Option.some.inj hhead)
    have hnext := h.next (List.cons_ne_nil u rest)
    rw [hzero] at hnext
    exact reached_drop n hnext (Nat.le_of_succ_le_succ hn) (fun x hx => hnot x (List.mem_cons_of_mem u hx))

variable {data rest : JsString}

theorem reached_length (h : Reached data rest) : rest.length ≤ data.length := by
  induction h with
  | here => exact le_refl _
  | next _ _ ih =>
    rw [List.length_drop]
    omega

theorem Reached.head_cases {a b : JsString} (h : Reached a b) :
    b = a ∨ (a ≠ [] ∧ Reached (a.drop (max 1 (escapeLength a))) b) := by
  induction h with
  | here => exact Or.inl rfl
  | next h hne ih =>
    right
    rcases ih with rfl | ⟨hnil, ih⟩
    · exact ⟨hne, .here⟩
    · exact ⟨hnil, ih.next hne⟩

theorem Reached.total {data a b : JsString} (ha : Reached data a) (hb : Reached data b) : Reached a b ∨ Reached b a := by
  induction ha with
  | here => exact Or.inl hb
  | @next a h hne ih =>
    rcases ih with ih | ih
    · rcases ih.head_cases with rfl | ⟨-, ih⟩
      · exact Or.inr (Reached.here.next hne)
      · exact Or.inl ih
    · exact Or.inr (ih.next hne)

/-- **A place that is reached is inside no escape sequence.** -/
theorem Reached.not_inside (h : Reached data rest) : ¬InsideEscape data (data.length - rest.length) := by
  rintro ⟨esc, hesc, hlow, hhigh⟩
  have hlen := reached_length h
  have hlen' := reached_length hesc
  rcases hesc.total h with hfrom | hfrom
  · rcases hfrom.head_cases with rfl | ⟨hne, hfrom⟩
    · omega
    · have := reached_length hfrom
      rw [List.length_drop] at this
      have := escapeLength_le esc
      omega
  · have := reached_length hfrom
    omega

theorem isParameter_low {u : UInt16} (h : isParameter u = true) : isHighSurrogate u = false := by
  simp only [isParameter, Bool.and_eq_true, decide_eq_true_eq, UInt16.le_iff_toNat_le] at h
  have hbound : (0x3f : UInt16).toNat = 0x3f := rfl
  have hhigh : (0xd800 : UInt16).toNat = 0xd800 := rfl
  simp only [isHighSurrogate, Bool.and_eq_false_iff, decide_eq_false_iff_not, UInt16.le_iff_toNat_le]
  omega

theorem control_low {u : UInt16} (h : u = 0x7f ∨ (u < 0x20 ∧ u ≠ 0x09 ∧ u ≠ 0x0a)) : isHighSurrogate u = false := by
  rcases h with rfl | ⟨hlt, -⟩
  · decide
  · rw [UInt16.lt_iff_toNat_lt] at hlt
    have hbound : (0x20 : UInt16).toNat = 0x20 := rfl
    have hhigh : (0xd800 : UInt16).toNat = 0xd800 := rfl
    simp only [isHighSurrogate, Bool.and_eq_false_iff, decide_eq_false_iff_not, UInt16.le_iff_toNat_le]
    omega

/-- **A key is a whole escape sequence, or of units that are no part of one or of a pair.** -/
theorem keyLength_cases (h : 0 < keyLength data) : keyLength data ≤ data.length ∧
    (escapeLength data = keyLength data ∨ escapeLength data = 0 ∧
      (∀ u ∈ (data.take (keyLength data)).drop 1, u ≠ 0x1b) ∧ ∀ u ∈ data.take (keyLength data), isHighSurrogate u = false) := by
  cases data with
  | nil => simp [keyLength] at h
  | cons code rest =>
    rw [keyLength] at h ⊢
    split at h
    · next hesc =>
      subst hesc
      rw [if_pos rfl]
      cases rest with
      | nil => exact ⟨by simp, Or.inr ⟨rfl, by simp, by simp; decide⟩⟩
      | cons u more =>
        by_cases hcsi : u = 0x5b
        · subst hcsi
          rw [List.head?_cons, if_pos rfl, escapeLength_csi, List.drop_one, List.tail_cons]
          dsimp only
          rw [List.getElem?_cons_succ]
          have hle := (List.takeWhile_prefix isParameter (l := more)).length_le
          have hparams : ∀ u ∈ more.take (more.takeWhile isParameter).length, isParameter u = true := by
            intro u hu
            rw [← List.prefix_iff_eq_take.1 (List.takeWhile_prefix isParameter)] at hu
            exact List.mem_takeWhile_imp hu
          generalize (more.takeWhile isParameter).length = n at hle hparams ⊢
          split
          · next hfinal =>
            obtain ⟨u, hu, -⟩ := (Option.any_eq_true _ _).1 hfinal
            have := (List.getElem?_eq_some_iff.1 hu).1
            rw [List.length_cons, List.length_cons]
            exact ⟨by omega, Or.inl rfl⟩
          · rw [List.length_cons, List.length_cons]
            rw [List.take_succ_cons, List.take_succ_cons, List.drop_one, List.tail_cons]
            refine ⟨by omega, Or.inr ⟨rfl, List.forall_mem_cons.2 ⟨by decide, fun u hu => ?_⟩,
              List.forall_mem_cons.2 ⟨by decide, List.forall_mem_cons.2 ⟨by decide, fun u hu => ?_⟩⟩⟩⟩
            · rintro rfl
              exact absurd (hparams _ hu) (by decide)
            · exact isParameter_low (hparams u hu)
        · by_cases hss3 : u = 0x4f
          · subst hss3
            rw [List.head?_cons, if_neg (by decide), if_pos rfl]
            refine ⟨Nat.min_le_right _ _, ?_⟩
            cases more with
            | nil => exact Or.inr ⟨rfl, by simp, by simp; decide⟩
            | cons x more =>
              rw [List.length_cons, List.length_cons, List.length_cons, Nat.min_eq_left (by omega)]
              exact Or.inl rfl
          · rw [List.head?_cons, if_neg (fun h => hcsi (Option.some.inj h)), if_neg (fun h => hss3 (Option.some.inj h)),
              List.length_cons, List.length_cons, Nat.min_eq_left (by omega), escapeLength_two more hcsi hss3]
            exact ⟨by omega, Or.inl rfl⟩
    · next hesc =>
      rw [if_neg hesc]
      split at h
      · next hcontrol =>
        rw [if_pos hcontrol]
        refine ⟨by simp, Or.inr ⟨?_, by simp, ?_⟩⟩
        · by_contra hpos
          exact hesc (Option.some.inj (escapeLength_head (Nat.pos_of_ne_zero hpos)))
        · rw [List.take_succ_cons, List.take_zero, List.forall_mem_singleton]
          exact control_low hcontrol
      · exact absurd h (Nat.lt_irrefl 0)

/-! ## The segments -/

theorem pointUnits_le (h : data ≠ []) : 0 < pointUnits data ∧ pointUnits data ≤ data.length := by
  have := List.length_pos_iff.2 h
  rcases pointUnits_cases data with hone | ⟨htwo, u, v, rest, rfl, -⟩
  · omega
  · rw [htwo, List.length_cons, List.length_cons]
    omega

theorem not_escape_of_text (h : keyLength data = 0) : ∀ u ∈ data.take (pointUnits data), u ≠ 0x1b := by
  have hhead : ∀ u rest, data = u :: rest → u ≠ 0x1b := by
    rintro u rest rfl rfl
    rw [keyLength, if_pos rfl] at h
    dsimp only at h
    split at h
    · split at h
      · exact absurd h (Nat.succ_ne_zero _)
      · exact absurd h (Nat.succ_ne_zero _)
    · split at h
      · rw [List.length_cons] at h
        omega
      · rw [List.length_cons] at h
        omega
  rcases pointUnits_cases data with hone | ⟨htwo, u, v, rest, rfl, -, hv⟩
  · rw [hone]
    cases data with
    | nil => exact fun u hu => by cases hu
    | cons u rest =>
      rw [List.take_succ_cons, List.take_zero, List.forall_mem_singleton]
      exact hhead u rest rfl
  · rw [htwo]
    refine List.forall_mem_cons.2 ⟨hhead u (v :: rest) rfl, ?_⟩
    rw [List.take_succ_cons, List.take_zero, List.forall_mem_singleton]
    rintro rfl
    exact absurd hv (by decide)

theorem textOf_append (p q : List Segment) : textOf (p ++ q) = textOf p ++ textOf q := List.flatMap_append

theorem textOf_flush (run : JsString) : textOf (flush run) = run := by
  unfold flush
  split
  · next h => rw [h]; rfl
  · exact List.append_nil run

/-- **The segments are the string.** -/
theorem textOf_segmentsFrom (run : JsString) (bytes : Nat) (data : JsString) :
    textOf (segmentsFrom run bytes data) = run ++ data := by
  induction run, bytes, data using segmentsFrom.induct with
  | case1 run bytes =>
    rw [segmentsFrom, if_pos rfl, textOf_flush, List.append_nil]
  | case2 run bytes data hnil hkey ih =>
    rw [segmentsFrom, if_neg hnil, if_pos hkey, textOf_append, textOf_flush]
    show run ++ (data.take (keyLength data) ++ textOf _) = _
    rw [ih, List.nil_append, List.take_append_drop]
  | case3 run bytes data hnil hkey size hfull ih =>
    rw [segmentsFrom, if_neg hnil, if_neg hkey]
    dsimp only
    rw [if_pos hfull, textOf_append, textOf_flush, ih, List.take_append_drop]
  | case4 run bytes data hnil hkey size hfull ih =>
    rw [segmentsFrom, if_neg hnil, if_neg hkey]
    dsimp only
    rw [if_neg hfull, ih, List.append_assoc, List.take_append_drop]

theorem mem_flush {run : JsString} {s : Segment} (h : s ∈ flush run) : s = ⟨run, false⟩ ∧ run ≠ [] := by
  unfold flush at h
  split at h
  · cases h
  · next hne => exact ⟨List.mem_singleton.1 h, hne⟩

theorem utf8_take_point (h : data ≠ []) :
    (utf8 (data.take (pointUnits data))).length = pointBytes (codePointAt data) := by
  rw [← length_encodePoint]
  have hall := utf8_point h
  have hsplit := utf8_append (not_splits_point data)
  rw [List.take_append_drop, hall] at hsplit
  exact congrArg List.length (List.append_cancel_right hsplit).symm

theorem not_splits_taken {run data : JsString} (h : data ≠ []) :
    ¬SplitsPair (run ++ data.take (pointUnits data)) (data.drop (pointUnits data)) := by
  rintro ⟨hhigh, hlow⟩
  refine not_splits_point data ⟨?_, hlow⟩
  have hne : data.take (pointUnits data) ≠ [] := by
    rw [← List.length_pos_iff, List.length_take]
    have := pointUnits_le h
    omega
  rwa [List.getLast?_append_of_ne_nil _ hne] at hhigh

theorem not_splits_take {run data : JsString} (h : ¬SplitsPair run data) (hne : data ≠ []) :
    ¬SplitsPair run (data.take (pointUnits data)) := by
  rintro ⟨hhigh, hlow⟩
  refine h ⟨hhigh, ?_⟩
  rwa [List.head?_take, if_neg (by have := pointUnits_le hne; omega)] at hlow

/-- **A text segment is no longer than a chunk.** -/
theorem utf8_segmentsFrom (run : JsString) (bytes : Nat) (data : JsString) (hbytes : bytes = (utf8 run).length)
    (hle : bytes ≤ pacedChunkBytes) (hsplit : ¬SplitsPair run data) :
    ∀ s ∈ segmentsFrom run bytes data, s.key = false → (utf8 s.data).length ≤ pacedChunkBytes := by
  have hflush : ∀ {run : JsString} {bytes : Nat}, bytes = (utf8 run).length → bytes ≤ pacedChunkBytes →
      ∀ s ∈ flush run, (utf8 s.data).length ≤ pacedChunkBytes := by
    intro run bytes hbytes hle s hs
    rw [(mem_flush hs).1, ← hbytes]
    exact hle
  induction run, bytes, data using segmentsFrom.induct with
  | case1 run bytes =>
    rw [segmentsFrom, if_pos rfl]
    exact fun s hs _ => hflush hbytes hle s hs
  | case2 run bytes data hnil hkey ih =>
    rw [segmentsFrom, if_neg hnil, if_pos hkey]
    intro s hs htext
    rcases List.mem_append.1 hs with hs | hs
    · exact hflush hbytes hle s hs
    · rcases List.mem_cons.1 hs with rfl | hs
      · cases htext
      · exact ih rfl (Nat.zero_le _) (fun h => Bool.noConfusion h.1) s hs htext
  | case3 run bytes data hnil hkey size hfull ih =>
    rw [segmentsFrom, if_neg hnil, if_neg hkey]
    dsimp only
    rw [if_pos hfull]
    intro s hs htext
    rcases List.mem_append.1 hs with hs | hs
    · exact hflush hbytes hle s hs
    · have hsize : size ≤ 4 := by
        show pointBytes (codePointAt data) ≤ 4
        unfold pointBytes
        repeat' split
        all_goals omega
      exact ih (utf8_take_point hnil).symm (le_trans hsize (by decide)) (not_splits_point data) s hs htext
  | case4 run bytes data hnil hkey size hfull ih =>
    rw [segmentsFrom, if_neg hnil, if_neg hkey]
    dsimp only
    rw [if_neg hfull]
    refine ih ?_ (Nat.le_of_not_lt hfull) (not_splits_taken hnil)
    rw [utf8_append (not_splits_take hsplit hnil), List.length_append, utf8_take_point hnil, hbytes]

theorem ne_nil_of_mem {run : JsString} {bytes : Nat} : ∀ s ∈ segmentsFrom run bytes data, s.data ≠ [] := by
  have hflush : ∀ {run : JsString}, ∀ s ∈ flush run, s.data ≠ [] := by
    intro run s hs
    rw [(mem_flush hs).1]
    exact (mem_flush hs).2
  induction run, bytes, data using segmentsFrom.induct with
  | case1 run bytes =>
    rw [segmentsFrom, if_pos rfl]
    exact hflush
  | case2 run bytes data hnil hkey ih =>
    rw [segmentsFrom, if_neg hnil, if_pos hkey]
    refine List.forall_mem_append.2 ⟨hflush, List.forall_mem_cons.2 ⟨?_, ih⟩⟩
    rw [← List.length_pos_iff, List.length_take]
    have := List.length_pos_iff.2 hnil
    omega
  | case3 run bytes data hnil hkey size hfull ih =>
    rw [segmentsFrom, if_neg hnil, if_neg hkey]
    dsimp only
    rw [if_pos hfull]
    exact List.forall_mem_append.2 ⟨hflush, ih⟩
  | case4 run bytes data hnil hkey size hfull ih =>
    rw [segmentsFrom, if_neg hnil, if_neg hkey]
    dsimp only
    rw [if_neg hfull]
    exact ih

theorem reached_key {full data : JsString} (h : Reached full data) (hkey : 0 < keyLength data) :
    Reached full (data.drop (keyLength data)) := by
  obtain ⟨hle, hcases⟩ := keyLength_cases hkey
  have hne : data ≠ [] := by
    rintro rfl
    exact absurd hkey (Nat.lt_irrefl 0)
  rcases hcases with hesc | ⟨hzero, hrest, -⟩
  · have := h.next hne
    rwa [hesc, max_eq_right hkey] at this
  · have hfirst := h.next hne
    rw [hzero, max_eq_left (Nat.zero_le 1)] at hfirst
    have := reached_drop (keyLength data - 1) hfirst (by rw [List.length_drop]; omega) (by
      intro u hu
      refine hrest u ?_
      rwa [List.drop_take])
    rwa [List.drop_drop, Nat.add_sub_cancel' hkey] at this

theorem reached_text {full data : JsString} (h : Reached full data) (hne : data ≠ []) (htext : keyLength data = 0) :
    Reached full (data.drop (pointUnits data)) :=
  reached_drop _ h (pointUnits_le hne).2 (not_escape_of_text htext)

theorem split_flush {run : JsString} {segments pre post : List Segment} (h : flush run ++ segments = pre ++ post)
    (hne : pre ≠ []) :
    (pre = flush run ∧ post = segments) ∨ ∃ q, q ≠ [] ∧ pre = flush run ++ q ∧ segments = q ++ post := by
  rcases List.append_eq_append_iff.1 h with ⟨q, hpre, hseg⟩ | ⟨q, hflush, hpost⟩
  · by_cases hq : q = []
    · subst hq
      exact Or.inl ⟨hpre.trans (List.append_nil _), hseg.symm⟩
    · exact Or.inr ⟨q, hq, hpre, hseg⟩
  · left
    have hq : q = [] := by
      have hlen := congrArg List.length hflush
      have hone : (flush run).length ≤ 1 := by
        unfold flush
        split
        · exact Nat.zero_le 1
        · exact le_refl 1
      have := List.length_pos_iff.2 hne
      rw [List.length_append] at hlen
      exact List.length_eq_zero_iff.1 (by omega)
    subst hq
    exact ⟨(hflush.trans (List.append_nil _)).symm, hpost⟩

theorem splits_of_append {p q r : JsString} (hq : q ≠ []) : SplitsPair (p ++ q) r ↔ SplitsPair q r := by
  rw [SplitsPair, SplitsPair, List.getLast?_append_of_ne_nil _ hq]

theorem textOf_ne_nil {segments : List Segment} (h : ∀ s ∈ segments, s.data ≠ []) (hne : segments ≠ []) :
    textOf segments ≠ [] := by
  obtain ⟨s, rest, rfl⟩ := List.exists_cons_of_ne_nil hne
  exact List.append_ne_nil_of_left_ne_nil (h s List.mem_cons_self) _

def CutsPair (full : JsString) : Prop :=
  ∃ rest, Reached full rest ∧ SplitsPair (rest.take (escapeLength rest)) (rest.drop (escapeLength rest))

/-- **Every end of a segment is reached, and no pair is cut there but by an escape sequence.** -/
theorem reached_of_split {full run : JsString} {bytes : Nat} (h : Reached full data) (hsplit : ¬SplitsPair run data)
    {pre post : List Segment} (heq : segmentsFrom run bytes data = pre ++ post) (hne : pre ≠ []) :
    Reached full (textOf post) ∧ (SplitsPair (textOf pre) (textOf post) → CutsPair full) := by
  induction run, bytes, data using segmentsFrom.induct generalizing pre post with
  | case1 run bytes =>
    rw [segmentsFrom, if_pos rfl] at heq
    obtain ⟨-, rfl⟩ | ⟨q, hq, -, hnil⟩ := split_flush ((List.append_nil _).trans heq) hne
    · exact ⟨h, fun hcut => Bool.noConfusion hcut.2⟩
    · exact absurd (List.append_eq_nil_iff.1 hnil.symm).1 hq
  | case2 run bytes data hnil hkey ih =>
    rw [segmentsFrom, if_neg hnil, if_pos hkey] at heq
    have hrest := textOf_segmentsFrom [] 0 (data.drop (keyLength data))
    have hnone : ¬SplitsPair [] (data.drop (keyLength data)) := fun hcut => Bool.noConfusion hcut.1
    obtain ⟨rfl, rfl⟩ | ⟨q, hq, rfl, hseg⟩ := split_flush heq hne
    · have hall : textOf (⟨data.take (keyLength data), true⟩ :: segmentsFrom [] 0 (data.drop (keyLength data))) = data := by
        show data.take (keyLength data) ++ textOf _ = data
        rw [hrest, List.nil_append, List.take_append_drop]
      rw [hall, textOf_flush]
      exact ⟨h, fun hcut => absurd hcut hsplit⟩
    · obtain ⟨s, q, rfl⟩ := List.exists_cons_of_ne_nil hq
      rw [List.cons_append, List.cons.injEq] at hseg
      obtain ⟨rfl, hseg⟩ := hseg
      by_cases hlast : q = []
      · -- right after the key
        subst hlast
        rw [List.nil_append] at hseg
        rw [← hseg, hrest, List.nil_append]
        refine ⟨reached_key h hkey, fun hcut => ?_⟩
        have htake : data.take (keyLength data) ≠ [] := by
          rw [← List.length_pos_iff, List.length_take]
          have := List.length_pos_iff.2 hnil
          omega
        have hpre : textOf (flush run ++ [⟨data.take (keyLength data), true⟩]) = run ++ data.take (keyLength data) := by
          rw [textOf_append, textOf_flush]
          exact congrArg (run ++ ·) (List.append_nil _)
        rw [hpre, splits_of_append htake] at hcut
        rcases (keyLength_cases hkey).2 with hesc | ⟨-, -, hlow⟩
        · exact ⟨data, h, by rw [hesc]; exact hcut⟩
        · obtain ⟨u, hu, hhigh⟩ := (Option.any_eq_true _ _).1 hcut.1
          rw [hlow u (List.mem_of_getLast? hu)] at hhigh
          exact Bool.noConfusion hhigh
      · obtain ⟨hreached, hcuts⟩ := ih (reached_key h hkey) hnone hseg hlast
        refine ⟨hreached, fun hcut => hcuts ?_⟩
        have hq : textOf q ≠ [] := textOf_ne_nil (fun s hs => ne_nil_of_mem s (hseg ▸ List.mem_append_left _ hs)) hlast
        have hpre : textOf (flush run ++ ⟨data.take (keyLength data), true⟩ :: q) =
            (run ++ data.take (keyLength data)) ++ textOf q := by
          rw [textOf_append, textOf_flush, List.append_assoc]
          rfl
        rwa [hpre, splits_of_append hq] at hcut
  | case3 run bytes data hnil hkey size hfull ih =>
    rw [segmentsFrom, if_neg hnil, if_neg hkey] at heq
    dsimp only at heq
    rw [if_pos hfull] at heq
    obtain ⟨rfl, rfl⟩ | ⟨q, hq, rfl, hseg⟩ := split_flush heq hne
    · rw [textOf_segmentsFrom, List.take_append_drop, textOf_flush]
      exact ⟨h, fun hcut => absurd hcut hsplit⟩
    · obtain ⟨hreached, hcuts⟩ := ih (reached_text h hnil (Nat.eq_zero_of_not_pos hkey)) (not_splits_point data) hseg hq
      refine ⟨hreached, fun hcut => hcuts ?_⟩
      have htext : textOf q ≠ [] := textOf_ne_nil (fun s hs => ne_nil_of_mem s (hseg ▸ List.mem_append_left _ hs)) hq
      rwa [textOf_append, splits_of_append htext] at hcut
  | case4 run bytes data hnil hkey size hfull ih =>
    rw [segmentsFrom, if_neg hnil, if_neg hkey] at heq
    dsimp only at heq
    rw [if_neg hfull] at heq
    exact ih (reached_text h hnil (Nat.eq_zero_of_not_pos hkey)) (not_splits_taken hnil) heq hne

/-! ## Where a pair is cut -/

theorem reached_suffix {full rest : JsString} (h : Reached full rest) : rest <:+ full := by
  induction h with
  | here => exact List.suffix_refl full
  | next _ _ ih => exact (List.drop_suffix _ _).trans ih

theorem reached_past {n : Nat} (h : Reached data rest) (hesc : 0 < escapeLength rest) (hn : Reached data (data.drop n))
    (hpos : 0 < n) (hfirst : n = escapeLength data ∨ escapeLength data = 0 ∧ ∀ u ∈ (data.take n).drop 1, u ≠ 0x1b) :
    rest = data ∨ Reached (data.drop n) rest := by
  rcases hn.total h with hfrom | hfrom
  · exact Or.inr hfrom
  · rcases h.head_cases with rfl | ⟨-, hnext⟩
    · exact Or.inl rfl
    · right
      rcases hfirst with hfirst | ⟨hzero, hrest⟩
      · rwa [← hfirst, max_eq_right hpos] at hnext
      · -- what is left starts inside the units read, so with none of its own
        rw [hzero, max_eq_left (Nat.zero_le 1)] at hnext
        obtain ⟨front, hfront⟩ := reached_suffix h
        have hlen := congrArg List.length hfront
        have hle := reached_length hnext
        have hge := reached_length hfrom
        rw [List.length_append] at hlen
        rw [List.length_drop] at hle hge
        have hdrop : rest = data.drop front.length := by rw [← hfront, List.drop_left]
        have hne : rest ≠ [] := by
          rintro rfl
          exact absurd hesc (Nat.lt_irrefl 0)
        have hrestpos := List.length_pos_iff.2 hne
        by_cases hfar : front.length < n
        · obtain ⟨u, hu⟩ : ∃ u, rest.head? = some u := ⟨_, List.head?_eq_some_head hne⟩
          have hmem : u ∈ (data.take n).drop 1 := by
            refine List.mem_of_getElem? (i := front.length - 1) ?_
            rw [List.getElem?_drop, List.getElem?_take_of_lt (by omega), show 1 + (front.length - 1) = front.length by omega,
              ← List.head?_drop, ← hdrop, hu]
          have hhead := escapeLength_head hesc
          rw [hu] at hhead
          exact absurd (Option.some.inj hhead) (hrest u hmem)
        · have : data.drop n = rest := by
            rw [hdrop]
            congr 1
            omega
          rw [this]
          exact .here

theorem reached_past_text (h : Reached data rest) (hesc : 0 < escapeLength rest) (hne : data ≠ [])
    (htext : keyLength data = 0) : Reached (data.drop (pointUnits data)) rest := by
  have hnone := not_escape_of_text htext
  have hzero : ∀ {rest : JsString}, rest.head? = data.head? → escapeLength rest = 0 := by
    intro rest hhead
    by_contra hpos
    have := escapeLength_head (Nat.pos_of_ne_zero hpos)
    rw [hhead] at this
    refine hnone 0x1b (List.mem_of_mem_head? ?_) rfl
    rw [List.head?_take, if_neg (by have := pointUnits_le hne; omega), this]
    rfl
  rcases reached_past h hesc (reached_text .here hne htext) (pointUnits_le hne).1
      (Or.inr ⟨hzero rfl, fun u hu => hnone u (List.mem_of_mem_drop hu)⟩) with rfl | hafter
  · rw [hzero rfl] at hesc
    exact absurd hesc (Nat.lt_irrefl 0)
  · exact hafter

theorem split_of_escape (run : JsString) (bytes : Nat) (h : Reached data rest) (hesc : 0 < escapeLength rest) :
    ∃ pre post, segmentsFrom run bytes data = pre ++ post ∧ textOf post = rest.drop (escapeLength rest) := by
  induction run, bytes, data using segmentsFrom.induct with
  | case1 run bytes =>
    rcases h.head_cases with rfl | ⟨hnil, -⟩
    · exact absurd hesc (Nat.lt_irrefl 0)
    · exact absurd rfl hnil
  | case2 run bytes data hnil hkey ih =>
    rw [segmentsFrom, if_neg hnil, if_pos hkey]
    rcases reached_past h hesc (reached_key .here hkey) hkey ((keyLength_cases hkey).2.imp Eq.symm (fun h => ⟨h.1, h.2.1⟩)) with
      rfl | hafter
    · refine ⟨flush run ++ [⟨rest.take (keyLength rest), true⟩], segmentsFrom [] 0 (rest.drop (keyLength rest)), by simp, ?_⟩
      rw [textOf_segmentsFrom, List.nil_append]
      rcases (keyLength_cases hkey).2 with heq | ⟨hzero, -⟩
      · rw [heq]
      · omega
    · obtain ⟨pre, post, heq, htext⟩ := ih hafter
      exact ⟨flush run ++ ⟨data.take (keyLength data), true⟩ :: pre, post, by rw [heq]; simp, htext⟩
  | case3 run bytes data hnil hkey size hfull ih =>
    rw [segmentsFrom, if_neg hnil, if_neg hkey]
    dsimp only
    rw [if_pos hfull]
    have hzero := Nat.eq_zero_of_not_pos hkey
    obtain ⟨pre, post, heq, htext⟩ := ih (reached_past_text h hesc hnil hzero)
    exact ⟨flush run ++ pre, post, by rw [heq, List.append_assoc], htext⟩
  | case4 run bytes data hnil hkey size hfull ih =>
    rw [segmentsFrom, if_neg hnil, if_neg hkey]
    dsimp only
    rw [if_neg hfull]
    exact ih (reached_past_text h hesc hnil (Nat.eq_zero_of_not_pos hkey))

/-- Segments that are a string, none of them too long, with nothing cut that goes whole. -/
structure Whole (data : JsString) (segments : List Segment) : Prop where
  text    : textOf segments = data
  chunks  : ∀ s ∈ segments, s.key = false → (utf8 s.data).length ≤ pacedChunkBytes
  pairs   : ∀ pre post, segments = pre ++ post → ¬SplitsPair (textOf pre) (textOf post)
  escapes : ∀ pre post, segments = pre ++ post → ¬InsideEscape data (textOf pre).length

/-- **Only an escape sequence that ends inside a pair is cut from it.** -/
theorem whole_iff (data : JsString) : Whole data (pacedInputSegments data) ↔ ¬CutsPair data := by
  have hnone : ¬SplitsPair [] data := fun h => Bool.noConfusion h.1
  have htext : textOf (pacedInputSegments data) = data := textOf_segmentsFrom [] 0 data
  constructor
  · rintro h ⟨rest, hrest, hsplit⟩
    have hesc : 0 < escapeLength rest := by
      by_contra hzero
      rw [Nat.eq_zero_of_not_pos hzero] at hsplit
      exact Bool.noConfusion hsplit.1
    obtain ⟨pre, post, heq, hpost⟩ := split_of_escape [] 0 hrest hesc
    obtain ⟨front, hfront⟩ := reached_suffix hrest
    have hpre : textOf pre = front ++ rest.take (escapeLength rest) := by
      have hall : textOf pre ++ textOf post = front ++ rest.take (escapeLength rest) ++ rest.drop (escapeLength rest) := by
        rw [List.append_assoc, List.take_append_drop, hfront, ← textOf_append, ← heq]
        exact htext
      rw [hpost] at hall
      exact List.append_cancel_right hall
    have hne : rest.take (escapeLength rest) ≠ [] := by
      rw [← List.length_pos_iff, List.length_take]
      have := escapeLength_le rest
      omega
    refine h.pairs pre post heq ?_
    rw [hpre, hpost, splits_of_append hne]
    exact hsplit
  · intro hcuts
    have hends : ∀ pre post, pacedInputSegments data = pre ++ post →
        Reached data (textOf post) ∧ ¬SplitsPair (textOf pre) (textOf post) := by
      intro pre post heq
      by_cases hne : pre = []
      · subst hne
        rw [List.nil_append] at heq
        rw [← heq, htext]
        exact ⟨.here, hnone⟩
      · obtain ⟨hreached, hcut⟩ := reached_of_split .here hnone heq hne
        exact ⟨hreached, fun h => hcuts (hcut h)⟩
    refine ⟨htext, utf8_segmentsFrom [] 0 data rfl (Nat.zero_le _) hnone, fun pre post heq => (hends pre post heq).2,
      fun pre post heq => ?_⟩
    have hlen := congrArg List.length htext
    rw [heq, textOf_append, List.length_append] at hlen
    have := (hends pre post heq).1.not_inside
    rwa [← hlen, Nat.add_sub_cancel] at this

/-- **The bytes of whole segments are those of the string.** -/
theorem utf8_of_pairs : ∀ {segments : List Segment}, (∀ pre post, segments = pre ++ post →
    ¬SplitsPair (textOf pre) (textOf post)) →
    utf8 (textOf segments) = segments.flatMap (fun s => utf8 s.data)
  | [], _ => rfl
  | s :: segments, h => by
    have hrest : ∀ pre post, segments = pre ++ post → ¬SplitsPair (textOf pre) (textOf post) := by
      rintro pre post rfl hsplit
      have hne : textOf pre ≠ [] := by
        intro hnil
        rw [hnil] at hsplit
        exact Bool.noConfusion hsplit.1
      refine h (s :: pre) post rfl ?_
      show SplitsPair (s.data ++ textOf pre) (textOf post)
      rwa [splits_of_append hne]
    have hfirst : ¬SplitsPair s.data (textOf segments) := by
      have := h [s] segments rfl
      rwa [show textOf [s] = s.data from List.append_nil _] at this
    show utf8 (s.data ++ textOf segments) = _
    rw [utf8_append hfirst, utf8_of_pairs hrest, List.flatMap_cons]

end Paced
end Dormouse

import Dormouse.PngChunks
/-!
# PngFilter — the filters of a scanline

`paeth`, `unfilterRow` and `filterRow` of `dor-tools-builtin/viewer/image/png.ts`.  Both loops work on a byte and what filter `f`
predicts for it from the bytes before it and the row above.  `filterRow` writes into a buffer that holds an earlier row's bytes and
stops once its score reaches the limit; a buffer whose score stayed under it holds the whole filtered row (`filterRow_under`), and
`unfilterRow` makes the scanline of it again (`unfilterRow_residue`).
-/
namespace Dormouse
namespace Png

open ByteRows

def byte (row : Bytes) (i : Nat) : UInt8 := row.getD i 0

def paeth (a b c : Nat) : Nat :=
  let p : Int := a + b - c
  let pa := (p - a).natAbs
  let pb := (p - b).natAbs
  let pc := (p - c).natAbs
  if pa ≤ pb ∧ pa ≤ pc then a else if pb ≤ pc then b else c

/-- What filter `f` takes from byte `i` of `cur`, below the row `prev`; the first pixel has no left neighbor. -/
def predict (f bpp : Nat) (cur prev : Bytes) (i : Nat) : UInt8 :=
  match f with
  | 0 => 0
  | 1 => if i < bpp then 0 else byte cur (i - bpp)
  | 2 => byte prev i
  | 3 =>
    if i < bpp then UInt8.ofNat ((byte prev i).toNat >>> 1)
    else UInt8.ofNat (((byte cur (i - bpp)).toNat + (byte prev i).toNat) >>> 1)
  | _ =>
    if i < bpp then byte prev i
    else UInt8.ofNat (paeth (byte cur (i - bpp)).toNat (byte prev i).toNat (byte prev (i - bpp)).toNat)

def unknownFilter : JsString := units "The PNG has an unknown filter."

/-- Reverses filter `f` on `src` into `cur`. -/
def unfilterRow (f : Nat) (src cur prev : Bytes) (bpp : Nat) : Except JsString Bytes :=
  if f ≤ 4 then .ok ((List.range cur.length).foldl (fun cur i => cur.set i (byte src i + predict f bpp cur prev i)) cur)
  else .error unknownFilter

/-! ## Filtering -/

/-- A buffer that is being written, and the sum of the bytes written so far, read as signed. -/
structure Trial where
  out   : Bytes
  score : Nat

def weight (v : UInt8) : Nat := if v < 128 then v.toNat else 256 - v.toNat

/-- The score is less than the limit, of which none is `Infinity`. -/
def under (score : Nat) : Option Nat → Bool
  | none       => true
  | some limit => score < limit

section

variable (f bpp : Nat) (cur prev : Bytes)

/-- Byte `i` filtered. -/
def filterByte (i : Nat) : UInt8 := byte cur i - predict f bpp cur prev i

def filterStep (t : Trial) (i : Nat) : Trial :=
  ⟨t.out.set i (filterByte f bpp cur prev i), t.score + weight (filterByte f bpp cur prev i)⟩

/-- The bytes at `places`, until the score reaches the limit. -/
def filterUntil (limit : Option Nat) : List Nat → Trial → Trial
  | [],          t => t
  | i :: places, t => if under t.score limit then filterUntil limit places (filterStep f bpp cur prev t i) else t

/-- Writes filter `f` of `cur` into `out`.  A filter that looks left writes the first pixel whatever its score. -/
def filterRow (out : Bytes) (limit : Option Nat) : Trial :=
  let first := if f = 0 ∨ f = 2 then 0 else bpp
  filterUntil f bpp cur prev limit (List.range' first (cur.length - first))
    ((List.range first).foldl (filterStep f bpp cur prev) ⟨out, 0⟩)

def residue : Bytes := (List.range cur.length).map (filterByte f bpp cur prev)

@[simp] theorem length_residue : (residue f bpp cur prev).length = cur.length := by
  rw [residue, List.length_map, List.length_range]

theorem getElem?_residue {i : Nat} (h : i < cur.length) :
    (residue f bpp cur prev)[i]? = some (filterByte f bpp cur prev i) := by
  rw [residue, List.getElem?_map, List.getElem?_range h, Option.map_some]

/-- The first `n` bytes are the row's, filtered. -/
structure Filtered (n : Nat) (t : Trial) : Prop where
  sized   : t.out.length = cur.length
  written : ∀ i < n, t.out[i]? = (residue f bpp cur prev)[i]?

variable {f bpp cur prev}

theorem Filtered.step {n : Nat} {t : Trial} (h : Filtered f bpp cur prev n t) (hn : n < cur.length) :
    Filtered f bpp cur prev (n + 1) (filterStep f bpp cur prev t n) := by
  obtain ⟨hsized, hwritten⟩ := h
  refine ⟨?_, fun i hi => ?_⟩
  · rw [filterStep, List.length_set]
    exact hsized
  · rw [filterStep]
    dsimp only
    by_cases hlast : i = n
    · subst hlast
      rw [List.getElem?_set_self (by omega), getElem?_residue f bpp cur prev hn]
    · rw [List.getElem?_set_ne (Ne.symm hlast)]
      exact hwritten i (by omega)

theorem Filtered.steps : ∀ {k n : Nat} {t : Trial}, Filtered f bpp cur prev n t → n + k ≤ cur.length →
    Filtered f bpp cur prev (n + k) ((List.range' n k).foldl (filterStep f bpp cur prev) t)
  | 0, _, _, h, _ => h
  | k + 1, n, t, h, hk => by
    rw [List.range'_succ, List.foldl_cons, Nat.add_comm k, ← Nat.add_assoc]
    exact Filtered.steps (h.step (by omega)) (by omega)

theorem Filtered.until {limit : Option Nat} : ∀ {k n : Nat} {t : Trial}, Filtered f bpp cur prev n t → n + k ≤ cur.length →
    under (filterUntil f bpp cur prev limit (List.range' n k) t).score limit = true →
    Filtered f bpp cur prev (n + k) (filterUntil f bpp cur prev limit (List.range' n k) t)
  | 0, _, _, h, _, _ => h
  | k + 1, n, t, h, hk, hunder => by
    rw [List.range'_succ, filterUntil] at hunder ⊢
    by_cases hgo : under t.score limit = true
    · rw [if_pos hgo] at hunder ⊢
      rw [Nat.add_comm k, ← Nat.add_assoc]
      exact Filtered.until (h.step (by omega)) (by omega) hunder
    · rw [if_neg hgo] at hunder
      exact absurd hunder hgo

theorem length_filterUntil {limit : Option Nat} : ∀ (places : List Nat) (t : Trial),
    (filterUntil f bpp cur prev limit places t).out.length = t.out.length
  | [], _ => rfl
  | i :: places, t => by
    rw [filterUntil]
    by_cases hgo : under t.score limit = true
    · rw [if_pos hgo, length_filterUntil places, filterStep]
      exact List.length_set
    · rw [if_neg hgo]

/-- **A row whose score stayed under the limit is filtered whole**, whatever the buffer held before. -/
theorem filterRow_under {out : Bytes} {limit : Option Nat} (hout : out.length = cur.length) (hbpp : bpp ≤ cur.length)
    (h : under (filterRow f bpp cur prev out limit).score limit = true) :
    (filterRow f bpp cur prev out limit).out = residue f bpp cur prev := by
  have hstart : Filtered f bpp cur prev 0 ⟨out, 0⟩ := ⟨hout, fun i hi => absurd hi (Nat.not_lt_zero i)⟩
  unfold filterRow at h ⊢
  dsimp only at h ⊢
  generalize hfirst : (if f = 0 ∨ f = 2 then 0 else bpp) = first at h ⊢
  have hle : first ≤ cur.length := by
    rw [← hfirst]
    split
    · exact Nat.zero_le _
    · exact hbpp
  have hpixel := hstart.steps (k := first) (by omega)
  rw [Nat.zero_add, ← List.range_eq_range'] at hpixel
  obtain ⟨hsized, hwritten⟩ := hpixel.until (by omega) h
  rw [Nat.add_sub_cancel' hle] at hwritten
  refine List.ext_getElem? (fun i => ?_)
  by_cases hi : i < cur.length
  · exact hwritten i hi
  · rw [List.getElem?_eq_none (by omega), List.getElem?_eq_none (by rw [length_residue]; omega)]

theorem length_filterRow (out : Bytes) (limit : Option Nat) :
    (filterRow f bpp cur prev out limit).out.length = out.length := by
  have hfold : ∀ (places : List Nat) (t : Trial),
      (places.foldl (filterStep f bpp cur prev) t).out.length = t.out.length := by
    intro places
    induction places with
    | nil => exact fun _ => rfl
    | cons i places ih =>
      intro t
      rw [List.foldl_cons, ih, filterStep]
      exact List.length_set
  rw [filterRow, length_filterUntil, hfold]

end

/-! ## And back -/

theorem predict_congr {f bpp : Nat} (hbpp : 0 < bpp) {cur row prev : Bytes} {i : Nat} (h : ∀ j < i, byte cur j = byte row j) :
    predict f bpp cur prev i = predict f bpp row prev i := by
  by_cases hi : i < bpp
  · unfold predict
    split <;> simp only [hi, if_true]
  · have hleft : byte cur (i - bpp) = byte row (i - bpp) := h _ (by omega)
    unfold predict
    rw [hleft]

theorem byte_set {row : Bytes} {i : Nat} {v : UInt8} (h : i < row.length) (j : Nat) :
    byte (row.set i v) j = if j = i then v else byte row j := by
  rw [byte, byte, List.getD_eq_getElem?_getD, List.getD_eq_getElem?_getD]
  by_cases hj : j = i
  · subst hj
    rw [List.getElem?_set_self h, if_pos rfl]
    rfl
  · rw [List.getElem?_set_ne (Ne.symm hj), if_neg hj]

theorem ext_byte {a b : Bytes} (hlen : a.length = b.length) (h : ∀ i < a.length, byte a i = byte b i) : a = b := by
  refine List.ext_getElem hlen (fun i hi hi' => ?_)
  have hbyte := h i hi
  rwa [byte, byte, List.getD_eq_getElem?_getD, List.getD_eq_getElem?_getD, List.getElem?_eq_getElem hi,
    List.getElem?_eq_getElem hi', Option.getD_some, Option.getD_some] at hbyte

/-- **A filtered row is its scanline again**, in a buffer with any bytes. -/
theorem unfilterRow_residue {f bpp : Nat} (hf : f ≤ 4) (hbpp : 0 < bpp) {row prev cur : Bytes}
    (hlen : cur.length = row.length) :
    unfilterRow f (residue f bpp row prev) cur prev bpp = .ok row := by
  have hsteps : ∀ n, n ≤ row.length →
      ((List.range n).foldl (fun cur i => cur.set i (byte (residue f bpp row prev) i + predict f bpp cur prev i)) cur).length =
          row.length ∧
        ∀ j < n, byte ((List.range n).foldl
          (fun cur i => cur.set i (byte (residue f bpp row prev) i + predict f bpp cur prev i)) cur) j = byte row j := by
    intro n hn
    induction n with
    | zero => exact ⟨hlen, fun j hj => absurd hj (Nat.not_lt_zero j)⟩
    | succ n ih =>
      obtain ⟨hsized, hdone⟩ := ih (by omega)
      rw [List.range_succ, List.foldl_append, List.foldl_cons, List.foldl_nil]
      refine ⟨by rw [List.length_set]; exact hsized, fun j hj => ?_⟩
      rw [byte_set (by omega)]
      by_cases hlast : j = n
      · subst hlast
        have hbyte : byte (residue f bpp row prev) j = filterByte f bpp row prev j := by
          rw [byte, List.getD_eq_getElem?_getD, getElem?_residue f bpp row prev (by omega), Option.getD_some]
        rw [if_pos rfl, predict_congr hbpp hdone, hbyte, filterByte, UInt8.sub_add_cancel]
      · rw [if_neg hlast]
        exact hdone j (by omega)
  obtain ⟨hsized, hdone⟩ := hsteps row.length (Nat.le_refl _)
  rw [unfilterRow, if_pos hf, hlen]
  exact congrArg Except.ok (ext_byte hsized (fun i hi => hdone i (by omega)))

end Png
end Dormouse

import Dormouse.ByteRows
import Dormouse.Js
/-!
# Pixels — rasters, and the parts of them that are copied

`Raster`, `clipRect`, `crop`, `blit`, `isOpaque` and `orient` of `dor-tools-builtin/viewer/image/pixels.ts`.  A rectangle's
numbers are any a caller has; what is left of it on a raster is a `Box`.  A row of pixels is copied with `set` and `subarray`, and
`copied` is what rows copied one after another come to.
-/
namespace Dormouse
namespace Image

open ByteRows

structure Raster where
  width  : Nat
  height : Nat
  data   : List UInt8
  size   : data.length = width * height * 4
  deriving DecidableEq

structure Rect where
  x      : JsNum
  y      : JsNum
  width  : JsNum
  height : JsNum

structure Box where
  x      : Nat
  y      : Nat
  width  : Nat
  height : Nat
  deriving DecidableEq

def Box.rect (b : Box) : Rect := ⟨.ofNat b.x, .ofNat b.y, .ofNat b.width, .ofNat b.height⟩

def Box.contains (b : Box) (x y : Nat) : Prop := b.x ≤ x ∧ x < b.x + b.width ∧ b.y ≤ y ∧ y < b.y + b.height

instance (b : Box) (x y : Nat) : Decidable (b.contains x y) := by unfold Box.contains; infer_instance

def createRaster (width height : Nat) : Raster := ⟨width, height, List.replicate (width * height * 4) 0, List.length_replicate⟩

def Raster.set (r : Raster) (src : List UInt8) (start : Nat) : Raster :=
  { r with data := ByteRows.set r.data src start, size := (length_set ..).trans r.size }

/-! ## Clipping -/

abbrev Corner := WithBot (WithTop Int)

-- the order of `Int` itself, which runs, and not the complete one it also has
instance : LinearOrder Corner := @WithBot.linearOrder _ (@WithTop.linearOrder Int Int.instLinearOrder)
instance : Max Corner := LinearOrder.toMax
instance : Min Corner := LinearOrder.toMin
instance : LT Corner := @Preorder.toLT _ (@PartialOrder.toPreorder _ LinearOrder.toPartialOrder)
instance : DecidableLT Corner := LinearOrder.toDecidableLT

def Corner.ofNat (n : Nat) : Corner := ((n : Int) : WithTop Int)

def Corner.toNat : Corner → Nat
  | some (some n) => n.toNat
  | _             => 0

/-- `Math.round`; none of NaN. -/
def round : JsNum → Option Corner
  | .nan    => none
  | .posInf => some ((⊤ : WithTop Int) : Corner)
  | .negInf => some ⊥
  | .fin q  => some ((⌊q + 1 / 2⌋ : Int) : WithTop Int)

def plus : JsNum → JsNum → JsNum
  | .fin p,  .fin q  => .fin (p + q)
  | .nan,    _       => .nan
  | _,       .nan    => .nan
  | .posInf, .negInf => .nan
  | .negInf, .posInf => .nan
  | .posInf, _       => .posInf
  | _,       .posInf => .posInf
  | .negInf, _       => .negInf
  | _,       .negInf => .negInf

/-- The part between two corners, in either order, of what is from 0 up to `limit`; none when it is empty, which it is of a
corner that is no number. -/
def span (limit : Nat) : Option Corner → Option Corner → Option (Nat × Nat)
  | some a, some b =>
    let low := max (Corner.ofNat 0) (min a b)
    let high := min (Corner.ofNat limit) (max a b)
    if high > low then some (low.toNat, high.toNat) else none
  | _,      _      => none

def clipRect (width height : Nat) (rect : Rect) : Option Box :=
  match span width (round rect.x) (round (plus rect.x rect.width)),
    span height (round rect.y) (round (plus rect.y rect.height)) with
  | some (x0, x1), some (y0, y1) => some ⟨x0, y0, x1 - x0, y1 - y0⟩
  | _,             _             => none

/-! ## Copying -/

def crop (r : Raster) (rect : Rect) : Raster :=
  match clipRect r.width r.height rect with
  | none   => createRaster 0 0
  | some c => (List.range c.height).foldl (fun out y =>
      let start := ((c.y + y) * r.width + c.x) * 4
      out.set (subarray r.data start (start + c.width * 4)) (y * c.width * 4)) (createRaster c.width c.height)

/-- Every pixel overwrites, with `src`'s top left at a place that may be off the raster. -/
def blit (dst src : Raster) (x y : Int) : Raster :=
  let x0 := max 0 (-x)
  let x1 := min (src.width : Int) (dst.width - x)
  if x1 ≤ x0 then dst
  else
    let y0 := max 0 (-y)
    let y1 := min (src.height : Int) (dst.height - y)
    (List.range (y1 - y0).toNat).foldl (fun out (k : Nat) =>
      let sy := y0 + k
      let start := ((sy * src.width + x0) * 4).toNat
      out.set (subarray src.data start (start + ((x1 - x0) * 4).toNat)) (((y + sy) * dst.width + x + x0) * 4).toNat) dst

/-! ## Opacity and orientation -/

def isOpaque (r : Raster) : Bool := (List.range (r.width * r.height)).all (fun p => r.data.getD (p * 4 + 3) 0 = 255)

/-- The source pixel that the pixel in column `x` of row `y` takes at an EXIF orientation; none where the raster stays. -/
def orientFrom (w h : Nat) : Nat → Option (Nat → Nat → Nat)
  | 2 => some (fun x y => y * w + (w - 1 - x))
  | 3 => some (fun x y => (h - 1 - y) * w + (w - 1 - x))
  | 4 => some (fun x y => (h - 1 - y) * w + x)
  | 5 => some (fun x y => x * w + y)
  | 6 => some (fun x y => (h - 1 - x) * w + y)
  | 7 => some (fun x y => (h - 1 - x) * w + (w - 1 - y))
  | 8 => some (fun x y => x * w + (w - 1 - y))
  | _ => none

def orient (r : Raster) (o : Nat) : Raster :=
  match orientFrom r.width r.height o with
  | none      => r
  | some from_ =>
    let out := if 5 ≤ o then createRaster r.height r.width else createRaster r.width r.height
    (List.range (out.width * out.height)).foldl (fun dst i =>
      let src := from_ (i % out.width) (i / out.width)
      dst.set (subarray r.data (src * 4) (src * 4 + 4)) (i * 4)) out

/-! ## Pixel by pixel -/

/-- A channel of the pixel in column `x` of row `y`. -/
def Raster.channel (r : Raster) (x y k : Nat) : Option UInt8 := r.data[offset r.width 4 x y k]?

theorem isOpaque_iff (r : Raster) :
    isOpaque r = true ↔ ∀ x y, x < r.width → y < r.height → r.channel x y 3 = some 255 := by
  have hat : ∀ x y, x < r.width → y < r.height →
      (r.channel x y 3 = some 255 ↔ r.data.getD ((y * r.width + x) * 4 + 3) 0 = 255) := by
    intro x y hx hy
    have hlt : offset r.width 4 x y 3 < r.data.length := by
      rw [r.size]
      exact offset_lt (by decide) hx hy
    rw [Raster.channel, List.getD_eq_getElem?_getD, ← offset, List.getElem?_eq_getElem hlt, Option.getD_some, Option.some.injEq]
  rw [isOpaque, List.all_eq_true]
  constructor
  · intro h x y hx hy
    exact (hat x y hx hy).2 (of_decide_eq_true (h (y * r.width + x) (List.mem_range.2 (by nlinarith))))
  · intro h p hp
    have hp := List.mem_range.1 hp
    have hwide : 0 < r.width := Nat.pos_of_ne_zero (by intro hzero; simp [hzero] at hp)
    have hx := Nat.mod_lt p hwide
    have hy : p / r.width < r.height := Nat.div_lt_of_lt_mul hp
    have halpha := (hat _ _ hx hy).1 (h _ _ hx hy)
    rw [Nat.mul_comm (p / r.width), Nat.div_add_mod] at halpha
    exact decide_eq_true halpha

theorem Raster.ext_channel {r s : Raster} (hw : r.width = s.width) (hh : r.height = s.height)
    (h : ∀ x y k, x < r.width → y < r.height → k < 4 → r.channel x y k = s.channel x y k) : r = s := by
  obtain ⟨w, ht, data, hsize⟩ := r
  obtain ⟨w', ht', data', hsize'⟩ := s
  obtain rfl : w = w' := hw
  obtain rfl : ht = ht' := hh
  have hdata : data = data' := by
    refine List.ext_getElem? (fun i => ?_)
    by_cases hi : i < w * ht * 4
    · obtain ⟨x, y, k, hx, hy, hk, rfl⟩ := exists_offset hi
      exact h x y k hx hy hk
    · rw [List.getElem?_eq_none (by omega), List.getElem?_eq_none (by omega)]
  subst hdata
  rfl

@[simp] theorem Raster.width_set (r : Raster) (src : List UInt8) (start : Nat) : (r.set src start).width = r.width := rfl

@[simp] theorem Raster.height_set (r : Raster) (src : List UInt8) (start : Nat) : (r.set src start).height = r.height := rfl

/-- One row of `n` pixels of `src`, from `(sx, sy)` on, put at `(dx, dy)`. -/
def copyRow (dst src : Raster) (sx sy dx dy n : Nat) : Raster :=
  dst.set (subarray src.data (offset src.width 4 sx sy 0) (offset src.width 4 sx sy 0 + n * 4)) (offset dst.width 4 dx dy 0)

theorem row_fits {w h n x y : Nat} (hx : x + n ≤ w) (hy : y < h) : offset w 4 x y 0 + n * 4 ≤ w * h * 4 := by
  have hrow : y * w + w ≤ w * h := by nlinarith
  simp only [offset]
  omega

theorem length_row {src : Raster} {sx sy n : Nat} (hsx : sx + n ≤ src.width) (hsy : sy < src.height) :
    (subarray src.data (offset src.width 4 sx sy 0) (offset src.width 4 sx sy 0 + n * 4)).length = n * 4 := by
  rw [length_subarray (by rw [src.size]; exact row_fits hsx hsy)]
  omega

variable {dst src : Raster}

/-- **A row copied** changes its own pixels. -/
theorem channel_copyRow {sx sy dx dy n : Nat} (hsx : sx + n ≤ src.width) (hsy : sy < src.height) (hdx : dx + n ≤ dst.width)
    {x y k : Nat} (hx : x < dst.width) (hy : y < dst.height) (hk : k < 4) :
    (copyRow dst src sx sy dx dy n).channel x y k =
      if y = dy ∧ dx ≤ x ∧ x < dx + n then src.channel (x - dx + sx) sy k else dst.channel x y k := by
  have hlen := length_row hsx hsy
  have hlt : offset dst.width 4 x y k < dst.data.length := by
    rw [dst.size]
    exact offset_lt hk hx hy
  show (ByteRows.set dst.data _ _)[offset dst.width 4 x y k]? = _
  have hrow : _ ↔ y = dy ∧ dx ≤ x ∧ x < dx + n := offset_in_row hdx hx hk
  by_cases hin : y = dy ∧ dx ≤ x ∧ x < dx + n
  · obtain ⟨hlow, hhigh⟩ := hrow.2 hin
    obtain ⟨rfl, hleft, hright⟩ := hin
    have hsub : offset dst.width 4 x y k - offset dst.width 4 dx y 0 = (x - dx) * 4 + k := by
      rw [offset_sub hleft]
      omega
    have hsrc : offset src.width 4 sx sy 0 + ((x - dx) * 4 + k) = offset src.width 4 (x - dx + sx) sy k := by
      rw [offset_sub (Nat.le_add_left sx (x - dx)), Nat.add_sub_cancel]
    have hshort : offset src.width 4 sx sy 0 + ((x - dx) * 4 + k) < offset src.width 4 sx sy 0 + n * 4 := by omega
    rw [if_pos ⟨rfl, hleft, hright⟩, getElem?_set_mem hlow (by rw [hlen]; exact hhigh) hlt, getElem?_subarray, hsub,
      if_pos hshort, hsrc]
    rfl
  · have hout : offset dst.width 4 x y k < offset dst.width 4 dx dy 0 ∨
        offset dst.width 4 dx dy 0 + n * 4 ≤ offset dst.width 4 x y k := by
      by_contra hno
      exact hin (hrow.1 (by omega))
    rw [if_neg hin, getElem?_set_ne (by rw [hlen]; exact hout)]
    rfl

/-- Rows copied one after another, `rows` of them. -/
def copyRows (dst src : Raster) (sx sy dx dy n rows : Nat) : Raster :=
  (List.range rows).foldl (fun out k => copyRow out src sx (sy + k) dx (dy + k) n) dst

theorem copyRows_succ (dst src : Raster) (sx sy dx dy n rows : Nat) :
    copyRows dst src sx sy dx dy n (rows + 1) =
      copyRow (copyRows dst src sx sy dx dy n rows) src sx (sy + rows) dx (dy + rows) n := by
  rw [copyRows, List.range_succ, List.foldl_append]
  rfl

@[simp] theorem dims_copyRows (dst src : Raster) (sx sy dx dy n : Nat) : ∀ rows,
    (copyRows dst src sx sy dx dy n rows).width = dst.width ∧ (copyRows dst src sx sy dx dy n rows).height = dst.height
  | 0        => ⟨rfl, rfl⟩
  | rows + 1 => by
    rw [copyRows_succ]
    exact dims_copyRows dst src sx sy dx dy n rows

/-- **Rows copied**: what was in the rectangle they are copied from is in the one they are copied to. -/
theorem channel_copyRows {dst src : Raster} {sx sy dx dy n : Nat} (hsx : sx + n ≤ src.width) (hdx : dx + n ≤ dst.width)
    {x y k : Nat} (hx : x < dst.width) (hy : y < dst.height) (hk : k < 4) : ∀ rows, sy + rows ≤ src.height →
    (copyRows dst src sx sy dx dy n rows).channel x y k =
      if (⟨dx, dy, n, rows⟩ : Box).contains x y then src.channel (x - dx + sx) (y - dy + sy) k else dst.channel x y k
  | 0, _ => by
    rw [if_neg (by simp only [Box.contains]; omega)]
    rfl
  | rows + 1, h => by
    obtain ⟨hw, hh⟩ := dims_copyRows dst src sx sy dx dy n rows
    rw [copyRows_succ, channel_copyRow hsx (by omega) (by rw [hw]; exact hdx) (by rw [hw]; exact hx) (by rw [hh]; exact hy) hk,
      channel_copyRows hsx hdx hx hy hk rows (by omega)]
    by_cases hlast : y = dy + rows ∧ dx ≤ x ∧ x < dx + n
    · have hsrc : y - dy + sy = sy + rows := by omega
      rw [if_pos hlast, if_pos (by simp only [Box.contains]; omega), hsrc]
    · rw [if_neg hlast]
      by_cases hin : (⟨dx, dy, n, rows⟩ : Box).contains x y
      · rw [if_pos hin, if_pos (by simp only [Box.contains] at hin ⊢; omega)]
      · rw [if_neg hin, if_neg (by simp only [Box.contains] at hin ⊢; omega)]

/-! ## What clipping leaves -/

/-- The box is on the raster, and not empty. -/
structure Box.Fits (b : Box) (width height : Nat) : Prop where
  wide   : 0 < b.width
  tall   : 0 < b.height
  across : b.x + b.width ≤ width
  down   : b.y + b.height ≤ height

theorem span_some {limit : Nat} {a b : Option Corner} {low high : Nat} (h : span limit a b = some (low, high)) :
    low < high ∧ high ≤ limit := by
  match a, b with
  | none, _ => cases h
  | some _, none => cases h
  | some a, some b =>
    simp only [span] at h
    split at h
    · next hlt =>
      generalize hlow : max (Corner.ofNat 0) (min a b) = x at h hlt
      generalize hhigh : min (Corner.ofNat limit) (max a b) = y at h hlt
      have hzero : Corner.ofNat 0 ≤ x := hlow ▸ le_max_left _ _
      have hlimit : y ≤ Corner.ofNat limit := hhigh ▸ min_le_left _ _
      -- between two numbers, both corners are
      induction x using WithBot.recBotCoe with
      | bot => exact absurd hzero (by simp [Corner.ofNat])
      | coe x =>
      induction y using WithBot.recBotCoe with
      | bot => exact absurd hlt (by simp)
      | coe y =>
      induction y using WithTop.recTopCoe with
      | top => exact absurd hlimit (by simp [Corner.ofNat])
      | coe y =>
      induction x using WithTop.recTopCoe with
      | top => exact absurd hlt (by simp)
      | coe x =>
      have hzero : (0 : Int) ≤ x := by simpa [Corner.ofNat] using hzero
      have hlimit : y ≤ (limit : Int) := WithTop.coe_le_coe.1 (WithBot.coe_le_coe.1 hlimit)
      have hlt : x < y := by simpa using hlt
      obtain ⟨hx, hy⟩ := Prod.mk.inj (Option.some.inj h)
      have hx : x.toNat = low := hx
      have hy : y.toNat = high := hy
      omega
    · cases h

theorem clipRect_fits {width height : Nat} {rect : Rect} {c : Box} (h : clipRect width height rect = some c) :
    c.Fits width height := by
  unfold clipRect at h
  split at h
  · next x0 x1 y0 y1 hx hy =>
    cases h
    obtain ⟨hxlt, hxle⟩ := span_some hx
    obtain ⟨hylt, hyle⟩ := span_some hy
    exact ⟨Nat.sub_pos_of_lt hxlt, Nat.sub_pos_of_lt hylt, by simp only; omega, by simp only; omega⟩
  · cases h

theorem round_ofNat (n : Nat) : round (.ofNat n) = some (Corner.ofNat n) := by
  have hfloor : ⌊((n : ℚ) + 1 / 2)⌋ = (n : Int) := by
    rw [Int.floor_eq_iff]
    constructor
    · push_cast
      linarith
    · push_cast
      linarith
  show some ((⌊((n : ℚ) + 1 / 2)⌋ : WithTop Int) : Corner) = _
  rw [hfloor]
  rfl

theorem plus_ofNat (m n : Nat) : plus (.ofNat m) (.ofNat n) = .ofNat (m + n) := by
  simp [plus, JsNum.ofNat]

theorem span_ofNat {limit start n : Nat} (hs : start < limit) (hn : 0 < n) :
    span limit (round (.ofNat start)) (round (plus (.ofNat start) (.ofNat n))) = some (start, min limit (start + n)) := by
  have hle (a b : Nat) : Corner.ofNat a ≤ Corner.ofNat b ↔ a ≤ b := by simp [Corner.ofNat]
  have hmin (a b : Nat) : min (Corner.ofNat a) (Corner.ofNat b) = Corner.ofNat (min a b) := by
    rcases Nat.le_total a b with h | h
    · rw [min_eq_left h, min_eq_left ((hle a b).2 h)]
    · rw [min_eq_right h, min_eq_right ((hle b a).2 h)]
  have hmax (a b : Nat) : max (Corner.ofNat a) (Corner.ofNat b) = Corner.ofNat (max a b) := by
    rcases Nat.le_total a b with h | h
    · rw [max_eq_right h, max_eq_right ((hle a b).2 h)]
    · rw [max_eq_left h, max_eq_left ((hle b a).2 h)]
  have hlt (a b : Nat) : Corner.ofNat a < Corner.ofNat b ↔ a < b := by simp [Corner.ofNat]
  have hnat (a : Nat) : (Corner.ofNat a).toNat = a := Int.toNat_natCast a
  rw [plus_ofNat, round_ofNat, round_ofNat]
  simp only [span, hmin, hmax, gt_iff_lt, hlt, hnat]
  rw [if_pos (by omega)]
  congr 2
  · omega
  · congr 1
    omega

variable {b : Box}

theorem clipRect_box {width height : Nat} (hx : b.x < width) (hy : b.y < height) (hw : 0 < b.width) (hh : 0 < b.height) :
    clipRect width height b.rect =
      some ⟨b.x, b.y, min width (b.x + b.width) - b.x, min height (b.y + b.height) - b.y⟩ := by
  rw [clipRect, Box.rect, span_ofNat hx hw, span_ofNat hy hh]

theorem clipRect_of_fits {width height : Nat} (h : b.Fits width height) :
    clipRect width height b.rect = some b := by
  obtain ⟨hw, hh, hx, hy⟩ := h
  rw [clipRect_box (by omega) (by omega) hw hh]
  congr 1
  obtain ⟨x, y, w, ht⟩ := b
  simp only [Box.mk.injEq, true_and] at *
  omega

/-! ## What a copy holds -/

theorem crop_eq {r : Raster} (h : b.Fits r.width r.height) :
    crop r b.rect = copyRows (createRaster b.width b.height) r b.x b.y 0 0 b.width b.height := by
  rw [crop, clipRect_of_fits h, copyRows]
  dsimp only
  have hrow : ∀ (rows : List Nat) (out : Raster), out.width = b.width →
      rows.foldl (fun out y => out.set (subarray r.data (((b.y + y) * r.width + b.x) * 4)
          (((b.y + y) * r.width + b.x) * 4 + b.width * 4)) (y * b.width * 4)) out =
        rows.foldl (fun out k => copyRow out r b.x (b.y + k) 0 (0 + k) b.width) out := by
    intro rows
    induction rows with
    | nil => exact fun _ _ => rfl
    | cons y rows ih =>
      intro out hout
      have hstep : out.set (subarray r.data (((b.y + y) * r.width + b.x) * 4)
          (((b.y + y) * r.width + b.x) * 4 + b.width * 4)) (y * b.width * 4) = copyRow out r b.x (b.y + y)
          0 (0 + y) b.width := by
        simp only [copyRow, offset, hout, Nat.add_zero, Nat.zero_add]
      rw [List.foldl_cons, List.foldl_cons, hstep]
      exact ih _ hout
  exact hrow _ _ rfl

/-- **What `crop` keeps** of a box on the raster. -/
theorem channel_crop {r : Raster} (h : b.Fits r.width r.height) {x y k : Nat} (hx : x < b.width) (hy : y < b.height)
    (hk : k < 4) : (crop r b.rect).channel x y k = r.channel (x + b.x) (y + b.y) k := by
  have hwide : 0 + b.width ≤ (createRaster b.width b.height).width := by simp [createRaster]
  rw [crop_eq h, channel_copyRows h.across hwide (by exact hx) (by exact hy) hk _ h.down,
    if_pos (by simp only [Box.contains]; omega), Nat.sub_zero, Nat.sub_zero]

theorem dims_crop {r : Raster} (h : b.Fits r.width r.height) :
    (crop r b.rect).width = b.width ∧ (crop r b.rect).height = b.height := by
  rw [crop_eq h]
  exact dims_copyRows ..

theorem blit_eq {x y : Nat} (hw : 0 < src.width) (hx : x + src.width ≤ dst.width) (hy : y + src.height ≤ dst.height) :
    blit dst src x y = copyRows dst src 0 0 x y src.width src.height := by
  have hx0 : max 0 (-(x : Int)) = 0 := by omega
  have hy0 : max 0 (-(y : Int)) = 0 := by omega
  have hx1 : min (src.width : Int) (dst.width - x) = src.width := by omega
  have hy1 : min (src.height : Int) (dst.height - y) = src.height := by omega
  simp only [blit, hx0, hy0, hx1, hy1]
  rw [if_neg (by omega), copyRows]
  have hrows : ((src.height : Int) - 0).toNat = src.height := by omega
  rw [hrows]
  have hrow : ∀ (rows : List Nat) (out : Raster), out.width = dst.width →
      rows.foldl (fun out (k : Nat) => out.set (subarray src.data (((0 + (k : Int)) * src.width + 0) * 4).toNat
          ((((0 + (k : Int)) * src.width + 0) * 4).toNat + (((src.width : Int) - 0) * 4).toNat))
          (((y + (0 + (k : Int))) * dst.width + x + 0) * 4).toNat) out =
        rows.foldl (fun out k => copyRow out src 0 (0 + k) x (y + k) src.width) out := by
    intro rows
    induction rows with
    | nil => exact fun _ _ => rfl
    | cons k rows ih =>
      intro out hout
      have hfrom : (((0 + (k : Int)) * src.width + 0) * 4).toNat = offset src.width 4 0 (0 + k) 0 := by
        have hcast : ((0 + (k : Int)) * src.width + 0) * 4 = ((offset src.width 4 0 (0 + k) 0 : Nat) : Int) := by
          simp [offset]
        rw [hcast, Int.toNat_natCast]
      have hwidth : (((src.width : Int) - 0) * 4).toNat = src.width * 4 := by omega
      have hto : (((y + (0 + (k : Int))) * dst.width + x + 0) * 4).toNat = offset out.width 4 x (y + k) 0 := by
        have hcast : ((y + (0 + (k : Int))) * dst.width + x + 0) * 4 = ((offset out.width 4 x (y + k) 0 : Nat) : Int) := by
          simp [offset, hout]
        rw [hcast, Int.toNat_natCast]
      rw [List.foldl_cons, List.foldl_cons, hfrom, hwidth, hto]
      exact ih _ hout
  exact hrow _ _ rfl

theorem channel_blit (h : b.Fits dst.width dst.height) (hw : src.width = b.width) (hh : src.height = b.height) {x y k : Nat}
    (hx : x < dst.width) (hy : y < dst.height) (hk : k < 4) :
    (blit dst src b.x b.y).channel x y k =
      if b.contains x y then src.channel (x - b.x) (y - b.y) k else dst.channel x y k := by
  obtain ⟨hwide, -, hacross, hdown⟩ := h
  rw [blit_eq (by omega) (by omega) (by omega), channel_copyRows (by omega) (by omega) hx hy hk _ (by omega), hw, hh]
  rfl

theorem dims_blit (h : b.Fits dst.width dst.height) (hw : src.width = b.width) (hh : src.height = b.height) :
    (blit dst src b.x b.y).width = dst.width ∧ (blit dst src b.x b.y).height = dst.height := by
  obtain ⟨hwide, -, hacross, hdown⟩ := h
  rw [blit_eq (by omega) (by omega) (by omega)]
  exact dims_copyRows ..

end Image
end Dormouse

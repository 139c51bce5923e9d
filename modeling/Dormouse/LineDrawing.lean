import Dormouse.Pixels
import Mathlib.Data.List.Chain
/-!
# LineDrawing — a line of stamps

`put`, `stamp` and `drawLine` of `dor-tools-builtin/viewer/image/pixels.ts`.  The loop stops only when both coordinates hit the end
at one moment.  On the longer axis every pass takes a step; on the other one, where the error term says so, and that term is what
the steps still to go leave of it (`Slope`), so that no step is left on one axis when none is on the other (`Slope.done`).
-/
namespace Dormouse
namespace Image

open ByteRows

/-! ## Colors -/

structure Rgba where
  red   : JsNum
  green : JsNum
  blue  : JsNum
  alpha : JsNum

/-- What a clamped byte keeps of a number: the nearest, and of two the even one. -/
def clampByte : JsNum → UInt8
  | .nan    => 0
  | .posInf => 255
  | .negInf => 0
  | .fin q  =>
    if q ≤ 0 then 0
    else if 255 ≤ q then 255
    else
      let low := ⌊q⌋.toNat
      let rest := q - low
      UInt8.ofNat (if 1 / 2 < rest ∨ rest = 1 / 2 ∧ low % 2 = 1 then low + 1 else low)

def Rgba.bytes (color : Rgba) : List UInt8 :=
  [clampByte color.red, clampByte color.green, clampByte color.blue, clampByte color.alpha]

def put (r : Raster) (i : Nat) (color : Rgba) : Raster := r.set color.bytes i

/-! ## Brushes -/

/-- A brush tip: the offsets it covers around its anchor, all within `size` pixels from `start` on each axis. -/
structure Stamp where
  offsets : List (Int × Int)
  start   : JsNum
  size    : JsNum

inductive Shape where
  | square
  | round
  deriving DecidableEq

def stampOf (size : Nat) (shape : Shape) : Stamp :=
  let start : Int := -(((size : Int) - 1) / 2)
  let half : ℚ := size / 2
  let limit := half * half - 1 / 2
  { offsets := (List.range size).flatMap (fun (j : Nat) => (List.range size).filterMap (fun (i : Nat) =>
      let dx : ℚ := i + 1 / 2 - half
      let dy : ℚ := j + 1 / 2 - half
      if shape = .square ∨ size ≤ 2 ∨ dx * dx + dy * dy ≤ limit then some (start + (i : Int), start + (j : Int)) else none))
    start   := .fin start
    size    := .fin size }

/-- A brush of the size rounded, at least 1.  One of no number covers nothing, and one without end is never made. -/
def stamp (size : JsNum) (shape : Shape) : Option Stamp :=
  match size with
  | .nan    => some ⟨[], .nan, .nan⟩
  | .posInf => none
  | .negInf => some (stampOf 1 shape)
  | .fin q  => some (stampOf (max 1 ⌊q + 1 / 2⌋).toNat shape)

/-! ## Lines -/

structure Line where
  tx : Int
  ty : Int
  dx : Int
  dy : Int
  sx : Int
  sy : Int

structure Pen where
  x   : Int
  y   : Int
  err : Int

def Line.next (l : Line) (p : Pen) : Pen :=
  let e2 := 2 * p.err
  let p := if e2 ≥ l.dy then { p with err := p.err + l.dy, x := p.x + l.sx } else p
  if e2 ≤ l.dx then { p with err := p.err + l.dx, y := p.y + l.sy } else p

/-- The brush at one place; what of it is off the raster is not written. -/
def stampAt (brush : Stamp) (color : Rgba) (r : Raster) (x y : Int) : Raster :=
  brush.offsets.foldl (fun r o =>
    if 0 ≤ x + o.1 ∧ 0 ≤ y + o.2 ∧ x + o.1 < r.width ∧ y + o.2 < r.height then
      put r (((y + o.2) * r.width + (x + o.1)) * 4).toNat color
    else r) r

/-- The loop from one place on, unless its `fuel` runs out: the raster behind it, and the places it stamped. -/
def Line.draw (l : Line) (brush : Stamp) (color : Rgba) : Nat → Pen → Raster → Option (Raster × List (Int × Int))
  | 0,        _, _ => none
  | fuel + 1, p, r =>
    let r := stampAt brush color r p.x p.y
    if p.x = l.tx ∧ p.y = l.ty then some (r, [(p.x, p.y)])
    else (l.draw brush color fuel (l.next p) r).map (fun d => (d.1, (p.x, p.y) :: d.2))

structure Drawn where
  raster  : Raster
  painted : Option Box
  visited : List (Int × Int)

def lineTo (x y tx ty : Int) : Line :=
  ⟨tx, ty, |tx - x|, -|ty - y|, if x < tx then 1 else -1, if y < ty then 1 else -1⟩

def drawLine (fuel : Nat) (r : Raster) (x0 y0 x1 y1 : ℚ) (brush : Stamp) (color : Rgba) : Option Drawn :=
  let x := ⌊x0⌋
  let y := ⌊y0⌋
  let tx := ⌊x1⌋
  let ty := ⌊y1⌋
  let painted := clipRect r.width r.height ⟨plus (.fin (min x tx : Int)) brush.start, plus (.fin (min y ty : Int)) brush.start,
    plus (.fin (|tx - x| : Int)) brush.size, plus (.fin (|ty - y| : Int)) brush.size⟩
  let l := lineTo x y tx ty
  (l.draw brush color fuel ⟨x, y, l.dx + l.dy⟩ r).map (fun d => ⟨d.1, painted, d.2⟩)

/-! ## The error term -/

/-- With `u` of `D` steps to go on the longer axis and `v` of `E` on the other one: what the error term is. -/
structure Slope (D E u v err : Int) : Prop where
  term  : err = u * E - v * D + D - E
  u_pos : 0 ≤ u
  u_le  : u ≤ D
  v_pos : 0 ≤ v
  v_le  : v ≤ E
  low   : -E ≤ 2 * err
  high  : 2 * err ≤ 3 * D - 2 * E

namespace Slope

variable {D E u v err : Int}

theorem start (hE : 0 ≤ E) (h : E ≤ D) : Slope D E D E (D - E) where
  term := by ring
  u_pos := by omega
  u_le := le_refl _
  v_pos := hE
  v_le := le_refl _
  low := by omega
  high := by omega

theorem both (hED : E ≤ D) (h : Slope D E u v err) (hu : 0 < u) (hstep : 2 * err ≤ D) :
    Slope D E (u - 1) (v - 1) (err - E + D) := by
  obtain ⟨term, -, u_le, v_pos, v_le, low, -⟩ := h
  refine ⟨by rw [term]; ring, by omega, by omega, ?_, by omega, by omega, by omega⟩
  -- with no step to go on the other axis, the error term is past the bound
  by_contra hneg
  obtain rfl : v = 0 := by omega
  have hE : 0 ≤ (u - 1) * E := mul_nonneg (by omega) v_le
  linarith

theorem longer (hED : E ≤ D) (h : Slope D E u v err) (hu : 0 < u) (hstep : D < 2 * err) : Slope D E (u - 1) v (err - E) := by
  obtain ⟨term, -, u_le, v_pos, v_le, -, high⟩ := h
  exact ⟨by rw [term]; ring, by omega, by omega, v_pos, v_le, by have := hED; omega, by omega⟩

/-- **No step is left over**: the axes end together. -/
theorem done (h : Slope D E 0 v err) : v = 0 := by
  obtain ⟨term, -, u_le, v_pos, v_le, low, -⟩ := h
  by_contra hv
  have : 0 ≤ (v - 1) * D := mul_nonneg (by omega) u_le
  have hE : E ≤ 0 := by linarith
  omega

end Slope

/-! ## The walk -/

/-- The pen is on the line to its end, `n` steps from it: `u` on one axis and `v` on the other. -/
structure Line.On (l : Line) (p : Pen) (u v n : Int) : Prop where
  x     : p.x = l.tx - l.sx * u
  y     : p.y = l.ty - l.sy * v
  slope : -l.dy ≤ l.dx ∧ u = n ∧ Slope l.dx (-l.dy) u v p.err ∨ l.dx ≤ -l.dy ∧ v = n ∧ Slope (-l.dy) l.dx v u (-p.err)

namespace Line.On

variable {l : Line} {p : Pen} {u v n : Int}

theorem nonneg (h : l.On p u v n) : 0 ≤ u ∧ 0 ≤ v := by
  rcases h.slope with ⟨-, -, hs⟩ | ⟨-, -, hs⟩
  · exact ⟨hs.u_pos, hs.v_pos⟩
  · exact ⟨hs.v_pos, hs.u_pos⟩

theorem done (h : l.On p u v 0) : u = 0 ∧ v = 0 := by
  rcases h.slope with ⟨-, hu, hs⟩ | ⟨-, hv, hs⟩
  · subst hu
    exact ⟨rfl, hs.done⟩
  · subst hv
    exact ⟨hs.done, rfl⟩

theorem next (h : l.On p u v n) (hn : 0 < n) : ∃ u' v', l.On (l.next p) u' v' (n - 1) ∧ (u' = u ∨ u' = u - 1) ∧
    (v' = v ∨ v' = v - 1) ∧ (u' = u - 1 ∨ v' = v - 1) := by
  rcases h.slope with ⟨hle, rfl, hs⟩ | ⟨hle, rfl, hs⟩
  · have hstep : l.dy ≤ 2 * p.err := by have := hs.low; omega
    by_cases hother : 2 * p.err ≤ l.dx
    · have hs' := hs.both hle hn hother
      refine ⟨u - 1, v - 1, ⟨?_, ?_, .inl ⟨hle, rfl, ?_⟩⟩, .inr rfl, .inr rfl, .inl rfl⟩
      · simp only [Line.next, ge_iff_le, hstep, hother, if_true, h.x]
        ring
      · simp only [Line.next, ge_iff_le, hstep, hother, if_true, h.y]
        ring
      · simpa only [Line.next, ge_iff_le, hstep, hother, if_true, sub_neg_eq_add] using hs'
    · have hs' := hs.longer hle hn (by omega)
      refine ⟨u - 1, v, ⟨?_, ?_, .inl ⟨hle, rfl, ?_⟩⟩, .inr rfl, .inl rfl, .inl rfl⟩
      · simp only [Line.next, ge_iff_le, hstep, hother, if_true, if_false, h.x]
        ring
      · simp only [Line.next, ge_iff_le, hstep, hother, if_true, if_false, h.y]
      · simpa only [Line.next, ge_iff_le, hstep, hother, if_true, if_false, sub_neg_eq_add] using hs'
  · have hstep : 2 * p.err ≤ l.dx := by have := hs.low; omega
    by_cases hother : l.dy ≤ 2 * p.err
    · have hs' := hs.both hle hn (by omega)
      refine ⟨u - 1, v - 1, ⟨?_, ?_, .inr ⟨hle, rfl, ?_⟩⟩, .inr rfl, .inr rfl, .inr rfl⟩
      · simp only [Line.next, ge_iff_le, hstep, hother, if_true, h.x]
        ring
      · simp only [Line.next, ge_iff_le, hstep, hother, if_true, h.y]
        ring
      · have herr : -p.err - l.dx + -l.dy = -(p.err + l.dy + l.dx) := by ring
        rw [herr] at hs'
        simpa only [Line.next, ge_iff_le, hstep, hother, if_true] using hs'
    · have hs' := hs.longer hle hn (by omega)
      refine ⟨u, v - 1, ⟨?_, ?_, .inr ⟨hle, rfl, ?_⟩⟩, .inl rfl, .inr rfl, .inr rfl⟩
      · simp only [Line.next, ge_iff_le, hstep, hother, if_true, if_false, h.x]
      · simp only [Line.next, ge_iff_le, hstep, hother, if_true, if_false, h.y]
        ring
      · have herr : -p.err - l.dx = -(p.err + l.dx) := by ring
        rw [herr] at hs'
        simpa only [Line.next, ge_iff_le, hstep, hother, if_true, if_false] using hs'

theorem at_end (h : l.On p u v n) (hx : l.sx = 1 ∨ l.sx = -1) (hy : l.sy = 1 ∨ l.sy = -1) :
    (p.x = l.tx ∧ p.y = l.ty) ↔ u = 0 ∧ v = 0 := by
  rw [h.x, h.y]
  rcases hx with hx | hx
  · rcases hy with hy | hy
    · rw [hx, hy]
      omega
    · rw [hx, hy]
      omega
  · rcases hy with hy | hy
    · rw [hx, hy]
      omega
    · rw [hx, hy]
      omega

end Line.On

/-- One of the eight neighbours, no farther from the end on either axis. -/
structure Line.Nearer (l : Line) (p q : Int × Int) : Prop where
  moves  : p ≠ q
  across : |q.1 - p.1| ≤ 1
  down   : |q.2 - p.2| ≤ 1
  x      : |l.tx - q.1| ≤ |l.tx - p.1|
  y      : |l.ty - q.2| ≤ |l.ty - p.2|

theorem axis_step {t s u u' x x' : Int} (hs : s = 1 ∨ s = -1) (hx : x = t - s * u) (hx' : x' = t - s * u') (hu : u' = u ∨ u' = u - 1)
    (hpos : 0 ≤ u') : |x' - x| ≤ 1 ∧ |t - x'| ≤ |t - x| ∧ (x = x' → u' = u) := by
  have habs : |t - x'| = u' ∧ |t - x| = u := by
    rcases hs with rfl | rfl
    · rw [hx, hx']
      constructor
      · rw [abs_of_nonneg (by omega)]
        omega
      · rw [abs_of_nonneg (by omega)]
        omega
    · rw [hx, hx']
      constructor
      · rw [abs_of_nonpos (by omega)]
        omega
      · rw [abs_of_nonpos (by omega)]
        omega
  rw [habs.1, habs.2, abs_le]
  rcases hs with rfl | rfl
  · omega
  · omega

theorem Line.On.nearer {l : Line} {p q : Pen} {u v u' v' n n' : Int} (hx : l.sx = 1 ∨ l.sx = -1) (hy : l.sy = 1 ∨ l.sy = -1)
    (h : l.On p u v n) (h' : l.On q u' v' n') (hu : u' = u ∨ u' = u - 1) (hv : v' = v ∨ v' = v - 1)
    (hstep : u' = u - 1 ∨ v' = v - 1) : l.Nearer (p.x, p.y) (q.x, q.y) := by
  obtain ⟨hu0, hv0⟩ := h'.nonneg
  obtain ⟨hx1, hx2, hx3⟩ := axis_step hx h.x h'.x hu hu0
  obtain ⟨hy1, hy2, hy3⟩ := axis_step hy h.y h'.y hv hv0
  refine ⟨fun heq => ?_, hx1, hy1, hx2, hy2⟩
  obtain ⟨hxq, hyq⟩ := Prod.mk.inj heq
  have := hx3 hxq
  have := hy3 hyq
  omega

def Line.Within (l : Line) (u v : Int) (q : Int × Int) : Prop :=
  ∃ u' v', 0 ≤ u' ∧ u' ≤ u ∧ 0 ≤ v' ∧ v' ≤ v ∧ q = (l.tx - l.sx * u', l.ty - l.sy * v')

/-- What the loop does from a place on the line, `n` steps from its end. -/
structure Line.Walked (l : Line) (p : Pen) (u v : Int) (n : Nat) (vs : List (Int × Int)) : Prop where
  length : vs.length = n + 1
  head   : vs.head? = some (p.x, p.y)
  last   : vs.getLast? = some (l.tx, l.ty)
  steps  : vs.IsChain l.Nearer
  within : ∀ q ∈ vs, l.Within u v q

/-- **The loop ends at the end of the line**, after as many steps as are left on the longer axis, and not before. -/
theorem Line.draw_spec {l : Line} (hx : l.sx = 1 ∨ l.sx = -1) (hy : l.sy = 1 ∨ l.sy = -1) (brush : Stamp) (color : Rgba) :
    ∀ (n : Nat) {p : Pen} {u v : Int}, l.On p u v n → ∃ vs, l.Walked p u v n vs ∧ ∀ (fuel : Nat) (r : Raster),
      l.draw brush color fuel p r =
        if n < fuel then some (vs.foldl (fun r q => stampAt brush color r q.1 q.2) r, vs) else none
  | 0, p, u, v, h => by
    have hend := (h.at_end hx hy).2 h.done
    obtain ⟨rfl, rfl⟩ := h.done
    refine ⟨[(p.x, p.y)], ⟨rfl, rfl, by rw [hend.1, hend.2]; rfl, List.isChain_singleton _, fun q hq => ?_⟩, fun fuel r => ?_⟩
    · rw [List.mem_singleton.1 hq, h.x, h.y]
      exact ⟨0, 0, le_refl _, le_refl _, le_refl _, le_refl _, rfl⟩
    · cases fuel with
      | zero => rfl
      | succ fuel =>
        rw [Line.draw, if_pos hend, if_pos (Nat.succ_pos _)]
        rfl
  | n + 1, p, u, v, h => by
    obtain ⟨hu0, hv0⟩ := h.nonneg
    obtain ⟨u', v', hnext, hu, hv, hstep⟩ := h.next (by omega)
    obtain ⟨hu0', hv0'⟩ := hnext.nonneg
    have hmoving : ¬ (p.x = l.tx ∧ p.y = l.ty) := by
      rw [h.at_end hx hy]
      omega
    have hn : ((n + 1 : Nat) : Int) - 1 = n := by omega
    rw [hn] at hnext
    obtain ⟨vs, hwalked, hdraw⟩ := Line.draw_spec hx hy brush color n hnext
    refine ⟨(p.x, p.y) :: vs, ⟨?_, rfl, ?_, ?_, fun q hq => ?_⟩, fun fuel r => ?_⟩
    · rw [List.length_cons, hwalked.length]
    · rw [List.getLast?_cons, hwalked.last]
      rfl
    · refine List.isChain_cons.2 ⟨fun q hq => ?_, hwalked.steps⟩
      rw [hwalked.head] at hq
      obtain rfl := Option.some.inj hq
      exact h.nearer hx hy hnext hu hv hstep
    · rcases List.mem_cons.1 hq with rfl | hq
      · exact ⟨u, v, hu0, le_refl _, hv0, le_refl _, by rw [h.x, h.y]⟩
      · obtain ⟨u₁, v₁, hu₁, hu₂, hv₁, hv₂, rfl⟩ := hwalked.within q hq
        exact ⟨u₁, v₁, hu₁, by omega, hv₁, by omega, rfl⟩
    · cases fuel with
      | zero => rfl
      | succ fuel =>
        rw [Line.draw, if_neg hmoving, hdraw]
        by_cases hlt : n < fuel
        · rw [if_pos hlt, if_pos (by omega)]
          rfl
        · rw [if_neg hlt, if_neg (by omega)]
          rfl

/-! ## What is written -/

/-- The pixels of a set have the color, and the others what they had. -/
structure Paints (color : Rgba) (P : Int → Int → Prop) (r r' : Raster) : Prop where
  width  : r'.width = r.width
  height : r'.height = r.height
  color  : ∀ x y k : Nat, x < r.width → y < r.height → k < 4 → P x y → r'.channel x y k = color.bytes[k]?
  others : ∀ x y k : Nat, x < r.width → y < r.height → k < 4 → ¬ P x y → r'.channel x y k = r.channel x y k

namespace Paints

variable {color : Rgba} {P Q : Int → Int → Prop} {r r' r'' : Raster}

theorem nothing (h : ∀ x y, ¬ P x y) : Paints color P r r :=
  ⟨rfl, rfl, fun _ _ _ _ _ _ hP => absurd hP (h _ _), fun _ _ _ _ _ _ _ => rfl⟩

theorem trans (h : Paints color P r r') (h' : Paints color Q r' r'') : Paints color (fun x y => P x y ∨ Q x y) r r'' := by
  refine ⟨h'.width.trans h.width, h'.height.trans h.height, fun x y k hx hy hk hPQ => ?_, fun x y k hx hy hk hno => ?_⟩
  · have hx' : x < r'.width := by rwa [h.width]
    have hy' : y < r'.height := by rwa [h.height]
    by_cases hQ : Q x y
    · exact h'.color x y k hx' hy' hk hQ
    · rw [h'.others x y k hx' hy' hk hQ]
      exact h.color x y k hx hy hk (hPQ.resolve_right hQ)
  · rw [not_or] at hno
    rw [h'.others x y k (by rwa [h.width]) (by rwa [h.height]) hk hno.2]
    exact h.others x y k hx hy hk hno.1

theorem congr (h : Paints color P r r') (hPQ : ∀ x y, P x y ↔ Q x y) : Paints color Q r r' :=
  ⟨h.width, h.height, fun x y k hx hy hk hQ => h.color x y k hx hy hk ((hPQ _ _).2 hQ),
    fun x y k hx hy hk hQ => h.others x y k hx hy hk (fun hP => hQ ((hPQ _ _).1 hP))⟩

theorem foldl {α : Type} {f : Raster → α → Raster} {P : α → Int → Int → Prop} (hf : ∀ r a, Paints color (P a) r (f r a)) :
    ∀ (l : List α) (r : Raster), Paints color (fun x y => ∃ a ∈ l, P a x y) r (l.foldl f r)
  | [], r => nothing (by simp)
  | a :: l, r => ((hf r a).trans (foldl hf l (f r a))).congr (fun x y => by simp)

end Paints

theorem paints_put (color : Rgba) (r : Raster) {x y : Nat} (hx : x < r.width) :
    Paints color (fun x' y' => (x : Int) = x' ∧ (y : Int) = y') r (put r ((y * r.width + x) * 4) color) := by
  have hrow : ∀ x' y' k : Nat, x' < r.width → k < 4 → ((y * r.width + x) * 4 ≤ offset r.width 4 x' y' k ∧
      offset r.width 4 x' y' k < (y * r.width + x) * 4 + 4 ↔ y' = y ∧ x ≤ x' ∧ x' < x + 1) := by
    intro x' y' k hx' hk
    have hin : (offset r.width 4 x y 0 ≤ offset r.width 4 x' y' k ∧ offset r.width 4 x' y' k < offset r.width 4 x y 0 + 1 * 4) ↔
        y' = y ∧ x ≤ x' ∧ x' < x + 1 := offset_in_row (by omega) hx' hk
    simpa [offset] using hin
  refine ⟨rfl, rfl, fun x' y' k hx' hy' hk hin => ?_, fun x' y' k hx' hy' hk hout => ?_⟩
  · obtain ⟨rfl, rfl⟩ : x = x' ∧ y = y' := by omega
    have hlt : offset r.width 4 x y k < r.data.length := by
      rw [r.size]
      exact offset_lt hk hx' hy'
    have hsub : offset r.width 4 x y k - (y * r.width + x) * 4 = k := by
      simp only [offset]
      omega
    show (ByteRows.set r.data _ _)[offset r.width 4 x y k]? = _
    rw [getElem?_set_mem (by simp [offset]) (by simp [offset, Rgba.bytes]; exact hk) hlt, hsub]
  · show (ByteRows.set r.data _ _)[offset r.width 4 x' y' k]? = _
    rw [getElem?_set_ne]
    · rfl
    · have hlen : color.bytes.length = 4 := rfl
      have := hrow x' y' k hx' hk
      rw [hlen]
      omega

theorem paints_stampAt (brush : Stamp) (color : Rgba) (r : Raster) (x y : Int) :
    Paints color (fun x' y' => ∃ o ∈ brush.offsets, x + o.1 = x' ∧ y + o.2 = y') r (stampAt brush color r x y) := by
  refine Paints.foldl (P := fun (o : Int × Int) x' y' => x + o.1 = x' ∧ y + o.2 = y') (fun r o => ?_) brush.offsets r
  split
  · rename_i hon
    obtain ⟨px, hpx⟩ := Int.eq_ofNat_of_zero_le hon.1
    obtain ⟨py, hpy⟩ := Int.eq_ofNat_of_zero_le hon.2.1
    rw [hpx, hpy] at hon ⊢
    have hindex : (((py : Int) * r.width + px) * 4).toNat = (py * r.width + px) * 4 := by
      rw [← Int.toNat_natCast ((py * r.width + px) * 4)]
      push_cast
      rfl
    rw [hindex]
    exact paints_put color r (by omega)
  · rename_i hoff
    refine ⟨rfl, rfl, fun x' y' k hx' hy' _ hin => absurd ?_ hoff, fun _ _ _ _ _ _ _ => rfl⟩
    omega

/-! ## The rectangle -/

theorem round_int (n : Int) : round (.fin n) = some (((n : Int) : WithTop Int) : Corner) := by
  have hfloor : ⌊((n : ℚ) + 1 / 2)⌋ = n := by
    rw [Int.floor_eq_iff]
    constructor
    · linarith
    · linarith
  show some ((⌊((n : ℚ) + 1 / 2)⌋ : WithTop Int) : Corner) = _
  rw [hfloor]

theorem span_int {limit p : Nat} {a n : Int} (hp : p < limit) (ha : a ≤ p) (hn : p < a + n) :
    ∃ low high, span limit (round (.fin a)) (round (.fin (a + n : Int))) = some (low, high) ∧ low ≤ p ∧ p < high := by
  have hle : ((a : WithTop Int) : Corner) ≤ ((a + n : Int) : WithTop Int) :=
    WithBot.coe_le_coe.2 (WithTop.coe_le_coe.2 (by omega))
  have hlow : max (Corner.ofNat 0) ((a : WithTop Int) : Corner) = ((max 0 a : Int) : WithTop Int) := by
    rcases le_total 0 a with h | h
    · rw [max_eq_right h, max_eq_right]
      exact WithBot.coe_le_coe.2 (WithTop.coe_le_coe.2 h)
    · rw [max_eq_left h, max_eq_left]
      · rfl
      · exact WithBot.coe_le_coe.2 (WithTop.coe_le_coe.2 h)
  have hhigh : min (Corner.ofNat limit) (((a + n : Int) : WithTop Int) : Corner) = ((min (limit : Int) (a + n) : Int) : WithTop Int) := by
    rcases le_total (limit : Int) (a + n) with h | h
    · rw [min_eq_left h, min_eq_left]
      · rfl
      · exact WithBot.coe_le_coe.2 (WithTop.coe_le_coe.2 h)
    · rw [min_eq_right h, min_eq_right]
      exact WithBot.coe_le_coe.2 (WithTop.coe_le_coe.2 h)
  have hlt : ((max 0 a : Int) : WithTop Int) < ((min (limit : Int) (a + n) : Int) : WithTop Int) :=
    WithTop.coe_lt_coe.2 (by omega)
  refine ⟨(max 0 a).toNat, (min (limit : Int) (a + n)).toNat, ?_, by omega, by omega⟩
  rw [round_int, round_int, span, min_eq_left hle, max_eq_right hle]
  rw [hlow, hhigh, if_pos (WithBot.coe_lt_coe.2 hlt)]
  rfl

/-- A place of the raster inside a rectangle of whole numbers is inside what clipping leaves of it. -/
theorem clipRect_contains {width height x y : Nat} {a b w h : Int} (hx : x < width) (hy : y < height) (hax : a ≤ x)
    (hxw : x < a + w) (hby : b ≤ y) (hyh : y < b + h) :
    ∃ box, clipRect width height ⟨.fin a, .fin b, .fin w, .fin h⟩ = some box ∧ box.contains x y := by
  obtain ⟨x0, x1, hspanx, hx0, hx1⟩ := span_int hx hax hxw
  obtain ⟨y0, y1, hspany, hy0, hy1⟩ := span_int hy hby hyh
  have hplusx : plus (.fin (a : ℚ)) (.fin (w : ℚ)) = .fin ((a + w : Int) : ℚ) := by simp [plus]
  have hplusy : plus (.fin (b : ℚ)) (.fin (h : ℚ)) = .fin ((b + h : Int) : ℚ) := by simp [plus]
  refine ⟨⟨x0, y0, x1 - x0, y1 - y0⟩, ?_, ?_⟩
  · rw [clipRect, hplusx, hplusy, hspanx, hspany]
  · simp only [Box.contains]
    omega

theorem stamp_offsets {size : JsNum} {shape : Shape} {brush : Stamp} (h : stamp size shape = some brush) :
    brush.offsets = [] ∨ ∃ s n : Int, brush.start = .fin s ∧ brush.size = .fin n ∧
      ∀ o ∈ brush.offsets, (s ≤ o.1 ∧ o.1 < s + n) ∧ s ≤ o.2 ∧ o.2 < s + n := by
  have hof : ∀ n : Nat, ∀ o ∈ (stampOf n shape).offsets,
      (-(((n : Int) - 1) / 2) ≤ o.1 ∧ o.1 < -(((n : Int) - 1) / 2) + n) ∧
        -(((n : Int) - 1) / 2) ≤ o.2 ∧ o.2 < -(((n : Int) - 1) / 2) + n := by
    intro n o ho
    obtain ⟨j, hj, ho⟩ := List.mem_flatMap.1 ho
    obtain ⟨i, hi, ho⟩ := List.mem_filterMap.1 ho
    rw [List.mem_range] at hi hj
    dsimp only at ho
    split at ho
    · cases ho
      omega
    · cases ho
  cases size with
  | nan =>
    cases h
    exact .inl rfl
  | posInf => cases h
  | negInf =>
    cases h
    exact .inr ⟨_, (1 : Nat), rfl, by rw [Int.cast_natCast]; rfl, hof 1⟩
  | fin q =>
    cases h
    exact .inr ⟨_, ((max 1 ⌊q + 1 / 2⌋).toNat : Int), rfl, by rw [Int.cast_natCast]; rfl, hof _⟩

theorem axis_within {x t s u : Int} (hs : s = if x < t then 1 else -1) (hu : 0 ≤ u) (hle : u ≤ |t - x|) :
    min x t ≤ t - s * u ∧ t - s * u ≤ min x t + |t - x| := by
  rcases lt_or_ge x t with h | h
  · rw [if_pos h] at hs
    rw [abs_of_pos (by omega)] at hle ⊢
    rw [hs]
    omega
  · rw [if_neg (by omega)] at hs
    rw [abs_of_nonpos (by omega)] at hle ⊢
    rw [hs]
    omega

theorem axis_start {x t s : Int} (hs : s = if x < t then 1 else -1) : x = t - s * |t - x| := by
  rcases lt_or_ge x t with h | h
  · rw [hs, if_pos h, abs_of_pos (by omega)]
    omega
  · rw [hs, if_neg (by omega), abs_of_nonpos (by omega)]
    omega

theorem lineTo_sign (x t : Int) : (if x < t then (1 : Int) else -1) = 1 ∨ (if x < t then (1 : Int) else -1) = -1 :=
  (em (x < t)).imp (fun h => if_pos h) (fun h => if_neg h)

theorem lineTo_on (x y tx ty : Int) : (lineTo x y tx ty).On ⟨x, y, (lineTo x y tx ty).dx + (lineTo x y tx ty).dy⟩
    |tx - x| |ty - y| (max |tx - x| |ty - y|) where
  x := axis_start rfl
  y := axis_start rfl
  slope := by
    have hx := abs_nonneg (tx - x)
    have hy := abs_nonneg (ty - y)
    rcases le_total |ty - y| |tx - x| with h | h
    · refine .inl ⟨by simpa [lineTo] using h, (max_eq_left h).symm, ?_⟩
      simpa [lineTo, sub_eq_add_neg] using Slope.start hy h
    · refine .inr ⟨by simpa [lineTo] using h, (max_eq_right h).symm, ?_⟩
      simpa [lineTo, sub_eq_add_neg, add_comm] using Slope.start hx h

/-- **A line ends at its end, and what it writes is what it reports.**  Within its fuel the loop takes as many steps as the longer
axis has, each to a neighbour and never away from the end; it paints the brush at each place, clipped to the raster, and all of that
is in the rectangle answered. -/
theorem drawLine_spec (r : Raster) (x0 y0 x1 y1 : ℚ) (size : JsNum) (shape : Shape) (brush : Stamp)
    (hbrush : stamp size shape = some brush) (color : Rgba) :
    let steps := max |⌊x1⌋ - ⌊x0⌋| |⌊y1⌋ - ⌊y0⌋|
    ∃ d : Drawn, (∀ fuel : Nat, drawLine fuel r x0 y0 x1 y1 brush color = if steps < fuel then some d else none) ∧
      d.visited.length = steps + 1 ∧ d.visited.head? = some (⌊x0⌋, ⌊y0⌋) ∧ d.visited.getLast? = some (⌊x1⌋, ⌊y1⌋) ∧
      d.visited.IsChain (lineTo ⌊x0⌋ ⌊y0⌋ ⌊x1⌋ ⌊y1⌋).Nearer ∧
      Paints color (fun x y => ∃ p ∈ d.visited, ∃ o ∈ brush.offsets, p.1 + o.1 = x ∧ p.2 + o.2 = y) r d.raster ∧
      ∀ x y : Nat, x < r.width → y < r.height → (∃ p ∈ d.visited, ∃ o ∈ brush.offsets, p.1 + o.1 = x ∧ p.2 + o.2 = y) →
        ∃ box, d.painted = some box ∧ box.contains x y := by
  intro steps
  generalize hX : ⌊x0⌋ = x
  generalize hY : ⌊y0⌋ = y
  generalize hTX : ⌊x1⌋ = tx
  generalize hTY : ⌊y1⌋ = ty
  obtain ⟨n, hn⟩ : ∃ n : Nat, steps = n := Int.eq_ofNat_of_zero_le ((abs_nonneg _).trans (le_max_left _ _))
  have hon := lineTo_on x y tx ty
  rw [show max |tx - x| |ty - y| = (n : Int) by rw [← hn, ← hX, ← hY, ← hTX, ← hTY]] at hon
  obtain ⟨vs, hwalked, hdraw⟩ := Line.draw_spec (l := lineTo x y tx ty) (lineTo_sign x tx) (lineTo_sign y ty) brush color n hon
  refine ⟨⟨vs.foldl (fun r q => stampAt brush color r q.1 q.2) r, clipRect r.width r.height
      ⟨plus (.fin (min x tx : Int)) brush.start, plus (.fin (min y ty : Int)) brush.start,
        plus (.fin (|tx - x| : Int)) brush.size, plus (.fin (|ty - y| : Int)) brush.size⟩, vs⟩,
    fun fuel => ?_, ?_, hwalked.head, hwalked.last, hwalked.steps, ?_, fun px py hpx hpy hin => ?_⟩
  · rw [drawLine, hX, hY, hTX, hTY, hdraw, hn]
    by_cases hlt : n < fuel
    · rw [if_pos hlt, if_pos (by omega)]
      rfl
    · rw [if_neg hlt, if_neg (by omega)]
      rfl
  · rw [hn]
    exact_mod_cast hwalked.length
  · exact Paints.foldl (P := fun (q : Int × Int) x' y' => ∃ o ∈ brush.offsets, q.1 + o.1 = x' ∧ q.2 + o.2 = y')
      (fun r q => paints_stampAt brush color r q.1 q.2) vs r
  · obtain ⟨q, hq, o, ho, hox, hoy⟩ := hin
    rcases stamp_offsets hbrush with hnone | ⟨s, m, hs, hm, hoff⟩
    · rw [hnone] at ho
      exact absurd ho List.not_mem_nil
    · obtain ⟨hox', hoy'⟩ := hoff o ho
      obtain ⟨u, v, hu, hule, hv, hvle, rfl⟩ := hwalked.within q hq
      have hxin := axis_within (x := x) (t := tx) rfl hu hule
      have hyin := axis_within (x := y) (t := ty) rfl hv hvle
      have hplus : ∀ i j : Int, plus (.fin (i : ℚ)) (.fin (j : ℚ)) = .fin ((i + j : Int) : ℚ) := fun i j => by simp [plus]
      dsimp only
      rw [hs, hm, hplus, hplus, hplus, hplus]
      simp only [lineTo] at hox hoy
      exact clipRect_contains hpx hpy (by omega) (by omega) (by omega) (by omega)

def sampleRed : Rgba := ⟨.fin 255, .fin 0, .fin 0, .fin 255⟩

theorem drawLine_spec_past : stamp (.fin 3) .round = some (stampOf 3 .round) ∧ ∃ d,
    drawLine 5 (createRaster 3 3) 0 2 (7 / 2) 0 (stampOf 3 .round) sampleRed = some d ∧
      d.visited = [(0, 2), (1, 1), (2, 1), (3, 0)] ∧ d.painted = some ⟨0, 0, 3, 3⟩ := by
  have hbrush : stamp (.fin 3) .round = some (stampOf 3 .round) := by
    have hround : (max 1 ⌊(3 : ℚ) + 1 / 2⌋).toNat = 3 := by decide +kernel
    rw [stamp, hround]
  obtain ⟨d, hfuel, -⟩ := drawLine_spec (createRaster 3 3) 0 2 (7 / 2) 0 (.fin 3) .round (stampOf 3 .round) hbrush sampleRed
  have hd : drawLine 5 (createRaster 3 3) 0 2 (7 / 2) 0 (stampOf 3 .round) sampleRed = some d := by
    rw [hfuel, if_pos (by decide +kernel)]
  have hshown : (drawLine 5 (createRaster 3 3) 0 2 (7 / 2) 0 (stampOf 3 .round) sampleRed).map (fun d => (d.visited, d.painted)) =
      some ([(0, 2), (1, 1), (2, 1), (3, 0)], some ⟨0, 0, 3, 3⟩) := by decide +kernel
  rw [hd] at hshown
  obtain ⟨hvisited, hpainted⟩ := Prod.mk.inj (Option.some.inj hshown)
  exact ⟨hbrush, d, hd, hvisited, hpainted⟩

end Image
end Dormouse

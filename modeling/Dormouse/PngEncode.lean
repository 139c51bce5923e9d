import Dormouse.PngFilter
import Dormouse.Pixels
/-!
# PngEncode — a raster as a PNG's parts

`encodePng`, `phys` and `idat` of `dor-tools-builtin/viewer/image/png.ts`.  The compressor is a parameter: what it hands back for
the slices it is written.  Each row is filtered five ways into two buffers that are swapped; what a row leaves is its `line`, and
the whole of what is compressed is its lines (`filtered_eq`).
-/
namespace Dormouse
namespace Png

open ByteRows Image

/-- What a reader of a `DecompressionStream` is handed before it ends, and the error it ends with, if any. -/
structure Inflation where
  pieces  : List Bytes
  failure : Option JsString

/-- `CompressionStream` and `DecompressionStream` of `deflate`, from what is written to what is read. -/
structure Zlib where
  deflate : List Bytes → List Bytes
  inflate : List Bytes → Inflation

/-- Inflating what was deflated, however it is cut, gives it back. -/
def Zlib.Undoes (z : Zlib) : Prop := ∀ slices parts : List Bytes, parts.flatten = (z.deflate slices).flatten →
  (z.inflate parts).failure = none ∧ (z.inflate parts).pieces.flatten = slices.flatten

structure Resolution where
  x          : JsNum
  y          : JsNum
  aspectOnly : Bool

/-! ## Rows -/

def scanline (r : Raster) (channels y : Nat) : Bytes :=
  if channels = 3 then
    (List.range r.width).flatMap (fun x => subarray r.data (y * r.width * 4 + x * 4) (y * r.width * 4 + x * 4 + 3))
  else subarray r.data (y * r.width * 4) ((y + 1) * r.width * 4)

/-- The buffers of a row that is filtered, and the best filter so far; its score is `Infinity` before the first. -/
structure Choice where
  trial      : Bytes
  best       : Bytes
  bestFilter : Nat
  bestScore  : Option Nat

def tryFilter (cur prev : Bytes) (channels : Nat) (c : Choice) (f : Nat) : Choice :=
  let t := filterRow f channels cur prev c.trial c.bestScore
  if under t.score c.bestScore then ⟨c.best, t.out, f, some t.score⟩ else { c with trial := t.out }

def chooseFilter (cur prev : Bytes) (channels : Nat) (trial best : Bytes) : Choice :=
  (List.range 5).foldl (tryFilter cur prev channels) ⟨trial, best, 0, none⟩

structure Encoding where
  prev     : Bytes
  cur      : Bytes
  trial    : Bytes
  best     : Bytes
  filtered : Bytes

def encodeRow (r : Raster) (channels : Nat) (e : Encoding) (y : Nat) : Encoding :=
  let stride := r.width * channels + 1
  let cur := ByteRows.set e.cur (scanline r channels y) 0
  let c := chooseFilter cur e.prev channels e.trial e.best
  { prev     := cur
    cur      := e.prev
    trial    := c.trial
    best     := c.best
    filtered := ByteRows.set (ByteRows.set e.filtered [UInt8.ofNat c.bestFilter] (y * stride)) c.best (y * stride + 1) }

def zeros (n : Nat) : Bytes := List.replicate n 0

def encodeRows (r : Raster) (channels rows : Nat) : Encoding :=
  let rowBytes := r.width * channels
  (List.range rows).foldl (encodeRow r channels)
    ⟨zeros rowBytes, zeros rowBytes, zeros rowBytes, zeros rowBytes, zeros (r.height * (rowBytes + 1))⟩

def filtered (r : Raster) (channels : Nat) : Bytes := (encodeRows r channels r.height).filtered

/-! ## Parts -/

def deflateSlice : Nat := 2 ^ 20

def slices (b : Bytes) : List Bytes :=
  (List.range ((b.length + (deflateSlice - 1)) / deflateSlice)).map (fun k =>
    subarray b (k * deflateSlice) (k * deflateSlice + deflateSlice))

def ihdrType : JsString := units "IHDR"
def idatType : JsString := units "IDAT"
def physType : JsString := units "pHYs"

def tally (total : UInt32 × Nat) (value : Bytes) : UInt32 × Nat := (crcUpdate total.1 value, total.2 + value.length)

def idat (z : Zlib) (b : Bytes) : List Bytes :=
  let pieces := z.deflate (slices b)
  let total := pieces.foldl tally (crcUpdate (~~~ 0) (latin1 idatType), 0)
  [uint32 total.2 ++ latin1 idatType] ++ pieces ++ [uint32 (~~~ total.1).toNat]

/-- A density rounded to what four bytes tell, `NaN` as they store it. -/
def density (v : JsNum) : Nat :=
  match round v with
  | none   => 0
  | some c => (min (Corner.ofNat 0xffffffff) (max (Corner.ofNat 1) c)).toNat

def physData (resolution : Resolution) : Bytes :=
  uint32 (density resolution.x) ++ uint32 (density resolution.y) ++ [if resolution.aspectOnly then 0 else 1]

def phys (resolution : Resolution) : Bytes := chunk physType (physData resolution)

def header (r : Raster) (channels : Nat) : Bytes :=
  uint32 r.width ++ uint32 r.height ++ [8, if channels = 3 then 2 else 6, 0, 0, 0]

def emptyImage : JsString := units "An empty image cannot be saved."

def encodePng (z : Zlib) (r : Raster) (keep : List Bytes) (resolution : Option Resolution) : Except JsString (List Bytes) :=
  if r.width = 0 ∨ r.height = 0 then .error emptyImage
  else
    let channels := if isOpaque r then 3 else 4
    .ok ([signature, chunk ihdrType (header r channels)] ++ keep ++ (resolution.map phys).toList ++
      idat z (filtered r channels) ++ [chunk iend []])

/-! ## What a row leaves -/

section

variable {cur prev : Bytes} {channels : Nat}

structure Chosen (cur prev : Bytes) (channels : Nat) (c : Choice) : Prop where
  trialSized : c.trial.length = cur.length
  known      : c.bestFilter ≤ 4
  best       : c.best = residue c.bestFilter channels cur prev

theorem Chosen.tryFilter {c : Choice} (h : Chosen cur prev channels c) (hlen : channels ≤ cur.length) {f : Nat} (hf : f ≤ 4) :
    Chosen cur prev channels (tryFilter cur prev channels c f) := by
  obtain ⟨htrial, hknown, hbest⟩ := h
  rw [Png.tryFilter]
  by_cases hbetter : under (filterRow f channels cur prev c.trial c.bestScore).score c.bestScore = true
  · rw [if_pos hbetter]
    exact ⟨by rw [hbest, length_residue], hf, filterRow_under htrial hlen hbetter⟩
  · rw [if_neg hbetter]
    exact ⟨(length_filterRow ..).trans htrial, hknown, hbest⟩

/-- **The filter chosen**: the first is taken, whatever its score, and each that follows takes its place whole or not at all. -/
theorem chosen_chooseFilter {trial best : Bytes} (hlen : channels ≤ cur.length) (htrial : trial.length = cur.length)
    (hbest : best.length = cur.length) : Chosen cur prev channels (chooseFilter cur prev channels trial best) := by
  have hfirst : Chosen cur prev channels (tryFilter cur prev channels ⟨trial, best, 0, none⟩ 0) :=
    ⟨hbest, Nat.zero_le 4, filterRow_under htrial hlen rfl⟩
  have hrest : ∀ (fs : List Nat) (c : Choice), (∀ f ∈ fs, f ≤ 4) → Chosen cur prev channels c →
      Chosen cur prev channels (fs.foldl (tryFilter cur prev channels) c) := by
    intro fs
    induction fs with
    | nil => exact fun _ _ hc => hc
    | cons f fs ih =>
      intro c hfs hc
      exact ih _ (fun g hg => hfs g (List.mem_cons_of_mem f hg)) (hc.tryFilter hlen (hfs f List.mem_cons_self))
  exact hrest [1, 2, 3, 4] _ (by decide) hfirst

end

def above (r : Raster) (channels y : Nat) : Bytes := if y = 0 then zeros (r.width * channels) else scanline r channels (y - 1)

def line (r : Raster) (channels : Nat) (filters : Nat → Nat) (y : Nat) : Bytes :=
  UInt8.ofNat (filters y) :: residue (filters y) channels (scanline r channels y) (above r channels y)

theorem length_zeros (n : Nat) : (zeros n).length = n := List.length_replicate

section

variable {r : Raster} {channels : Nat}

theorem length_scanline (hchannels : channels = 3 ∨ channels = 4) {y : Nat} (hy : y < r.height) :
    (scanline r channels y).length = r.width * channels := by
  have hrow : y * r.width * 4 + r.width * 4 ≤ r.data.length := by
    have : (y + 1) * r.width * 4 ≤ r.height * r.width * 4 := Nat.mul_le_mul_right 4 (Nat.mul_le_mul_right _ hy)
    rw [r.size, Nat.mul_comm r.width r.height]
    rw [Nat.succ_mul, Nat.add_mul] at this
    exact this
  rcases hchannels with rfl | rfl
  · rw [scanline, if_pos rfl]
    refine length_rows (fun x hx => ?_)
    rw [length_subarray (by omega)]
    omega
  · rw [scanline, if_neg (by decide), length_subarray (by rw [Nat.succ_mul, Nat.add_mul]; exact hrow),
      Nat.succ_mul, Nat.add_mul]
    omega

theorem length_above (hchannels : channels = 3 ∨ channels = 4) {y : Nat} (hy : y < r.height) :
    (above r channels y).length = r.width * channels := by
  rw [above]
  split
  · exact length_zeros _
  · exact length_scanline hchannels (by omega)

theorem length_line (hchannels : channels = 3 ∨ channels = 4) (filters : Nat → Nat) {y : Nat} (hy : y < r.height) :
    (line r channels filters y).length = r.width * channels + 1 := by
  rw [line, List.length_cons, length_residue, length_scanline hchannels hy]

/-- After `y` rows: the buffers are as long as a row, the row above is the last one, and the lines are written in order. -/
structure Encoded (r : Raster) (channels : Nat) (filters : Nat → Nat) (y : Nat) (e : Encoding) : Prop where
  prev     : e.prev = above r channels y
  cur      : e.cur.length = r.width * channels
  trial    : e.trial.length = r.width * channels
  best     : e.best.length = r.width * channels
  filtered : e.filtered = (List.range y).flatMap (line r channels filters) ++ zeros ((r.height - y) * (r.width * channels + 1))

/-- **A row is encoded** with the filter chosen for it. -/
theorem Encoded.step (hchannels : channels = 3 ∨ channels = 4) (hwide : 0 < r.width) {filters : Nat → Nat}
    {y : Nat} {e : Encoding}
    (h : Encoded r channels filters y e) (hy : y < r.height) (hknown : ∀ j, filters j ≤ 4) :
    ∃ filters', (∀ j, filters' j ≤ 4) ∧ Encoded r channels filters' (y + 1) (encodeRow r channels e y) := by
  obtain ⟨hprev, hcur, htrial, hbest, hfiltered⟩ := h
  have hscan := length_scanline hchannels hy
  have hset : ByteRows.set e.cur (scanline r channels y) 0 = scanline r channels y := by
    have hfit : (scanline r channels y).length ≤ e.cur.length := by omega
    have := set_append (a := []) rfl hfit
    rwa [List.nil_append, List.nil_append, List.drop_eq_nil_of_le (by omega), List.append_nil] at this
  have hpixel : channels ≤ (scanline r channels y).length := by
    rw [hscan]
    exact Nat.le_mul_of_pos_left channels hwide
  have hchosen : Chosen (scanline r channels y) e.prev channels
      (chooseFilter (scanline r channels y) e.prev channels e.trial e.best) :=
    chosen_chooseFilter hpixel (htrial.trans hscan.symm) (hbest.trans hscan.symm)
  generalize hc : chooseFilter (scanline r channels y) e.prev channels e.trial e.best = c at hchosen
  obtain ⟨hsized, hfour, hres⟩ := hchosen
  have hnext : encodeRow r channels e y = ⟨scanline r channels y, e.prev, c.trial, c.best,
      ByteRows.set (ByteRows.set e.filtered [UInt8.ofNat c.bestFilter] (y * (r.width * channels + 1))) c.best
        (y * (r.width * channels + 1) + 1)⟩ := by
    rw [encodeRow, hset, hc]
  have hreslen : c.best.length = r.width * channels := by rw [hres, length_residue, hscan]
  refine ⟨fun j => if j = y then c.bestFilter else filters j, ?_, ?_⟩
  · intro j
    by_cases hj : j = y
    · simp only [hj, if_true]
      exact hfour
    · simp only [hj, if_false]
      exact hknown j
  · rw [hnext]
    refine ⟨by rw [above, if_neg (Nat.succ_ne_zero y), Nat.add_sub_cancel],
      by rw [hprev]; exact length_above hchannels hy, by rw [hsized, hscan], hreslen, ?_⟩
    dsimp only
    have hearlier : (List.range y).flatMap (line r channels (fun j => if j = y then c.bestFilter else filters j)) =
        (List.range y).flatMap (line r channels filters) := by
      refine List.flatMap_congr (fun j hj => ?_)
      have hne : j ≠ y := Nat.ne_of_lt (List.mem_range.1 hj)
      rw [line, line]
      simp only [hne, if_false]
    have hline : line r channels (fun j => if j = y then c.bestFilter else filters j) y =
      [UInt8.ofNat c.bestFilter] ++ c.best := by
      rw [line]
      simp only [if_true]
      rw [hres, hprev, List.singleton_append]
    have hlen : ((List.range y).flatMap (line r channels filters)).length = y * (r.width * channels + 1) :=
      length_rows (fun j hj => length_line hchannels filters (by omega))
    have hleft : (r.height - y) * (r.width * channels + 1) =
        (r.height - (y + 1)) * (r.width * channels + 1) + (r.width * channels + 1) := by
      rw [← Nat.succ_mul]
      congr 1
      omega
    rw [List.range_succ, List.flatMap_append, List.flatMap_singleton, hearlier, hline, hfiltered,
      set_append hlen.symm (by rw [length_zeros, hleft, List.length_singleton]; omega),
      set_append (by rw [List.length_append, hlen, List.length_singleton])
        (by rw [List.length_drop, length_zeros, hleft, hreslen, List.length_singleton]; omega),
      List.drop_drop, zeros, List.drop_replicate, hreslen, List.length_singleton, hleft, List.append_assoc, List.append_assoc,
      List.append_assoc, List.append_assoc]
    congr 4
    omega

/-- **What is compressed**: the lines, each of a filter that is known. -/
theorem filtered_eq (hchannels : channels = 3 ∨ channels = 4) (hwide : 0 < r.width) :
    ∃ filters : Nat → Nat, (∀ j, filters j ≤ 4) ∧ filtered r channels = (List.range r.height).flatMap
    (line r channels filters) := by
  have hrows : ∀ rows, rows ≤ r.height → ∃ filters : Nat → Nat, (∀ j, filters j ≤ 4) ∧
      Encoded r channels filters rows (encodeRows r channels rows) := by
    intro rows hrows
    induction rows with
    | zero =>
      exact ⟨fun _ => 0, fun _ => Nat.zero_le 4, rfl, length_zeros _, length_zeros _, length_zeros _, rfl⟩
    | succ rows ih =>
      obtain ⟨filters, hknown, hencoded⟩ := ih (by omega)
      have hsucc : encodeRows r channels (rows + 1) = encodeRow r channels (encodeRows r channels rows) rows := by
        rw [encodeRows, List.range_succ, List.foldl_append]
        rfl
      rw [hsucc]
      exact hencoded.step hchannels hwide hrows hknown
  obtain ⟨filters, hknown, hencoded⟩ := hrows r.height (Nat.le_refl _)
  refine ⟨filters, hknown, ?_⟩
  rw [filtered, hencoded.filtered, Nat.sub_self, Nat.zero_mul, zeros, List.replicate_zero, List.append_nil]

end

/-! ## What the parts come to -/

/-- **The parts of the IDAT chunk are the chunk** of all that was compressed. -/
theorem flatten_idat (z : Zlib) (b : Bytes) : (idat z b).flatten = chunk idatType (z.deflate (slices b)).flatten := by
  have hfold : ∀ (pieces : List Bytes) (crc : UInt32) (length : Nat),
      pieces.foldl tally (crc, length) = (crcUpdate crc pieces.flatten, length + pieces.flatten.length) := by
    intro pieces
    induction pieces with
    | nil => exact fun _ _ => rfl
    | cons value pieces ih =>
      intro crc length
      rw [List.foldl_cons, tally, ih, List.flatten_cons, crcUpdate_append, List.length_append, Nat.add_assoc]
  have hidat : idat z b = [uint32 (z.deflate (slices b)).flatten.length ++ latin1 idatType] ++ z.deflate (slices b) ++
      [uint32 (crc32 (latin1 idatType ++ (z.deflate (slices b)).flatten))] := by
    rw [idat, hfold, Nat.zero_add, crc32, crcUpdate_append]
  rw [hidat, chunk, List.flatten_append, List.flatten_append, List.flatten_singleton, List.flatten_singleton]

theorem flatten_slices (b : Bytes) : (slices b).flatten = b := by
  have hpos : 0 < deflateSlice := by decide
  have htaken : ∀ n, ((List.range n).map (fun k =>
      subarray b (k * deflateSlice) (k * deflateSlice + deflateSlice))).flatten = subarray b 0 (n * deflateSlice) := by
    intro n
    have := flatMap_subarray b 0 deflateSlice n
    simp only [Nat.zero_add] at this
    rw [← this]
    rfl
  have hall : b.length ≤ (b.length + (deflateSlice - 1)) / deflateSlice * deflateSlice := by
    generalize deflateSlice = slice at hpos
    have hdiv := Nat.div_add_mod (b.length + (slice - 1)) slice
    have hmod := Nat.mod_lt (b.length + (slice - 1)) hpos
    rw [Nat.mul_comm] at hdiv
    omega
  rw [slices, htaken, subarray, List.take_of_length_le hall, List.drop_zero]

end Png
end Dormouse

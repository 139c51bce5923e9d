import Dormouse.PngColor
import Dormouse.PngEncode
/-!
# PngDecode — a PNG's pixels

`inflate`, `expandRow` and `decodePng` of `dor-tools-builtin/viewer/image/png.ts`.  An 8-bit image without interlacing is unfiltered
row by row into the raster; any other is unfiltered pass by pass, and its samples scaled to 8 bits.
-/
namespace Dormouse
namespace Png

open ByteRows Image

def endsLate : JsString := units "The PNG holds more data than its size."
def noHeader : JsString := units "The PNG has no header."
def unknownFormat : JsString := units "The PNG has an unknown format."
def tooLarge : JsString := units "The PNG is too large to edit."
def noPalette : JsString := units "The PNG has no palette."
def lacksColor : JsString := units "The PNG uses a color its palette lacks."

/-- What is read so far, with each piece that comes; at most `size` bytes. -/
def collect (size : Nat) : List Bytes → Bytes → Except JsString Bytes
  | [],              out => .ok out
  | value :: pieces, out => if out.length + value.length > size then .error endsLate else collect size pieces (out ++ value)

/-- Exactly `size` bytes when `exact`, else at most `size`. -/
def inflate (z : Zlib) (parts : List Bytes) (size : Nat) (exactly : Bool) : Except JsString Bytes := do
  let stream := z.inflate parts
  let out ← collect size stream.pieces []
  match stream.failure with
  | some e => .error e
  | none   => if exactly ∧ out.length ≠ size then .error endsEarly else .ok out

/-! ## The header -/

/-- `CHANNELS`: samples per pixel, by color type. -/
def channelsOf : Nat → Option Nat
  | 0 => some 1
  | 2 => some 3
  | 3 => some 1
  | 4 => some 2
  | 6 => some 4
  | _ => none

/-- `DEPTHS`. -/
def depthsOf : Nat → List Nat
  | 0 => [1, 2, 4, 8, 16]
  | 2 => [8, 16]
  | 3 => [1, 2, 4, 8]
  | 4 => [8, 16]
  | 6 => [8, 16]
  | _ => []

def maxPixels : Nat := 2 ^ 27

structure Header where
  width      : Nat
  height     : Nat
  depth      : Nat
  colorType  : Nat
  channels   : Nat
  interlaced : Bool
  deriving DecidableEq

def readHeader (chunks : List Chunk) : Except JsString Header :=
  match chunks.head? with
  | none      => .error noHeader
  | some ihdr =>
    if ihdr.type ≠ ihdrType ∨ ihdr.data.length ≠ 13 then .error noHeader
    else
      let width := getUint32 ihdr.data 0
      let height := getUint32 ihdr.data 4
      let depth := (byte ihdr.data 8).toNat
      let colorType := (byte ihdr.data 9).toNat
      match channelsOf colorType with
      | none          => .error unknownFormat
      | some channels =>
        if depth ∉ depthsOf colorType ∨ byte ihdr.data 10 ≠ 0 ∨ byte ihdr.data 11 ≠ 0 ∨ 1 < byte ihdr.data 12 then
          .error unknownFormat
        else if width = 0 ∨ height = 0 ∨ width * height > maxPixels then .error tooLarge
        else .ok ⟨width, height, depth, colorType, channels, byte ihdr.data 12 ≠ 0⟩

def find (chunks : List Chunk) (type : JsString) : Option Bytes := (chunks.find? (fun c => c.type = type)).map Chunk.data

def plteType : JsString := units "PLTE"
def trnsType : JsString := units "tRNS"
def cicpType : JsString := units "cICP"
def iccpType : JsString := units "iCCP"
def exifType : JsString := units "eXIf"

/-! ## Color -/

/-- The profile a chunk carries after its name, terminator and compression method, inflated. -/
def readProfile (z : Zlib) (iccp : Bytes) : Except SaveNote Bytes :=
  let start := match iccp.idxOf? 0 with
    | some i => i + 2
    | none   => 1
  rgbProfile (inflate z [iccp.drop start] (64 * 2 ^ 20) false).toOption

def profileOf (z : Zlib) (chunks : List Chunk) : Option Bytes :=
  (find chunks iccpType).bind (fun iccp => (readProfile z iccp).toOption)

def notesOf (z : Zlib) (chunks : List Chunk) (depth : Nat) : List SaveNote :=
  (if depth = 16 then [.depth16] else []) ++
    match (find chunks iccpType).map (readProfile z) with
    | some (.error note) => [note]
    | _                  => []

def spaceOf (z : Zlib) (chunks : List Chunk) : Space :=
  match find chunks cicpType, profileOf z chunks with
  | some cicp, _            => cicpSpace cicp
  | none,      some profile => iccSpace profile
  | none,      none         => .srgb

/-- `KEPT`. -/
def keptTypes : List JsString := [iccpType, units "sRGB", units "gAMA", units "cHRM", cicpType]

/-- The chunks a save keeps; an `iCCP` only with an RGB profile. -/
def kept (z : Zlib) (chunks : List Chunk) : List Bytes :=
  (chunks.filter (fun c => c.type ∈ keptTypes ∧ (c.type ≠ iccpType ∨ (profileOf z chunks).isSome))).map Chunk.raw

/-! ## Passes -/

/-- One of `ADAM7`'s, or the only one: first row, first column, row step, column step. -/
structure Pass where
  r0 : Nat
  c0 : Nat
  dr : Nat
  dc : Nat

def passes (interlaced : Bool) : List Pass :=
  if interlaced then
    [⟨0, 0, 8, 8⟩, ⟨0, 4, 8, 8⟩, ⟨4, 0, 8, 4⟩, ⟨0, 2, 4, 4⟩, ⟨2, 0, 4, 2⟩, ⟨0, 1, 2, 2⟩, ⟨1, 0, 2, 1⟩]
  else [⟨0, 0, 1, 1⟩]

/-- `Math.ceil` of a quotient. -/
def ceilDiv (n d : Nat) : Nat := (n + (d - 1)) / d

def Header.bits (h : Header) : Nat := h.channels * h.depth

def Header.bpp (h : Header) : Nat := max 1 (h.bits / 8)

def Pass.columns (p : Pass) (h : Header) : Nat := if h.width > p.c0 then ceilDiv (h.width - p.c0) p.dc else 0

def Pass.rows (p : Pass) (h : Header) : Nat :=
  if p.columns h = 0 then 0 else if h.height > p.r0 then ceilDiv (h.height - p.r0) p.dr else 0

def Pass.rowBytes (p : Pass) (h : Header) : Nat := ceilDiv (p.columns h * h.bits) 8

def Header.size (h : Header) : Nat := ((passes h.interlaced).map (fun p => p.rows h * (1 + p.rowBytes h))).sum

/-! ## Row by row -/

def lut (h : Header) (plte trns : Bytes) (key : Option (List Nat)) (e : Nat) : Bytes :=
  if h.colorType = 3 then [byte plte (3 * e), byte plte (3 * e + 1), byte plte (3 * e + 2), trns.getD e 255]
  else [UInt8.ofNat e, UInt8.ofNat e, UInt8.ofNat e, if key.bind List.head? = some e then 0 else 255]

/-- A scanline of 8-bit samples as RGBA; `key` is the color that is transparent, and the first `entries` of `lut` exist. -/
def expandRow (colorType : Nat) (row : Bytes) (lut : Nat → Bytes) (entries : Nat) (key : Option (List Nat)) :
    Except JsString Bytes :=
  match colorType with
  | 2 => .ok ((List.range (row.length / 3)).flatMap (fun p =>
      subarray row (p * 3) (p * 3 + 3) ++
        [if key = some ((subarray row (p * 3) (p * 3 + 3)).map UInt8.toNat) then 0 else 255]))
  | 4 => .ok ((List.range (row.length / 2)).flatMap (fun p =>
      let gray := byte row (p * 2)
      [gray, gray, gray, byte row (p * 2 + 1)]))
  | _ => if row.all (fun e => e.toNat < entries) then .ok (row.flatMap (fun e => lut e.toNat)) else .error lacksColor

structure Decoding where
  prev : Bytes
  cur  : Bytes
  out  : Raster

def decodeRow (h : Header) (plte trns : Bytes) (key : Option (List Nat)) (raw : Bytes) (d : Decoding) (y : Nat) :
    Except JsString Decoding := do
  let rowBytes := ceilDiv (h.width * h.bits) 8
  let pos := y * (rowBytes + 1)
  let src := subarray raw (pos + 1) (pos + 1 + rowBytes)
  let filter := (byte raw pos).toNat
  if h.colorType = 6 then
    -- the row is the raster's own, and so is the row above but for the first
    let o := y * rowBytes
    let row ← unfilterRow filter src (subarray d.out.data o (o + rowBytes))
      (if y = 0 then d.prev else subarray d.out.data (o - rowBytes) o) 4
    return { d with out := d.out.set row o }
  else
    let row ← unfilterRow filter src d.cur d.prev h.bpp
    let entries := if h.colorType = 3 then min 256 (plte.length / 3) else 256
    let pixels ← expandRow h.colorType row (lut h plte trns key) entries key
    return ⟨row, d.prev, d.out.set pixels (y * h.width * 4)⟩

def decodeRows (h : Header) (plte trns : Bytes) (key : Option (List Nat)) (raw : Bytes) : Nat → Except JsString Decoding
  | 0     => .ok ⟨zeros (ceilDiv (h.width * h.bits) 8), zeros (ceilDiv (h.width * h.bits) 8), createRaster h.width h.height⟩
  | y + 1 => do
    let d ← decodeRows h plte trns key raw y
    decodeRow h plte trns key raw d y

/-! ## Pass by pass -/

/-- The rows of a pass unfiltered, one after another, from `pos` of the data on. -/
def unfilterPass (raw : Bytes) (pos rowBytes bpp : Nat) : Nat → Except JsString (List Bytes)
  | 0     => .ok []
  | y + 1 => do
    let rows ← unfilterPass raw pos rowBytes bpp y
    let start := pos + y * (rowBytes + 1)
    let row ← unfilterRow (byte raw start).toNat (subarray raw (start + 1) (start + 1 + rowBytes)) (zeros rowBytes)
      (rows.getLast?.getD (zeros rowBytes)) bpp
    return rows ++ [row]

/-- Sample `i` of a row. -/
def sample (depth : Nat) (row : Bytes) (i : Nat) : Nat :=
  if depth = 8 then (byte row i).toNat
  else if depth = 16 then (byte row (2 * i)).toNat * 256 + (byte row (2 * i + 1)).toNat
  else (byte row (i * depth / 8)).toNat / 2 ^ (8 - depth - i * depth % 8) % 2 ^ depth

def to8 (depth v : Nat) : UInt8 := UInt8.ofNat (if depth = 16 then (2 * v + 257) / 514 else v * 255 / (2 ^ depth - 1))

def pixelOf (h : Header) (plte trns : Bytes) (key : Option (List Nat)) (s : List Nat) : Except JsString Bytes :=
  let gray := to8 h.depth (s.getD 0 0)
  if h.colorType = 3 then
    let e := s.getD 0 0
    if 3 * e + 2 ≥ plte.length then .error lacksColor
    else .ok [byte plte (3 * e), byte plte (3 * e + 1), byte plte (3 * e + 2), trns.getD e 255]
  else
    let colors := if h.channels < 3 then [gray, gray, gray] else [gray, to8 h.depth (s.getD 1 0), to8 h.depth (s.getD 2 0)]
    let alpha :=
      if h.colorType = 4 then to8 h.depth (s.getD 1 0)
      else if h.colorType = 6 then to8 h.depth (s.getD 3 0)
      else if key = some s then 0 else 255
    .ok (colors ++ [alpha])

def decodePass (h : Header) (plte trns : Bytes) (key : Option (List Nat)) (raw : Bytes) (d : Raster × Nat) (p : Pass) :
    Except JsString (Raster × Nat) := do
  let rows ← unfilterPass raw d.2 (p.rowBytes h) h.bpp (p.rows h)
  let places := (List.range (p.rows h)).flatMap (fun y => (List.range (p.columns h)).map (fun x => (x, y)))
  let out ← places.foldlM (fun (out : Raster) (x, y) => do
    let samples := (List.range h.channels).map (fun ch => sample h.depth (rows.getD y []) (x * h.channels + ch))
    let pixel ← pixelOf h plte trns key samples
    return out.set pixel (((p.r0 + y * p.dr) * h.width + p.c0 + x * p.dc) * 4)) d.1
  return (out, d.2 + p.rows h * (p.rowBytes h + 1))

/-! ## The whole -/

def keyOf (h : Header) (trns : Option Bytes) : Option (List Nat) :=
  if h.colorType = 0 ∨ h.colorType = 2 then
    trns.map (fun trns => (List.range h.channels).map (fun i =>
      (byte trns (2 * i)).toNat * 256 + (byte trns (2 * i + 1)).toNat))
  else none

def decodeRaster (h : Header) (chunks : List Chunk) (raw : Bytes) : Except JsString Raster :=
  let plte := (find chunks plteType).getD []
  let trns := (find chunks trnsType).getD []
  let key := keyOf h (find chunks trnsType)
  if h.interlaced = false ∧ h.depth = 8 then (decodeRows h plte trns key raw h.height).map Decoding.out
  else ((passes h.interlaced).foldlM (decodePass h plte trns key raw) (createRaster h.width h.height, 0)).map Prod.fst

structure DecodedPng where
  raster  : Raster
  space   : Space
  keep    : List Bytes
  profile : Option Bytes
  notes   : List SaveNote

def decodePng (z : Zlib) (bytes : Bytes) : Except JsString DecodedPng := do
  let chunks ← readChunks bytes
  let h ← readHeader chunks
  if h.colorType = 3 ∧ find chunks plteType = none then .error noPalette
  else
    let raw ← inflate z ((chunks.filter (fun c => c.type = idatType)).map Chunk.data) h.size true
    let out ← decodeRaster h chunks raw
    return {
      raster  := orient out (match find chunks exifType with
        | some exif => exifOrientation exif
        | none      => 1)
      space   := spaceOf z chunks
      keep    := kept z chunks
      profile := profileOf z chunks
      notes   := notesOf z chunks h.depth
    }

/-! ## What an image that decodes kept -/

/-- **A decoded source's chunks**: what it keeps is what `kept` picks of them. -/
theorem decodePng_keep {z : Zlib} {bytes : Bytes} {d : DecodedPng} (h : decodePng z bytes = .ok d) :
    ∃ chunks, readChunks bytes = .ok chunks ∧ d.keep = kept z chunks := by
  unfold decodePng at h
  cases hchunks : readChunks bytes with
  | error e => rw [hchunks] at h; cases h
  | ok chunks =>
  rw [hchunks] at h
  refine ⟨chunks, rfl, ?_⟩
  change (readHeader chunks >>= _) = _ at h
  cases hheader : readHeader chunks with
  | error e => rw [hheader] at h; cases h
  | ok header =>
  rw [hheader] at h
  change (if _ then _ else _) = _ at h
  split at h
  · cases h
  · generalize inflate z _ _ _ = raw at h
    cases raw with
    | error e => cases h
    | ok raw =>
    change (decodeRaster header chunks raw >>= _) = _ at h
    cases hraster : decodeRaster header chunks raw with
    | error e => rw [hraster] at h; cases h
    | ok out =>
    rw [hraster] at h
    cases h
    rfl

end Png
end Dormouse

import Dormouse.PngChunks
import Dormouse.OrdMap
import Dormouse.TermText
/-!
# PngColor — what a source's metadata says of its color

`dor-tools-builtin/viewer/image/icc.ts`, and `cicpMeaning` and the orientation of `exifFields` of `src/image-editability.ts`.  The
colorants are compared as rationals: none of the stored values is near enough to a bound for a double to tell otherwise.
-/
namespace Dormouse
namespace Png

open ByteRows

/-- `PredefinedColorSpace`, of which the editor shows two. -/
inductive Space where
  | srgb
  | displayP3
  deriving DecidableEq

/-- Why a save differs from its source, of the reasons a PNG has. -/
inductive SaveNote where
  | depth16
  | profileDropped (space : JsString)
  deriving DecidableEq

/-- An RGB profile, else why a save drops it.  One shorter than its header is unreadable. -/
def rgbProfile (icc : Option Bytes) : Except SaveNote Bytes :=
  match icc with
  | none     => .error (.profileDropped [])
  | some icc =>
    let space := if 128 ≤ icc.length then Term.trim (ascii icc 16 20) else []
    if space = units "RGB" then .ok icc else .error (.profileDropped space)

/-! ## `cICP` -/

structure CicpMeaning where
  hdr       : Bool
  sdr       : Bool
  fullRange : Bool
  p3        : Bool

def cicpMeaning (data : Bytes) : CicpMeaning where
  hdr       := data[1]?.any [16, 18].contains
  sdr       := data[1]?.any [1, 6, 13, 14, 15].contains
  fullRange := data[3]? = some 1
  p3        := data[0]? = some 12

def cicpSpace (data : Bytes) : Space :=
  let meaning := cicpMeaning data
  if meaning.sdr && meaning.fullRange && meaning.p3 then .displayP3 else .srgb

/-! ## ICC profiles -/

/-- A tag's text, of `textDescriptionType` or of `multiLocalizedUnicodeType`. -/
def description (tag : Option Bytes) : JsString :=
  match tag with
  | none     => []
  | some tag =>
    if tag.length < 12 then []
    else if ascii tag 0 4 = units "desc" then
      ((ascii tag 12 (min tag.length (12 + getUint32 tag 8))).reverse.dropWhile (· = 0)).reverse
    else if ascii tag 0 4 ≠ units "mluc" ∨ tag.length < 28 then []
    else
      let offset := getUint32 tag 24
      (List.range ((min tag.length (offset + getUint32 tag 20) - offset) / 2)).map (fun k =>
        UInt16.ofNat (bigEndian (subarray tag (offset + 2 * k) (offset + 2 * k + 2))))

def lowerCase (c : UInt16) : UInt16 := if 0x41 ≤ c ∧ c ≤ 0x5a then c + 0x20 else c

/-- `getInt32` of a view. -/
def getInt32 (b : Bytes) (pos : Nat) : Int :=
  let n := getUint32 b pos
  if n < 2 ^ 31 then n else n - 2 ^ 32

/-- `P3_COLORANTS`. -/
def p3Colorants : List ℚ :=
  [5151 / 10000, 2412 / 10000, -11 / 10000, 2919 / 10000, 6922 / 10000, 419 / 10000, 1572 / 10000, 666 / 10000, 7841 / 10000]

/-- The tags of a profile's table that are inside it, a later one over an earlier one. -/
def iccTags (profile : Bytes) : OrdMap JsString Bytes :=
  (List.range (min (getUint32 profile 128) ((profile.length - 132) / 12))).foldl (fun tags i =>
    let pos := 132 + 12 * i
    let offset := getUint32 profile (pos + 4)
    let size := getUint32 profile (pos + 8)
    if offset + size ≤ profile.length then tags.set (ascii profile pos (pos + 4)) (subarray profile offset (offset + size))
    else tags) OrdMap.empty

def iccSpace (profile : Bytes) : Space :=
  if profile.length < 132 ∨ ascii profile 36 40 ≠ units "acsp" then .srgb
  else
    let tags := iccTags profile
    if units "display p3" <:+: (description (tags.get (units "desc"))).map lowerCase then .displayP3
    else
      let xyz := [units "rXYZ", units "gXYZ", units "bXYZ"].flatMap (fun sig =>
        match tags.get sig with
        | none     => []
        | some tag => if tag.length < 20 then [] else [8, 12, 16].map (fun pos => (getInt32 tag pos : ℚ) / 65536))
      if xyz.length = 9 ∧ ∀ p ∈ p3Colorants.zip xyz, |p.1 - p.2| < 1 / 50 then .displayP3 else .srgb

/-! ## EXIF -/

/-- A number of `n` bytes, in the order the block says. -/
def getUint (little : Bool) (b : Bytes) (pos n : Nat) : Nat :=
  let part := subarray b pos (pos + n)
  bigEndian (if little then part.reverse else part)

def exifOrientation (tiff : Bytes) : Nat :=
  if tiff.length < 8 then 1
  else
    let little : Bool := subarray tiff 0 2 = [0x49, 0x49]
    if !little && !(subarray tiff 0 2 = [0x4d, 0x4d]) then 1
    else
      let ifd := getUint little tiff 4 4
      if ifd + 2 > tiff.length then 1
      else (List.range (min (getUint little tiff ifd 2) ((tiff.length - (ifd + 2)) / 12))).foldl (fun orientation i =>
        let pos := ifd + 2 + 12 * i
        let o := getUint little tiff (pos + 8) 2
        if getUint little tiff pos 2 = 0x0112 ∧ getUint little tiff (pos + 2) 2 = 3 ∧ 1 ≤ o ∧ o ≤ 8 then o else orientation) 1

end Png
end Dormouse

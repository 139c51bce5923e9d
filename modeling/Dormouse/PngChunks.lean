import Dormouse.ByteRows
import Dormouse.Js
import Mathlib.Data.UInt
/-!
# PngChunks — the chunks of a PNG

`ascii`, `latin1` and `isPng` of `dor-tools-builtin/src/image-format.ts`, and `crc32`, `readChunks` and `chunk` of
`viewer/image/png.ts`.  A chunk read is `Whole`: what was stored is what `chunk` makes of its type and its data.  Chunks laid one
after another are read back as they were (`readChunks_append`).
-/
namespace Dormouse
namespace Png

open ByteRows

abbrev Bytes := List UInt8

/-- `b[start, stop)` as Latin-1 text. -/
def ascii (b : Bytes) (start stop : Nat) : JsString := (subarray b start stop).map UInt8.toUInt16

def latin1 (s : JsString) : Bytes := s.map UInt16.toUInt8

/-- `PNG_SIGNATURE`. -/
def signature : Bytes := [0x89, 0x50, 0x4e, 0x47, 0x0d, 0x0a, 0x1a, 0x0a]

def isPng (b : Bytes) : Bool := (subarray b 0 8) = signature

/-! ## Numbers -/

def bigEndian (b : Bytes) : Nat := b.foldl (fun n x => n * 256 + x.toNat) 0

/-- `getUint32` of a view, where four bytes are left. -/
def getUint32 (b : Bytes) (pos : Nat) : Nat := bigEndian (subarray b pos (pos + 4))

/-- What `setUint32` stores. -/
def uint32 (n : Nat) : Bytes := [UInt8.ofNat (n / 2 ^ 24), UInt8.ofNat (n / 2 ^ 16), UInt8.ofNat (n / 2 ^ 8), UInt8.ofNat n]

@[simp] theorem length_uint32 (n : Nat) : (uint32 n).length = 4 := rfl

theorem bigEndian_uint32 {n : Nat} (h : n < 2 ^ 32) : bigEndian (uint32 n) = n := by
  simp only [bigEndian, uint32, List.foldl_cons, List.foldl_nil, UInt8.toNat_ofNat']
  omega

theorem uint32_bigEndian {b : Bytes} (h : b.length = 4) : uint32 (bigEndian b) = b := by
  match b, h with
  | [w, x, y, z], _ =>
    have hw := w.toNat_lt
    have hx := x.toNat_lt
    have hy := y.toNat_lt
    have hz := z.toNat_lt
    simp only [bigEndian, uint32, List.foldl_cons, List.foldl_nil, List.cons.injEq, and_true, ← UInt8.toNat_inj,
      UInt8.toNat_ofNat']
    omega

theorem bigEndian_lt {b : Bytes} (h : b.length = 4) : bigEndian b < 2 ^ 32 := by
  match b, h with
  | [w, x, y, z], _ =>
    have hw := w.toNat_lt
    have hx := x.toNat_lt
    have hy := y.toNat_lt
    have hz := z.toNat_lt
    simp only [bigEndian, List.foldl_cons, List.foldl_nil]
    omega

/-! ## CRC-32 -/

/-- An entry of `CRC_TABLE`. -/
def crcTable (n : UInt32) : UInt32 :=
  (List.range 8).foldl (fun (n : UInt32) _ => if n &&& 1 ≠ 0 then (0xedb88320 : UInt32) ^^^ (n >>> 1) else n >>> 1) n

def crcUpdate (c : UInt32) (b : Bytes) : UInt32 := b.foldl (fun c x => crcTable ((c ^^^ x.toUInt32) &&& 255) ^^^ (c >>> 8)) c

def crc32 (b : Bytes) : Nat := (~~~ crcUpdate (~~~ 0) b).toNat

theorem crcUpdate_append (c : UInt32) (a b : Bytes) : crcUpdate c (a ++ b) = crcUpdate (crcUpdate c a) b := List.foldl_append

theorem crc32_lt (b : Bytes) : crc32 b < 2 ^ 32 := UInt32.toNat_lt _

/-! ## Chunks -/

structure Chunk where
  type : JsString
  data : Bytes
  /-- Length, type, data and CRC, as stored. -/
  raw  : Bytes
  deriving DecidableEq

def chunk (type : JsString) (data : Bytes) : Bytes :=
  uint32 data.length ++ latin1 type ++ data ++ uint32 (crc32 (latin1 type ++ data))

def iend : JsString := units "IEND"

def notPng : JsString := units "Not a PNG."
def endsEarly : JsString := units "The PNG ends early."
def corrupt (type : JsString) : JsString := units "The PNG's " ++ type ++ units " chunk is corrupt."

/-- The chunks from `pos` through IEND, `fuel` of them at most: each takes twelve bytes, so that the bytes end before it does. -/
def readFrom (bytes : Bytes) : Nat → Nat → Except JsString (List Chunk)
  | 0,        _   => .error endsEarly
  | fuel + 1, pos =>
    if pos + 12 > bytes.length then .error endsEarly
    else
      let stop := pos + 12 + getUint32 bytes pos
      if stop > bytes.length then .error endsEarly
      else
        let type := ascii bytes (pos + 4) (pos + 8)
        if crc32 (subarray bytes (pos + 4) (stop - 4)) ≠ getUint32 bytes (stop - 4) then .error (corrupt type)
        else
          let read : Chunk := ⟨type, subarray bytes (pos + 8) (stop - 4), subarray bytes pos stop⟩
          if type = iend then .ok [read] else (readFrom bytes fuel stop).map (fun rest => read :: rest)

def readChunks (bytes : Bytes) : Except JsString (List Chunk) :=
  if isPng bytes then readFrom bytes bytes.length 8 else .error notPng

/-- The chunk is one `chunk` makes: four characters of type, and data its length can tell. -/
structure Chunk.Whole (c : Chunk) : Prop where
  named  : c.type.length = 4
  latin  : ∀ u ∈ c.type, u < 256
  short  : c.data.length < 2 ^ 32
  stored : c.raw = chunk c.type c.data

theorem map_toUInt16_latin1 {s : JsString} (h : ∀ u ∈ s, u < 256) : (latin1 s).map UInt8.toUInt16 = s := by
  rw [latin1, List.map_map]
  conv => rhs; rw [← List.map_id s]
  refine List.map_congr_left (fun u hu => ?_)
  have hlt : u.toNat < 256 := UInt16.lt_iff_toNat_lt.1 (h u hu)
  refine UInt16.toNat_inj.1 ?_
  show u.toUInt8.toUInt16.toNat = u.toNat
  rw [UInt8.toNat_toUInt16, UInt16.toNat_toUInt8]
  omega

theorem latin1_ascii (b : Bytes) (start stop : Nat) : latin1 (ascii b start stop) = subarray b start stop := by
  rw [latin1, ascii, List.map_map]
  conv => rhs; rw [← List.map_id (subarray b start stop)]
  exact List.map_congr_left (fun x _ => UInt8.toUInt8_toUInt16 x)

theorem ascii_lt {b : Bytes} {start stop : Nat} : ∀ u ∈ ascii b start stop, u < 256 := by
  intro u hu
  obtain ⟨x, -, rfl⟩ := List.mem_map.1 hu
  refine UInt16.lt_iff_toNat_lt.2 ?_
  rw [UInt8.toNat_toUInt16]
  exact x.toNat_lt

@[simp] theorem length_latin1 (s : JsString) : (latin1 s).length = s.length := List.length_map _

/-! ## What is read -/

/-- **A chunk in its place is read**, and reading goes on after it. -/
theorem readFrom_append {c : Chunk} (hc : c.Whole) {bytes before after : Bytes} (h : bytes = before ++ (c.raw ++ after))
    (fuel : Nat) : readFrom bytes (fuel + 1) before.length =
      if c.type = iend then .ok [c] else (readFrom bytes fuel (before ++ c.raw).length).map (fun rest => c :: rest) := by
  obtain ⟨hnamed, hlatin, hshort, hstored⟩ := hc
  have htype : (latin1 c.type).length = 4 := by rw [length_latin1, hnamed]
  have hraw : c.raw.length = c.data.length + 12 := by
    rw [hstored, chunk]
    simp only [List.length_append, length_uint32, htype]
    omega
  have hlen : bytes.length = before.length + (c.data.length + 12) + after.length := by
    rw [h, List.length_append, List.length_append, hraw]
    omega
  have hall : ∃ sum, bytes = before ++ (uint32 c.data.length ++ (latin1 c.type ++ (c.data ++ (sum ++ after)))) ∧
      sum = uint32 (crc32 (latin1 c.type ++ c.data)) := by
    refine ⟨_, ?_, rfl⟩
    rw [h, hstored, chunk]
    simp only [List.append_assoc]
  obtain ⟨sum, hall, hsum⟩ := hall
  have hsize : subarray bytes before.length (before.length + 4) = uint32 c.data.length := subarray_append hall rfl rfl
  have hlength : getUint32 bytes before.length = c.data.length := by rw [getUint32, hsize, bigEndian_uint32 hshort]
  have hstop : before.length + 12 + c.data.length - 4 = before.length + 8 + c.data.length := by omega
  have hname : ascii bytes (before.length + 4) (before.length + 8) = c.type := by
    have hpart : subarray bytes (before.length + 4) (before.length + 8) = latin1 c.type := by
      refine subarray_append (a := before ++ uint32 c.data.length) (c := c.data ++ (sum ++ after)) ?_ ?_ ?_
      · rw [hall, List.append_assoc]
      · rw [List.length_append, length_uint32]
      · rw [List.length_append, length_uint32, htype]
    rw [ascii, hpart, map_toUInt16_latin1 hlatin]
  have hdata : subarray bytes (before.length + 8) (before.length + 8 + c.data.length) = c.data := by
    refine subarray_append (a := before ++ uint32 c.data.length ++ latin1 c.type) (c := sum ++ after) ?_ ?_ ?_
    · rw [hall]; simp only [List.append_assoc]
    · simp only [List.length_append, length_uint32, htype]
    · simp only [List.length_append, length_uint32, htype]
  have hbody : subarray bytes (before.length + 4) (before.length + 8 + c.data.length) = latin1 c.type ++ c.data := by
    refine subarray_append (a := before ++ uint32 c.data.length) (c := sum ++ after) ?_ ?_ ?_
    · rw [hall]; simp only [List.append_assoc]
    · rw [List.length_append, length_uint32]
    · simp only [List.length_append, length_uint32, htype]
      omega
  have hcrc : getUint32 bytes (before.length + 8 + c.data.length) = crc32 (latin1 c.type ++ c.data) := by
    have hpart : subarray bytes (before.length + 8 + c.data.length) (before.length + 8 + c.data.length + 4) = sum := by
      refine subarray_append (a := before ++ uint32 c.data.length ++ latin1 c.type ++ c.data) (c := after) ?_ ?_ ?_
      · rw [hall]; simp only [List.append_assoc]
      · simp only [List.length_append, length_uint32, htype]
      · simp only [List.length_append, length_uint32, htype, hsum]
    rw [getUint32, hpart, hsum, bigEndian_uint32 (crc32_lt _)]
  have hwhole : subarray bytes before.length (before.length + 12 + c.data.length) = c.raw :=
    subarray_append h rfl (by omega)
  have hend : (before ++ c.raw).length = before.length + 12 + c.data.length := by
    rw [List.length_append]
    omega
  rw [readFrom, if_neg (by omega), hlength]
  dsimp only
  rw [if_neg (by omega), hstop, hbody, hcrc, if_neg (by simp), hname, hdata, hwhole, hend]

/-- **Chunks laid one after another are read back**, up to the first that ends the image. -/
theorem readFrom_chunks {last : Chunk} (hlast : last.Whole) (hend : last.type = iend) : ∀ (cs : List Chunk)
    (fuel : Nat) (bytes before : Bytes), (∀ c ∈ cs, c.Whole ∧ c.type ≠ iend) → cs.length < fuel →
    bytes = before ++ (cs.flatMap Chunk.raw ++ last.raw) → readFrom bytes fuel before.length = .ok (cs ++ [last])
  | _, 0, _, _, _, hfuel, _ => absurd hfuel (Nat.not_lt_zero _)
  | [], fuel + 1, bytes, before, _, _, h => by
    have hbytes : bytes = before ++ (last.raw ++ []) := by rw [h]; simp
    rw [readFrom_append hlast hbytes, if_pos hend]
    rfl
  | c :: cs, fuel + 1, bytes, before, hcs, hfuel, h => by
    obtain ⟨hc, hne⟩ := hcs c List.mem_cons_self
    have hsplit : bytes = before ++ (c.raw ++ (cs.flatMap Chunk.raw ++ last.raw)) := by
      rw [h, List.flatMap_cons, List.append_assoc]
    have hrest : bytes = (before ++ c.raw) ++ (cs.flatMap Chunk.raw ++ last.raw) := by rw [hsplit, List.append_assoc]
    rw [readFrom_append hc hsplit, if_neg hne,
      readFrom_chunks hlast hend cs fuel bytes _ (fun d hd => hcs d (List.mem_cons_of_mem c hd)) (Nat.lt_of_succ_lt_succ hfuel)
        hrest]
    rfl

theorem length_raw_pos {c : Chunk} (hc : c.Whole) : 0 < c.raw.length := by
  rw [hc.stored, chunk]
  simp only [List.length_append, length_uint32]
  omega

theorem readChunks_append {cs : List Chunk} {last : Chunk} (hcs : ∀ c ∈ cs, c.Whole ∧ c.type ≠ iend) (hlast : last.Whole)
    (hend : last.type = iend) : readChunks (signature ++ (cs.flatMap Chunk.raw ++ last.raw)) = .ok (cs ++ [last]) := by
  have hcount : ∀ ds : List Chunk, (∀ d ∈ ds, d.Whole ∧ d.type ≠ iend) → ds.length ≤ (ds.flatMap Chunk.raw).length := by
    intro ds
    induction ds with
    | nil => exact fun _ => Nat.zero_le _
    | cons d ds ih =>
      intro hds
      have hpos := length_raw_pos (hds d List.mem_cons_self).1
      have hrest := ih (fun d' hd => hds d' (List.mem_cons_of_mem d hd))
      rw [List.flatMap_cons, List.length_append, List.length_cons]
      omega
  have hpng : isPng (signature ++ (cs.flatMap Chunk.raw ++ last.raw)) = true := by
    exact decide_eq_true (subarray_append (a := []) (b := signature) (c := cs.flatMap Chunk.raw ++ last.raw) rfl rfl rfl)
  rw [readChunks, if_pos hpng]
  refine readFrom_chunks hlast hend cs _ _ signature hcs ?_ rfl
  have := hcount cs hcs
  have := length_raw_pos hlast
  simp only [List.length_append]
  omega

/-- **Every chunk read is whole.** -/
theorem readFrom_whole {bytes : Bytes} : ∀ {fuel pos : Nat} {cs : List Chunk}, readFrom bytes fuel pos = .ok cs →
    ∀ c ∈ cs, c.Whole
  | 0, _, _, h => nomatch h
  | fuel + 1, pos, cs, h => by
    simp only [readFrom] at h
    split at h
    · cases h
    · next hroom =>
      split at h
      · cases h
      · next hfits =>
        split at h
        · cases h
        · next hcrc =>
          generalize hlength : getUint32 bytes pos = length at h hfits hcrc
          have hstop : pos + 12 + length - 4 = pos + 8 + length := by omega
          rw [hstop] at h hcrc
          have hfour : ∀ start, start + 4 ≤ bytes.length → (subarray bytes start (start + 4)).length = 4 := by
            intro start hle
            rw [length_subarray hle]
            omega
          have hwhole : (⟨ascii bytes (pos + 4) (pos + 8), subarray bytes (pos + 8) (pos + 8 + length),
              subarray bytes pos (pos + 12 + length)⟩ : Chunk).Whole := by
            have hdata : (subarray bytes (pos + 8) (pos + 8 + length)).length = length := by
              rw [length_subarray (by omega)]
              omega
            refine ⟨?_, ascii_lt, ?_, ?_⟩
            · rw [ascii, List.length_map]
              exact hfour (pos + 4) (by omega)
            · rw [hdata, ← hlength]
              exact bigEndian_lt (hfour pos (by omega))
            · have hbody : subarray bytes (pos + 4) (pos + 8) ++ subarray bytes (pos + 8) (pos + 8 + length) =
                  subarray bytes (pos + 4) (pos + 8 + length) := subarray_split _ (by omega) (by omega)
              have hsum : uint32 (crc32 (subarray bytes (pos + 4) (pos + 8 + length))) =
                  subarray bytes (pos + 8 + length) (pos + 12 + length) := by
                rw [not_not.1 hcrc, getUint32, uint32_bigEndian (hfour _ (by omega))]
                congr 1
                omega
              have hsize : uint32 length = subarray bytes pos (pos + 4) := by
                rw [← hlength, getUint32, uint32_bigEndian (hfour pos (by omega))]
              rw [chunk, hdata, latin1_ascii, hbody, hsum, List.append_assoc (uint32 length), hbody, hsize,
                subarray_split _ (by omega) (by omega), subarray_split _ (by omega) (by omega)]
          split at h
          · cases h
            intro c hc
            rw [List.mem_singleton.1 hc]
            exact hwhole
          · cases hrest : readFrom bytes fuel (pos + 12 + length) with
            | error e => rw [hrest] at h; cases h
            | ok rest =>
              rw [hrest] at h
              cases h
              intro c hc
              rcases List.mem_cons.1 hc with rfl | hc
              · exact hwhole
              · exact readFrom_whole hrest c hc

theorem readChunks_whole {bytes : Bytes} {cs : List Chunk} (h : readChunks bytes = .ok cs) : ∀ c ∈ cs, c.Whole := by
  unfold readChunks at h
  split at h
  · exact readFrom_whole h
  · cases h

end Png
end Dormouse

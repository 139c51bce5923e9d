import Dormouse.PngDecode
/-!
# PngRoundTrip — saving a PNG keeps every pixel

What `encodePng` writes, `decodePng` reads back: the raster pixel for pixel, and the chunks a source kept.  Row by row the decoder
has the raster up to the row it is at (`Decoded`); chunk by chunk, what was kept is found where it was found in the source
(`profileOf_saved`).
-/
namespace Dormouse
namespace Png

open ByteRows Image

section

variable {r : Raster} {channels : Nat}

/-! ## Rows -/

def savedHeader (r : Raster) (channels : Nat) : Header := ⟨r.width, r.height, 8, if channels = 3 then 2 else 6, channels, false⟩

theorem rowBytes_saved (h : Header) (hbits : h.bits = channels * 8) : ceilDiv (h.width * h.bits) 8 = h.width * channels := by
  rw [ceilDiv, hbits]
  have : h.width * (channels * 8) = h.width * channels * 8 := by ring
  rw [this]
  omega

section

variable {filters : Nat → Nat}

theorem read_line (hchannels : channels = 3 ∨ channels = 4) (hknown : ∀ j, filters j ≤ 4) {y : Nat} (hy : y < r.height) :
    (byte ((List.range r.height).flatMap (line r channels filters)) (y * (r.width * channels + 1))).toNat = filters y ∧
      subarray ((List.range r.height).flatMap (line r channels filters)) (y * (r.width * channels + 1) + 1)
        (y * (r.width * channels + 1) + 1 + r.width * channels) =
          residue (filters y) channels (scanline r channels y) (above r channels y) := by
  have hlen : ∀ j < r.height, (line r channels filters j).length = r.width * channels + 1 :=
    fun j hj => length_line hchannels filters hj
  constructor
  · have hfirst := getElem?_rows (k := 0) (Nat.succ_pos (r.width * channels)) hlen hy
    rw [Nat.add_zero] at hfirst
    rw [byte, List.getD_eq_getElem?_getD, hfirst, line, List.getElem?_cons_zero, Option.getD_some, UInt8.toNat_ofNat']
    have := hknown y
    omega
  · have hpart := subarray_rows 1 (Nat.le_refl (r.width * channels + 1)) hlen hy
    rw [Nat.add_assoc, Nat.add_comm 1 (r.width * channels), hpart, line, subarray, List.take_of_length_le, List.drop_succ_cons,
      List.drop_zero]
    rw [List.length_cons, length_residue, length_scanline hchannels hy]

end

/-- After `y` rows the raster is the saved one's as far as they reach. -/
structure Decoded (r : Raster) (y : Nat) (out : Raster) : Prop where
  width  : out.width = r.width
  height : out.height = r.height
  data   : out.data = subarray r.data 0 (y * r.width * 4) ++ zeros ((r.height - y) * r.width * 4)

theorem rows_fit (r : Raster) {y : Nat} (hy : y < r.height) : y * r.width * 4 + r.width * 4 ≤ r.data.length := by
  have : (y + 1) * r.width * 4 ≤ r.height * r.width * 4 := Nat.mul_le_mul_right 4 (Nat.mul_le_mul_right _ hy)
  rw [Nat.succ_mul, Nat.add_mul] at this
  rw [r.size, Nat.mul_comm r.width r.height]
  exact this

theorem length_decoded (r : Raster) {y : Nat} (hy : y ≤ r.height) :
    (subarray r.data 0 (y * r.width * 4)).length = y * r.width * 4 := by
  have : y * r.width * 4 ≤ r.height * r.width * 4 := Nat.mul_le_mul_right 4 (Nat.mul_le_mul_right _ hy)
  rw [length_subarray (by rw [r.size, Nat.mul_comm r.width r.height]; exact this), Nat.sub_zero]

/-- **A row put in its place.** -/
theorem Decoded.set {y : Nat} {out : Raster} (h : Decoded r y out) (hy : y < r.height) :
    Decoded r (y + 1) (out.set (subarray r.data (y * r.width * 4) (y * r.width * 4 + r.width * 4)) (y * r.width * 4)) := by
  obtain ⟨hwidth, hheight, hdata⟩ := h
  refine ⟨hwidth, hheight, ?_⟩
  have hrow : (subarray r.data (y * r.width * 4) (y * r.width * 4 + r.width * 4)).length = r.width * 4 := by
    rw [length_subarray (rows_fit r hy)]
    omega
  have hleft : (r.height - y) * r.width * 4 = (r.height - (y + 1)) * r.width * 4 + r.width * 4 := by
    rw [← Nat.add_mul, ← Nat.succ_mul]
    congr 2
    omega
  show ByteRows.set out.data _ _ = _
  rw [hdata, set_append (length_decoded r (Nat.le_of_lt hy)).symm (by rw [hrow, length_zeros, hleft]; omega), hrow,
    subarray_split r.data (Nat.zero_le _) (Nat.le_add_right _ _), Nat.succ_mul, Nat.add_mul, zeros, zeros, List.drop_replicate,
    hleft, Nat.add_sub_cancel]

theorem Decoded.all {out : Raster} (h : Decoded r r.height out) : out = r := by
  obtain ⟨width, height, data, size⟩ := out
  obtain ⟨hwidth, hheight, hdata⟩ := h
  obtain rfl : width = r.width := hwidth
  obtain rfl : height = r.height := hheight
  have hsame : data = r.data := by
    have hsize : r.height * r.width * 4 = r.data.length := by rw [r.size, Nat.mul_comm r.width]
    rw [Nat.sub_self, Nat.zero_mul, Nat.zero_mul, zeros, List.replicate_zero, List.append_nil, hsize, subarray_all] at hdata
    exact hdata
  subst hsame
  rfl

theorem scanline_four (r : Raster) (y : Nat) : scanline r 4 y = subarray r.data (y * r.width * 4)
    (y * r.width * 4 + r.width * 4) := by
  rw [scanline, if_neg (by decide), Nat.succ_mul, Nat.add_mul]

theorem expandRow_scanline (hsolid : isOpaque r = true) {y : Nat} (hy : y < r.height) (table : Nat → Bytes) (entries : Nat) :
    expandRow 2 (scanline r 3 y) table entries none = .ok (subarray r.data (y * r.width * 4)
      (y * r.width * 4 + r.width * 4)) := by
  have hfit := rows_fit r hy
  have hthree : ∀ x < r.width,
      (subarray r.data (y * r.width * 4 + x * 4) (y * r.width * 4 + x * 4 + 3)).length = 3 := by
    intro x hx
    rw [length_subarray (by omega)]
    omega
  have hpixel : ∀ x < r.width, subarray (scanline r 3 y) (x * 3) (x * 3 + 3) ++ [255] =
      subarray r.data (y * r.width * 4 + x * 4) (y * r.width * 4 + x * 4 + 4) := by
    intro x hx
    have hcolors : subarray (scanline r 3 y) (x * 3) (x * 3 + 3) =
        subarray r.data (y * r.width * 4 + x * 4) (y * r.width * 4 + x * 4 + 3) := by
      have hpart := subarray_rows 0 (Nat.le_refl 3) hthree hx
      rw [Nat.add_zero] at hpart
      rw [scanline, if_pos rfl, hpart]
      conv => lhs; arg 3; rw [← hthree x hx]
      exact subarray_all _
    have halpha : subarray r.data (y * r.width * 4 + x * 4 + 3) (y * r.width * 4 + x * 4 + 4) = [255] := by
      have hall := List.all_eq_true.1 hsolid (y * r.width + x) (List.mem_range.2 (by nlinarith))
      have hplace : (y * r.width + x) * 4 + 3 = y * r.width * 4 + x * 4 + 3 := by ring
      rw [hplace, List.getD_eq_getElem?_getD, List.getElem?_eq_getElem (by omega), Option.getD_some, decide_eq_true_eq] at hall
      refine List.ext_getElem? (fun i => ?_)
      rw [getElem?_subarray]
      cases i with
      | zero => rw [if_pos (by omega), Nat.add_zero, List.getElem?_eq_getElem (by omega), hall]; rfl
      | succ i => rw [if_neg (by omega)]; rfl
    rw [hcolors, ← halpha, subarray_split r.data (by omega) (by omega)]
  have hcount : (scanline r 3 y).length / 3 = r.width := by
    rw [length_scanline (Or.inl rfl) hy]
    omega
  rw [expandRow, hcount, ← flatMap_subarray r.data (y * r.width * 4) 4 r.width]
  refine congrArg Except.ok (List.flatMap_congr (fun x hx => ?_))
  rw [if_neg (by simp), hpixel x (List.mem_range.1 hx)]

/-- After `y` rows, with the row above where the next row looks for it. -/
structure Rows (r : Raster) (channels y : Nat) (d : Decoding) : Prop where
  out  : Decoded r y d.out
  prev : d.prev = if channels = 4 then zeros (r.width * 4) else above r channels y
  cur  : d.cur.length = r.width * channels

section

variable {filters : Nat → Nat}

/-- **A row is read back.** -/
theorem Rows.step (plte trns : Bytes) (hknown : ∀ j, filters j ≤ 4) {y : Nat} {d : Decoding}
    (hchannels : channels = 3 ∧ isOpaque r = true ∨ channels = 4) (h : Rows r channels y d) (hy : y < r.height) :
    ∃ d', decodeRow (savedHeader r channels) plte trns none ((List.range r.height).flatMap (line r channels filters))
    d y = .ok d' ∧
      Rows r channels (y + 1) d' := by
  have hthreefour : channels = 3 ∨ channels = 4 := hchannels.imp_left And.left
  obtain ⟨hdone, hprev, hcur⟩ := h
  obtain ⟨hfilter, hsrc⟩ := read_line (r := r) hthreefour hknown hy
  have hbytes : ceilDiv ((savedHeader r channels).width * (savedHeader r channels).bits) 8 = r.width * channels :=
    rowBytes_saved _ rfl
  rcases hchannels with ⟨rfl, hsolid⟩ | rfl
  · have hrow : unfilterRow (filters y) (residue (filters y) 3 (scanline r 3 y) (above r 3 y)) d.cur d.prev 3 =
        .ok (scanline r 3 y) := by
      rw [hprev, if_neg (by decide)]
      exact unfilterRow_residue (hknown y) (by decide) (hcur.trans (length_scanline hthreefour hy).symm)
    refine ⟨⟨scanline r 3 y, d.prev,
      d.out.set (subarray r.data (y * r.width * 4) (y * r.width * 4 + r.width * 4)) (y * r.width * 4)⟩,
      ?_, hdone.set hy, ?_, ?_⟩
    · unfold decodeRow
      dsimp only
      rw [if_neg (show ¬(savedHeader r 3).colorType = 6 from (by decide : ¬(2 : Nat) = 6)), hbytes, hfilter, hsrc]
      have hbpp : (savedHeader r 3).bpp = 3 := (by decide : max 1 (3 * 8 / 8) = 3)
      have hexpand (table : Nat → Bytes) (entries : Nat) : expandRow (savedHeader r 3).colorType
        (scanline r 3 y) table entries none =
          .ok (subarray r.data (y * r.width * 4) (y * r.width * 4 + r.width * 4)) := expandRow_scanline hsolid hy table entries
      rw [hbpp, hrow]
      simp only [bind, Except.bind, hexpand]
      rfl
    · rw [if_neg (by decide), above, if_neg (Nat.succ_ne_zero y), Nat.add_sub_cancel]
    · rw [hprev, if_neg (by decide)]
      exact length_above hthreefour hy
  · have hwide : d.out.data.length = r.width * r.height * 4 := by rw [d.out.size, hdone.width, hdone.height]
    have hfit : y * (r.width * 4) + r.width * 4 ≤ d.out.data.length := by
      have := rows_fit r hy
      rw [r.size] at this
      rw [hwide, ← Nat.mul_assoc]
      exact this
    have habove : (if y = 0 then d.prev else subarray d.out.data (y * (r.width * 4) - r.width * 4) (y * (r.width * 4))) =
        above r 4 y := by
      rw [above]
      by_cases hzero : y = 0
      · rw [if_pos hzero, if_pos hzero, hprev, if_pos rfl]
      · obtain ⟨k, rfl⟩ := Nat.exists_eq_succ_of_ne_zero hzero
        have hstart : (k + 1) * (r.width * 4) - r.width * 4 = k * r.width * 4 := by
          rw [Nat.succ_mul, Nat.add_sub_cancel, Nat.mul_assoc]
        have hstop : (k + 1) * (r.width * 4) = k * r.width * 4 + r.width * 4 := by rw [Nat.succ_mul, Nat.mul_assoc]
        rw [if_neg hzero, if_neg hzero, Nat.succ_sub_one, scanline_four, hstart, hstop, hdone.data]
        have hreach : (k + 1) * r.width * 4 = k * r.width * 4 + r.width * 4 := by rw [Nat.succ_mul, Nat.add_mul]
        have hcover : k * r.width * 4 + r.width * 4 ≤ (subarray r.data 0 ((k + 1) * r.width * 4)).length := by
          rw [length_decoded r (Nat.le_of_lt hy), hreach]
        rw [subarray, List.take_append_of_le_length hcover, hreach, subarray, List.drop_zero, List.take_take, Nat.min_self,
          ← subarray]
    have hsame : (subarray d.out.data (y * (r.width * 4)) (y * (r.width * 4) + r.width * 4)).length =
      (scanline r 4 y).length := by
      rw [length_subarray hfit, length_scanline hthreefour hy]
      omega
    refine ⟨{ d with out := d.out.set (subarray r.data (y * r.width * 4) (y * r.width * 4 + r.width * 4)) (y * r.width * 4) },
      ?_, hdone.set hy, hprev, hcur⟩
    unfold decodeRow
    dsimp only
    rw [if_pos (show (savedHeader r 4).colorType = 6 from rfl), hbytes, hfilter, hsrc, habove,
      unfilterRow_residue (hknown y) (by decide) hsame, scanline_four]
    show Except.ok _ = Except.ok _
    rw [Nat.mul_assoc y]

/-- **Every row is read back.** -/
theorem decodeRows_saved (plte trns : Bytes) (hknown : ∀ j, filters j ≤ 4)
    (hchannels : channels = 3 ∧ isOpaque r = true ∨ channels = 4) :
    ∀ y, y ≤ r.height → ∃ d, decodeRows (savedHeader r channels) plte trns none
      ((List.range r.height).flatMap (line r channels filters)) y = .ok d ∧ Rows r channels y d
  | 0, _ => by
    have hbytes : ceilDiv ((savedHeader r channels).width * (savedHeader r channels).bits) 8 = r.width * channels :=
      rowBytes_saved _ rfl
    refine ⟨_, rfl, ⟨rfl, rfl, ?_⟩, ?_, ?_⟩
    · show List.replicate (r.width * r.height * 4) 0 = _
      rw [Nat.zero_mul, Nat.zero_mul, subarray, List.take_zero, List.drop_nil, List.nil_append, Nat.sub_zero,
        Nat.mul_comm r.width]
      rfl
    · dsimp only
      rw [hbytes, above, if_pos rfl]
      split
      · next hfour => rw [hfour]
      · rfl
    · dsimp only
      rw [hbytes]
      exact length_zeros _
  | y + 1, hy => by
    obtain ⟨d, hd, hrows⟩ := decodeRows_saved plte trns hknown hchannels y (by omega)
    obtain ⟨d', hd', hrows'⟩ := hrows.step plte trns hknown hchannels hy
    refine ⟨d', ?_, hrows'⟩
    rw [decodeRows, hd]
    exact hd'

end

end

/-! ## Chunks -/

def written (type : JsString) (data : Bytes) : Chunk := ⟨type, data, chunk type data⟩

theorem whole_written {type : JsString} {data : Bytes} (hnamed : type.length = 4) (hlatin : ∀ u ∈ type, u < 256)
    (hshort : data.length < 2 ^ 32) : (written type data).Whole := ⟨hnamed, hlatin, hshort, rfl⟩

section

variable {z : Zlib}

/-- The chunks of a saved image but the last: its header, those it keeps, its resolution and its pixels. -/
def saved (r : Raster) (channels : Nat) (keep : List Chunk) (resolution : Option Resolution) (data : Bytes) : List Chunk :=
  [written ihdrType (header r channels)] ++ keep ++ (resolution.map (fun p => written physType (physData p))).toList ++
    [written idatType data]

def keptChunks (z : Zlib) (chunks : List Chunk) : List Chunk :=
  chunks.filter (fun c => c.type ∈ keptTypes ∧ (c.type ≠ iccpType ∨ (profileOf z chunks).isSome))

variable {chunks : List Chunk}

theorem mem_keptChunks {c : Chunk} (h : c ∈ keptChunks z chunks) : c ∈ chunks ∧ c.type ∈ keptTypes := by
  obtain ⟨hmem, hkept⟩ := List.mem_filter.1 h
  exact ⟨hmem, (of_decide_eq_true hkept).1⟩

theorem names_eq : (iend = [0x49, 0x45, 0x4e, 0x44] ∧ ihdrType = [0x49, 0x48, 0x44, 0x52] ∧
    idatType = [0x49, 0x44, 0x41, 0x54] ∧
    physType = [0x70, 0x48, 0x59, 0x73]) ∧ (plteType = [0x50, 0x4c, 0x54, 0x45] ∧ trnsType = [0x74, 0x52, 0x4e, 0x53] ∧
    exifType = [0x65, 0x58, 0x49, 0x66]) ∧ keptTypes = [[0x69, 0x43, 0x43, 0x50], [0x73, 0x52, 0x47, 0x42],
    [0x67, 0x41, 0x4d, 0x41],
      [0x63, 0x48, 0x52, 0x4d], [0x63, 0x49, 0x43, 0x50]] := by
  refine ⟨⟨?_, ?_, ?_, ?_⟩, ⟨?_, ?_, ?_⟩, ?_⟩
  iterate 7 decide +kernel
  simp only [keptTypes, List.cons.injEq, and_true]
  refine ⟨?_, ?_, ?_, ?_, ?_⟩ <;> decide +kernel

theorem not_kept : ∀ type ∈ [iend, ihdrType, idatType, physType, plteType, trnsType, exifType], type ∉ keptTypes := by
  obtain ⟨⟨hiend, hihdr, hidat, hphys⟩, ⟨hplte, htrns, hexif⟩, hkept⟩ := names_eq
  rw [hkept, hiend, hihdr, hidat, hphys, hplte, htrns, hexif]
  decide

theorem written_names : ∀ type ∈ [iend, ihdrType, idatType, physType], type.length = 4 ∧ ∀ u ∈ type, u < 256 := by
  obtain ⟨⟨hiend, hihdr, hidat, hphys⟩, -⟩ := names_eq
  rw [hiend, hihdr, hidat, hphys]
  simp only [List.forall_mem_cons, List.not_mem_nil, false_imp_iff, implies_true, and_true]
  decide

variable {type : JsString}

theorem not_find (h : ∀ c ∈ chunks, c.type ≠ type) : find chunks type = none := by
  rw [find, List.find?_eq_none.2 (fun c hc => by simpa using h c hc)]
  rfl

theorem find_keptChunks (hkept : type ∈ keptTypes) (hprofile : type ≠ iccpType ∨ (profileOf z chunks).isSome) :
    find (keptChunks z chunks) type = find chunks type := by
  rw [find, find, keptChunks, List.find?_filter]
  congr 2
  funext c
  by_cases hc : c.type = type
  · rw [hc]
    simp only [hkept, hprofile, and_self, decide_true]
  · simp [hc]

variable {r : Raster} {channels : Nat} {chunks : List Chunk} {resolution : Option Resolution} {data : Bytes}

theorem filter_saved (p : Chunk → Bool) (hp : ∀ c, c.type ∈ [iend, ihdrType, idatType, physType] → p c = false) :
    (saved r channels (keptChunks z chunks) resolution data ++ [written iend []]).filter p =
    (keptChunks z chunks).filter p := by
  have hihdr : p (written ihdrType (header r channels)) = false := hp _ (List.mem_cons_of_mem _ List.mem_cons_self)
  have hidat : p (written idatType data) = false := hp _ (List.mem_cons_of_mem _ (List.mem_cons_of_mem _ List.mem_cons_self))
  have hiend : p (written iend []) = false := hp _ List.mem_cons_self
  have hphys : (resolution.map (fun q => written physType (physData q))).toList.filter p = [] := by
    refine List.filter_eq_nil_iff.2 (fun c hc => ?_)
    obtain ⟨q, -, rfl⟩ := Option.map_eq_some_iff.1 (Option.mem_toList.1 hc)
    rw [hp _ (List.mem_cons_of_mem _ (List.mem_cons_of_mem _ (List.mem_cons_of_mem _ List.mem_cons_self)))]
    exact Bool.false_ne_true
  rw [saved]
  simp only [List.filter_append, List.filter_cons, List.filter_nil, hihdr, hidat, hiend, hphys, Bool.false_eq_true, if_false,
    List.nil_append, List.append_nil]

/-- **What is found in a saved image** of a type a save does not write is found among what it keeps. -/
theorem find_saved (h : type ∉ [iend, ihdrType, idatType, physType]) :
    find (saved r channels (keptChunks z chunks) resolution data ++ [written iend []]) type =
    find (keptChunks z chunks) type := by
  rw [find, find, ← List.head?_filter, ← List.head?_filter, filter_saved]
  intro c hc
  have hne : c.type ≠ type := fun heq => h (heq ▸ hc)
  simp [hne]

theorem written_not_kept (h : type ∈ [iend, ihdrType, idatType, physType]) : type ∉ keptTypes := by
  refine not_kept type ?_
  simp only [List.mem_cons, List.not_mem_nil, or_false] at h ⊢
  tauto

theorem profileOf_saved :
    profileOf z (saved r channels (keptChunks z chunks) resolution data ++ [written iend []]) = profileOf z chunks := by
  have hiccp : iccpType ∈ keptTypes := List.mem_cons_self
  have hfind : find (saved r channels (keptChunks z chunks) resolution data ++ [written iend []]) iccpType =
      find (keptChunks z chunks) iccpType := find_saved (fun hmem => written_not_kept hmem hiccp)
  cases hprofile : profileOf z chunks with
  | some profile =>
    rw [profileOf, hfind, find_keptChunks hiccp (Or.inr (by rw [hprofile]; rfl)), ← profileOf, hprofile]
  | none =>
    have hnone : find (keptChunks z chunks) iccpType = none := by
      refine not_find (fun c hc hiccp => ?_)
      have hkept := (of_decide_eq_true (List.mem_filter.1 hc).2).2
      rw [hprofile] at hkept
      exact hkept.elim (fun hne => hne hiccp) Bool.false_ne_true
    rw [profileOf, hfind, hnone]
    rfl

/-- **What a save keeps it keeps again.** -/
theorem kept_saved : kept z (saved r channels (keptChunks z chunks) resolution data ++ [written iend []]) = kept z chunks := by
  have hfilter := @filter_saved z r channels chunks resolution data (fun c => c.type ∈ keptTypes ∧
    (c.type ≠ iccpType ∨ (profileOf z chunks).isSome))
    (fun c hc => decide_eq_false (fun hkept => written_not_kept hc hkept.1))
  rw [kept, profileOf_saved, hfilter, keptChunks, List.filter_filter]
  simp only [Bool.and_self]
  rfl

theorem readHeader_saved {rest : List Chunk} (hchannels : channels = 3 ∨ channels = 4) (hwide : 1 ≤ r.width)
    (htall : 1 ≤ r.height)
    (hsize : r.width * r.height ≤ maxPixels) :
    readHeader (written ihdrType (header r channels) :: rest) = .ok (savedHeader r channels) := by
  have hmax : maxPixels = 2 ^ 27 := rfl
  have hw : r.width < 2 ^ 32 := by
    have := Nat.le_mul_of_pos_right r.width htall
    omega
  have hh : r.height < 2 ^ 32 := by
    have := Nat.le_mul_of_pos_left r.height hwide
    omega
  have hwidth : getUint32 (header r channels) 0 = r.width := bigEndian_uint32 hw
  have hheight : getUint32 (header r channels) 4 = r.height := bigEndian_uint32 hh
  rw [readHeader]
  dsimp only [List.head?_cons, written]
  rw [if_neg (by rintro (hne | hne) <;> exact hne rfl), hwidth, hheight]
  rcases hchannels with rfl | rfl
  · show (if (8 : Nat) ∉ [8, 16] ∨ (0 : UInt8) ≠ 0 ∨ (0 : UInt8) ≠ 0 ∨ (1 : UInt8) < 0 then _ else _) = _
    rw [if_neg (by decide), if_neg (by omega)]
    rfl
  · show (if (8 : Nat) ∉ [8, 16] ∨ (0 : UInt8) ≠ 0 ∨ (0 : UInt8) ≠ 0 ∨ (1 : UInt8) < 0 then _ else _) = _
    rw [if_neg (by decide), if_neg (by omega)]
    rfl

theorem whole_saved (hwhole : ∀ c ∈ chunks, c.Whole) (hshort : data.length < 2 ^ 32) :
    ∀ c ∈ saved r channels (keptChunks z chunks) resolution data, c.Whole ∧ c.type ≠ iend := by
  intro c hc
  simp only [saved, List.mem_append, List.mem_singleton, Option.mem_toList, Option.map_eq_some_iff] at hc
  rcases hc with (((rfl | hc) | ⟨p, -, rfl⟩) | rfl)
  · obtain ⟨hnamed, hlatin⟩ := written_names ihdrType (List.mem_cons_of_mem _ List.mem_cons_self)
    exact ⟨whole_written hnamed hlatin (by show 13 < 2 ^ 32; decide), (by decide +kernel : ihdrType ≠ iend)⟩
  · obtain ⟨hmem, hkept⟩ := mem_keptChunks hc
    exact ⟨hwhole c hmem, fun heq => not_kept iend List.mem_cons_self (heq ▸ hkept)⟩
  · obtain ⟨hnamed, hlatin⟩ := written_names physType (List.mem_cons_of_mem _ (List.mem_cons_of_mem _ (List.mem_cons_of_mem _
      List.mem_cons_self)))
    exact ⟨whole_written hnamed hlatin (by show 9 < 2 ^ 32; decide), (by decide +kernel : physType ≠ iend)⟩
  · obtain ⟨hnamed, hlatin⟩ := written_names idatType (List.mem_cons_of_mem _ (List.mem_cons_of_mem _ List.mem_cons_self))
    exact ⟨whole_written hnamed hlatin hshort, (by decide +kernel : idatType ≠ iend)⟩

theorem flatten_parts {b : Bytes} :
    ([signature, chunk ihdrType (header r channels)] ++ kept z chunks ++ (resolution.map phys).toList ++ idat z b ++
        [chunk iend []]).flatten =
      signature ++ ((saved r channels (keptChunks z chunks) resolution (z.deflate (slices b)).flatten).flatMap Chunk.raw ++
        (written iend []).raw) := by
  have hphys : ((resolution.map (fun p => written physType (physData p))).toList).flatMap Chunk.raw =
      ((resolution.map phys).toList).flatten := by
    cases resolution <;> rfl
  have hkept : (keptChunks z chunks).flatMap Chunk.raw = (kept z chunks).flatten := List.flatMap_def ..
  simp only [saved, List.flatMap_append, List.flatten_append, List.flatten_cons, List.flatten_nil, List.flatMap_cons,
    List.flatMap_nil, List.append_nil, flatten_idat, hphys, hkept, List.append_assoc]
  rfl

theorem missing_saved : ∀ type ∈ [plteType, trnsType, exifType],
    find (saved r channels (keptChunks z chunks) resolution data ++ [written iend []]) type = none := by
  have hothers : ∀ type ∈ [plteType, trnsType, exifType], type ∉ [iend, ihdrType, idatType, physType] ∧ type ∉ keptTypes := by
    simp only [List.forall_mem_cons, List.not_mem_nil, false_imp_iff, implies_true, and_true]
    decide +kernel
  intro type htype
  obtain ⟨hnot, hnotKept⟩ := hothers type htype
  rw [find_saved hnot]
  exact not_find (fun c hc heq => hnotKept (heq ▸ (mem_keptChunks hc).2))

theorem idat_saved : ((saved r channels (keptChunks z chunks) resolution data ++ [written iend []]).filter
    (fun c => c.type = idatType)).map Chunk.data = [data] := by
  have hnone : (keptChunks z chunks).filter (fun c => c.type = idatType) = [] := by
    refine List.filter_eq_nil_iff.2 (fun c hc hidat => ?_)
    exact written_not_kept (List.mem_cons_of_mem _ (List.mem_cons_of_mem _ List.mem_cons_self))
      (of_decide_eq_true hidat ▸ (mem_keptChunks hc).2)
  have hphys : ((resolution.map (fun p => written physType (physData p))).toList).filter (fun c => c.type = idatType) = [] := by
    refine List.filter_eq_nil_iff.2 (fun c hc hidat => ?_)
    obtain ⟨p, -, rfl⟩ := Option.map_eq_some_iff.1 (Option.mem_toList.1 hc)
    exact (by decide +kernel : physType ≠ idatType) (of_decide_eq_true hidat)
  have hihdr : ihdrType ≠ idatType := by decide +kernel
  have hiend : iend ≠ idatType := by decide +kernel
  simp only [saved, List.filter_append, hnone, hphys, List.append_nil]
  simp [written, hihdr, hiend]

/-! ## The whole -/

theorem collect_all {size : Nat} : ∀ {pieces : List Bytes} {out : Bytes}, out.length + pieces.flatten.length ≤ size →
    collect size pieces out = .ok (out ++ pieces.flatten)
  | [], out, _ => by
    rw [collect, List.flatten_nil, List.append_nil]
  | value :: pieces, out, h => by
    rw [List.flatten_cons, List.length_append] at h
    rw [collect, if_neg (by omega), collect_all (by rw [List.length_append]; omega), List.flatten_cons, List.append_assoc]

theorem inflate_whole {parts : List Bytes} {b : Bytes} (hfailure : (z.inflate parts).failure = none)
    (hpieces : (z.inflate parts).pieces.flatten = b) : inflate z parts b.length true = .ok b := by
  have hcollect : collect b.length (z.inflate parts).pieces [] = .ok b := by
    rw [collect_all (by rw [hpieces, List.length_nil, Nat.zero_add]), hpieces, List.nil_append]
  unfold inflate
  simp only [hcollect, bind, Except.bind, hfailure]
  rw [if_neg (by simp)]

theorem inflate_slices (hz : z.Undoes) (b : Bytes) :
    inflate z [(z.deflate (slices b)).flatten] b.length true = .ok b := by
  obtain ⟨hfailure, hpieces⟩ := hz (slices b) [(z.deflate (slices b)).flatten] List.flatten_singleton
  rw [flatten_slices] at hpieces
  exact inflate_whole hfailure hpieces

theorem size_saved (r : Raster) (channels : Nat) (hwide : 1 ≤ r.width) :
    (savedHeader r channels).size = r.height * (r.width * channels + 1) := by
  have hcolumns : Pass.columns ⟨0, 0, 1, 1⟩ (savedHeader r channels) = r.width := by
    rw [Pass.columns, if_pos (by exact hwide), ceilDiv, Nat.div_one]
    rfl
  have hrowBytes : Pass.rowBytes ⟨0, 0, 1, 1⟩ (savedHeader r channels) = r.width * channels := by
    rw [Pass.rowBytes, hcolumns]
    exact rowBytes_saved (savedHeader r channels) rfl
  have hrows : Pass.rows ⟨0, 0, 1, 1⟩ (savedHeader r channels) = r.height := by
    rw [Pass.rows, hcolumns, if_neg (by omega)]
    show (if r.height > 0 then ceilDiv (r.height - 0) 1 else 0) = r.height
    rw [ceilDiv, Nat.div_one]
    split
    · rfl
    · omega
  have hpasses : passes (savedHeader r channels).interlaced = [⟨0, 0, 1, 1⟩] := rfl
  rw [Header.size, hpasses, List.map_singleton, List.sum_singleton, hrows, hrowBytes, Nat.add_comm 1]

theorem decodeRaster_saved (hwide : 1 ≤ r.width) (hchannels : channels = 3 ∧ isOpaque r = true ∨ channels = 4)
    (htrns : find chunks trnsType = none) :
    decodeRaster (savedHeader r channels) chunks (filtered r channels) = .ok r := by
  obtain ⟨filters, hknown, hlines⟩ := filtered_eq (r := r) (hchannels.imp_left And.left) hwide
  obtain ⟨d, hd, hrows⟩ := decodeRows_saved ((find chunks plteType).getD []) [] hknown hchannels r.height
    (Nat.le_refl _)
  have hkey : keyOf (savedHeader r channels) none = none := by
    rw [keyOf]
    split <;> rfl
  rw [decodeRaster, htrns, hkey, hlines, if_pos ⟨rfl, rfl⟩]
  show (decodeRows (savedHeader r channels) ((find chunks plteType).getD []) [] none _ r.height).map Decoding.out = _
  rw [hd]
  exact congrArg Except.ok hrows.out.all

/-- **Saving a PNG keeps every pixel**, in the RGB form exactly when all are opaque, and the chunks its source kept.  No chunks are
kept for a raster that had no source. -/
theorem saving_keeps_pixels (hz : z.Undoes) (r : Raster) (hwide : 1 ≤ r.width) (htall : 1 ≤ r.height)
    (hsize : r.width * r.height ≤ maxPixels) (keep : List Bytes)
    (hkeep : keep = [] ∨ ∃ source d, decodePng z source = .ok d ∧ d.keep = keep) (resolution : Option Resolution)
    (hshort : (z.deflate (slices (filtered r (if isOpaque r then 3 else 4)))).flatten.length < 2 ^ 32) :
    ∃ parts chunks h d, encodePng z r keep resolution = .ok parts ∧ readChunks parts.flatten = .ok chunks ∧
      readHeader chunks = .ok h ∧ decodePng z parts.flatten = .ok d ∧ d.raster = r ∧ d.keep = keep ∧
      (h.colorType = 2 ↔ ∀ x y, x < r.width → y < r.height → r.channel x y 3 = some 255) ∧
      (h.colorType = 2 ∨ h.colorType = 6) := by
  have hsource : ∃ chunks : List Chunk, (∀ c ∈ chunks, c.Whole) ∧ keep = kept z chunks := by
    rcases hkeep with rfl | ⟨source, d, hd, rfl⟩
    · exact ⟨[], by simp, rfl⟩
    · obtain ⟨chunks, hread, hkept⟩ := decodePng_keep hd
      exact ⟨chunks, readChunks_whole hread, hkept⟩
  obtain ⟨source, hwhole, rfl⟩ := hsource
  generalize hchannels : (if isOpaque r then 3 else 4) = channels at hshort
  have hform : channels = 3 ∧ isOpaque r = true ∨ channels = 4 ∧ isOpaque r = false := by
    rw [← hchannels]
    cases isOpaque r
    · exact Or.inr ⟨rfl, rfl⟩
    · exact Or.inl ⟨rfl, rfl⟩
  have hthreefour : channels = 3 ∨ channels = 4 := hform.imp And.left And.left
  let data := (z.deflate (slices (filtered r channels))).flatten
  let chunks := saved r channels (keptChunks z source) resolution data ++ [written iend []]
  let parts := [signature, chunk ihdrType (header r channels)] ++ kept z source ++ (resolution.map phys).toList ++
    idat z (filtered r channels) ++ [chunk iend []]
  have hencode : encodePng z r (kept z source) resolution = .ok parts := by
    rw [encodePng, if_neg (by omega), hchannels]
  have hbody := @whole_saved z r channels source resolution _ hwhole hshort
  have hlast : (written iend []).Whole := by
    obtain ⟨hnamed, hlatin⟩ := written_names iend List.mem_cons_self
    exact whole_written hnamed hlatin (by decide)
  have hflat : parts.flatten = signature ++ ((saved r channels (keptChunks z source) resolution data).flatMap Chunk.raw ++
      (written iend []).raw) := by
    exact flatten_parts
  have hread : readChunks parts.flatten = .ok chunks := by
    rw [hflat]
    exact readChunks_append hbody hlast rfl
  have hheader : readHeader chunks = .ok (savedHeader r channels) := readHeader_saved hthreefour hwide htall hsize
  have hmissing : ∀ type ∈ [plteType, trnsType, exifType], find chunks type = none := missing_saved
  have hidat : (chunks.filter (fun c => c.type = idatType)).map Chunk.data = [data] := idat_saved
  have hbytes : (savedHeader r channels).size = (filtered r channels).length := by
    obtain ⟨filters, -, hlines⟩ := filtered_eq (r := r) hthreefour hwide
    rw [size_saved r channels hwide, hlines, length_rows (fun j hj => length_line hthreefour filters hj)]
  have hraw : inflate z ((chunks.filter (fun c => c.type = idatType)).map Chunk.data) (savedHeader r channels).size true =
      .ok (filtered r channels) := by
    rw [hidat, hbytes]
    exact inflate_slices hz _
  have hraster : decodeRaster (savedHeader r channels) chunks (filtered r channels) = .ok r :=
    decodeRaster_saved hwide (hform.imp_right And.left) (hmissing trnsType (by simp))
  have hcolor : ¬((savedHeader r channels).colorType = 3 ∧ find chunks plteType = none) := by
    rintro ⟨hthree, -⟩
    rcases hthreefour with rfl | rfl <;> cases hthree
  have hdecode : decodePng z parts.flatten = .ok ⟨orient r 1, spaceOf z chunks, kept z chunks, profileOf z chunks,
      notesOf z chunks (savedHeader r channels).depth⟩ := by
    unfold decodePng
    rw [hread]
    simp only [bind, Except.bind, hheader, if_neg hcolor, hraw, hraster, hmissing exifType (by simp)]
    rfl
  refine ⟨parts, chunks, savedHeader r channels, _, hencode, hread, hheader, hdecode, rfl, kept_saved, ?_, ?_⟩
  · rw [← isOpaque_iff]
    rcases hform with ⟨rfl, hsolid⟩ | ⟨rfl, hsolid⟩
    · exact iff_of_true rfl hsolid
    · rw [hsolid]
      exact iff_of_false (by decide : ¬(6 : Nat) = 2) Bool.false_ne_true
  · rcases hthreefour with rfl | rfl
    · exact Or.inl rfl
    · exact Or.inr rfl

end

/-! A black pixel, from a source that says it is in sRGB; other data than the pixel's is stored behind a byte. -/

def blackPixel : Raster := ⟨1, 1, [0, 0, 0, 255], rfl⟩

def blackDeflated : Bytes := [0x78, 0x9c, 0x63, 0x60, 0x60, 0x60, 0x00, 0x00, 0x00, 0x04, 0x00, 0x01]

def blackZlib : Zlib where
  deflate := fun slices => if slices.flatten = zeros 4 then [blackDeflated] else [0 :: slices.flatten]
  inflate := fun parts =>
    if parts.flatten = blackDeflated then ⟨[zeros 4], none⟩
    else match parts.flatten with
      | 0 :: rest => ⟨[rest], none⟩
      | _         => ⟨[], some (units "incorrect header check")⟩

theorem blackZlib_undoes : blackZlib.Undoes := by
  intro slices parts h
  by_cases hblack : slices.flatten = zeros 4
  · have hparts : parts.flatten = blackDeflated := by
      rw [h]
      simp only [blackZlib, hblack, if_true]
      exact List.flatten_singleton
    simp only [blackZlib, hparts, if_true, hblack]
    exact ⟨trivial, List.flatten_singleton⟩
  · have hparts : parts.flatten = 0 :: slices.flatten := by
      rw [h]
      simp only [blackZlib, hblack, if_false]
      exact List.flatten_singleton
    have hne : ¬(0 :: slices.flatten = blackDeflated) := by
      intro heq
      exact absurd (List.cons.inj heq).1 (by decide)
    simp only [blackZlib, hparts, hne, if_false]
    exact ⟨trivial, List.flatten_singleton⟩

def srgbRaw : Bytes := [0x00, 0x00, 0x00, 0x01, 0x73, 0x52, 0x47, 0x42, 0x00, 0xae, 0xce, 0x1c, 0xe9]

def blackSource : Bytes :=
  signature ++
  [0x00, 0x00, 0x00, 0x0d, 0x49, 0x48, 0x44, 0x52, 0x00, 0x00, 0x00, 0x01, 0x00, 0x00, 0x00, 0x01, 0x08, 0x02, 0x00, 0x00, 0x00,
    0x90, 0x77, 0x53, 0xde] ++ srgbRaw ++
  [0x00, 0x00, 0x00, 0x0c, 0x49, 0x44, 0x41, 0x54, 0x78, 0x9c, 0x63, 0x60, 0x60, 0x60, 0x00, 0x00, 0x00, 0x04, 0x00, 0x01, 0xf6,
    0x17, 0x38, 0x55, 0x00, 0x00, 0x00, 0x00, 0x49, 0x45, 0x4e, 0x44, 0xae, 0x42, 0x60, 0x82]

theorem saving_keeps_black_pixel :
    ∃ parts chunks h d, encodePng blackZlib blackPixel [srgbRaw] (some ⟨.ofNat 2835, .ofNat 2835, false⟩) = .ok parts ∧
      readChunks parts.flatten = .ok chunks ∧ readHeader chunks = .ok h ∧ decodePng blackZlib parts.flatten = .ok d ∧
      d.raster = blackPixel ∧ d.keep = [srgbRaw] ∧
      (h.colorType = 2 ↔ ∀ x y, x < 1 → y < 1 → blackPixel.channel x y 3 = some 255) ∧ (h.colorType = 2 ∨ h.colorType = 6) := by
  have hkept : (decodePng blackZlib blackSource).toOption.map DecodedPng.keep = some [srgbRaw] := by decide +kernel
  have hsource : ∃ source d, decodePng blackZlib source = .ok d ∧ d.keep = [srgbRaw] := by
    cases hd : decodePng blackZlib blackSource with
    | error e => rw [hd] at hkept; cases hkept
    | ok d =>
      rw [hd] at hkept
      exact ⟨blackSource, d, hd, Option.some.inj hkept⟩
  exact saving_keeps_pixels blackZlib_undoes blackPixel (by decide) (by decide) (by decide) [srgbRaw] (Or.inr hsource)
    (some ⟨.ofNat 2835, .ofNat 2835, false⟩) (by decide +kernel)

end Png
end Dormouse

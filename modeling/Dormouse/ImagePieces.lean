import Dormouse.ImageHistory
/-!
# ImagePieces — the pixels an edit keeps, and trading them

`Pieces` keeps each tile as the edit found it, so putting the tiles back puts the raster back (`restore_intact`).  Tiles that
do not overlap trade their pixels with a raster, and traded again they are where they were (`swapTiles_swapTiles`).
-/
namespace Dormouse
namespace Image

open ByteRows

theorem foldl_reaches {α β γ : Type} {f : β → α → β} {P : β → Prop} {Q : γ → β → Prop} {G : α → γ → Prop} :
    ∀ (l : List α) (b : β), (∀ b, ∀ a ∈ l, P b → P (f b a) ∧ (∀ c, G a c → Q c (f b a)) ∧ ∀ c, Q c b → Q c (f b a)) → P b →
      P (l.foldl f b) ∧ (∀ a ∈ l, ∀ c, G a c → Q c (l.foldl f b)) ∧ ∀ c, Q c b → Q c (l.foldl f b)
  | [], b, _, hb => ⟨hb, fun _ ha => absurd ha List.not_mem_nil, fun _ h => h⟩
  | a :: l, b, h, hb => by
    obtain ⟨hP, hQ, hkeep⟩ := h b a List.mem_cons_self hb
    obtain ⟨hP', hQ', hkeep'⟩ := foldl_reaches l (f b a) (fun b a' ha' => h b a' (List.mem_cons_of_mem a ha')) hP
    refine ⟨hP', ?_, fun c hc => hkeep' c (hkeep c hc)⟩
    intro a' ha' c hc
    rcases List.mem_cons.1 ha' with rfl | ha'
    · exact hkeep' c (hQ c hc)
    · exact hQ' a' ha' c hc

namespace Pieces

variable {size : Nat} {r0 r : Raster} {kept : Kept}

/-! ## The tiles of a raster -/

def square (size width height tx ty : Nat) : Box :=
  ⟨tx * size, ty * size, min width (tx * size + size) - tx * size, min height (ty * size + size) - ty * size⟩

def tileOf (size : Nat) (r : Raster) (tx ty : Nat) : Tile :=
  ⟨square size r.width r.height tx ty, crop r (square size r.width r.height tx ty).rect⟩

def index (size width x y : Nat) : Nat := y / size * columns size width + x / size

theorem lt_columns {width tx : Nat} (hsize : 0 < size) (h : tx * size < width) : tx < columns size width := by
  rw [columns, Nat.lt_div_iff_mul_lt hsize]
  omega

theorem index_inj {width tx ty tx' ty' : Nat} (hsize : 0 < size) (h : tx * size < width) (h' : tx' * size < width)
    (heq : ty * columns size width + tx = ty' * columns size width + tx') : tx = tx' ∧ ty = ty' := by
  have hlt := lt_columns hsize h
  have hlt' := lt_columns hsize h'
  have hmod := congrArg (· % columns size width) heq
  have hdiv := congrArg (· / columns size width) heq
  simp only [Nat.mul_add_mod_self_right, Nat.mod_eq_of_lt hlt, Nat.mod_eq_of_lt hlt'] at hmod
  rw [Nat.add_comm, Nat.add_comm (ty' * _)] at heq
  subst hmod
  refine ⟨rfl, ?_⟩
  have hpos : 0 < columns size width := by omega
  have hmul : ty * columns size width = ty' * columns size width := by omega
  exact Nat.eq_of_mul_eq_mul_right hpos hmul

theorem square_fits {width height tx ty : Nat} (hsize : 0 < size) (hx : tx * size < width) (hy : ty * size < height) :
    (square size width height tx ty).Fits width height := by
  constructor <;> simp only [square] <;> omega

theorem contains_square {width height tx ty x y : Nat} (hsize : 0 < size) (hx : x < width) (hy : y < height) :
    (square size width height tx ty).contains x y ↔ x / size = tx ∧ y / size = ty := by
  have hcol : tx * size ≤ x ∧ x < tx * size + size ↔ x / size = tx := by
    rw [Nat.div_eq_iff hsize]
    omega
  have hrow : ty * size ≤ y ∧ y < ty * size + size ↔ y / size = ty := by
    rw [Nat.div_eq_iff hsize]
    omega
  rw [← hcol, ← hrow]
  simp only [Box.contains, square]
  omega

/-! ## Keeping -/

/-- Each kept tile is as the edit found it, and so is every pixel of the others. -/
structure Intact (size : Nat) (r0 r : Raster) (kept : Kept) : Prop where
  width   : r.width = r0.width
  height  : r.height = r0.height
  tiles   : ∀ i t, kept.get i = some t → ∃ tx ty, tx * size < r0.width ∧ ty * size < r0.height ∧
    i = ty * columns size r0.width + tx ∧ t = tileOf size r0 tx ty
  outside : ∀ x y k, x < r0.width → y < r0.height → k < 4 → kept.get (index size r0.width x y) = none →
    r.channel x y k = r0.channel x y k

theorem intact_empty (size : Nat) (r : Raster) : Intact size r r .empty :=
  ⟨rfl, rfl, (fun _ _ h => nomatch h), fun _ _ _ _ _ _ _ => rfl⟩

variable {tx ty : Nat}

theorem tileOf_eq (hsize : 0 < size) (h : Intact size r0 r kept) (hx : tx * size < r0.width) (hy : ty * size < r0.height)
    (hnone : kept.get (ty * columns size r0.width + tx) = none) :
    tileOf size r tx ty = tileOf size r0 tx ty := by
  have hfits0 := square_fits hsize hx hy
  have hsquare : square size r.width r.height tx ty = square size r0.width r0.height tx ty := by rw [h.width, h.height]
  have hfits : (square size r0.width r0.height tx ty).Fits r.width r.height := by rw [h.width, h.height]; exact hfits0
  obtain ⟨hw, hh⟩ := dims_crop hfits
  obtain ⟨hw0, hh0⟩ := dims_crop hfits0
  have hcrop : crop r (square size r0.width r0.height tx ty).rect = crop r0 (square size r0.width r0.height tx ty).rect := by
    refine Raster.ext_channel (hw.trans hw0.symm) (hh.trans hh0.symm) (fun x y k hx' hy' hk => ?_)
    rw [hw] at hx'
    rw [hh] at hy'
    have hwx := hfits0.across
    have hwy := hfits0.down
    rw [channel_crop hfits hx' hy' hk, channel_crop hfits0 hx' hy' hk]
    refine h.outside _ _ k (by omega) (by omega) hk ?_
    have hin : (square size r0.width r0.height tx ty).contains (x + (square size r0.width r0.height tx ty).x)
        (y + (square size r0.width r0.height tx ty).y) := by
      simp only [Box.contains]
      omega
    obtain ⟨hdx, hdy⟩ := (contains_square hsize (by omega) (by omega)).1 hin
    rw [index, hdx, hdy]
    exact hnone
  rw [tileOf, tileOf, hsquare, hcrop]

/-- **Keeping a tile**: nothing that was kept is lost, and the tile is kept. -/
theorem keepTile_spec (hsize : 0 < size) (h : Intact size r0 r kept) (hx : tx * size < r0.width)
    (hy : ty * size < r0.height) : Intact size r0 r (keepTile size r kept tx ty) ∧
      (keepTile size r kept tx ty).get (ty * columns size r0.width + tx) ≠ none ∧
      ∀ i, kept.get i ≠ none → (keepTile size r kept tx ty).get i ≠ none := by
  unfold keepTile
  rw [h.width, h.height]
  dsimp only
  cases hget : kept.get (ty * columns size r0.width + tx) with
  | some t => exact ⟨h, by rw [hget]; exact Option.some_ne_none t, fun _ hi => hi⟩
  | none =>
    have hclip : clipRect r0.width r0.height (⟨tx * size, ty * size, size, size⟩ : Box).rect =
        some (square size r0.width r0.height tx ty) := clipRect_box hx hy hsize hsize
    have htile := tileOf_eq hsize h hx hy hget
    rw [tileOf, h.width, h.height] at htile
    rw [hclip]
    dsimp only
    rw [htile]
    refine ⟨⟨h.width, h.height, ?_, ?_⟩, ?_, ?_⟩
    · intro i t hi
      rw [OrdMap.get_set] at hi
      split at hi
      · next heq =>
        cases hi
        exact ⟨tx, ty, hx, hy, heq, rfl⟩
      · exact h.tiles i t hi
    · intro x y k hx' hy' hk hnone
      rw [OrdMap.get_set] at hnone
      split at hnone
      · cases hnone
      · exact h.outside x y k hx' hy' hk hnone
    · rw [OrdMap.get_set_self]
      exact Option.some_ne_none _
    · intro i hi
      rw [OrdMap.get_set]
      split
      · exact Option.some_ne_none _
      · exact hi

theorem mem_touched {start n i : Nat} (hsize : 0 < size) : i ∈ touched size start n ↔ start / size ≤ i ∧
    i * size < start + n := by
  rw [touched, List.mem_filter, List.mem_range'_1, decide_eq_true_eq]
  constructor
  · exact fun h => ⟨h.1.1, h.2⟩
  · rintro ⟨hlow, hhigh⟩
    have hle : i ≤ i * size := Nat.le_mul_of_pos_right i hsize
    exact ⟨⟨hlow, (hle.trans_lt hhigh).trans_le (Nat.le_add_left _ _)⟩, hhigh⟩

def Has (i : Nat) (kept : Kept) : Prop := kept.get i ≠ none

theorem keepRow_spec (hsize : 0 < size) {txs : List Nat} (htxs : ∀ tx ∈ txs, tx * size < r0.width) {ty : Nat}
    (hty : ty * size < r0.height) (h : Intact size r0 r kept) :
    Intact size r0 r (txs.foldl (fun kept tx => keepTile size r kept tx ty) kept) ∧
      (∀ tx ∈ txs, ∀ i, i = ty * columns size r0.width + tx →
        Has i (txs.foldl (fun kept tx => keepTile size r kept tx ty) kept)) ∧
      ∀ i, Has i kept → Has i (txs.foldl (fun kept tx => keepTile size r kept tx ty) kept) := by
  refine foldl_reaches txs kept (fun b tx htx hb => ?_) h
  obtain ⟨hintact, hhas, hmore⟩ := keepTile_spec hsize hb (htxs tx htx) hty
  exact ⟨hintact, fun i hi => hi ▸ hhas, hmore⟩

/-- **Keeping a rectangle**: what is left of it on the raster is answered, and every tile of that is kept. -/
theorem keep_spec (hsize : 0 < size) (h : Intact size r0 r kept) (rect : Rect) :
    Intact size r0 r (keep size r kept rect).2 ∧ ∀ c, (keep size r kept rect).1 = some c → c.Fits r0.width r0.height ∧
      ∀ x y, c.contains x y → Has (index size r0.width x y) (keep size r kept rect).2 := by
  unfold keep
  cases hclip : clipRect r.width r.height rect with
  | none => exact ⟨h, fun c hc => nomatch hc⟩
  | some c =>
    have hfits := clipRect_fits hclip
    rw [h.width, h.height] at hfits
    have hacross := hfits.across
    have hdown := hfits.down
    have htxs : ∀ tx ∈ touched size c.x c.width, tx * size < r0.width := by
      intro tx htx
      have := ((mem_touched hsize).1 htx).2
      omega
    obtain ⟨hintact, hhas, -⟩ := foldl_reaches
      (f := fun kept ty => (touched size c.x c.width).foldl (fun kept tx => keepTile size r kept tx ty) kept)
      (G := fun ty i => ∃ tx ∈ touched size c.x c.width, i = ty * columns size r0.width + tx) (Q := Has)
      (touched size c.y c.height) kept (fun b ty hty hb => by
        have hrow : ty * size < r0.height := ((mem_touched hsize).1 hty).2.trans_le hdown
        obtain ⟨hintact, hhas, hmore⟩ := keepRow_spec hsize htxs hrow hb
        refine ⟨hintact, ?_, hmore⟩
        rintro i ⟨tx, htx, hi⟩
        exact hhas tx htx i hi) h
    refine ⟨hintact, ?_⟩
    rintro _ ⟨⟩
    refine ⟨hfits, ?_⟩
    rintro x y ⟨hleft, hright, htop, hbottom⟩
    have htouched {start n z : Nat} (hlow : start ≤ z) (hhigh : z < start + n) : z / size ∈ touched size start n := by
      refine (mem_touched hsize).2 ⟨Nat.div_le_div_right hlow, ?_⟩
      have := Nat.div_mul_le_self z size
      omega
    exact hhas _ (htouched htop hbottom) _ ⟨_, htouched hleft hright, rfl⟩

/-! ## An edit -/

theorem channel_paint {r : Raster} {box : Box} {bytes : Nat → UInt8} {x y k : Nat} (hx : x < r.width) (hk : k < 4)
    (h : ¬ box.contains x y) : (r.paint box bytes).channel x y k = r.channel x y k := by
  show (r.data.mapIdx _)[offset r.width 4 x y k]? = _
  rw [List.getElem?_mapIdx, offset_column hk hx, offset_row hk hx]
  simp only [if_neg h]
  exact Option.map_id'

/-- **A stroke** changes pixels of kept tiles only. -/
theorem stroke_intact (hsize : 0 < size) (h : Intact size r0 r kept) (s : Stroke) :
    Intact size r0 (stroke size (r, kept) s).1 (stroke size (r, kept) s).2 := by
  obtain ⟨hintact, hhas⟩ := keep_spec hsize h s.rect
  unfold stroke
  rcases hkeep : keep size r kept s.rect with ⟨_ | box, kept'⟩
  · rw [hkeep] at hintact
    exact hintact
  · rw [hkeep] at hintact hhas
    obtain ⟨-, hhas⟩ := hhas box rfl
    refine ⟨hintact.width, hintact.height, hintact.tiles, ?_⟩
    intro x y k hx hy hk hnone
    have hout : ¬ box.contains x y := fun hin => hhas x y hin hnone
    rw [← hintact.outside x y k hx hy hk hnone]
    exact channel_paint (by rw [hintact.width]; exact hx) hk hout

theorem strokes_intact (hsize : 0 < size) (r : Raster) (l : List Stroke) :
    Intact size r (strokes size r l).1 (strokes size r l).2 := by
  have hstep : ∀ (s : Raster × Kept) (k : Stroke), Intact size r s.1 s.2 →
    Intact size r (stroke size s k).1 (stroke size s k).2 :=
    fun s k hs => stroke_intact hsize hs k
  exact Steps.run_invariant hstep l (r, .empty) (intact_empty size r)

/-! ## The tiles kept -/

def Apart (a b : Tile) : Prop := ∀ x y, a.rect.contains x y → ¬ b.rect.contains x y

structure Covers (r : Raster) (t : Tile) : Prop where
  fits   : t.rect.Fits r.width r.height
  width  : t.pixels.width = t.rect.width
  height : t.pixels.height = t.rect.height

theorem Covers.of_dims {r s : Raster} {t : Tile} (h : Covers r t) (hw : s.width = r.width) (hh : s.height = r.height) :
    Covers s t :=
  ⟨by rw [hw, hh]; exact h.fits, h.width, h.height⟩

theorem Covers.inside {r : Raster} {t : Tile} (h : Covers r t) {x y : Nat} (hin : t.rect.contains x y) :
    x < r.width ∧ y < r.height :=
  ⟨hin.2.1.trans_le h.fits.across, hin.2.2.2.trans_le h.fits.down⟩

theorem covers_tileOf (hsize : 0 < size) (hx : tx * size < r.width) (hy : ty * size < r.height) :
    Covers r (tileOf size r tx ty) :=
  ⟨square_fits hsize hx hy, (dims_crop (square_fits hsize hx hy)).1, (dims_crop (square_fits hsize hx hy)).2⟩

theorem channel_tileOf (hsize : 0 < size) (hx : tx * size < r.width) (hy : ty * size < r.height) {x y k : Nat}
    (h : (tileOf size r tx ty).rect.contains x y) (hk : k < 4) :
    (tileOf size r tx ty).pixels.channel (x - (tileOf size r tx ty).rect.x) (y - (tileOf size r tx ty).rect.y) k =
      r.channel x y k := by
  obtain ⟨hleft, hright, htop, hbottom⟩ := h
  rw [tileOf, channel_crop (square_fits hsize hx hy) (by simp only [tileOf] at *; omega) (by simp only [tileOf] at *; omega) hk]
  simp only [tileOf] at *
  rw [Nat.sub_add_cancel hleft, Nat.sub_add_cancel htop]

theorem Intact.covers (hsize : 0 < size) (h : Intact size r0 r kept) {t : Tile} (ht : t ∈ kept.values) : Covers r0 t := by
  obtain ⟨i, hi⟩ := OrdMap.mem_values.1 ht
  obtain ⟨tx, ty, hx, hy, -, rfl⟩ := h.tiles i t hi
  exact covers_tileOf hsize hx hy

/-- **The kept tiles are disjoint.** -/
theorem Intact.apart (hsize : 0 < size) (h : Intact size r0 r kept) : kept.values.Pairwise Apart := by
  rw [OrdMap.values, List.pairwise_map]
  refine (List.pairwise_map.1 kept.nodup).imp_of_mem ?_
  rintro ⟨i, t⟩ ⟨j, t'⟩ hi hj hne x y hin hin'
  obtain ⟨tx, ty, hx, hy, hidx, rfl⟩ := h.tiles i t (OrdMap.mem_entries.1 hi)
  obtain ⟨tx', ty', hx', hy', hidx', rfl⟩ := h.tiles j t' (OrdMap.mem_entries.1 hj)
  have hfits := square_fits hsize hx hy
  have hxr : x < r0.width := lt_of_lt_of_le hin.2.1 hfits.across
  have hyr : y < r0.height := lt_of_lt_of_le hin.2.2.2 hfits.down
  obtain ⟨rfl, rfl⟩ := (contains_square hsize hxr hyr).1 hin
  obtain ⟨rfl, rfl⟩ := (contains_square hsize hxr hyr).1 hin'
  exact hne (hidx.trans hidx'.symm)

/-- **Putting the kept tiles back puts the raster back** as the edit found it. -/
theorem restore_intact (hsize : 0 < size) (h : Intact size r0 r kept) : restore r kept = r0 := by
  -- a tile put back is as it was, and no later one changes that
  obtain ⟨⟨hw, hh, hout⟩, hback, -⟩ := foldl_reaches (f := fun r (t : Tile) => blit r t.pixels t.rect.x t.rect.y)
    (P := fun b => b.width = r0.width ∧ b.height = r0.height ∧ ∀ x y k, x < r0.width → y < r0.height → k < 4 →
      kept.get (index size r0.width x y) = none → b.channel x y k = r0.channel x y k)
    (Q := fun (p : Nat × Nat) b => ∀ k < 4, p.1 < r0.width → p.2 < r0.height → b.channel p.1 p.2 k = r0.channel p.1 p.2 k)
    (G := fun t p => t.rect.contains p.1 p.2) kept.values r (fun b t ht hb => by
      obtain ⟨hw, hh, hout⟩ := hb
      obtain ⟨i, hi⟩ := OrdMap.mem_values.1 ht
      obtain ⟨tx, ty, hx, hy, -, rfl⟩ := h.tiles i t hi
      obtain ⟨hfits, hpw, hph⟩ := covers_tileOf (r := r0) hsize hx hy
      rw [← hw, ← hh] at hfits
      obtain ⟨hbw, hbh⟩ := dims_blit hfits hpw hph
      have hchannel {x y k : Nat} (hxr : x < r0.width) (hyr : y < r0.height) (hk : k < 4) :
          (blit b (tileOf size r0 tx ty).pixels (tileOf size r0 tx ty).rect.x (tileOf size r0 tx ty).rect.y).channel x y k =
            if (tileOf size r0 tx ty).rect.contains x y then r0.channel x y k else b.channel x y k := by
        rw [channel_blit hfits hpw hph (by rw [hw]; exact hxr) (by rw [hh]; exact hyr) hk]
        split
        · next hin => rw [channel_tileOf hsize hx hy hin hk]
        · rfl
      refine ⟨⟨hbw.trans hw, hbh.trans hh, ?_⟩, ?_, ?_⟩
      · intro x y k hxr hyr hk hnone
        rw [hchannel hxr hyr hk, hout x y k hxr hyr hk hnone, ite_self]
      · intro p hin k hk hxr hyr
        rw [hchannel hxr hyr hk, if_pos hin]
      · intro p hp k hk hxr hyr
        rw [hchannel hxr hyr hk, hp k hk hxr hyr, ite_self])
    ⟨h.width, h.height, h.outside⟩
  refine Raster.ext_channel hw hh (fun x y k hx hy hk => ?_)
  have hx : x < r0.width := hw ▸ hx
  have hy : y < r0.height := hh ▸ hy
  cases hget : kept.get (index size r0.width x y) with
  | none => exact hout x y k hx hy hk hget
  | some t =>
    obtain ⟨tx, ty, htx, hty, hidx, rfl⟩ := h.tiles _ t hget
    have hcol : x / size * size < r0.width := (Nat.div_mul_le_self x size).trans_lt hx
    obtain ⟨hdx, hdy⟩ := index_inj hsize hcol htx hidx
    exact hback _ (OrdMap.mem_values.2 ⟨_, hget⟩) (x, y) ((contains_square hsize hx hy).2 ⟨hdx, hdy⟩) k hk hx hy

end Pieces

/-! ## Trading pixels -/

open Pieces (Apart Covers)

theorem forall₂_compose {α β γ : Type} {R : α → β → Prop} {S : β → γ → Prop} {P : α → γ → Prop}
    (h : ∀ a b c, R a b → S b c → P a c) {l : List α} {l' : List β} (hR : List.Forall₂ R l l') :
    ∀ {l'' : List γ}, List.Forall₂ S l' l'' → List.Forall₂ P l l'' := by
  induction hR with
  | nil =>
    rintro _ ⟨⟩
    exact .nil
  | cons hab _ ih =>
    rintro _ (_ | ⟨hbc, hrest⟩)
    exact .cons (h _ _ _ hab hbc) (ih hrest)

theorem forall₂_mem {α β : Type} {R : α → β → Prop} {l : List α} {l' : List β} (h : List.Forall₂ R l l') {a : α} (ha : a ∈ l) :
    ∃ b, R a b := by
  induction h with
  | nil => exact absurd ha List.not_mem_nil
  | cons hab _ ih =>
    rcases List.mem_cons.1 ha with rfl | ha
    · exact ⟨_, hab⟩
    · exact ih ha

theorem row_congr {r s : Raster} (hw : r.width = s.width) (left y n : Nat)
    (h : ∀ x k, left ≤ x → x < left + n → k < 4 → r.channel x y k = s.channel x y k) :
    subarray r.data (offset r.width 4 left y 0) (offset r.width 4 left y 0 + n * 4) =
      subarray s.data (offset s.width 4 left y 0) (offset s.width 4 left y 0 + n * 4) := by
  refine List.ext_getElem? (fun i => ?_)
  rw [getElem?_subarray, getElem?_subarray, hw]
  by_cases hi : i < n * 4
  · have hmod : i % 4 < 4 := Nat.mod_lt _ (by decide)
    have hplace (w : Nat) : offset w 4 left y 0 + i = offset w 4 (left + i / 4) y (i % 4) := by
      rw [offset_sub (Nat.le_add_right left (i / 4)), Nat.add_sub_cancel_left]
      omega
    have hchannel := h (left + i / 4) (i % 4) (by omega) (by omega) hmod
    rw [Raster.channel, Raster.channel, hw] at hchannel
    rw [if_pos (by omega), if_pos (by omega), hplace, hchannel]
  · rw [if_neg (by omega), if_neg (by omega)]

variable {r : Raster}

/-- **A tile and its spot trade**, row by row: the raster has the tile's pixels, and the tile the raster's. -/
theorem swapTile_eq {t : Tile} (h : Covers r t) : swapTile r t =
    (copyRows r t.pixels 0 0 t.rect.x t.rect.y t.rect.width t.rect.height,
      { t with pixels := copyRows t.pixels r t.rect.x t.rect.y 0 0 t.rect.width t.rect.height }) := by
  obtain ⟨⟨hwide, htall, hacross, hdown⟩, hpw, hph⟩ := h
  have hrows : ∀ rows ≤ t.rect.height, (List.range rows).foldl (swapRow t.rect) (r, t.pixels) =
      (copyRows r t.pixels 0 0 t.rect.x t.rect.y t.rect.width rows,
        copyRows t.pixels r t.rect.x t.rect.y 0 0 t.rect.width rows) := by
    intro rows
    induction rows with
    | zero => exact fun _ => rfl
    | succ rows ih =>
      intro hle
      obtain ⟨hw, hh⟩ := dims_copyRows r t.pixels 0 0 t.rect.x t.rect.y t.rect.width rows
      obtain ⟨hw', hh'⟩ := dims_copyRows t.pixels r t.rect.x t.rect.y 0 0 t.rect.width rows
      rw [List.range_succ, List.foldl_append, ih (by omega), List.foldl_cons, List.foldl_nil, copyRows_succ, copyRows_succ]
      -- the rows not yet traded are as they were
      have hkept := row_congr hw' 0 (0 + rows) t.rect.width (fun x k _ hx hk => by
        rw [channel_copyRows hacross (by omega) (by omega) (by omega) hk rows (by omega),
          if_neg (by simp only [Box.contains]; omega)])
      have hrow := row_congr hw t.rect.x (t.rect.y + rows) t.rect.width (fun x k _ hx hk => by
        rw [channel_copyRows (by omega) hacross (by omega) (by omega) hk rows (by omega),
          if_neg (by simp only [Box.contains]; omega)])
      rw [swapRow, copyRow, copyRow, ← hkept, ← hrow]
      simp only [offset, hw, hw', hpw, Nat.zero_add, Nat.add_zero, Nat.add_mul, Nat.one_mul, Nat.mul_assoc]
  rw [swapTile, hrows _ le_rfl]

theorem swapTile_raster {t : Tile} (h : Covers r t) :
    (swapTile r t).1.width = r.width ∧ (swapTile r t).1.height = r.height ∧
      ∀ x y k, x < r.width → y < r.height → k < 4 → (swapTile r t).1.channel x y k =
        if t.rect.contains x y then t.pixels.channel (x - t.rect.x) (y - t.rect.y) k else r.channel x y k := by
  rw [swapTile_eq h]
  obtain ⟨⟨hwide, htall, hacross, hdown⟩, hpw, hph⟩ := h
  obtain ⟨hw, hh⟩ := dims_copyRows r t.pixels 0 0 t.rect.x t.rect.y t.rect.width t.rect.height
  refine ⟨hw, hh, fun x y k hx hy hk => ?_⟩
  exact channel_copyRows (by omega) hacross hx hy hk _ (by omega)

theorem swapTile_tile {t : Tile} (h : Covers r t) :
    (swapTile r t).2.rect = t.rect ∧ Covers r (swapTile r t).2 ∧
      ∀ x y k, t.rect.contains x y → k < 4 →
        (swapTile r t).2.pixels.channel (x - t.rect.x) (y - t.rect.y) k = r.channel x y k := by
  rw [swapTile_eq h]
  obtain ⟨⟨hwide, htall, hacross, hdown⟩, hpw, hph⟩ := h
  obtain ⟨hw, hh⟩ := dims_copyRows t.pixels r t.rect.x t.rect.y 0 0 t.rect.width t.rect.height
  refine ⟨rfl, ⟨⟨hwide, htall, hacross, hdown⟩, hw.trans hpw, hh.trans hph⟩, ?_⟩
  rintro x y k ⟨hleft, hright, htop, hbottom⟩ hk
  rw [channel_copyRows hacross (by omega) (by omega) (by omega) hk _ hdown,
    if_pos (by simp only [Box.contains]; omega), Nat.sub_zero, Nat.sub_zero, Nat.sub_add_cancel hleft, Nat.sub_add_cancel htop]

def Traded (r r' : Raster) (t t' : Tile) : Prop :=
  t'.rect = t.rect ∧ Covers r t' ∧ ∀ x y k, t.rect.contains x y → k < 4 →
    t'.pixels.channel (x - t.rect.x) (y - t.rect.y) k = r.channel x y k ∧
    r'.channel x y k = t.pixels.channel (x - t.rect.x) (y - t.rect.y) k

/-- **Disjoint tiles trade**, all of them, and what is in none of them stays. -/
theorem swapTiles_spec : ∀ (tiles : List Tile) (r : Raster), (∀ t ∈ tiles, Covers r t) → tiles.Pairwise Apart →
    (swapTiles r tiles).1.width = r.width ∧ (swapTiles r tiles).1.height = r.height ∧
      List.Forall₂ (Traded r (swapTiles r tiles).1) tiles (swapTiles r tiles).2 ∧
      ∀ x y k, x < r.width → y < r.height → k < 4 → (∀ t ∈ tiles, ¬ t.rect.contains x y) →
        (swapTiles r tiles).1.channel x y k = r.channel x y k
  | [], r, _, _ => ⟨rfl, rfl, .nil, fun _ _ _ _ _ _ _ => rfl⟩
  | t :: tiles, r, h, hapart => by
    obtain ⟨happart, hrest⟩ := List.pairwise_cons.1 hapart
    have ht := h t List.mem_cons_self
    obtain ⟨hw, hh, hchannel⟩ := swapTile_raster ht
    obtain ⟨hrect, hcovers, hpixels⟩ := swapTile_tile ht
    obtain ⟨hw', hh', htraded, hout⟩ := swapTiles_spec tiles (swapTile r t).1
      (fun t' ht' => (h t' (List.mem_cons_of_mem t ht')).of_dims hw hh) hrest
    rw [swapTiles]
    dsimp only
    refine ⟨hw'.trans hw, hh'.trans hh, .cons ⟨hrect, hcovers, ?_⟩ ?_, ?_⟩
    · intro x y k hin hk
      obtain ⟨hx, hy⟩ := ht.inside hin
      refine ⟨hpixels x y k hin hk, ?_⟩
      rw [hout x y k (by rw [hw]; exact hx) (by rw [hh]; exact hy) hk (fun t' ht' => happart t' ht' x y hin),
        hchannel x y k hx hy hk, if_pos hin]
    · have hboth := (List.forall₂_and_left tiles _).2
        ⟨fun t' ht' => (⟨h t' (List.mem_cons_of_mem t ht'), happart t' ht'⟩ : Covers r t' ∧ Apart t t'), htraded⟩
      refine hboth.imp ?_
      rintro t' t'' ⟨⟨hcovers', happart'⟩, hrect', hcovers'', hpixels'⟩
      refine ⟨hrect', hcovers''.of_dims hw.symm hh.symm, ?_⟩
      intro x y k hin hk
      obtain ⟨hx, hy⟩ := hcovers'.inside hin
      obtain ⟨hkept, hput⟩ := hpixels' x y k hin hk
      refine ⟨?_, hput⟩
      rw [hkept, hchannel x y k hx hy hk, if_neg (fun hin' => happart' x y hin' hin)]
    · intro x y k hx hy hk hnone
      rw [hout x y k (by rw [hw]; exact hx) (by rw [hh]; exact hy) hk (fun t' ht' => hnone t' (List.mem_cons_of_mem t ht')),
        hchannel x y k hx hy hk, if_neg (hnone t List.mem_cons_self)]

theorem Traded.back {r r' r'' : Raster} {t t' t'' : Tile} (ht : Covers r t) (h : Traded r r' t t') (h' : Traded r' r'' t' t'') :
    t'' = t ∧ ∀ x y k, t.rect.contains x y → k < 4 → r''.channel x y k = r.channel x y k := by
  obtain ⟨hrect, hcovers, hchannel⟩ := h
  obtain ⟨hrect', hcovers', hchannel'⟩ := h'
  have hrect'' : t''.rect = t.rect := hrect'.trans hrect
  have hwidth : t''.pixels.width = t.pixels.width := by rw [hcovers'.width, ht.width, hrect'']
  have hheight : t''.pixels.height = t.pixels.height := by rw [hcovers'.height, ht.height, hrect'']
  constructor
  · have hpixels : t''.pixels = t.pixels := by
      refine Raster.ext_channel hwidth hheight (fun x y k hx hy hk => ?_)
      rw [hwidth, ht.width] at hx
      rw [hheight, ht.height] at hy
      have hin : t.rect.contains (x + t.rect.x) (y + t.rect.y) := by
        simp only [Box.contains]
        omega
      have hback := (hchannel' _ _ k (by rw [hrect]; exact hin) hk).1
      have hput := (hchannel _ _ k hin hk).2
      rw [hrect, Nat.add_sub_cancel, Nat.add_sub_cancel] at hback
      rw [Nat.add_sub_cancel, Nat.add_sub_cancel] at hput
      rw [hback, hput]
    obtain ⟨rect, pixels⟩ := t
    obtain ⟨rect'', pixels''⟩ := t''
    rw [Tile.mk.injEq]
    exact ⟨hrect'', hpixels⟩
  · intro x y k hin hk
    have hput := (hchannel' x y k (by rw [hrect]; exact hin) hk).2
    have hkept := (hchannel x y k hin hk).1
    rw [hput, hrect, hkept]

/-- **Traded again**, the pixels are where they were. -/
theorem swapTiles_swapTiles {tiles : List Tile} (h : ∀ t ∈ tiles, Covers r t) (hapart : tiles.Pairwise Apart) :
    swapTiles (swapTiles r tiles).1 (swapTiles r tiles).2 = (r, tiles) ∧
      (∀ t ∈ (swapTiles r tiles).2, Covers (swapTiles r tiles).1 t) ∧ (swapTiles r tiles).2.Pairwise Apart := by
  obtain ⟨hw, hh, htraded, hout⟩ := swapTiles_spec tiles r h hapart
  generalize (swapTiles r tiles).1 = r' at hw hh htraded hout ⊢
  generalize (swapTiles r tiles).2 = tiles' at htraded ⊢
  have hcovers' : ∀ t ∈ tiles', Covers r' t := by
    have hflip : List.Forall₂ (fun t' t => Covers r' t' ∧ Traded r r' t t') tiles' tiles :=
      List.Forall₂.flip (htraded.imp (fun _ _ ht => ⟨ht.2.1.of_dims hw hh, ht⟩))
    exact ((List.forall₂_and_left tiles' tiles).1 hflip).1
  have hrects : tiles'.map Tile.rect = tiles.map Tile.rect := by
    have heq : List.Forall₂ (· = ·) (tiles.map Tile.rect) (tiles'.map Tile.rect) := by
      rw [List.forall₂_map_left_iff, List.forall₂_map_right_iff]
      exact htraded.imp (fun _ _ ht => ht.1.symm)
    rw [List.forall₂_eq_eq_eq] at heq
    exact heq.symm
  have hapart' : tiles'.Pairwise Apart := by
    have hmap : (tiles.map Tile.rect).Pairwise (fun a b => ∀ x y, a.contains x y → ¬ b.contains x y) :=
      List.pairwise_map.2 hapart
    rw [← hrects, List.pairwise_map] at hmap
    exact hmap
  obtain ⟨hw', hh', htraded', hout'⟩ := swapTiles_spec tiles' r' hcovers' hapart'
  have hback : List.Forall₂ (fun t t'' => t'' = t ∧ ∀ x y k, t.rect.contains x y → k < 4 →
      (swapTiles r' tiles').1.channel x y k = r.channel x y k) tiles (swapTiles r' tiles').2 :=
    forall₂_compose (fun t t' t'' ht ht' => ht.2.back ht.1 ht') ((List.forall₂_and_left tiles tiles').2 ⟨h, htraded⟩) htraded'
  refine ⟨Prod.ext ?_ ?_, hcovers', hapart'⟩
  · refine Raster.ext_channel (hw'.trans hw) (hh'.trans hh) (fun x y k hx hy hk => ?_)
    rw [hw'] at hx
    rw [hh'] at hy
    by_cases hin : ∃ t ∈ tiles, t.rect.contains x y
    · obtain ⟨t, ht, hin⟩ := hin
      obtain ⟨t'', ⟨-, hchannel⟩⟩ := forall₂_mem hback ht
      exact hchannel x y k hin hk
    · have hnone : ∀ rect ∈ tiles.map Tile.rect, ¬ rect.contains x y := by
        rintro rect hrect hin'
        obtain ⟨t, ht, rfl⟩ := List.mem_map.1 hrect
        exact hin ⟨t, ht, hin'⟩
      have hnone' : ∀ t ∈ tiles', ¬ t.rect.contains x y := fun t ht => hnone _ (hrects ▸ List.mem_map_of_mem ht)
      rw [hout' x y k hx hy hk hnone', hout x y k (by rw [← hw]; exact hx) (by rw [← hh]; exact hy) hk
        (fun t ht hin' => hin ⟨t, ht, hin'⟩)]
  · have heq : List.Forall₂ (· = ·) tiles (swapTiles r' tiles').2 := hback.imp (fun _ _ ht => ht.1.symm)
    rw [List.forall₂_eq_eq_eq] at heq
    exact heq.symm

end Image
end Dormouse

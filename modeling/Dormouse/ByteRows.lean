import Mathlib.Data.List.Basic
import Mathlib.Tactic.Linarith
import Mathlib.Tactic.Ring
/-!
# ByteRows — parts of arrays, and rows of grids kept in one

`subarray` and `set` of a typed array, over any elements.  A grid of `width` cells a row, each of `cell` elements, is kept row
after row; `offset` is where a cell's element is, and a part of a row that is set changes the cells of that part alone.
-/
namespace ByteRows

variable {α : Type}

/-- The elements from `start` up to `stop`. -/
def subarray (l : List α) (start stop : Nat) : List α := (l.take stop).drop start

/-- `src` written at `start`; what is past the end is not written. -/
def set (dst src : List α) (start : Nat) : List α :=
  dst.mapIdx (fun i a => if start ≤ i then (src[i - start]?).getD a else a)

@[simp] theorem length_set (dst src : List α) (start : Nat) : (set dst src start).length = dst.length :=
  List.length_mapIdx

theorem getElem?_subarray (l : List α) (start stop i : Nat) :
    (subarray l start stop)[i]? = if start + i < stop then l[start + i]? else none := by
  rw [subarray, List.getElem?_drop, List.getElem?_take]

theorem length_subarray {l : List α} {start stop : Nat} (h : stop ≤ l.length) :
    (subarray l start stop).length = stop - start := by
  rw [subarray, List.length_drop, List.length_take, Nat.min_eq_left h]

theorem getElem?_set_mem {dst src : List α} {start i : Nat} (h : start ≤ i) (hi : i < start + src.length)
    (hlt : i < dst.length) : (set dst src start)[i]? = src[i - start]? := by
  have hsrc : i - start < src.length := by omega
  rw [set, List.getElem?_mapIdx, List.getElem?_eq_getElem hlt, List.getElem?_eq_getElem hsrc]
  simp [h]

theorem getElem?_set_ne {dst src : List α} {start i : Nat} (h : i < start ∨ start + src.length ≤ i) :
    (set dst src start)[i]? = dst[i]? := by
  have hnone : start ≤ i → src[i - start]? = none := by
    intro hle
    refine List.getElem?_eq_none ?_
    omega
  rw [set, List.getElem?_mapIdx]
  by_cases hle : start ≤ i
  · simp [hle, hnone hle]
  · simp [hle]

theorem subarray_append {a b c l : List α} {start stop : Nat} (h : l = a ++ (b ++ c)) (hstart : start = a.length)
    (hstop : stop = a.length + b.length) : subarray l start stop = b := by
  subst h hstart hstop
  rw [subarray, ← List.append_assoc, ← List.length_append, List.take_left, List.drop_left]

theorem subarray_split (l : List α) {start middle stop : Nat} (h : start ≤ middle) (h' : middle ≤ stop) :
    subarray l start middle ++ subarray l middle stop = subarray l start stop := by
  have hmiddle : middle - start + start = middle := Nat.sub_add_cancel h
  have hfront : subarray l start middle = (subarray l start stop).take (middle - start) := by
    rw [subarray, subarray, ← List.drop_take, List.take_take, Nat.min_eq_left h']
  have hback : subarray l middle stop = (subarray l start stop).drop (middle - start) := by
    rw [subarray, subarray, List.drop_drop, Nat.add_comm start, hmiddle]
  rw [hfront, hback, List.take_append_drop]

theorem subarray_all (l : List α) : subarray l 0 l.length = l := by
  rw [subarray, List.take_length, List.drop_zero]

theorem set_append {a b src : List α} {start : Nat} (hstart : start = a.length) (hsrc : src.length ≤ b.length) :
    set (a ++ b) src start = a ++ src ++ b.drop src.length := by
  subst hstart
  refine List.ext_getElem? (fun i => ?_)
  by_cases hfront : i < a.length
  · rw [getElem?_set_ne (Or.inl hfront), List.append_assoc, List.getElem?_append_left hfront, List.getElem?_append_left hfront]
  · have hle : a.length ≤ i := Nat.le_of_not_lt hfront
    by_cases hin : i < a.length + src.length
    · rw [getElem?_set_mem hle hin (by rw [List.length_append]; omega), List.append_assoc, List.getElem?_append_right hle,
        List.getElem?_append_left (by omega)]
    · rw [getElem?_set_ne (Or.inr (by omega)), List.getElem?_append_right hle,
        List.getElem?_append_right (by rw [List.length_append]; omega), List.getElem?_drop, List.length_append]
      congr 1
      omega

theorem length_rows {g : Nat → List α} {n : Nat} : ∀ {rows : Nat}, (∀ j < rows, (g j).length = n) →
    ((List.range rows).flatMap g).length = rows * n
  | 0, _ => by simp
  | rows + 1, h => by
    rw [List.range_succ, List.flatMap_append, List.length_append, length_rows (fun j hj => h j (by omega)),
      List.flatMap_singleton, h rows (by omega), Nat.succ_mul]

/-- Of rows all of one length, laid one after another, each stands where its number puts it. -/
theorem getElem?_rows {g : Nat → List α} {n k : Nat} (hk : k < n) :
    ∀ {rows y : Nat}, (∀ j < rows, (g j).length = n) → y < rows →
    ((List.range rows).flatMap g)[y * n + k]? = (g y)[k]?
  | 0, _, _, hy => absurd hy (Nat.not_lt_zero _)
  | rows + 1, y, h, hy => by
    have hfront := length_rows (fun j hj => h j (Nat.lt_succ_of_lt hj))
    rw [List.range_succ, List.flatMap_append, List.flatMap_singleton]
    by_cases hlast : y = rows
    · subst hlast
      rw [List.getElem?_append_right (by rw [hfront]; omega), hfront, Nat.add_sub_cancel_left]
    · have hlt : y * n + k < rows * n := by
        have : (y + 1) * n ≤ rows * n := Nat.mul_le_mul_right n (by omega)
        rw [Nat.succ_mul] at this
        omega
      rw [List.getElem?_append_left (by rw [hfront]; exact hlt)]
      exact getElem?_rows hk (fun j hj => h j (by omega)) (by omega)

theorem subarray_rows {g : Nat → List α} {n rows y stop : Nat} (start : Nat) (hstop : stop ≤ n)
    (h : ∀ j < rows, (g j).length = n)
    (hy : y < rows) : subarray ((List.range rows).flatMap g) (y * n + start) (y * n + stop) = subarray (g y) start stop := by
  refine List.ext_getElem? (fun i => ?_)
  rw [getElem?_subarray, getElem?_subarray]
  by_cases hi : start + i < stop
  · rw [if_pos (by omega), if_pos hi, Nat.add_assoc, getElem?_rows (by omega) h hy]
  · rw [if_neg (by omega), if_neg hi]

theorem flatMap_subarray (l : List α) (start n : Nat) : ∀ count, (List.range count).flatMap (fun k =>
    subarray l (start + k * n) (start + k * n + n)) = subarray l start (start + count * n)
  | 0 => by
    rw [Nat.zero_mul, Nat.add_zero, subarray, List.drop_eq_nil_of_le (List.length_take_le start l)]
    rfl
  | count + 1 => by
    rw [List.range_succ, List.flatMap_append, flatMap_subarray l start n count, List.flatMap_singleton, Nat.succ_mul,
      ← Nat.add_assoc, subarray_split l (by omega) (by omega)]

/-! ## Grids -/

/-- Where the element `k` of the cell in column `x` of row `y` is. -/
def offset (width cell x y k : Nat) : Nat := (y * width + x) * cell + k

section

variable {width cell x y k : Nat}

theorem offset_div (hk : k < cell) : offset width cell x y k / cell = y * width + x := by
  rw [offset, Nat.add_comm, Nat.add_mul_div_right _ _ (Nat.zero_lt_of_lt hk), Nat.div_eq_of_lt hk, Nat.zero_add]

theorem offset_row (hk : k < cell) (hx : x < width) : offset width cell x y k / cell / width = y := by
  rw [offset_div hk, Nat.add_comm, Nat.add_mul_div_right _ _ (Nat.zero_lt_of_lt hx), Nat.div_eq_of_lt hx, Nat.zero_add]

theorem offset_column (hk : k < cell) (hx : x < width) : offset width cell x y k / cell % width = x := by
  rw [offset_div hk, Nat.add_comm, Nat.add_mul_mod_self_right, Nat.mod_eq_of_lt hx]

theorem offset_lt {height : Nat} (hk : k < cell) (hx : x < width) (hy : y < height) :
    offset width cell x y k < width * height * cell := by
  have hcell : y * width + x < width * height := by nlinarith
  rw [offset]
  nlinarith

theorem exists_offset {height i : Nat} (h : i < width * height * cell) :
    ∃ x y k, x < width ∧ y < height ∧ k < cell ∧ i = offset width cell x y k := by
  have hcell : 0 < cell := Nat.pos_of_ne_zero (by rintro rfl; simp at h)
  have hdiv : i / cell < width * height := Nat.div_lt_of_lt_mul (by linarith [Nat.mul_comm cell (width * height)])
  have hwidth : 0 < width := Nat.pos_of_ne_zero (by rintro rfl; simp at hdiv)
  refine ⟨i / cell % width, i / cell / width, i % cell, Nat.mod_lt _ hwidth, Nat.div_lt_of_lt_mul hdiv, Nat.mod_lt _ hcell, ?_⟩
  rw [offset, Nat.mul_comm (i / cell / width), Nat.div_add_mod, Nat.mul_comm (i / cell), Nat.div_add_mod]

/-- The cells of a part of a row, from column `left` on, are the places from its first cell's on. -/
theorem offset_in_row {left n row : Nat} (hn : left + n ≤ width) (hx : x < width) (hk : k < cell) :
    (offset width cell left row 0 ≤ offset width cell x y k ∧
        offset width cell x y k < offset width cell left row 0 + n * cell) ↔ y = row ∧ left ≤ x ∧ x < left + n := by
  simp only [offset, Nat.add_zero]
  constructor
  · rintro ⟨hlow, hhigh⟩
    have hlow' : row * width + left ≤ y * width + x := by
      by_contra hlt
      have : (y * width + x + 1) * cell ≤ (row * width + left) * cell := Nat.mul_le_mul_right _ (by omega)
      rw [Nat.succ_mul] at this
      omega
    have hhigh' : y * width + x < row * width + left + n := by
      by_contra hlt
      have : (row * width + left + n) * cell ≤ (y * width + x) * cell := Nat.mul_le_mul_right _ (by omega)
      rw [Nat.add_mul _ n] at this
      omega
    have hrow : y = row := by
      rcases Nat.lt_trichotomy y row with hlt | heq | hlt
      · have : (y + 1) * width ≤ row * width := Nat.mul_le_mul_right _ hlt
        rw [Nat.succ_mul] at this
        omega
      · exact heq
      · have : (row + 1) * width ≤ y * width := Nat.mul_le_mul_right _ hlt
        rw [Nat.succ_mul] at this
        omega
    subst hrow
    omega
  · rintro ⟨rfl, hleft, hright⟩
    have hlow : (y * width + left) * cell ≤ (y * width + x) * cell := Nat.mul_le_mul_right _ (by omega)
    have hhigh : (y * width + x + 1) * cell ≤ (y * width + left + n) * cell := Nat.mul_le_mul_right _ (by omega)
    rw [Nat.succ_mul, Nat.add_mul _ n] at hhigh
    omega

theorem offset_sub {left : Nat} (hleft : left ≤ x) :
    offset width cell x y k = offset width cell left y 0 + ((x - left) * cell + k) := by
  obtain ⟨d, rfl⟩ := Nat.exists_eq_add_of_le hleft
  simp only [offset, Nat.add_sub_cancel_left]
  ring

end

end ByteRows

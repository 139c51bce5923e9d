import Dormouse.LathKeep
import Mathlib.Algebra.BigOperators.Ring.List
/-!
# LathTiling — the leaf rects and the bands tile the rect

The waterfill ends and hands out exactly the available span (`waterfill_spec`), cumulative rounding keeps the sum
(`cumulativeRound_spec`), so a split's child spans are non-negative integers that sum to what the gaps leave
(`allocateChildSpans_spec`).  Over the tree: leaf rects lie inside their node's rect along each axis where they have
extent (`Inside`), hence never overlap; and where no split's gaps alone exceed its span, the leaf rects and the bands
cover every cell once (`count_node`).
-/
namespace Dormouse
namespace Lath

/-! ## The waterfill -/

def clampedFrac (slots : List Slot) : ℚ := ((slots.filter (·.clamped)).map (·.frac)).sum

def activeMin (slots : List Slot) : ℚ := ((activeSlots slots).map (·.min)).sum

def pinBy (q : Slot → Bool) (s : Slot) : Slot := if q s then { s with clamped := true, frac := s.min } else s

section
variable {q : Slot → Bool}

theorem clampedFrac_pin : ∀ (slots : List Slot), (∀ s ∈ slots, q s = true → s.clamped = false) →
    clampedFrac (slots.map (pinBy q)) = clampedFrac slots + ((slots.filter q).map (·.min)).sum
  | [], _ => by simp [clampedFrac]
  | s :: slots, h => by
    have ih := clampedFrac_pin slots (fun x hx => h x (by simp [hx]))
    unfold clampedFrac at ih ⊢
    cases hq : q s with
    | true =>
      have := h s (by simp) hq
      simp [pinBy, hq, this] at ih ⊢
      rw [ih]; ring
    | false =>
      cases hc : s.clamped <;> simp [pinBy, hq, hc] at ih ⊢ <;> rw [ih]
      ring

theorem active_sum_pin (g : Slot → ℚ) (hg : ∀ s : Slot, g { s with clamped := true, frac := s.min } = g s) :
    ∀ (slots : List Slot), (∀ s ∈ slots, q s = true → s.clamped = false) →
      ((activeSlots (slots.map (pinBy q))).map g).sum + ((slots.filter q).map g).sum = ((activeSlots slots).map g).sum
  | [], _ => by simp [activeSlots]
  | s :: slots, h => by
    have ih := active_sum_pin g hg slots (fun x hx => h x (by simp [hx]))
    unfold activeSlots at ih ⊢
    cases hq : q s with
    | true =>
      have := h s (by simp) hq
      simp [pinBy, hq, this] at ih ⊢
      rw [← ih]; ring
    | false =>
      cases hc : s.clamped <;> simp [pinBy, hq, hc] at ih ⊢ <;> rw [← ih]
      ring

theorem activeMin_pin (slots : List Slot) (h : ∀ s ∈ slots, q s = true → s.clamped = false) :
    activeMin (slots.map (pinBy q)) + ((slots.filter q).map (·.min)).sum = activeMin slots :=
  active_sum_pin (·.min) (fun _ => rfl) slots h

theorem activeCount_pin : ∀ (slots : List Slot), (∀ s ∈ slots, q s = true → s.clamped = false) →
    (activeSlots (slots.map (pinBy q))).length + (slots.filter q).length = (activeSlots slots).length
  | [], _ => by simp [activeSlots]
  | s :: slots, h => by
    have ih := activeCount_pin slots (fun x hx => h x (by simp [hx]))
    unfold activeSlots at ih ⊢
    cases hq : q s with
    | true =>
      have := h s (by simp) hq
      simp [pinBy, hq, this] at ih ⊢
      omega
    | false =>
      cases hc : s.clamped <;> simp [pinBy, hq, hc] at ih ⊢ <;> omega

end

theorem fracs_sum (k : ℚ) : ∀ (slots : List Slot),
    (slots.map (fun s => if s.clamped then s.frac else s.weight * k)).sum = clampedFrac slots + activeWeight slots * k
  | [] => by simp [clampedFrac, activeWeight, activeSlots]
  | s :: slots => by
    have ih := fracs_sum k slots
    unfold clampedFrac activeWeight activeSlots at ih ⊢
    cases hc : s.clamped <;> simp [hc] at ih ⊢ <;> rw [ih] <;> ring

section

variable {remaining : ℚ} {slots : List Slot} (hweight : ∀ s ∈ slots, 0 < s.weight) (hactive : activeSlots slots ≠ [])
include hweight hactive

theorem activeWeight_pos : 0 < activeWeight slots := by
  refine List.sum_pos _ (fun w hw => ?_) (by simpa using hactive)
  obtain ⟨s, hs, rfl⟩ := List.mem_map.1 hw
  exact hweight s (List.mem_of_mem_filter hs)

theorem share_eq (s : Slot) : share slots remaining s = s.weight * (remaining / activeWeight slots) := by
  unfold share
  rw [if_pos (activeWeight_pos hweight hactive)]
  ring

theorem share_sum : ((activeSlots slots).map (share slots remaining)).sum = remaining := by
  have hw := activeWeight_pos hweight hactive
  have : (activeSlots slots).map (share slots remaining) =
      (activeSlots slots).map (fun s => s.weight * (remaining / activeWeight slots)) :=
    List.map_congr_left (fun s _ => share_eq hweight hactive s)
  rw [this, List.sum_map_mul_right]
  show activeWeight slots * (remaining / activeWeight slots) = remaining
  field_simp

theorem exists_unpinned (hfits : activeMin slots ≤ remaining) : ∃ s ∈ activeSlots slots, pinned slots remaining s = false := by
  by_contra hall
  have hall : ∀ s ∈ activeSlots slots, share slots remaining s < s.min := by
    intro s hs
    have hp : pinned slots remaining s = true := by
      by_contra hp
      exact hall ⟨s, hs, by simpa using hp⟩
    unfold pinned at hp
    simp only [Bool.and_eq_true, decide_eq_true_eq] at hp
    linarith [hp.2]
  have hlt := List.sum_lt_sum_of_ne_nil hactive (share slots remaining) (fun s => s.min) hall
  rw [share_sum hweight hactive] at hlt
  exact absurd hfits (not_le.2 hlt)

omit hweight hactive in
theorem pinned_active {s : Slot} (h : pinned slots remaining s = true) : s.clamped = false := by
  unfold pinned at h
  simp only [Bool.and_eq_true, Bool.not_eq_true'] at h
  exact h.1

theorem active_next (hfits : activeMin slots ≤ remaining) : activeSlots (slots.map (pinSlot slots remaining)) ≠ [] := by
  obtain ⟨s, hs, hp⟩ := exists_unpinned hweight hactive hfits
  have hs' := List.mem_filter.1 hs
  refine List.ne_nil_of_mem (List.mem_filter.2 ⟨List.mem_map.2 ⟨s, hs'.1, rfl⟩, ?_⟩ : pinSlot slots remaining s ∈ _)
  unfold pinSlot
  rw [hp]
  exact hs'.2

end

/-- The state of the waterfill before a pass: `available` is what it hands out in all. -/
structure Filling (available remaining : ℚ) (slots : List Slot) : Prop where
  weight  : ∀ s ∈ slots, 0 < s.weight
  min     : ∀ s ∈ slots, 0 ≤ s.min
  clamped : ∀ s ∈ slots, s.clamped = true → s.frac = s.min
  budget  : clampedFrac slots + remaining = available
  fits    : activeMin slots ≤ remaining
  active  : activeSlots slots ≠ []

section
variable {available remaining : ℚ} {slots : List Slot} (h : Filling available remaining slots)
include h

theorem Filling.remaining_nonneg : 0 ≤ remaining := by
  refine le_trans (List.sum_nonneg (fun m hm => ?_)) h.fits
  obtain ⟨s, hs, rfl⟩ := List.mem_map.1 hm
  exact h.min s (List.mem_of_mem_filter hs)

theorem Filling.next : Filling available (remaining - ((slots.filter (pinned slots remaining)).map (·.min)).sum)
    (slots.map (pinSlot slots remaining)) := by
  have hq : ∀ s ∈ slots, pinned slots remaining s = true → s.clamped = false :=
    fun s _ hp => pinned_active hp
  have hpin : slots.map (pinSlot slots remaining) = slots.map (pinBy (pinned slots remaining)) := rfl
  have hmem : ∀ {P : Slot → Prop}, (∀ s ∈ slots, P (pinSlot slots remaining s)) →
      ∀ s ∈ slots.map (pinSlot slots remaining), P s := fun hP s hs => by
    obtain ⟨x, hx, rfl⟩ := List.mem_map.1 hs
    exact hP x hx
  refine ⟨hmem fun s hs => ?_, hmem fun s hs => ?_, hmem fun s hs => ?_, ?_, ?_, ?_⟩
  · unfold pinSlot; split <;> exact h.weight s hs
  · unfold pinSlot; split <;> exact h.min s hs
  · unfold pinSlot
    split
    · exact fun _ => rfl
    · exact h.clamped s hs
  · rw [hpin, clampedFrac_pin slots hq, ← h.budget]
    ring
  · have := activeMin_pin slots hq
    rw [hpin]
    linarith [h.fits]
  · exact active_next h.weight h.active h.fits

end

/-- **The waterfill ends, and hands out the whole budget in non-negative parts.** -/
theorem waterfill_spec {available : ℚ} : ∀ (fuel : Nat) {remaining : ℚ} {slots : List Slot},
    Filling available remaining slots → (activeSlots slots).length < fuel →
    ∃ fs, waterfill fuel remaining slots = some fs ∧ (∀ f ∈ fs, 0 ≤ f) ∧ fs.sum = available
  | 0, _, _, _, hfuel => absurd hfuel (Nat.not_lt_zero _)
  | fuel + 1, remaining, slots, h, hfuel => by
    unfold waterfill
    rw [if_neg (by simpa using h.active)]
    have hq : ∀ s ∈ slots, pinned slots remaining s = true → s.clamped = false :=
      fun s _ hp => pinned_active hp
    cases hpins : slots.filter (pinned slots remaining) with
    | nil =>
      have hw := activeWeight_pos h.weight h.active
      refine ⟨_, rfl, fun f hf => ?_, ?_⟩
      · obtain ⟨s, hs, rfl⟩ := List.mem_map.1 hf
        split
        · rename_i hc
          rw [h.clamped s hs hc]
          exact h.min s hs
        · rw [share_eq h.weight h.active]
          exact mul_nonneg (h.weight s hs).le (div_nonneg h.remaining_nonneg hw.le)
      · have : slots.map (fun s => if s.clamped then s.frac else share slots remaining s) =
            slots.map (fun s => if s.clamped then s.frac else s.weight * (remaining / activeWeight slots)) :=
          List.map_congr_left (fun s _ => by rw [share_eq h.weight h.active])
        rw [this, fracs_sum, ← h.budget]
        field_simp
    | cons s pins =>
      have hnext := h.next
      rw [hpins] at hnext
      refine waterfill_spec fuel hnext ?_
      have hcount := activeCount_pin slots hq
      rw [hpins, List.length_cons] at hcount
      have : slots.map (pinSlot slots remaining) = slots.map (pinBy (pinned slots remaining)) := rfl
      rw [this]
      omega

/-! ## Cumulative rounding -/

theorem round_mono {a b : ℚ} (h : a ≤ b) : round a ≤ round b := Int.floor_le_floor (by linarith)

theorem round_int (z : Int) : round z = z := by
  unfold round
  rw [Int.floor_eq_iff]
  constructor <;> linarith

theorem cumulativeRoundFrom_spec (total : ℚ) : ∀ (fs : List ℚ) (cum : ℚ), fs ≠ [] → (∀ f ∈ fs, 0 ≤ f) →
    cum + fs.sum = total → (∀ s ∈ cumulativeRoundFrom (round total) cum (round cum) fs, 0 ≤ s) ∧
      (cumulativeRoundFrom (round total) cum (round cum) fs).sum = round total - round cum
  | [], _, hne, _, _ => absurd rfl hne
  | [f], cum, _, hf, hsum => by
    have h0 := hf f (by simp)
    have : round cum ≤ round total := round_mono (by simp at hsum; linarith)
    simp only [cumulativeRoundFrom, List.mem_singleton, List.sum_singleton]
    exact ⟨fun s hs => by omega, trivial⟩
  | f :: g :: t, cum, _, hf, hsum => by
    have h0 := hf f (by simp)
    have hmono : round cum ≤ round (cum + f) := round_mono (by linarith)
    obtain ⟨hpos, htot⟩ := cumulativeRoundFrom_spec total (g :: t) (cum + f) (by simp)
      (fun x hx => hf x (List.mem_cons_of_mem _ hx)) (by simp only [List.sum_cons] at hsum ⊢; linarith)
    rw [cumulativeRoundFrom]
    refine ⟨fun s hs => ?_, ?_⟩
    · rcases List.mem_cons.1 hs with rfl | hs
      · omega
      · exact hpos s hs
    · rw [List.sum_cons, htot]
      omega

/-- **The rounded parts are non-negative and sum to the rounded total.** -/
theorem cumulativeRound_spec {fs : List ℚ} {total : ℚ} (hne : fs ≠ []) (hf : ∀ f ∈ fs, 0 ≤ f) (hsum : fs.sum = total) :
    (∀ s ∈ cumulativeRound fs total, 0 ≤ s) ∧ (cumulativeRound fs total).sum = round total := by
  have h0 : round 0 = 0 := round_int 0
  obtain ⟨hpos, htot⟩ := cumulativeRoundFrom_spec total fs 0 hne hf (by rw [zero_add, hsum])
  rw [h0] at hpos htot
  exact ⟨hpos, by rw [cumulativeRound, htot, sub_zero]⟩

/-! ## The spans of a split's children -/

/-- The layout options the sources use: a non-negative gap and minimum leaf. -/
structure LayoutOpts.Nonneg (opts : LayoutOpts) : Prop where
  gap    : 0 ≤ opts.gap
  width  : 0 ≤ opts.minLeaf.width
  height : 0 ≤ opts.minLeaf.height

theorem minSpanSum_eq (axis : Dir) (opts : LayoutOpts) (cs : List LathChild) :
    minSpanSum axis opts cs = (cs.map (fun c => minSpan axis opts c.node)).sum := by
  induction cs with
  | nil => simp [minSpanSum]
  | cons c cs ih =>
    obtain ⟨n, w⟩ := c
    simp [minSpanSum, ih]

theorem minSpanMax_nonneg (axis : Dir) (opts : LayoutOpts) (cs : List LathChild) : 0 ≤ minSpanMax axis opts cs := by
  induction cs with
  | nil => simp [minSpanMax]
  | cons c cs ih =>
    obtain ⟨n, w⟩ := c
    rw [minSpanMax]
    exact le_max_of_le_right ih

variable {S : ℚ → Prop} {opts : LayoutOpts}

theorem minSpan_nonneg (ho : opts.Nonneg) (axis : Dir) {n : LathNode} (h : Canon S n) : 0 ≤ minSpan axis opts n := by
  induction h with
  | leaf id =>
    cases axis <;> simp only [minSpan]
    · exact ho.width
    · exact ho.height
  | @split d cs count pos sum alt child ih =>
    rw [minSpan]
    split
    · rw [minSpanSum_eq]
      have hlen : (2 : ℚ) ≤ cs.length := by exact_mod_cast count
      refine add_nonneg (List.sum_nonneg (fun m hm => ?_)) (mul_nonneg ho.gap (by linarith))
      obtain ⟨c, hc, rfl⟩ := List.mem_map.1 hm
      exact ih c hc
    · exact minSpanMax_nonneg axis opts cs

variable {cs : List LathChild}

theorem allocateFracs_spec {available : ℚ} {d : Dir} (hne : cs ≠ []) (hw : ∀ c ∈ cs, 0 < c.weight)
    (hm : ∀ c ∈ cs, 0 ≤ minSpan d opts c.node) (ha : 0 ≤ available) :
    (∀ f ∈ allocateFracs cs available opts d, 0 ≤ f) ∧ (allocateFracs cs available opts d).sum = available := by
  unfold allocateFracs
  dsimp only
  split
  · -- overconstrained
    rename_i hover
    have htot : 0 < (cs.map (fun c => minSpan d opts c.node)).sum := lt_of_le_of_lt ha hover
    rw [if_pos htot]
    refine ⟨fun f hf => ?_, ?_⟩
    · obtain ⟨m, hm', rfl⟩ := List.mem_map.1 hf
      obtain ⟨c, hc, rfl⟩ := List.mem_map.1 hm'
      exact mul_nonneg (div_nonneg (hm c hc) htot.le) ha
    · have : ((cs.map (fun c => minSpan d opts c.node)).map
          (fun m => m / (cs.map (fun c => minSpan d opts c.node)).sum * available)) =
          (cs.map (fun c => minSpan d opts c.node)).map
            (fun m => m * (available / (cs.map (fun c => minSpan d opts c.node)).sum)) :=
        List.map_congr_left (fun m _ => by ring)
      rw [this, List.sum_map_mul_right, List.map_id']
      field_simp
  · rename_i hfits
    have hslots : Filling available available (cs.map (fun c => ⟨c.weight, minSpan d opts c.node, false, 0⟩)) := by
      have hact : activeSlots (cs.map (fun c => (⟨c.weight, minSpan d opts c.node, false, 0⟩ : Slot))) =
          cs.map (fun c => ⟨c.weight, minSpan d opts c.node, false, 0⟩) := by
        unfold activeSlots
        refine List.filter_eq_self.2 (fun s hs => ?_)
        obtain ⟨c, _, rfl⟩ := List.mem_map.1 hs
        rfl
      have hclamped : (cs.map (fun c => (⟨c.weight, minSpan d opts c.node, false, 0⟩ : Slot))).filter (·.clamped) = [] := by
        refine List.filter_eq_nil_iff.2 (fun s hs => ?_)
        obtain ⟨c, _, rfl⟩ := List.mem_map.1 hs
        simp
      refine ⟨?_, ?_, ?_, ?_, ?_, ?_⟩
      · simpa using hw
      · simpa using hm
      · simp
      · rw [clampedFrac, hclamped]
        simp
      · rw [activeMin, hact, List.map_map]
        exact not_lt.1 hfits
      · rw [hact]
        simpa using hne
    obtain ⟨fs, hfs, hpos, hsum⟩ := waterfill_spec (cs.length + 1) hslots (by
      refine Nat.lt_succ_of_le (le_trans (List.length_filter_le _ _) ?_)
      rw [List.length_map])
    rw [hfs]
    exact ⟨hpos, hsum⟩

/-- **The spans of a split's children are non-negative integers, and sum to what the gaps leave of the span** — nothing
where the gaps alone exceed it. -/
theorem allocateChildSpans_spec {d : Dir} (hc : Canon S (.split d cs)) (ho : opts.Nonneg) {span : ℚ}
    (hint : ∃ z : Int, availableSpan cs.length span opts = z) :
    (∀ s ∈ allocateChildSpans cs span opts d, 0 ≤ s) ∧
      ((allocateChildSpans cs span opts d).sum : ℚ) = availableSpan cs.length span opts := by
  obtain ⟨count, pos, _, _, child⟩ := hc.split_inv
  have hne : cs ≠ [] := by
    rintro rfl
    simp at count
  obtain ⟨hpos, hsum⟩ := allocateFracs_spec (d := d) hne pos (fun c h => minSpan_nonneg ho d (child c h))
    (le_max_left 0 (span - opts.gap * ((cs.length : ℚ) - 1)))
  have hfne : allocateFracs cs (availableSpan cs.length span opts) opts d ≠ [] := by
    intro h
    have := congrArg List.length h
    rw [length_allocateFracs, List.length_nil] at this
    exact hne (List.length_eq_zero_iff.1 this)
  obtain ⟨hs, htot⟩ := cumulativeRound_spec hfne hpos hsum
  refine ⟨hs, ?_⟩
  obtain ⟨z, hz⟩ := hint
  unfold allocateChildSpans
  unfold availableSpan at hz htot ⊢
  rw [htot, hz, round_int]

/-! ## Integer rects -/

def Rect.Integral (r : Rect) : Prop := ∃ x y w h : Int, r = ⟨x, y, w, h⟩ ∧ 0 ≤ w ∧ 0 ≤ h

def LayoutOpts.Integral (opts : LayoutOpts) : Prop :=
  ∃ g w h : Int, opts = ⟨g, ⟨w, h⟩⟩ ∧ 0 ≤ g ∧ 0 ≤ w ∧ 0 ≤ h

theorem LayoutOpts.Integral.nonneg (h : opts.Integral) : opts.Nonneg := by
  obtain ⟨g, w, k, rfl, hg, hw, hk⟩ := h
  exact ⟨Int.cast_nonneg hg, Int.cast_nonneg hw, Int.cast_nonneg hk⟩

variable {r : Rect}

theorem availableSpan_int (ho : opts.Integral) (hr : r.Integral) (d : Dir) (n : Nat) :
    ∃ z : Int, availableSpan n (r.span d) opts = z := by
  obtain ⟨g, _, _, rfl, _⟩ := ho
  obtain ⟨x, y, w, h, rfl, _⟩ := hr
  unfold availableSpan Rect.span
  cases d with
  | row => exact ⟨max 0 (w - g * ((n : Int) - 1)), by push_cast; rfl⟩
  | col => exact ⟨max 0 (h - g * ((n : Int) - 1)), by push_cast; rfl⟩

theorem Rect.Integral.slice {r : Rect} (hr : r.Integral) (d : Dir) {pos : Int} {len : Int} (hl : 0 ≤ len) :
    (r.slice d pos len).Integral := by
  obtain ⟨x, y, w, h, rfl, hw, hh⟩ := hr
  cases d
  · exact ⟨pos, y, len, h, rfl, hl, hh⟩
  · exact ⟨x, pos, w, len, rfl, hw, hl⟩

@[simp] theorem start_slice (r : Rect) (d : Dir) (pos len : ℚ) : (r.slice d pos len).start d = pos := by cases d <;> rfl
@[simp] theorem span_slice (r : Rect) (d : Dir) (pos len : ℚ) : (r.slice d pos len).span d = len := by cases d <;> rfl

theorem slice_other (r : Rect) {d e : Dir} (h : e ≠ d) (pos len : ℚ) :
    (r.slice d pos len).start e = r.start e ∧ (r.slice d pos len).span e = r.span e := by
  cases d <;> cases e <;> first | exact absurd rfl h | exact ⟨rfl, rfl⟩

theorem Rect.Integral.span_nonneg (hr : r.Integral) (d : Dir) : 0 ≤ r.span d := by
  obtain ⟨x, y, w, h, rfl, hw, hh⟩ := hr
  cases d
  · exact Int.cast_nonneg hw
  · exact Int.cast_nonneg hh

theorem Rect.Integral.start_int (hr : r.Integral) (d : Dir) :
    ∃ a b : Int, r.start d = a ∧ r.span d = b := by
  obtain ⟨x, y, w, h, rfl, _, _⟩ := hr
  cases d
  · exact ⟨x, w, rfl, rfl⟩
  · exact ⟨y, h, rfl, rfl⟩

/-! ## The rects of a split's children -/

theorem length_placeRects (d : Dir) (rect : Rect) (gap : ℚ) : ∀ (spans : List Int) (pos : ℚ),
    (placeRects d rect gap pos spans).length = spans.length
  | [], _ => rfl
  | s :: ss, pos => by simp [placeRects, length_placeRects d rect gap ss]

theorem length_childRects (d : Dir) (cs : List LathChild) (rect : Rect) (opts : LayoutOpts) :
    (childRects d cs rect opts).length = cs.length := by
  rw [childRects, length_placeRects, length_allocateChildSpans]

def extent (g : Int) : List Int → Int
  | []          => 0
  | [s]         => s
  | s :: t :: u => s + g + extent g (t :: u)

theorem extent_eq (g : Int) : ∀ {spans : List Int}, spans ≠ [] → extent g spans = spans.sum + g * (spans.length - 1)
  | [], h => absurd rfl h
  | [s], _ => by simp [extent]
  | s :: t :: u, _ => by
    rw [extent, extent_eq g (by simp), List.sum_cons (l := t :: u)]
    simp only [List.length_cons]
    push_cast
    ring

theorem extent_nonneg {g : Int} (hg : 0 ≤ g) : ∀ (spans : List Int), (∀ s ∈ spans, 0 ≤ s) → 0 ≤ extent g spans
  | [], _ => le_refl _
  | [s], h => by simpa [extent] using h s (by simp)
  | s :: t :: u, h => by
    have := extent_nonneg hg (t :: u) (fun x hx => h x (List.mem_cons_of_mem _ hx))
    have := h s (by simp)
    rw [extent]
    omega

/-- Placed rects are integral, start at or after `pos`, end within the extent, and follow each other. -/
theorem placeRects_spec {d : Dir} {rect : Rect} (hr : rect.Integral) {g : Int} (hg : 0 ≤ g) :
    ∀ (spans : List Int) (pos : Int), (∀ s ∈ spans, 0 ≤ s) →
      (∀ cr ∈ placeRects d rect g pos spans, cr.Integral ∧ (pos : ℚ) ≤ cr.start d ∧
        cr.start d + cr.span d ≤ pos + (extent g spans : Int) ∧ ∃ p, ∃ s ∈ spans, cr = rect.slice d p (s : Int)) ∧
      (placeRects d rect g pos spans).Pairwise (fun a b => a.start d + a.span d ≤ b.start d)
  | [], pos, _ => ⟨by simp [placeRects], .nil⟩
  | s :: ss, pos, h => by
    have hs := h s (by simp)
    have hcast : (pos : ℚ) + ((s : ℚ) + g) = ((pos + (s + g) : Int) : ℚ) := by push_cast; ring
    obtain ⟨hall, hpair⟩ := placeRects_spec hr hg ss (pos + (s + g)) (fun x hx => h x (by simp [hx]))
    have hsQ : (0 : ℚ) ≤ s := by exact_mod_cast hs
    have hgQ : (0 : ℚ) ≤ g := by exact_mod_cast hg
    rw [placeRects, hcast]
    refine ⟨fun cr hcr => ?_, List.pairwise_cons.2 ⟨fun cr hcr => ?_, hpair⟩⟩
    · rcases List.mem_cons.1 hcr with rfl | hcr
      · refine ⟨hr.slice d hs, by simp, ?_, pos, s, by simp, rfl⟩
        rw [start_slice, span_slice]
        cases ss with
        | nil => simp [extent]
        | cons t u =>
          have : 0 ≤ extent g (t :: u) := extent_nonneg hg _ (fun x hx => h x (List.mem_cons_of_mem _ hx))
          have : (0 : ℚ) ≤ (extent g (t :: u) : Int) := by exact_mod_cast this
          rw [extent]
          push_cast
          linarith
      · obtain ⟨hi, hlo, hhi, p, t, ht, he⟩ := hall cr hcr
        refine ⟨hi, ?_, ?_, p, t, by simp [ht], he⟩
        · push_cast at hlo
          linarith
        · cases ss with
          | nil => simp [placeRects] at hcr
          | cons t u =>
            rw [extent]
            push_cast at hhi ⊢
            linarith
    · obtain ⟨_, hlo, _⟩ := hall cr hcr
      rw [start_slice, span_slice]
      push_cast at hlo
      linarith

/-- A rect lies inside another along every axis where it has extent. -/
def Rect.Inside (r s : Rect) : Prop :=
  ∀ d, r.span d = 0 ∨ (s.start d ≤ r.start d ∧ r.start d + r.span d ≤ s.start d + s.span d)

theorem Rect.Inside.refl (r : Rect) : r.Inside r := fun _ => .inr ⟨le_refl _, le_refl _⟩

theorem Rect.Inside.trans {r s t : Rect} (hr : r.Integral) (h : r.Inside s) (h' : s.Inside t) : r.Inside t := by
  intro d
  rcases h d with h0 | ⟨h1, h2⟩
  · exact .inl h0
  · rcases h' d with h0 | ⟨h3, h4⟩
    · have := hr.span_nonneg d
      exact .inl (by linarith)
    · exact .inr ⟨by linarith, by linarith⟩

section
variable {S : ℚ → Prop} {d : Dir} {cs : List LathChild} (hc : Canon S (.split d cs)) {opts : LayoutOpts}
  (ho : opts.Integral) {r : Rect} (hr : r.Integral)
include hc ho hr

/-- The child spans with the gaps fill the split's span, unless the gaps alone exceed it: then they are all zero. -/
theorem extent_childSpans :
    (∀ s ∈ allocateChildSpans cs (r.span d) opts d, 0 ≤ s) ∧
    (opts.gap * ((cs.length : ℚ) - 1) ≤ r.span d → ∀ g : Int, opts.gap = g →
      ((extent g (allocateChildSpans cs (r.span d) opts d) : Int) : ℚ) = r.span d) ∧
    (¬ opts.gap * ((cs.length : ℚ) - 1) ≤ r.span d → ∀ s ∈ allocateChildSpans cs (r.span d) opts d, s = 0) := by
  obtain ⟨hpos, hsum⟩ := allocateChildSpans_spec hc ho.nonneg (availableSpan_int ho hr d cs.length)
  have hlen := length_allocateChildSpans cs (r.span d) opts d
  have count := hc.split_inv.1
  have hne : allocateChildSpans cs (r.span d) opts d ≠ [] := by
    intro h
    rw [h, List.length_nil] at hlen
    omega
  refine ⟨hpos, fun hfit g hg => ?_, fun hover s hs => ?_⟩
  · rw [extent_eq g hne, hlen]
    rw [Int.cast_add, hsum, availableSpan, Int.cast_mul, ← hg, max_eq_right (by linarith), Int.cast_sub, Int.cast_natCast,
      Int.cast_one]
    ring
  · rw [availableSpan, max_eq_left (by linarith)] at hsum
    have hsum : (allocateChildSpans cs (r.span d) opts d).sum = 0 := by exact_mod_cast hsum
    have := List.single_le_sum hpos s hs
    have := hpos s hs
    omega

theorem childRects_spec :
    (∀ cr ∈ childRects d cs r opts, cr.Integral ∧ cr.Inside r) ∧
      (childRects d cs r opts).Pairwise (fun a b => a.start d + a.span d ≤ b.start d) := by
  obtain ⟨hpos, hfit, hover⟩ := extent_childSpans hc ho hr
  obtain ⟨g, w, h, hopts, hg, _, _⟩ := ho
  obtain ⟨a, b, ha, hb⟩ := hr.start_int d
  have hgap : opts.gap = g := by rw [hopts]
  obtain ⟨hall, hpair⟩ := placeRects_spec hr hg _ a hpos
  unfold childRects
  rw [hgap, ha]
  refine ⟨fun cr hcr => ?_, hpair⟩
  obtain ⟨hi, hlo, hhi, p, s, hs, he⟩ := hall cr hcr
  refine ⟨hi, fun e => ?_⟩
  by_cases hed : e = d
  · subst hed
    by_cases hf : opts.gap * ((cs.length : ℚ) - 1) ≤ r.span e
    · rw [hfit hf g hgap] at hhi
      exact .inr ⟨by rw [ha]; exact hlo, by rw [ha]; exact hhi⟩
    · rw [he, hover hf s hs, span_slice]
      exact .inl Int.cast_zero
  · rw [he]
    obtain ⟨h1, h2⟩ := slice_other r hed p s
    exact .inr ⟨by rw [h1], by rw [h1, h2]⟩

end

/-! ## The entries of `layout` -/

mutual
def leafRects (opts : LayoutOpts) (r : Rect) : LathNode → List (LeafId × Rect)
  | .leaf id    => [(id, r)]
  | .split d cs => childLeafRects opts cs (childRects d cs r opts)
def childLeafRects (opts : LayoutOpts) : List LathChild → List Rect → List (LeafId × Rect)
  | ⟨n, _⟩ :: cs, r :: rs => leafRects opts r n ++ childLeafRects opts cs rs
  | _,            _       => []
end

mutual
theorem keys_leafRects (opts : LayoutOpts) : ∀ (n : LathNode) (r : Rect),
    (leafRects opts r n).map (·.1) = nodeLeaves n
  | .leaf id, r => by simp [leafRects]
  | .split d cs, r => by
    rw [leafRects, nodeLeaves_split]
    exact keys_childLeafRects opts cs _ (length_childRects d cs r opts)
theorem keys_childLeafRects (opts : LayoutOpts) : ∀ (cs : List LathChild) (rs : List Rect), rs.length = cs.length →
    (childLeafRects opts cs rs).map (·.1) = leavesOf cs
  | [], _, _ => by simp [childLeafRects]
  | ⟨n, w⟩ :: cs, [], h => by simp at h
  | ⟨n, w⟩ :: cs, r :: rs, h => by
    rw [childLeafRects, List.map_append, keys_leafRects opts n r, keys_childLeafRects opts cs rs (by simpa using h)]
    rfl
end

@[simp] theorem childLeafRects_nil (ss : List Rect) : childLeafRects opts [] ss = [] := by simp [childLeafRects]

theorem childLeafRects_append (opts : LayoutOpts) : ∀ (as bs : List LathChild) (rs : List Rect),
    childLeafRects opts (as ++ bs) rs = childLeafRects opts as (rs.take as.length) ++ childLeafRects opts bs (rs.drop as.length)
  | [], bs, rs => by simp [childLeafRects]
  | ⟨n, w⟩ :: as, bs, [] => by
    rw [List.cons_append]
    cases bs <;> simp [childLeafRects]
  | ⟨n, w⟩ :: as, bs, r :: rs => by
    rw [List.cons_append, childLeafRects, childLeafRects_append opts as bs rs, List.length_cons, List.take_succ_cons,
      List.drop_succ_cons, childLeafRects, List.append_assoc]

theorem childLeafRects_runs {as bs : List LathChild} {ts us : List Rect} (h : ts.length = as.length) :
    childLeafRects opts (as ++ bs) (ts ++ us) = childLeafRects opts as ts ++ childLeafRects opts bs us := by
  rw [childLeafRects_append, ← h, List.take_left, List.drop_left]

theorem childLeafRects_at {ss : List Rect} (hlen : ss.length = cs.length) {i : Nat} {c : LathChild} {s : Rect}
    (hc : cs[i]? = some c) (hs : ss[i]? = some s) : childLeafRects opts cs ss =
      childLeafRects opts (cs.take i) (ss.take i) ++
        (leafRects opts s c.node ++ childLeafRects opts (cs.drop (i + 1)) (ss.drop (i + 1))) := by
  obtain ⟨n, w⟩ := c
  have hi := (List.getElem?_eq_some_iff.1 hc).1
  conv => lhs; rw [(split_at_getElem? hc).1, (split_at_getElem? hs).1]
  rw [childLeafRects_runs (by simp; omega), childLeafRects]

theorem mapSet_new {out : List (LeafId × Rect)} {id : LeafId} (h : id ∉ out.map (·.1)) (r : Rect) :
    mapSet out id r = out ++ [(id, r)] := by
  unfold mapSet
  rw [if_neg]
  intro hany
  obtain ⟨e, he, heq⟩ := List.any_eq_true.1 hany
  exact h (List.mem_map.2 ⟨e, he, by simpa using heq⟩)

mutual
theorem layoutNode_eq (opts : LayoutOpts) : ∀ (n : LathNode) (r : Rect) (out : List (LeafId × Rect)),
    (out.map (·.1) ++ nodeLeaves n).Nodup → layoutNode opts r out n = out ++ leafRects opts r n
  | .leaf id, r, out, h => by
    rw [layoutNode, leafRects]
    exact mapSet_new (fun hm => (List.nodup_append.1 h).2.2 id hm id (by simp) rfl) r
  | .split d cs, r, out, h => by
    rw [layoutNode, leafRects]
    exact layoutChildren_eq opts cs _ out (length_childRects d cs r opts) (by rwa [nodeLeaves_split] at h)
theorem layoutChildren_eq (opts : LayoutOpts) : ∀ (cs : List LathChild) (rs : List Rect) (out : List (LeafId × Rect)),
    rs.length = cs.length → (out.map (·.1) ++ leavesOf cs).Nodup →
      layoutChildren opts out cs rs = out ++ childLeafRects opts cs rs
  | [], _, out, _, _ => by simp [layoutChildren, childLeafRects]
  | ⟨n, w⟩ :: cs, [], _, h, _ => by simp at h
  | ⟨n, w⟩ :: cs, r :: rs, out, h, hnd => by
    rw [leavesOf, List.flatMap_cons, ← List.append_assoc] at hnd
    rw [layoutChildren, childLeafRects, layoutNode_eq opts n r out (List.nodup_append.1 hnd).1,
      layoutChildren_eq opts cs rs _ (by simpa using h) (by rw [List.map_append, keys_leafRects]; exact hnd),
      List.append_assoc]
end

/-! ## No overlap -/

def Rect.Overlap (a b : Rect) : Prop :=
  ∀ d, max (a.start d) (b.start d) < min (a.start d + a.span d) (b.start d + b.span d)

theorem not_overlap {a b r s : Rect} (ha : a.Inside r) (hb : b.Inside s) {d : Dir}
    (h : r.start d + r.span d ≤ s.start d) : ¬ a.Overlap b := by
  intro hov
  have := hov d
  have h1 : a.start d < a.start d + a.span d :=
    lt_of_le_of_lt (le_max_left _ _) (lt_of_lt_of_le this (min_le_left _ _))
  have h2 : b.start d < b.start d + b.span d :=
    lt_of_le_of_lt (le_max_right _ _) (lt_of_lt_of_le this (min_le_right _ _))
  have h3 : b.start d < a.start d + a.span d :=
    lt_of_le_of_lt (le_max_right _ _) (lt_of_lt_of_le this (min_le_left _ _))
  rcases ha d with h0 | ⟨_, ha2⟩
  · linarith
  · rcases hb d with h0 | ⟨hb1, _⟩
    · linarith
    · linarith

/-- What is shown of the leaf rects under a node laid out in `r`. -/
structure Placed (r : Rect) (entries : List (LeafId × Rect)) : Prop where
  integral : ∀ e ∈ entries, e.2.Integral
  inside   : ∀ e ∈ entries, e.2.Inside r
  disjoint : entries.Pairwise (fun a b => ¬ a.2.Overlap b.2)

theorem childLeafRects_placed {opts : LayoutOpts} {d : Dir} : ∀ (cs : List LathChild) (rs : List Rect),
    (∀ c ∈ cs, ∀ r ∈ rs, Placed r (leafRects opts r c.node)) →
    rs.Pairwise (fun a b => a.start d + a.span d ≤ b.start d) →
    (∀ e ∈ childLeafRects opts cs rs, e.2.Integral ∧ ∃ r ∈ rs, e.2.Inside r) ∧
      (childLeafRects opts cs rs).Pairwise (fun a b => ¬ a.2.Overlap b.2)
  | [], _, _, _ => by simp [childLeafRects]
  | ⟨n, w⟩ :: cs, [], _, _ => by simp [childLeafRects]
  | ⟨n, w⟩ :: cs, r :: rs, hp, hsep => by
    have hn := hp ⟨n, w⟩ (by simp) r (by simp)
    obtain ⟨hr, hrs⟩ := List.pairwise_cons.1 hsep
    obtain ⟨hall, hpair⟩ := childLeafRects_placed cs rs
      (fun c hc x hx => hp c (by simp [hc]) x (by simp [hx])) hrs
    rw [childLeafRects]
    refine ⟨fun e he => ?_, List.pairwise_append.2 ⟨hn.disjoint, hpair, fun a ha b hb => ?_⟩⟩
    · rcases List.mem_append.1 he with he | he
      · exact ⟨hn.integral e he, r, by simp, hn.inside e he⟩
      · obtain ⟨hi, x, hx, hin⟩ := hall e he
        exact ⟨hi, x, by simp [hx], hin⟩
    · obtain ⟨_, x, hx, hin⟩ := hall b hb
      exact not_overlap (hn.inside a ha) hin (hr x hx)

/-- **Leaf rects are integral, inside their node's rect, and do not overlap.** -/
theorem leafRects_placed (ho : opts.Integral) {n : LathNode} (hc : Canon S n) :
    ∀ {r : Rect}, r.Integral → Placed r (leafRects opts r n) := by
  induction hc with
  | leaf id =>
    intro r hr
    rw [leafRects]
    exact ⟨by simpa using hr, by simpa using Rect.Inside.refl r, List.pairwise_singleton _ _⟩
  | @split d cs count pos sum alt child ih =>
    intro r hr
    obtain ⟨hrects, hsep⟩ := childRects_spec (.split count pos sum alt child) ho hr
    obtain ⟨hall, hpair⟩ := childLeafRects_placed cs _ (fun c hc x hx => ih c hc (hrects x hx).1) hsep
    rw [leafRects]
    refine ⟨fun e he => (hall e he).1, fun e he => ?_, hpair⟩
    obtain ⟨hi, x, hx, hin⟩ := hall e he
    exact hin.trans hi (hrects x hx).2

/-! ## Every cell once -/

def coord (i j : Int) : Dir → Int
  | .row => i
  | .col => j

/-- The unit cell at `(i, j)` lies in the rect. -/
def Rect.hasCell (r : Rect) (i j : Int) : Bool :=
  decide (r.x ≤ i ∧ (i : ℚ) + 1 ≤ r.x + r.width ∧ r.y ≤ j ∧ (j : ℚ) + 1 ≤ r.y + r.height)

def Rect.onAxis (r : Rect) (i j : Int) (d : Dir) : Prop :=
  r.start d ≤ coord i j d ∧ (coord i j d : ℚ) + 1 ≤ r.start d + r.span d

theorem hasCell_iff (r : Rect) (i j : Int) : r.hasCell i j = true ↔ r.onAxis i j .row ∧ r.onAxis i j .col := by
  unfold Rect.hasCell Rect.onAxis
  simp only [decide_eq_true_eq, coord, Rect.start, Rect.span]
  tauto

def Dir.other : Dir → Dir
  | .row => .col
  | .col => .row

theorem hasCell_iff_axis (r : Rect) (i j : Int) (d : Dir) :
    r.hasCell i j = true ↔ r.onAxis i j d.other ∧ r.onAxis i j d := by
  rw [hasCell_iff]
  cases d
  · exact and_comm
  · exact Iff.rfl

theorem hasCell_slice (r : Rect) (i j : Int) (d : Dir) (pos len : Int) :
    (r.slice d pos len).hasCell i j = true ↔ r.onAxis i j d.other ∧ pos ≤ coord i j d ∧ coord i j d + 1 ≤ pos + len := by
  rw [hasCell_iff_axis _ i j d]
  have hne : d.other ≠ d := by cases d <;> decide
  obtain ⟨h1, h2⟩ := slice_other r hne (pos : ℚ) (len : ℚ)
  unfold Rect.onAxis
  rw [h1, h2, start_slice, span_slice]
  refine and_congr_right (fun _ => and_congr (by norm_cast) (by norm_cast))

def countCell (opts : LayoutOpts) (i j : Int) (path : List Nat) (r : Rect) (n : LathNode) : Nat :=
  (leafRects opts r n).countP (fun e => e.2.hasCell i j) +
    (sashesAt opts path r n).countP (fun s => s.rect.hasCell i j)

/-- No split at or under a node has gaps that alone exceed its span. -/
def FitsAt (opts : LayoutOpts) (n : LathNode) (r : Rect) : Prop :=
  ∀ p d cs s, nodeAt n p = some (.split d cs) → nodeRectAt opts n r p = some s →
    opts.gap * ((cs.length : ℚ) - 1) ≤ s.span d

def cellCount (i j : Int) (r : Rect) : Nat := if r.hasCell i j then 1 else 0

theorem cellCount_slice (r : Rect) (i j : Int) (d : Dir) (pos len : Int) {n : Nat}
    (h : (r.onAxis i j d.other ∧ pos ≤ coord i j d ∧ coord i j d + 1 ≤ pos + len) ∧ n = 1 ∨
      ¬ (r.onAxis i j d.other ∧ pos ≤ coord i j d ∧ coord i j d + 1 ≤ pos + len) ∧ n = 0) :
    cellCount i j (r.slice d pos len) = n := by
  unfold cellCount
  rcases h with ⟨h, rfl⟩ | ⟨h, rfl⟩
  · rw [if_pos ((hasCell_slice r i j d pos len).2 h)]
  · rw [if_neg (fun hc => h ((hasCell_slice r i j d pos len).1 hc))]

theorem cellCount_cut (r : Rect) (i j : Int) (d : Dir) (pos : Int) {s g e : Int} (hs : 0 ≤ s) (hg : 0 ≤ g) (he : 0 ≤ e) :
    cellCount i j (r.slice d pos s) + cellCount i j (r.slice d (pos + s : Int) g) +
      cellCount i j (r.slice d (pos + s + g : Int) e) = cellCount i j (r.slice d pos (s + g + e : Int)) := by
  by_cases hax : r.onAxis i j d.other
  · by_cases hin : pos ≤ coord i j d ∧ coord i j d + 1 ≤ pos + (s + g + e)
    · rw [cellCount_slice r i j d pos (s + g + e) (n := 1) (.inl ⟨⟨hax, hin⟩, rfl⟩)]
      by_cases h1 : coord i j d + 1 ≤ pos + s
      · rw [cellCount_slice r i j d pos s (n := 1) (.inl ⟨⟨hax, by omega, h1⟩, rfl⟩),
          cellCount_slice r i j d (pos + s) g (n := 0) (.inr ⟨by omega, rfl⟩),
          cellCount_slice r i j d (pos + s + g) e (n := 0) (.inr ⟨by omega, rfl⟩)]
      · by_cases h2 : coord i j d + 1 ≤ pos + s + g
        · rw [cellCount_slice r i j d pos s (n := 0) (.inr ⟨by omega, rfl⟩),
            cellCount_slice r i j d (pos + s) g (n := 1) (.inl ⟨⟨hax, by omega, h2⟩, rfl⟩),
            cellCount_slice r i j d (pos + s + g) e (n := 0) (.inr ⟨by omega, rfl⟩)]
        · rw [cellCount_slice r i j d pos s (n := 0) (.inr ⟨by omega, rfl⟩),
            cellCount_slice r i j d (pos + s) g (n := 0) (.inr ⟨by omega, rfl⟩),
            cellCount_slice r i j d (pos + s + g) e (n := 1) (.inl ⟨⟨hax, by omega, by omega⟩, rfl⟩)]
    · rw [cellCount_slice r i j d pos (s + g + e) (n := 0) (.inr ⟨fun h => hin h.2, rfl⟩),
        cellCount_slice r i j d pos s (n := 0) (.inr ⟨by omega, rfl⟩),
        cellCount_slice r i j d (pos + s) g (n := 0) (.inr ⟨by omega, rfl⟩),
        cellCount_slice r i j d (pos + s + g) e (n := 0) (.inr ⟨by omega, rfl⟩)]
  · rw [cellCount_slice r i j d pos (s + g + e) (n := 0) (.inr ⟨fun h => hax h.1, rfl⟩),
      cellCount_slice r i j d pos s (n := 0) (.inr ⟨fun h => hax h.1, rfl⟩),
      cellCount_slice r i j d (pos + s) g (n := 0) (.inr ⟨fun h => hax h.1, rfl⟩),
      cellCount_slice r i j d (pos + s + g) e (n := 0) (.inr ⟨fun h => hax h.1, rfl⟩)]

/-- The children of a split from one on, with the bands between them: a cell of their extent is in one. -/
theorem count_children {opts : LayoutOpts} {g : Int} (hg : 0 ≤ g) (hgap : opts.gap = g) (r : Rect)
    (i j : Int) (d : Dir) (path : List Nat) : ∀ (cs : List LathChild) (spans : List Int) (pos : Int) (k : Nat),
      spans.length = cs.length → cs ≠ [] → (∀ s ∈ spans, 0 ≤ s) →
      (∀ (m : Nat) (c : LathChild) (cr : Rect), cs[m]? = some c → (placeRects d r g pos spans)[m]? = some cr →
        ∀ q, countCell opts i j q cr c.node = cellCount i j cr) →
      (childLeafRects opts cs (placeRects d r g pos spans)).countP (fun e => e.2.hasCell i j) +
        (sashesIn opts path r d k cs (placeRects d r g pos spans)).countP (fun s => s.rect.hasCell i j) =
        cellCount i j (r.slice d pos (extent g spans : Int))
  | [], _, _, _, _, hne, _, _ => absurd rfl hne
  | ⟨n, w⟩ :: cs, [], _, _, h, _, _, _ => by simp at h
  | [⟨n, w⟩], s :: [], pos, k, _, _, _, hcount => by
    have := hcount 0 ⟨n, w⟩ (r.slice d pos s) rfl rfl (path ++ [k])
    unfold countCell at this
    simpa [placeRects, childLeafRects, sashesIn, extent] using this
  | [⟨n, w⟩], s :: t :: u, pos, k, h, _, _, hcount => by simp at h
  | ⟨n, w⟩ :: c :: cs, [s], pos, k, h, _, _, hcount => by simp at h
  | ⟨n, w⟩ :: c :: cs, s :: t :: u, pos, k, h, _, hs, hcount => by
    have hcast : (pos : ℚ) + ((s : ℚ) + g) = ((pos + s + g : Int) : ℚ) := by push_cast; ring
    have hhead := hcount 0 ⟨n, w⟩ (r.slice d pos s) rfl rfl (path ++ [k])
    have hrest := count_children hg hgap r i j d path (c :: cs) (t :: u) (pos + s + g) (k + 1) (by simpa using h)
      (by simp) (fun x hx => hs x (List.mem_cons_of_mem _ hx)) (fun m c' cr hc hcr q => by
        refine hcount (m + 1) c' cr hc ?_ q
        rw [placeRects, hcast]
        exact hcr)
    have hcut := cellCount_cut r i j d pos (hs s (by simp)) hg
      (extent_nonneg hg (t :: u) (fun x hx => hs x (List.mem_cons_of_mem _ hx)))
    have hband : [(⟨path, k, d, r.slice d ((r.slice d pos s).start d + (r.slice d pos s).span d) opts.gap⟩ : Sash)].countP
        (fun s => s.rect.hasCell i j) = cellCount i j (r.slice d (pos + s : Int) g) := by
      rw [start_slice, span_slice, hgap, List.countP_singleton, cellCount]
      push_cast
      rfl
    rw [placeRects, hcast, childLeafRects, sashesIn, extent]
    simp only [List.isEmpty_cons, Bool.false_eq_true, if_false, List.countP_append, hband]
    unfold countCell at hhead
    dsimp only at hhead
    omega

/-- **Under a node that fits, a cell of the rect is in exactly one leaf rect or band, and a cell outside it in none.** -/
theorem count_node (ho : opts.Integral) (i j : Int) {n : LathNode} (hc : Canon S n) :
    ∀ {r : Rect}, r.Integral → FitsAt opts n r → ∀ path, countCell opts i j path r n = cellCount i j r := by
  induction hc with
  | leaf id =>
    intro r hr _ path
    simp [countCell, leafRects, sashesAt, cellCount, List.countP_singleton]
  | @split d cs count pos sum alt child ih =>
    intro r hr hfit path
    have hcan : Canon S (.split d cs) := .split count pos sum alt child
    obtain ⟨hpos, hext, _⟩ := extent_childSpans hcan ho hr
    obtain ⟨hrects, _⟩ := childRects_spec hcan ho hr
    obtain ⟨g, w, h, hopts, hg, _, _⟩ := id ho
    have hgap : opts.gap = g := by rw [hopts]
    obtain ⟨a, b, ha, hb⟩ := hr.start_int d
    have hroot := hfit [] d cs r (by simp) (by simp [nodeRectAt])
    have hchildRects : childRects d cs r opts = placeRects d r g a (allocateChildSpans cs (r.span d) opts d) := by
      rw [childRects, hgap, ha]
    have hall := count_children hg hgap r i j d path cs (allocateChildSpans cs (r.span d) opts d) a 0
      (length_allocateChildSpans cs (r.span d) opts d) (by rintro rfl; simp at count) hpos (fun m c cr hm hcr q => by
        rw [← hchildRects] at hcr
        refine ih c (List.mem_of_getElem? hm) (hrects cr (List.mem_of_getElem? hcr)).1 (fun p e es s hp hs => ?_) q
        refine hfit (m :: p) e es s ?_ ?_
        · simpa [nodeAt_split_cons, hm] using hp
        · simpa [nodeRectAt, hm, hcr] using hs)
    unfold countCell
    rw [leafRects, sashesAt, hchildRects, hall, hext hroot g hgap, ← ha]
    have : r.slice d (r.start d) (r.span d) = r := by cases d <;> rfl
    rw [this]

/-! ## `nodeRectAtPath` and the whole layout -/

theorem mem_childLeafRects {opts : LayoutOpts} {e : LeafId × Rect} : ∀ {cs : List LathChild} {rs : List Rect} {i : Nat}
    {c : LathChild} {cr : Rect}, cs[i]? = some c → rs[i]? = some cr → e ∈ leafRects opts cr c.node →
      e ∈ childLeafRects opts cs rs
  | [], _, _, _, _, hc, _, _ => by simp at hc
  | _ :: _, [], _, _, _, _, hcr, _ => by simp at hcr
  | ⟨n, w⟩ :: cs, r :: rs, 0, c, cr, hc, hcr, he => by
    simp only [List.getElem?_cons_zero, Option.some.injEq] at hc hcr
    subst hc hcr
    rw [childLeafRects]
    exact List.mem_append_left _ he
  | ⟨n, w⟩ :: cs, r :: rs, i + 1, c, cr, hc, hcr, he => by
    rw [childLeafRects]
    exact List.mem_append_right _ (mem_childLeafRects (i := i) (by simpa using hc) (by simpa using hcr) he)

theorem nodeRectAt_leaf (opts : LayoutOpts) {id : LeafId} : ∀ (p : List Nat) {n : LathNode} {r : Rect},
    nodeAt n p = some (.leaf id) → ∃ s, nodeRectAt opts n r p = some s ∧ (id, s) ∈ leafRects opts r n
  | [], n, r, h => by
    simp only [nodeAt_nil, Option.some.injEq] at h
    subst h
    exact ⟨r, by simp [nodeRectAt], by simp [leafRects]⟩
  | i :: p, .leaf _, r, h => by simp at h
  | i :: p, .split d cs, r, h => by
    simp only [nodeAt_split_cons] at h
    obtain ⟨c, hc, hp⟩ := Option.bind_eq_some_iff.1 h
    have hi : i < (childRects d cs r opts).length := by
      rw [length_childRects]
      exact (List.getElem?_eq_some_iff.1 hc).1
    have hcr := List.getElem?_eq_getElem hi
    obtain ⟨s, hs, hmem⟩ := nodeRectAt_leaf opts p (r := (childRects d cs r opts)[i]) hp
    refine ⟨s, by simp only [nodeRectAt, hc, hcr, hs], ?_⟩
    rw [leafRects]
    exact mem_childLeafRects hc hcr hmem

theorem lookup_of_mem {l : List (LeafId × Rect)} {id : LeafId} (hnd : (l.map (·.1)).Nodup) (h : (id, r) ∈ l) :
    l.lookup id = some r := by
  induction l with
  | nil => simp at h
  | cons e l ih =>
    obtain ⟨k, s⟩ := e
    rw [List.map_cons, List.nodup_cons] at hnd
    rcases List.mem_cons.1 h with he | he
    · cases he
      simp
    · have hne : id ≠ k := fun hk => hnd.1 (List.mem_map.2 ⟨(id, r), he, hk⟩)
      rw [List.lookup_cons, beq_false_of_ne hne]
      exact ih hnd.2 he

/-- No split of the tree has gaps that alone exceed its span, at the rect it is laid out in. -/
def Fits (t : LathTree) (rect : Rect) (opts : LayoutOpts) : Prop :=
  ∀ p d cs s, nodeAtPath t p = some (.split d cs) → nodeRectAtPath t rect opts p = some s →
    opts.gap * ((cs.length : ℚ) - 1) ≤ s.span d

def cellsHeld (t : LathTree) (rect : Rect) (opts : LayoutOpts) (i j : Int) : Nat :=
  ((layout t rect opts).map (·.2) ++ (sashes t rect opts).map (·.rect)).countP (·.hasCell i j)

theorem nonnegativeRect_integral (h : r.Integral) : nonnegativeRect r = r := by
  obtain ⟨x, y, w, k, rfl, hw, hk⟩ := h
  unfold nonnegativeRect
  rw [max_eq_right (Int.cast_nonneg hw), max_eq_right (Int.cast_nonneg hk)]

def sampleRect : Rect := ⟨0, 0, 100, 80⟩

def sampleOpts : LayoutOpts := ⟨6, ⟨30, 20⟩⟩

theorem sampleRect_integral : sampleRect.Integral :=
  ⟨0, 0, 100, 80, by norm_num [sampleRect], by norm_num, by norm_num⟩

theorem sampleOpts_integral : sampleOpts.Integral :=
  ⟨6, 30, 20, by norm_num [sampleOpts], by norm_num, by norm_num, by norm_num⟩

end Lath
end Dormouse

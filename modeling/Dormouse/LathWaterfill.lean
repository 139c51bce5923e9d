import Dormouse.LathTiling
/-!
# LathWaterfill — one level for every child that is not at its minimum

Where the minima fit, the waterfill of `allocateChildSpans` ends with one factor: a child it left alone has that many times its
weight, and a child it pinned would have had less than its minimum (`leveled_waterfill`).  The factor only falls from pass to pass
(`Leveled.factor_next`), so that none is pinned that would have had enough at the end.  No pass looks at the order of the children
(`waterfillSlots_perm`).
-/
namespace Dormouse
namespace Lath

def waterfillSlots : Nat → ℚ → List Slot → Option (List Slot)
  | 0,        _,         _     => none
  | fuel + 1, remaining, slots =>
    if (activeSlots slots).length = 0 then some slots
    else
      match slots.filter (pinned slots remaining) with
      | []        => some (slots.map (fun s => if s.clamped then s else { s with frac := share slots remaining s }))
      | s :: pins =>
        waterfillSlots fuel (remaining - ((s :: pins).map (·.min)).sum) (slots.map (pinSlot slots remaining))

theorem waterfill_eq : ∀ (fuel : Nat) (remaining : ℚ) (slots : List Slot),
    waterfill fuel remaining slots = (waterfillSlots fuel remaining slots).map (fun out => out.map (·.frac))
  | 0, _, _ => rfl
  | fuel + 1, remaining, slots => by
    rw [waterfill, waterfillSlots]
    by_cases hnone : (activeSlots slots).length = 0
    · rw [if_pos hnone, if_pos hnone]
      rfl
    · rw [if_neg hnone, if_neg hnone]
      cases slots.filter (pinned slots remaining) with
      | nil =>
        dsimp only
        rw [Option.map_some, List.map_map]
        refine congrArg some (List.map_congr_left (fun s _ => ?_))
        cases hc : s.clamped <;> simp [hc]
      | cons s pins => exact waterfill_eq fuel _ _

def factor (slots : List Slot) (remaining : ℚ) : ℚ := remaining / activeWeight slots

/-- Before a pass: a child that is pinned has its minimum, and would have less at the pass's factor. -/
structure Leveled (available remaining : ℚ) (slots : List Slot) : Prop where
  weight  : ∀ s ∈ slots, 0 < s.weight
  clamped : ∀ s ∈ slots, s.clamped = true → s.frac = s.min ∧ factor slots remaining * s.weight < s.min
  budget  : clampedFrac slots + remaining = available
  fits    : activeMin slots ≤ remaining
  active  : activeSlots slots ≠ []

section

variable {available remaining : ℚ} {slots : List Slot}

theorem Leveled.share (h : Leveled available remaining slots) (s : Slot) :
    share slots remaining s = factor slots remaining * s.weight := by
  rw [share_eq h.weight h.active, factor, mul_comm]

def left (remaining : ℚ) (slots : List Slot) : ℚ := remaining - ((slots.filter (pinned slots remaining)).map (·.min)).sum

/-- **The factor falls**: what is pinned takes more than the factor gave it. -/
theorem Leveled.factor_next (h : Leveled available remaining slots) :
    factor (slots.map (pinSlot slots remaining)) (left remaining slots) ≤ factor slots remaining := by
  have hq : ∀ s ∈ slots, pinned slots remaining s = true → s.clamped = false := fun s _ hp => pinned_active hp
  have hsplit := active_sum_pin (q := pinned slots remaining) (·.weight) (fun _ => rfl) slots hq
  have hpos : 0 < activeWeight (slots.map (pinSlot slots remaining)) := by
    refine activeWeight_pos (fun s hs => ?_) (active_next h.weight h.active h.fits)
    obtain ⟨x, hx, rfl⟩ := List.mem_map.1 hs
    unfold pinSlot
    split
    · exact h.weight x hx
    · exact h.weight x hx
  have hpins : factor slots remaining * ((slots.filter (pinned slots remaining)).map (·.weight)).sum ≤
      ((slots.filter (pinned slots remaining)).map (·.min)).sum := by
    rw [← List.sum_map_mul_left]
    refine List.sum_le_sum (fun s hs => ?_)
    have hp := (List.mem_filter.1 hs).2
    unfold pinned at hp
    simp only [Bool.and_eq_true, decide_eq_true_eq, h.share] at hp
    linarith [hp.2]
  have hall : factor slots remaining * activeWeight slots = remaining :=
    div_mul_cancel₀ remaining (ne_of_gt (activeWeight_pos h.weight h.active))
  have hweight : activeWeight (slots.map (pinSlot slots remaining)) +
      ((slots.filter (pinned slots remaining)).map (·.weight)).sum = activeWeight slots := hsplit
  rw [factor, div_le_iff₀ hpos, left]
  rw [← hweight, mul_add] at hall
  linarith

theorem Leveled.next (h : Leveled available remaining slots) :
    Leveled available (left remaining slots) (slots.map (pinSlot slots remaining)) := by
  have hq : ∀ s ∈ slots, pinned slots remaining s = true → s.clamped = false := fun s _ hp => pinned_active hp
  have hpin : slots.map (pinSlot slots remaining) = slots.map (pinBy (pinned slots remaining)) := rfl
  have hfall := h.factor_next
  refine ⟨fun s hs => ?_, fun s hs hc => ?_, ?_, ?_, active_next h.weight h.active h.fits⟩
  · obtain ⟨x, hx, rfl⟩ := List.mem_map.1 hs
    unfold pinSlot
    split
    · exact h.weight x hx
    · exact h.weight x hx
  · obtain ⟨x, hx, rfl⟩ := List.mem_map.1 hs
    have hweight := h.weight x hx
    have hle : factor (slots.map (pinSlot slots remaining))
      (left remaining slots) * x.weight ≤ factor slots remaining * x.weight :=
      mul_le_mul_of_nonneg_right hfall hweight.le
    unfold pinSlot at hc ⊢
    by_cases hp : pinned slots remaining x = true
    · simp only [hp, if_true]
      refine ⟨trivial, ?_⟩
      unfold pinned at hp
      simp only [Bool.and_eq_true, decide_eq_true_eq, h.share] at hp
      unfold pinSlot at hle
      linarith [hp.2]
    · simp only [hp] at hc ⊢
      obtain ⟨hfrac, hlt⟩ := h.clamped x hx hc
      exact ⟨hfrac, lt_of_le_of_lt hle hlt⟩
  · rw [hpin, clampedFrac_pin slots hq, ← h.budget, left]
    ring
  · have := activeMin_pin slots hq
    rw [hpin, left]
    linarith [h.fits]

/-- What the loop ends with: the children it was given, and one factor for all it did not pin. -/
structure Ended (available : ℚ) (given out : List Slot) (level : ℚ) : Prop where
  weights : out.map (·.weight) = given.map (·.weight)
  mins    : out.map (·.min) = given.map (·.min)
  sum     : (out.map (·.frac)).sum = available
  free    : ∀ s ∈ out, s.clamped = false → s.frac = level * s.weight ∧ s.min - 1 / 1000000000 ≤ s.frac
  pinned  : ∀ s ∈ out, s.clamped = true → s.frac = s.min ∧ level * s.weight < s.min
  some    : ∃ s ∈ out, s.clamped = false

theorem Leveled.ended (h : Leveled available remaining slots) (hpins : slots.filter (Lath.pinned slots remaining) = []) :
    Ended available slots (slots.map (fun s => if s.clamped then s else { s with frac := Lath.share slots remaining s }))
      (factor slots remaining) := by
  have hkeep : ∀ (g : Slot → ℚ), (∀ s f, g { s with frac := f } = g s) →
      (slots.map (fun s => if s.clamped then s else { s with frac := Lath.share slots remaining s })).map g = slots.map g := by
    intro g hg
    rw [List.map_map]
    refine List.map_congr_left (fun s _ => ?_)
    dsimp only [Function.comp]
    split
    · rfl
    · exact hg s _
  refine ⟨hkeep _ (fun _ _ => rfl), hkeep _ (fun _ _ => rfl), ?_, fun s hs hc => ?_, fun s hs hc => ?_, ?_⟩
  · have hfracs : (slots.map (fun s => if s.clamped then s else { s with frac := Lath.share slots remaining s })).map (·.frac) =
        slots.map (fun s => if s.clamped then s.frac else s.weight * factor slots remaining) := by
      rw [List.map_map]
      refine List.map_congr_left (fun s _ => ?_)
      cases hc : s.clamped <;> simp [hc, h.share, mul_comm]
    rw [hfracs, fracs_sum, ← h.budget, factor, mul_div_cancel₀ _ (ne_of_gt (activeWeight_pos h.weight h.active))]
  · obtain ⟨x, hx, rfl⟩ := List.mem_map.1 hs
    have hfree : x.clamped = false := by
      cases hx' : x.clamped with
      | false => rfl
      | true => simp [hx'] at hc
    have hnot : Lath.pinned slots remaining x = false := by
      cases hp : Lath.pinned slots remaining x with
      | false => rfl
      | true => exact absurd (List.mem_filter.2 ⟨hx, hp⟩) (by rw [hpins]; exact List.not_mem_nil)
    simp only [hfree, Bool.false_eq_true, if_false]
    refine ⟨h.share x, ?_⟩
    simp only [Lath.pinned, hfree, Bool.not_false, Bool.true_and, decide_eq_false_iff_not, not_lt] at hnot
    exact hnot
  · obtain ⟨x, hx, rfl⟩ := List.mem_map.1 hs
    have hpinned : x.clamped = true := by
      cases hx' : x.clamped with
      | true => rfl
      | false => simp [hx'] at hc
    simp only [hpinned, if_true]
    exact h.clamped x hx hpinned
  · obtain ⟨s, hs⟩ := List.exists_mem_of_ne_nil _ h.active
    obtain ⟨hmem, hfree⟩ := List.mem_filter.1 hs
    have hfree : s.clamped = false := by simpa using hfree
    refine ⟨_, List.mem_map.2 ⟨s, hmem, rfl⟩, ?_⟩
    simp only [hfree, Bool.false_eq_true, if_false]

end

/-- **The loop ends at one level.** -/
theorem waterfillSlots_spec {available : ℚ} : ∀ (fuel : Nat) {remaining : ℚ} {slots : List Slot},
    Leveled available remaining slots → (activeSlots slots).length < fuel →
    ∃ out level, waterfillSlots fuel remaining slots = some out ∧ Ended available slots out level
  | 0, _, _, _, hfuel => absurd hfuel (Nat.not_lt_zero _)
  | fuel + 1, remaining, slots, h, hfuel => by
    rw [waterfillSlots, if_neg (by simpa using h.active)]
    cases hpins : slots.filter (pinned slots remaining) with
    | nil => exact ⟨_, _, rfl, h.ended hpins⟩
    | cons s pins =>
      have hcount := activeCount_pin (q := pinned slots remaining) slots (fun s _ hp => pinned_active hp)
      rw [hpins, List.length_cons] at hcount
      have hfewer : (activeSlots (slots.map (pinSlot slots remaining))).length < fuel := by
        have : slots.map (pinSlot slots remaining) = slots.map (pinBy (pinned slots remaining)) := rfl
        rw [this]
        omega
      obtain ⟨out, level, hout, hended⟩ := waterfillSlots_spec fuel h.next hfewer
      rw [left, hpins] at hout
      refine ⟨out, level, hout, { hended with weights := ?_, mins := ?_ }⟩
      · rw [hended.weights, List.map_map]
        refine List.map_congr_left (fun x _ => ?_)
        unfold Function.comp pinSlot
        split <;> rfl
      · rw [hended.mins, List.map_map]
        refine List.map_congr_left (fun x _ => ?_)
        unfold Function.comp pinSlot
        split <;> rfl

/-! ## The order of the children -/

section

variable {slots slots' : List Slot} (h : slots'.Perm slots)
include h

theorem activeSlots_perm : (activeSlots slots').Perm (activeSlots slots) := h.filter _

theorem share_perm (remaining : ℚ) : share slots' remaining = share slots remaining := by
  funext s
  rw [share, share, activeWeight, activeWeight, ((activeSlots_perm h).map _).sum_eq, (activeSlots_perm h).length_eq]

theorem pinned_perm (remaining : ℚ) : pinned slots' remaining = pinned slots remaining := by
  funext s
  rw [pinned, pinned, share_perm h]

theorem pinSlot_perm (remaining : ℚ) : pinSlot slots' remaining = pinSlot slots remaining := by
  funext s
  rw [pinSlot, pinSlot, pinned_perm h]

end

/-- **The loop looks at no order**: what it makes of a child is a function of the child. -/
theorem waterfillSlots_perm : ∀ (fuel : Nat) (remaining : ℚ) (slots : List Slot), ∃ g : Option (Slot → Slot),
    ∀ slots' : List Slot, slots'.Perm slots → waterfillSlots fuel remaining slots' = g.map (fun g => slots'.map g)
  | 0, _, _ => ⟨none, fun _ _ => rfl⟩
  | fuel + 1, remaining, slots => by
    by_cases hnone : (activeSlots slots).length = 0
    · refine ⟨some id, fun slots' h => ?_⟩
      rw [waterfillSlots, if_pos (by rw [(activeSlots_perm h).length_eq]; exact hnone), Option.map_some, List.map_id]
    · by_cases hpins : slots.filter (pinned slots remaining) = []
      · refine ⟨some (fun s => if s.clamped then s else { s with frac := share slots remaining s }), fun slots' h => ?_⟩
        have hpins' : slots'.filter (pinned slots' remaining) = [] := by
          rw [pinned_perm h]
          exact List.Perm.eq_nil (hpins ▸ h.filter _)
        rw [waterfillSlots, if_neg (by rw [(activeSlots_perm h).length_eq]; exact hnone), hpins', share_perm h]
        rfl
      · obtain ⟨g, hg⟩ := waterfillSlots_perm fuel (left remaining slots) (slots.map (pinSlot slots remaining))
        refine ⟨g.map (fun g => g ∘ pinSlot slots remaining), fun slots' h => ?_⟩
        have hperm : (slots'.filter (pinned slots' remaining)).Perm (slots.filter (pinned slots remaining)) := by
          rw [pinned_perm h]
          exact h.filter _
        rw [waterfillSlots, if_neg (by rw [(activeSlots_perm h).length_eq]; exact hnone)]
        cases hcons : slots'.filter (pinned slots' remaining) with
        | nil =>
          rw [hcons] at hperm
          exact absurd hperm.symm.eq_nil hpins
        | cons s pins =>
          have hleft : remaining - ((s :: pins).map (·.min)).sum = left remaining slots := by
            rw [left, ← hcons, (hperm.map _).sum_eq]
          have hnext := hg (slots'.map (pinSlot slots' remaining)) (by rw [pinSlot_perm h]; exact h.map _)
          dsimp only
          rw [hleft, hnext, pinSlot_perm h]
          cases g with
          | none => rfl
          | some g => simp only [Option.map_some, List.map_map]

/-! ## The children of a split -/

def slotOf (dir : Dir) (opts : LayoutOpts) (c : LathChild) : Slot := ⟨c.weight, minSpan dir opts c.node, false, 0⟩

/-- **One level for every child that is not at its minimum**, whatever the order of the children.  A split has children. -/
theorem leveled_waterfill (cs : List LathChild) (available : ℚ) (opts : LayoutOpts) (dir : Dir) (hne : cs ≠ [])
    (hweight : ∀ c ∈ cs, 0 < c.weight) (hfits : (cs.map (fun c => minSpan dir opts c.node)).sum ≤ available) :
    (∃ slots level, waterfillSlots (cs.length + 1) available (cs.map (slotOf dir opts)) = some slots ∧
      allocateFracs cs available opts dir = slots.map (·.frac) ∧ slots.map (·.weight) = cs.map (·.weight) ∧
      slots.map (·.min) = cs.map (fun c => minSpan dir opts c.node) ∧ (slots.map (·.frac)).sum = available ∧
      (∀ s ∈ slots, s.clamped = false → s.frac = level * s.weight ∧ s.min - 1 / 1000000000 ≤ s.frac) ∧
      (∀ s ∈ slots, s.clamped = true → s.frac = s.min ∧ level * s.weight < s.min) ∧ ∃ s ∈ slots, s.clamped = false) ∧
    ∃ g : LathChild → ℚ, ∀ cs' : List LathChild, cs'.Perm cs → allocateFracs cs' available opts dir = cs'.map g := by
  have hactive : ∀ ds : List LathChild, activeSlots (ds.map (slotOf dir opts)) = ds.map (slotOf dir opts) := by
    intro ds
    refine List.filter_eq_self.2 (fun s hs => ?_)
    obtain ⟨c, -, rfl⟩ := List.mem_map.1 hs
    rfl
  have hstart : Leveled available available (cs.map (slotOf dir opts)) := by
    refine ⟨fun s hs => ?_, fun s hs hc => ?_, ?_, ?_, ?_⟩
    · obtain ⟨c, hc, rfl⟩ := List.mem_map.1 hs
      exact hweight c hc
    · obtain ⟨c, -, rfl⟩ := List.mem_map.1 hs
      cases hc
    · have hnone : (cs.map (slotOf dir opts)).filter (·.clamped) = [] := by
        refine List.filter_eq_nil_iff.2 (fun s hs => ?_)
        obtain ⟨c, -, rfl⟩ := List.mem_map.1 hs
        exact Bool.false_ne_true
      rw [clampedFrac, hnone, List.map_nil, List.sum_nil, zero_add]
    · rw [activeMin, hactive, List.map_map]
      exact hfits
    · rw [hactive]
      simpa using hne
  have hfracs : ∀ cs' : List LathChild, cs'.Perm cs → allocateFracs cs' available opts dir =
      ((waterfillSlots (cs.length + 1) available (cs'.map (slotOf dir opts))).map (fun out => out.map (·.frac))).getD
        (cs'.map (fun _ => 0)) := by
    intro cs' h
    have hsum : (cs'.map (fun c => minSpan dir opts c.node)).sum = (cs.map (fun c => minSpan dir opts c.node)).sum :=
      (h.map _).sum_eq
    unfold allocateFracs
    dsimp only
    rw [hsum, if_neg (not_lt.2 hfits), h.length_eq]
    have hslots : cs'.map (fun c => ⟨c.weight, minSpan dir opts c.node, false, 0⟩) = cs'.map (slotOf dir opts) := rfl
    rw [hslots, waterfill_eq]
  constructor
  · obtain ⟨slots, level, hslots, hended⟩ := waterfillSlots_spec (cs.length + 1) hstart (by
      rw [hactive, List.length_map]
      exact Nat.lt_succ_self _)
    refine ⟨slots, level, hslots, ?_, ?_, ?_, hended.sum, hended.free, hended.pinned, hended.some⟩
    · rw [hfracs cs (List.Perm.refl cs), hslots]
      rfl
    · rw [hended.weights, List.map_map]
      rfl
    · rw [hended.mins, List.map_map]
      rfl
  · obtain ⟨g, hg⟩ := waterfillSlots_perm (cs.length + 1) available (cs.map (slotOf dir opts))
    refine ⟨fun c => (g.map (fun g => (g (slotOf dir opts c)).frac)).getD 0, fun cs' h => ?_⟩
    rw [hfracs cs' h, hg _ (h.map _)]
    cases g with
    | none => rfl
    | some g => simp only [Option.map_some, Option.getD_some, List.map_map, Function.comp_def]

theorem leveled_waterfill_two :
    (∃ slots level, waterfillSlots 3 30 ([⟨.leaf [0x61], 1⟩, ⟨.leaf [0x62], 9⟩].map (slotOf .row ⟨0, ⟨10, 10⟩⟩)) = some slots ∧
      allocateFracs [⟨.leaf [0x61], 1⟩, ⟨.leaf [0x62], 9⟩] 30 ⟨0, ⟨10, 10⟩⟩ .row = slots.map (·.frac) ∧
      slots.map (·.weight) = [1, 9] ∧ slots.map (·.min) = [10, 10] ∧ (slots.map (·.frac)).sum = 30 ∧
      (∀ s ∈ slots, s.clamped = false → s.frac = level * s.weight ∧ s.min - 1 / 1000000000 ≤ s.frac) ∧
      (∀ s ∈ slots, s.clamped = true → s.frac = s.min ∧ level * s.weight < s.min) ∧ ∃ s ∈ slots, s.clamped = false) ∧
    ∃ g : LathChild → ℚ, ∀ cs' : List LathChild, cs'.Perm [⟨.leaf [0x61], 1⟩, ⟨.leaf [0x62], 9⟩] →
      allocateFracs cs' 30 ⟨0, ⟨10, 10⟩⟩ .row = cs'.map g :=
  leveled_waterfill [⟨.leaf [0x61], 1⟩, ⟨.leaf [0x62], 9⟩] 30 ⟨0, ⟨10, 10⟩⟩ .row (by simp) (by simp)
    (by simp [minSpan]; norm_num)

theorem no_children_no_sum : ¬∀ (cs : List LathChild) (available : ℚ) (opts : LayoutOpts) (dir : Dir),
    (∀ c ∈ cs, 0 < c.weight) → (cs.map (fun c => minSpan dir opts c.node)).sum ≤ available →
    (allocateFracs cs available opts dir).sum = available := by
  intro h
  have := h [] 1 ⟨0, ⟨1, 1⟩⟩ .row (by simp) (by simp)
  simp [allocateFracs, waterfill, activeSlots] at this

end Lath
end Dormouse

import Dormouse.LathLayout
import Dormouse.OrdMap
import Dormouse.Steps
/-!
# Lath's animator — presentation frames as a function of time

`lib/src/lib/lath/animator.ts`.  Lengths, opacities and times are exact rationals; the easing is a parameter.  A leaf has one
segment, live or dying (`Apart`).  A retarget starts each segment at the frame it is at, or ends it there (`sample_segmentTo`), so a
displayed leaf moves by no more than what `framesClose` lets pass.
-/
namespace Dormouse
namespace Lath

def layerTiled : ℚ := 0
def layerDying : ℚ := 1
structure Frame where
  rect    : Rect
  opacity : ℚ
  layer   : ℚ
  deriving DecidableEq

inductive EnterFrom where
  | edge (edge : Edge)
  | topLeft
  | rect (rect : Rect)

/-- Interpolate over `[start, start + duration]`. -/
structure Segment where
  from_ : Frame
  to_   : Frame
  start : ℚ

/-- What `createAnimator` is given. -/
structure Motion where
  durationMs : ℚ
  easing     : ℚ → ℚ

structure Animator where
  anims : OrdMap LeafId Segment
  dying : OrdMap LeafId Segment

def createAnimator : Animator := ⟨.empty, .empty⟩

/-! ## Frames -/

def rectsClose (a b : Rect) (eps : ℚ) : Prop :=
  |a.x - b.x| ≤ eps ∧ |a.y - b.y| ≤ eps ∧ |a.width - b.width| ≤ eps ∧ |a.height - b.height| ≤ eps

instance (a b : Rect) (eps : ℚ) : Decidable (rectsClose a b eps) := inferInstanceAs (Decidable (_ ∧ _ ∧ _ ∧ _))

def framesClose (a b : Frame) : Prop := rectsClose a.rect b.rect (1 / 100) ∧
    |a.opacity - b.opacity| < 1 / 100 ∧ a.layer = b.layer

instance (a b : Frame) : Decidable (framesClose a b) := inferInstanceAs (Decidable (_ ∧ _ ∧ _))

def collapsedRect (to_ : Rect) : Edge → Rect
  | .left   => ⟨to_.x, to_.y, 0, to_.height⟩
  | .right  => ⟨to_.x + to_.width, to_.y, 0, to_.height⟩
  | .top    => ⟨to_.x, to_.y, to_.width, 0⟩
  | .bottom => ⟨to_.x, to_.y + to_.height, to_.width, 0⟩

def enterFrame (toRect : Rect) (layer : ℚ) : EnterFrom → Frame
  | .edge edge => ⟨collapsedRect toRect edge, 0, layer⟩
  | .topLeft   => ⟨⟨toRect.x, toRect.y, 0, 0⟩, 0, layer⟩
  | .rect rect => ⟨rect, 1, layer⟩

def lerp (a b t : ℚ) : ℚ := a + (b - a) * t

def lerpFrame (a b : Frame) (t : ℚ) (settled : Bool) : Frame :=
  ⟨⟨lerp a.rect.x b.rect.x t, lerp a.rect.y b.rect.y t, lerp a.rect.width b.rect.width t, lerp a.rect.height b.rect.height t⟩,
    lerp a.opacity b.opacity t, if settled then b.layer else max a.layer b.layer⟩

namespace Motion

variable (M : Motion)

/-- How far a segment is, in `[0, 1]`. -/
def clamped (seg : Segment) (now : ℚ) : ℚ :=
  let raw := if M.durationMs ≤ 0 then 1 else (now - seg.start) / M.durationMs
  if raw < 0 then 0 else if raw > 1 then 1 else raw

def sample (seg : Segment) (now : ℚ) : Frame :=
  lerpFrame seg.from_ seg.to_ (M.easing (M.clamped seg now)) (1 ≤ M.clamped seg now)

def framesAt (m : Animator) (now : ℚ) : OrdMap LeafId Frame :=
  (OrdMap.empty.setFrom m.anims (fun _ seg => some (M.sample seg now))).setFrom m.dying (fun _ seg => some (M.sample seg now))

/-! ## The calls -/

def segmentTo (m : Animator) (current : OrdMap LeafId Frame) (now : ℚ) (enters : LeafId → Option EnterFrom) (snap : Bool)
    (layers : LeafId → Option ℚ) (id : LeafId) (toRect : Rect) : Segment :=
  let to_ : Frame := ⟨toRect, 1, (layers id).getD layerTiled⟩
  let from_ :=
    if snap then to_
    else if (m.anims.get id).isSome then (current.get id).getD to_
    else (enters id).elim to_ (enterFrame toRect to_.layer)
  ⟨from_, to_, if snap ∨ framesClose from_ to_ then now - M.durationMs else now⟩

def retarget (m : Animator) (targets : OrdMap LeafId Rect) (now : ℚ) (enters : LeafId → Option EnterFrom) (snap : Bool)
    (layers : LeafId → Option ℚ) : Animator :=
  let current := M.framesAt m now
  ⟨OrdMap.empty.setFrom targets (fun id toRect =>
      if (m.dying.get id).isSome then none else some (M.segmentTo m current now enters snap layers id toRect)),
    m.dying.filterKeys (fun id => (targets.get id).isSome)⟩

def markDying (m : Animator) (id : LeafId) (now : ℚ) (shrinkTowardBottomRight : Bool) : Animator :=
  if (m.dying.get id).isSome then m
  else
    match m.anims.get id with
    | none     => m
    | some seg =>
      let cur := M.sample seg now
      let toRect := if shrinkTowardBottomRight then
          ⟨cur.rect.x + cur.rect.width, cur.rect.y + cur.rect.height, 0, 0⟩
        else cur.rect
      ⟨m.anims.delete id, m.dying.set id
        ⟨⟨cur.rect, cur.opacity, max cur.layer layerDying⟩, ⟨toRect, 0, max cur.layer layerDying⟩, now⟩⟩

def ended (seg : Segment) (now : ℚ) : Bool := seg.start + M.durationMs ≤ now

def settledAt (m : Animator) (now : ℚ) : Bool := m.anims.values.all (M.ended · now) && m.dying.values.all (M.ended · now)

inductive Call where
  | retarget (targets : OrdMap LeafId Rect) (now : ℚ) (enters : LeafId → Option EnterFrom) (layers : LeafId → Option ℚ)
  | markDying (id : LeafId) (now : ℚ) (shrinkTowardBottomRight : Bool)

def apply (m : Animator) : Call → Animator
  | .retarget targets now enters layers => M.retarget m targets now enters false layers
  | .markDying id now shrink            => M.markDying m id now shrink

/-! ## One segment a leaf -/

def Apart (m : Animator) : Prop := ∀ id, m.anims.get id = none ∨ m.dying.get id = none

theorem get_anims_retarget (m : Animator) (targets : OrdMap LeafId Rect) (now : ℚ)
    (enters : LeafId → Option EnterFrom) (snap : Bool)
    (layers : LeafId → Option ℚ) (id : LeafId) : (M.retarget m targets now enters snap layers).anims.get id =
      if (m.dying.get id).isSome then none
      else (targets.get id).map (M.segmentTo m (M.framesAt m now) now enters snap layers id) := by
  show (OrdMap.empty.setFrom targets _).get id = _
  rw [OrdMap.get_setFrom, OrdMap.get_empty, Option.or_none]
  by_cases h : (m.dying.get id).isSome = true
  · simp only [if_pos h, Option.bind_fun_none]
  · simp only [if_neg h]
    cases targets.get id <;> rfl

theorem get_dying_retarget (m : Animator) (targets : OrdMap LeafId Rect) (now : ℚ)
    (enters : LeafId → Option EnterFrom) (snap : Bool)
    (layers : LeafId → Option ℚ) (id : LeafId) : (M.retarget m targets now enters snap layers).dying.get id =
      if (targets.get id).isSome then m.dying.get id else none :=
  OrdMap.get_filterKeys _ _ id

theorem apart_retarget (m : Animator) (targets : OrdMap LeafId Rect) (now : ℚ)
    (enters : LeafId → Option EnterFrom) (snap : Bool)
    (layers : LeafId → Option ℚ) : Apart (M.retarget m targets now enters snap layers) := by
  intro id
  rw [get_anims_retarget, get_dying_retarget]
  cases m.dying.get id with
  | none => exact .inr (ite_self none)
  | some _ => exact .inl rfl

theorem apart_markDying {m : Animator} (h : Apart m) (id : LeafId) (now : ℚ) (shrink : Bool) :
    Apart (M.markDying m id now shrink) := by
  unfold markDying
  split
  · exact h
  · split
    · exact h
    · intro id'
      show (m.anims.delete id).get id' = none ∨ (m.dying.set id _).get id' = none
      rw [OrdMap.get_delete, OrdMap.get_set]
      by_cases hid : id' = id
      · rw [if_pos hid]
        exact .inl rfl
      · rw [if_neg hid, if_neg hid]
        exact h id'

theorem apart_apply (m : Animator) (c : Call) (h : Apart m) : Apart (M.apply m c) := by
  cases c with
  | retarget targets now enters layers => exact M.apart_retarget m targets now enters false layers
  | markDying id now shrink => exact M.apart_markDying h id now shrink

theorem apart_run (calls : List Call) : Apart (Steps.run M.apply createAnimator calls) :=
  Steps.run_invariant M.apart_apply calls createAnimator (fun _ => .inl rfl)

/-! ## What is displayed -/

theorem get_framesAt {m : Animator} (now : ℚ) (id : LeafId) : (M.framesAt m now).get id =
    ((m.dying.get id).or (m.anims.get id)).map (M.sample · now) := by
  rw [framesAt, OrdMap.get_setFrom, OrdMap.get_setFrom, OrdMap.get_empty, Option.or_none]
  cases m.dying.get id <;> cases m.anims.get id <;> rfl

section Ends
variable {M} (hd : 0 < M.durationMs)
include hd

theorem clamped_eq (seg : Segment) (now : ℚ) :
    M.clamped seg now = if (now - seg.start) / M.durationMs < 0 then 0
      else if (now - seg.start) / M.durationMs > 1 then 1 else (now - seg.start) / M.durationMs := by
  rw [clamped, if_neg (not_le.2 hd)]

theorem sample_ended (h1 : M.easing 1 = 1) {seg : Segment} {now : ℚ} (h : seg.start + M.durationMs ≤ now) :
    M.sample seg now = seg.to_ := by
  have hraw : 1 ≤ (now - seg.start) / M.durationMs := by
    rw [le_div_iff₀ hd]
    linarith
  have hclamped : M.clamped seg now = 1 := by
    rw [clamped_eq hd, if_neg (by linarith)]
    split
    · rfl
    · linarith
  rw [sample, hclamped, h1, lerpFrame]
  simp only [lerp, mul_one, add_sub_cancel, le_refl, decide_true, if_true]

theorem sample_start (h0 : M.easing 0 = 0) (a b : Frame) (now : ℚ) :
    (M.sample ⟨a, b, now⟩ now).rect = a.rect ∧ (M.sample ⟨a, b, now⟩ now).opacity = a.opacity := by
  have hclamped : M.clamped ⟨a, b, now⟩ now = 0 := by
    rw [clamped_eq hd, sub_self, zero_div, if_neg (lt_irrefl 0), if_neg (by norm_num)]
  rw [sample, hclamped, h0, lerpFrame]
  simp only [lerp, mul_zero, add_zero, and_self]

end Ends

/-- A displayed leaf has moved by no more than the snapping tolerance. -/
def Steady (f f' : Frame) : Prop := rectsClose f.rect f'.rect (1 / 100) ∧ |f.opacity - f'.opacity| < 1 / 100

theorem Steady.of_eq {f f' : Frame} (hr : f'.rect = f.rect) (ho : f'.opacity = f.opacity) : Steady f f' := by
  rw [Steady, hr, ho, rectsClose]
  simp only [sub_self, abs_zero]
  norm_num

variable {M : Motion}

/-- **A segment starts at the frame it is given, or ends within the snapping tolerance of it.** -/
theorem sample_segmentTo (hd : 0 < M.durationMs) (h0 : M.easing 0 = 0) (h1 : M.easing 1 = 1) (a b : Frame) (now : ℚ) :
    Steady a (M.sample ⟨a, b, if framesClose a b then now - M.durationMs else now⟩ now) := by
  split
  · rename_i hclose
    rw [sample_ended hd h1 (le_of_eq (sub_add_cancel _ _))]
    exact ⟨hclose.1, hclose.2.1⟩
  · have hstart := sample_start hd h0 a b now
    exact .of_eq hstart.1 hstart.2

theorem steady_retarget (hd : 0 < M.durationMs) (h0 : M.easing 0 = 0) (h1 : M.easing 1 = 1) (m : Animator)
    (targets : OrdMap LeafId Rect) (now : ℚ) (enters : LeafId → Option EnterFrom) (layers : LeafId → Option ℚ) {id : LeafId}
    {f f' : Frame} (hf : (M.framesAt m now).get id = some f)
    (hf' : (M.framesAt (M.retarget m targets now enters false layers) now).get id = some f') : Steady f f' := by
  have hcur := hf
  rw [get_framesAt] at hf hf'
  rw [get_anims_retarget, get_dying_retarget] at hf'
  cases ht : targets.get id with
  | none =>
    rw [ht] at hf'
    cases hdying : m.dying.get id with
    | none =>
      rw [hdying] at hf'
      cases hf'
    | some _ =>
      rw [hdying] at hf'
      cases hf'
  | some toRect =>
    rw [ht, if_pos Option.isSome_some] at hf'
    cases hdying : m.dying.get id with
    | some seg =>
      -- a dying leaf stays as it is
      rw [hdying] at hf hf'
      cases hf
      cases hf'
      exact .of_eq rfl rfl
    | none =>
      rw [hdying] at hf hf'
      cases hanims : m.anims.get id with
      | none =>
        rw [hanims] at hf
        cases hf
      | some seg =>
        have hseg : M.segmentTo m (M.framesAt m now) now enters false layers id toRect =
            ⟨f, ⟨toRect, 1, (layers id).getD layerTiled⟩,
              if framesClose f ⟨toRect, 1, (layers id).getD layerTiled⟩ then now - M.durationMs else now⟩ := by
          rw [segmentTo]
          simp only [hanims, hcur, Option.isSome_some, Option.getD_some, Bool.false_eq_true, if_false, if_true, false_or]
        cases hf'
        show Steady f (M.sample (M.segmentTo m (M.framesAt m now) now enters false layers id toRect) now)
        rw [hseg]
        exact sample_segmentTo hd h0 h1 f _ now

theorem keys_retarget (m : Animator) (targets : OrdMap LeafId Rect) (now : ℚ) (enters : LeafId → Option EnterFrom)
    (layers : LeafId → Option ℚ) (id : LeafId) :
    id ∈ (M.framesAt (M.retarget m targets now enters false layers) now).keys ↔ id ∈ targets.keys := by
  rw [OrdMap.mem_keys, OrdMap.mem_keys, get_framesAt, get_anims_retarget, get_dying_retarget]
  cases targets.get id with
  | none => cases m.dying.get id <;> simp
  | some _ => cases m.dying.get id <;> simp

theorem framesAt_settled (hd : 0 < M.durationMs) (h1 : M.easing 1 = 1) {m : Animator} {now later : ℚ}
    (h : M.settledAt m now = true) (hle : now ≤ later) : M.framesAt m later = M.framesAt m now := by
  rw [settledAt, Bool.and_eq_true, List.all_eq_true, List.all_eq_true] at h
  have hsame : ∀ seg, M.ended seg now = true → M.sample seg later = M.sample seg now := fun seg hseg => by
    have hseg := of_decide_eq_true hseg
    rw [sample_ended hd h1 hseg, sample_ended hd h1 (hseg.trans hle)]
  have hanims : OrdMap.empty.setFrom m.anims (fun _ seg => some (M.sample seg later)) =
      OrdMap.empty.setFrom m.anims (fun _ seg => some (M.sample seg now)) :=
    OrdMap.setFrom_congr _ (fun id seg hget => congrArg some (hsame seg (h.1 seg (OrdMap.mem_values.2 ⟨id, hget⟩))))
  rw [framesAt, framesAt, hanims]
  exact OrdMap.setFrom_congr _ (fun id seg hget => congrArg some (hsame seg (h.2 seg (OrdMap.mem_values.2 ⟨id, hget⟩))))

end Motion
end Lath
end Dormouse

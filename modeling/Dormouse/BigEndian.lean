import Mathlib.Tactic.Ring
/-!
# BigEndian — a number in units, the first of its bits

Units of `w` bits each, the highest first.  A mask keeps the first bits of the number and clears the others, unit by unit
(`value_mask`).
-/
namespace BigEndian

/-- The number of units of `w` bits each. -/
def value (w : Nat) : List Nat → Nat
  | []      => 0
  | u :: us => u * 2 ^ (w * us.length) + value w us

/-- The units with every bit past the first `p` cleared. -/
def mask (w : Nat) : List Nat → Nat → List Nat
  | [],      _ => []
  | u :: us, p => u / 2 ^ (w - min w p) * 2 ^ (w - min w p) :: mask w us (p - w)

variable {w : Nat}

theorem value_lt : ∀ {us : List Nat}, (∀ u ∈ us, u < 2 ^ w) → value w us < 2 ^ (w * us.length)
  | [], _ => by simp [value]
  | u :: us, h => by
    obtain ⟨hu, hus⟩ := List.forall_mem_cons.1 h
    have hrest := value_lt hus
    rw [value, List.length_cons, Nat.mul_succ, Nat.pow_add]
    calc u * 2 ^ (w * us.length) + value w us
        < u * 2 ^ (w * us.length) + 2 ^ (w * us.length) := by omega
      _ = (u + 1) * 2 ^ (w * us.length) := by ring
      _ ≤ 2 ^ w * 2 ^ (w * us.length) := Nat.mul_le_mul_right _ hu
      _ = 2 ^ (w * us.length) * 2 ^ w := Nat.mul_comm _ _

theorem value_append (us : List Nat) : ∀ vs : List Nat, value w (vs ++ us) = value w vs * 2 ^ (w * us.length) + value w us
  | [] => by rw [List.nil_append, value, Nat.zero_mul, Nat.zero_add]
  | v :: vs => by
    rw [List.cons_append, value, value, value_append us vs, List.length_append, Nat.mul_add, Nat.pow_add]
    ring

theorem value_inj : ∀ {us vs : List Nat}, us.length = vs.length → (∀ u ∈ us, u < 2 ^ w) → (∀ v ∈ vs, v < 2 ^ w) →
    value w us = value w vs → us = vs
  | [], [], _, _, _, _ => rfl
  | u :: us, v :: vs, hlen, hu, hv, h => by
    obtain ⟨-, hus⟩ := List.forall_mem_cons.1 hu
    obtain ⟨-, hvs⟩ := List.forall_mem_cons.1 hv
    have hlen' : us.length = vs.length := Nat.succ.inj hlen
    have hpos : 0 < 2 ^ (w * vs.length) := Nat.two_pow_pos _
    have hlow := value_lt hus
    have hlow' := value_lt hvs
    rw [value, value, hlen'] at h
    rw [hlen'] at hlow
    have hhead : u = v := by
      have hdiv := congrArg (· / 2 ^ (w * vs.length)) h
      simpa only [Nat.mul_comm _ (2 ^ (w * vs.length)), Nat.mul_add_div hpos, Nat.div_eq_of_lt hlow, Nat.div_eq_of_lt hlow',
        Nat.add_zero] using hdiv
    subst hhead
    rw [value_inj hlen' hus hvs (Nat.add_left_cancel h)]

@[simp] theorem length_mask : ∀ (us : List Nat) (p : Nat), (mask w us p).length = us.length
  | [],      _ => rfl
  | u :: us, p => by rw [mask, List.length_cons, List.length_cons, length_mask us]

theorem mask_lt : ∀ {us : List Nat} (p : Nat), (∀ u ∈ us, u < 2 ^ w) → ∀ u ∈ mask w us p, u < 2 ^ w
  | [], _, _ => nofun
  | u :: us, p, h => by
    obtain ⟨hu, hus⟩ := List.forall_mem_cons.1 h
    exact List.forall_mem_cons.2 ⟨(Nat.div_mul_le_self _ _).trans_lt hu, mask_lt (p - w) hus⟩

theorem value_mask_zero : ∀ {us : List Nat}, (∀ u ∈ us, u < 2 ^ w) → value w (mask w us 0) = 0
  | [], _ => rfl
  | u :: us, h => by
    obtain ⟨hu, hus⟩ := List.forall_mem_cons.1 h
    rw [mask, value, Nat.min_zero, Nat.sub_zero, Nat.div_eq_of_lt hu, Nat.zero_mul, Nat.zero_mul, Nat.zero_sub,
      value_mask_zero hus]

/-- **A mask keeps the first bits of the number.** -/
theorem value_mask : ∀ {us : List Nat} (p : Nat), (∀ u ∈ us, u < 2 ^ w) →
    value w (mask w us p) = value w us / 2 ^ (w * us.length - p) * 2 ^ (w * us.length - p)
  | [], p, _ => by simp [value, mask]
  | u :: us, p, h => by
    obtain ⟨hu, hus⟩ := List.forall_mem_cons.1 h
    have hlow := value_lt hus
    rw [mask, value, value, length_mask, List.length_cons, Nat.mul_succ]
    rcases Nat.le_total p w with hp | hp
    · -- the first bits end in this unit
      have hexp : w * us.length + w - p = w * us.length + (w - p) := by omega
      rw [Nat.min_eq_right hp, Nat.sub_eq_zero_of_le hp, value_mask_zero hus, Nat.add_zero, hexp, Nat.pow_add,
        ← Nat.div_div_eq_div_mul, Nat.mul_comm u, Nat.mul_add_div (Nat.two_pow_pos _), Nat.div_eq_of_lt hlow, Nat.add_zero]
      ring
    · -- the unit is kept whole
      have hexp : w * us.length + w - p = w * us.length - (p - w) := by omega
      obtain ⟨k, hk⟩ : ∃ k, w * us.length = w * us.length - (p - w) + k := ⟨w * us.length - (w * us.length - (p - w)), by omega⟩
      rw [Nat.min_eq_left hp, Nat.sub_self, Nat.pow_zero, Nat.div_one, Nat.mul_one, value_mask (p - w) hus, hexp]
      generalize w * us.length - (p - w) = e at hk ⊢
      have hpow : u * 2 ^ (w * us.length) = 2 ^ e * (u * 2 ^ k) := by
        rw [hk, Nat.pow_add]
        ring
      rw [hpow, Nat.mul_add_div (Nat.two_pow_pos _), Nat.add_mul, Nat.mul_comm (2 ^ e)]

theorem mask_mask : ∀ (us : List Nat) (p : Nat), mask w (mask w us p) p = mask w us p
  | [], _ => rfl
  | u :: us, p => by
    rw [mask, mask, mask_mask us, Nat.mul_div_cancel _ (Nat.two_pow_pos _)]

end BigEndian

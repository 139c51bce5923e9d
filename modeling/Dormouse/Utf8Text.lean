import Dormouse.PacedInput
/-!
# Utf8Text — what the bytes of a text say of it

Two texts have the same UTF-8 exactly when they are the same once every unpaired surrogate of theirs reads as U+FFFD
(`utf8_eq_iff`): a scalar's first byte says how many bytes it takes (`encodePoint_append_inj`).
-/
namespace Dormouse
namespace Paced

/-- `toWellFormed`: every unpaired surrogate is U+FFFD. -/
def toWellFormed : JsString → JsString
  | []             => []
  | [u]            => [if isHighSurrogate u || isLowSurrogate u then 0xfffd else u]
  | u :: v :: rest =>
    if isHighSurrogate u && isLowSurrogate v then u :: v :: toWellFormed rest
    else (if isHighSurrogate u || isLowSurrogate u then 0xfffd else u) :: toWellFormed (v :: rest)

/-! ## Scalars -/

def IsScalar (c : Nat) : Prop := c < 0xd800 ∨ (0xdfff < c ∧ c < 0x110000)

def scalar (c : Nat) : Nat := if 0xd800 ≤ c ∧ c ≤ 0xdfff then 0xfffd else c

def scalars : JsString → List Nat
  | []             => []
  | [u]            => [scalar u.toNat]
  | u :: v :: rest =>
    if isHighSurrogate u && isLowSurrogate v then codePointAt (u :: v :: rest) :: scalars rest
    else scalar u.toNat :: scalars (v :: rest)

def unitsOf (c : Nat) : JsString :=
  if c < 0x10000 then [c.toUInt16] else [(0xd800 + (c - 0x10000) / 0x400).toUInt16, (0xdc00 + (c - 0x10000) % 0x400).toUInt16]

theorem isSurrogate_iff (u : UInt16) :
    (isHighSurrogate u || isLowSurrogate u) = true ↔ 0xd800 ≤ u.toNat ∧ u.toNat ≤ 0xdfff := by
  rw [isHighSurrogate, isLowSurrogate]
  simp only [Bool.or_eq_true, Bool.and_eq_true, decide_eq_true_eq, UInt16.le_iff_toNat_le, UInt16.reduceToNat]
  omega

theorem pair_toNat {u v : UInt16} (h : (isHighSurrogate u && isLowSurrogate v) = true) :
    (0xd800 ≤ u.toNat ∧ u.toNat ≤ 0xdbff) ∧ 0xdc00 ≤ v.toNat ∧ v.toNat ≤ 0xdfff := by
  rw [isHighSurrogate, isLowSurrogate] at h
  simpa only [Bool.and_eq_true, decide_eq_true_eq, UInt16.le_iff_toNat_le, UInt16.reduceToNat] using h

theorem isScalar_scalar (u : UInt16) : IsScalar (scalar u.toNat) := by
  have hlt := u.toNat_lt
  unfold scalar IsScalar
  split <;> omega

theorem encodePoint_scalar (c : Nat) : encodePoint (scalar c) = encodePoint c := by
  unfold scalar
  split
  · rename_i h
    rw [encodePoint, encodePoint, if_neg (by omega), if_neg (by omega), if_neg (by omega), if_pos (by omega), if_neg (by omega),
      if_neg (by omega), if_pos h]
    rfl
  · rfl

theorem unitsOf_scalar (u : UInt16) : unitsOf (scalar u.toNat) = [if isHighSurrogate u ||
    isLowSurrogate u then 0xfffd else u] := by
  have hiff := isSurrogate_iff u
  unfold scalar
  by_cases h : 0xd800 ≤ u.toNat ∧ u.toNat ≤ 0xdfff
  · rw [if_pos h, if_pos (hiff.2 h)]
    rfl
  · rw [if_neg h, if_neg (mt hiff.1 h), unitsOf, if_pos u.toNat_lt, Nat.toUInt16_eq, UInt16.ofNat_toNat]

theorem codePointAt_pair {u v : UInt16} (h : (isHighSurrogate u && isLowSurrogate v) = true) (rest : JsString) :
    codePointAt (u :: v :: rest) = 0x10000 + (u.toNat - 0xd800) * 0x400 + (v.toNat - 0xdc00) := by
  rw [codePointAt, if_pos h]

theorem isScalar_scalars : ∀ (s : JsString), ∀ c ∈ scalars s, IsScalar c
  | [] => by simp [scalars]
  | [u] => by
    rw [scalars, List.forall_mem_singleton]
    exact isScalar_scalar u
  | u :: v :: rest => by
    rw [scalars]
    split
    · rename_i h
      have htoNat := pair_toNat h
      refine List.forall_mem_cons.2 ⟨.inr ?_, isScalar_scalars rest⟩
      rw [codePointAt_pair h]
      omega
    · exact List.forall_mem_cons.2 ⟨isScalar_scalar u, isScalar_scalars (v :: rest)⟩

theorem utf8_scalars : ∀ (s : JsString), utf8 s = (scalars s).flatMap encodePoint
  | [] => rfl
  | [u] => by rw [utf8, scalars, List.flatMap_singleton, encodePoint_scalar]
  | u :: v :: rest => by
    rw [utf8, scalars]
    split
    · rw [List.flatMap_cons, utf8_scalars rest]
    · rw [List.flatMap_cons, encodePoint_scalar, utf8_scalars (v :: rest)]

theorem toWellFormed_scalars : ∀ (s : JsString), toWellFormed s = (scalars s).flatMap unitsOf
  | [] => rfl
  | [u] => by rw [toWellFormed, scalars, List.flatMap_singleton, unitsOf_scalar]
  | u :: v :: rest => by
    rw [toWellFormed, scalars]
    split
    · rename_i h
      have htoNat := pair_toNat h
      have hhigh : 0xd800 + (0x10000 + (u.toNat - 0xd800) * 0x400 + (v.toNat - 0xdc00) - 0x10000) / 0x400 = u.toNat := by omega
      have hlow : 0xdc00 + (0x10000 + (u.toNat - 0xd800) * 0x400 + (v.toNat - 0xdc00) - 0x10000) % 0x400 = v.toNat := by omega
      rw [List.flatMap_cons, codePointAt_pair h, unitsOf, if_neg (by omega), hhigh, hlow, Nat.toUInt16_eq, Nat.toUInt16_eq,
        UInt16.ofNat_toNat, UInt16.ofNat_toNat, toWellFormed_scalars rest]
      rfl
    · rw [List.flatMap_cons, unitsOf_scalar, toWellFormed_scalars (v :: rest)]
      rfl

/-! ## One reading -/

theorem encodePoint_append_inj {c d : Nat} {x y : List UInt8} (hc : IsScalar c) (hd : IsScalar d)
    (h : encodePoint c ++ x = encodePoint d ++ y) : c = d ∧ x = y := by
  unfold IsScalar at hc hd
  unfold encodePoint at h
  split at h <;> [skip; split at h <;> [skip; split at h <;> [omega; split at h]]]
  all_goals
    split at h <;> [skip; split at h <;> [skip; split at h <;> [omega; split at h]]]
  all_goals
    simp only [List.cons_append, List.nil_append, List.cons.injEq, ← UInt8.toNat_inj, Nat.toUInt8_eq, UInt8.toNat_ofNat'] at h
    first
      | exact absurd h.1 (by omega)
      | exact ⟨by omega, by tauto⟩

theorem encodePoint_ne_nil (c : Nat) : encodePoint c ≠ [] := by
  rw [← List.length_pos_iff, length_encodePoint, pointBytes]
  repeat' split
  all_goals omega

theorem flatMap_encodePoint_inj : ∀ {cs ds : List Nat}, (∀ c ∈ cs, IsScalar c) → (∀ d ∈ ds, IsScalar d) →
    cs.flatMap encodePoint = ds.flatMap encodePoint → cs = ds
  | [], [], _, _, _ => rfl
  | [], d :: ds, _, _, h => absurd (List.append_eq_nil_iff.1 h.symm).1 (encodePoint_ne_nil d)
  | c :: cs, [], _, _, h => absurd (List.append_eq_nil_iff.1 h).1 (encodePoint_ne_nil c)
  | c :: cs, d :: ds, hc, hd, h => by
    rw [List.flatMap_cons, List.flatMap_cons] at h
    obtain ⟨rfl, hrest⟩ := encodePoint_append_inj (hc c List.mem_cons_self) (hd d List.mem_cons_self) h
    rw [flatMap_encodePoint_inj (fun x hx => hc x (List.mem_cons_of_mem c hx))
      (fun x hx => hd x (List.mem_cons_of_mem c hx)) hrest]

theorem utf8_cons {u : UInt16} (h : isHighSurrogate u = false) : ∀ (s : JsString), utf8 (u :: s) = encodePoint u.toNat ++ utf8 s
  | [] => by rw [utf8, utf8, List.append_nil]
  | v :: s => by rw [utf8, h, Bool.false_and, if_neg Bool.false_ne_true]

theorem isHigh_replaced (u : UInt16) : isHighSurrogate (if isHighSurrogate u ||
    isLowSurrogate u then 0xfffd else u) = false := by
  split
  · decide
  · rename_i h
    exact (Bool.or_eq_false_iff.1 (Bool.not_eq_true _ ▸ h)).1

theorem encodePoint_replaced (u : UInt16) :
    encodePoint (if isHighSurrogate u || isLowSurrogate u then 0xfffd else u : UInt16).toNat = encodePoint u.toNat := by
  split
  · rename_i h
    have hscalar : scalar u.toNat = 0xfffd := if_pos ((isSurrogate_iff u).1 h)
    rw [← encodePoint_scalar u.toNat, hscalar]
    rfl
  · rfl

theorem utf8_toWellFormed : ∀ (s : JsString), utf8 (toWellFormed s) = utf8 s
  | [] => rfl
  | [u] => by rw [toWellFormed, utf8, utf8, encodePoint_replaced]
  | u :: v :: rest => by
    rw [toWellFormed]
    split
    · rename_i h
      rw [utf8, utf8, if_pos h, if_pos h, codePointAt_pair h, codePointAt_pair h, utf8_toWellFormed rest]
    · rename_i h
      rw [utf8_cons (isHigh_replaced u), encodePoint_replaced, utf8_toWellFormed (v :: rest), utf8, if_neg h]

/-- **Texts have the same bytes exactly when they are the same, unpaired surrogates read as U+FFFD.** -/
theorem utf8_eq_iff {s t : JsString} : utf8 s = utf8 t ↔ toWellFormed s = toWellFormed t := by
  constructor
  · intro h
    rw [utf8_scalars, utf8_scalars] at h
    rw [toWellFormed_scalars, toWellFormed_scalars, flatMap_encodePoint_inj (isScalar_scalars s) (isScalar_scalars t) h]
  · intro h
    rw [← utf8_toWellFormed s, h, utf8_toWellFormed]

end Paced
end Dormouse

import Dormouse.Js
import Mathlib.Data.List.DropRight
/-!
# Base64Url — bytes as unpadded base64url, and back

`toBase64Url` and `fromBase64Url` of `security/bytes.ts`.  The decoder's accumulator is 32 bits wide and never cleared; what it
holds that is not written yet is its low `bitCount` bits (`decodeFrom_eq`), so three bytes in four characters come back one group at
a time.
-/
namespace Dormouse
namespace Base64Url

/-! ## The alphabet -/

def alphabet : JsString := units "ABCDEFGHIJKLMNOPQRSTUVWXYZabcdefghijklmnopqrstuvwxyz0123456789-_"

/-- `B64U_CODES`. -/
def code (value : UInt8) : UInt16 := alphabet.getD value.toNat 0

/-- `B64U_REVERSE`; none for a character outside the alphabet. -/
def reverse (code : UInt16) : Option Nat := if code < 128 then alphabet.idxOf? code else none

/-! ## Encoding -/

def group (b0 : UInt8) (b1 b2 : Option UInt8) : JsString :=
  [code (b0 >>> 2), code ((b0 &&& 0x03) <<< 4 ||| b1.getD 0 >>> 4)] ++
    b1.elim [] (fun b => [code ((b &&& 0x0f) <<< 2 ||| b2.getD 0 >>> 6)]) ++ b2.elim [] (fun b => [code (b &&& 0x3f)])

def toBase64Url : List UInt8 → JsString
  | []                    => []
  | [b0]                  => group b0 none none
  | [b0, b1]              => group b0 (some b1) none
  | b0 :: b1 :: b2 :: rest => group b0 (some b1) (some b2) ++ toBase64Url rest

/-- Unpadded characters for `byteLength` bytes. -/
def base64UrlLength (byteLength : Nat) : Nat := byteLength / 3 * 4 + if byteLength % 3 = 0 then 0 else byteLength % 3 + 1

/-! ## Decoding -/

def unpadded (text : JsString) : JsString := text.rdropWhile (fun c => c = 0x3d)

/-- The characters from index `i` on, after `bits` of which the low `bitCount` are not written yet. -/
def decodeFrom (i : Nat) (bits : BitVec 32) (bitCount : Nat) : JsString → Except String (List UInt8)
  | []      => if bits &&& (((1 : BitVec 32) <<< bitCount) - 1) ≠ 0 then
      .error "invalid base64url: nonzero trailing bits" else .ok []
  | c :: cs =>
    match reverse c with
    | none       => .error s!"invalid base64url character at index {i}"
    | some value =>
      let bits := bits <<< 6 ||| BitVec.ofNat 32 value
      if 8 ≤ bitCount + 6 then
        (decodeFrom (i + 1) bits (bitCount - 2) cs).map ((UInt8.ofBitVec ((bits.sshiftRight (bitCount - 2)).truncate 8)) :: ·)
      else decodeFrom (i + 1) bits (bitCount + 6) cs

/-- The bytes the decoder allocates for `end_` characters. -/
def outLength (end_ : Nat) : Nat := end_ / 4 * 3 + if end_ % 4 = 0 then 0 else end_ % 4 - 1

def fromBase64Url (text : JsString) : Except String (List UInt8) :=
  if (unpadded text).length % 4 = 1 then .error "invalid base64url: impossible length"
  else decodeFrom 0 0 0 (unpadded text)

/-! ## Six bits at a time -/

/-- The values from `pending` on, `bitCount` bits of which are not written yet. -/
def bytesFrom (pending bitCount : Nat) : List Nat → Option (List UInt8)
  | []      => if pending = 0 then some [] else none
  | v :: vs =>
    let total := pending * 64 + v
    if 8 ≤ bitCount + 6 then
      (bytesFrom (total % 2 ^ (bitCount - 2)) (bitCount - 2) vs).map (UInt8.ofNat (total / 2 ^ (bitCount - 2)) :: ·)
    else bytesFrom total (bitCount + 6) vs

theorem alphabet_length : alphabet.length = 64 := by decide +kernel

variable {v : Nat}

theorem reverse_code (h : v < 64) : reverse (code (UInt8.ofNat v)) = some v := by
  revert v
  decide +kernel

theorem code_of_reverse {c : UInt16} (h : reverse c = some v) : v < 64 ∧ alphabet[v]? = some c := by
  unfold reverse at h
  split at h
  · rw [List.idxOf?, List.findIdx?_eq_some_iff_getElem] at h
    obtain ⟨hlt, heq, _⟩ := h
    rw [alphabet_length] at hlt
    exact ⟨hlt, by rw [List.getElem?_eq_getElem (by rw [alphabet_length]; exact hlt), eq_of_beq heq]⟩
  · cases h

theorem code_ofNat {c : UInt16} (h : reverse c = some v) : code (UInt8.ofNat v) = c := by
  obtain ⟨hlt, hat⟩ := code_of_reverse h
  rw [code, UInt8.toNat_ofNat', Nat.mod_eq_of_lt (by omega), List.getD_eq_getElem?_getD, hat, Option.getD_some]

/-- **The low bits of the accumulator are what is pending.** -/
theorem shift_toNat (bits : BitVec 32) (h : v < 64) :
    (bits <<< 6 ||| BitVec.ofNat 32 v).toNat = bits.toNat * 64 % 2 ^ 32 + v := by
  have hand : (bits.toNat <<< 6 % 2 ^ 32) = (bits.toNat % 2 ^ 26) <<< 6 := by
    rw [Nat.shiftLeft_eq, Nat.shiftLeft_eq]
    omega
  rw [BitVec.toNat_or, BitVec.toNat_shiftLeft, BitVec.toNat_ofNat, Nat.mod_eq_of_lt (by omega : v < 2 ^ 32), hand,
    ← Nat.shiftLeft_add_eq_or_of_lt (by omega : v < 2 ^ 6), ← hand, Nat.shiftLeft_eq]

theorem byte_toNat (bits : BitVec 32) {n : Nat} (h : n ≤ 6) :
    UInt8.ofBitVec ((bits.sshiftRight n).truncate 8) = UInt8.ofNat (bits.toNat / 2 ^ n % 256) := by
  have hshift : ((bits.sshiftRight n).truncate 8) = ((bits >>> n).truncate 8) := by
    refine BitVec.eq_of_getLsbD_eq (fun i hi => ?_)
    simp only [BitVec.truncate_eq_setWidth, BitVec.getLsbD_setWidth, BitVec.getLsbD_sshiftRight, BitVec.getLsbD_ushiftRight]
    rw [if_pos (by omega), decide_eq_false (by omega : ¬32 ≤ i)]
    rfl
  rw [hshift, ← UInt8.toNat_inj, UInt8.toNat_ofBitVec, BitVec.truncate_eq_setWidth, BitVec.toNat_setWidth,
    BitVec.toNat_ushiftRight,
    Nat.shiftRight_eq_div_pow, UInt8.toNat_ofNat']
  omega

theorem trailing_iff (bits : BitVec 32) {n : Nat} (h : n ≤ 6) : bits &&& (((1 : BitVec 32) <<< n) - 1) = 0 ↔
    bits.toNat % 2 ^ n = 0 := by
  have hmask : ((1 : BitVec 32) <<< n) - 1 = BitVec.ofNat 32 (2 ^ n - 1) := by
    have : n = 0 ∨ n = 1 ∨ n = 2 ∨ n = 3 ∨ n = 4 ∨ n = 5 ∨ n = 6 := by omega
    rcases this with rfl | rfl | rfl | rfl | rfl | rfl | rfl <;> rfl
  have hle : 2 ^ n ≤ 2 ^ 6 := Nat.pow_le_pow_right (by omega) h
  rw [hmask, ← BitVec.toNat_inj, BitVec.toNat_and, BitVec.toNat_ofNat, Nat.mod_eq_of_lt (by omega),
    Nat.and_two_pow_sub_one_eq_mod]
  rfl

def values (cs : JsString) : Option (List Nat) := cs.mapM reverse

theorem values_cons (c : UInt16) (cs : JsString) : values (c :: cs) = (reverse c).bind fun v => (values cs).map (v :: ·) := by
  rw [values, List.mapM_cons]
  cases reverse c with
  | none => rfl
  | some v =>
    rw [values]
    cases cs.mapM reverse <;> rfl

theorem toOption_map {α β : Type} (f : α → β) (r : Except String α) : (r.map f).toOption = r.toOption.map f := by
  cases r <;> rfl

/-- **The decoder's accumulator holds what is pending in its low bits**, and garbage above. -/
theorem decodeFrom_eq : ∀ (cs : JsString) (i : Nat) (bits : BitVec 32) {n : Nat}, n = 0 ∨ n = 2 ∨ n = 4 ∨ n = 6 →
    (decodeFrom i bits n cs).toOption = (values cs).bind (bytesFrom (bits.toNat % 2 ^ n) n)
  | [], i, bits, n, h => by
    have hiff := trailing_iff bits (n := n) (by omega)
    rw [decodeFrom]
    show _ = bytesFrom (bits.toNat % 2 ^ n) n []
    rw [bytesFrom]
    by_cases hz : bits.toNat % 2 ^ n = 0
    · rw [if_neg (not_not.2 (hiff.2 hz)), if_pos hz]
      rfl
    · rw [if_pos (mt hiff.1 hz), if_neg hz]
      rfl
  | c :: cs, i, bits, n, h => by
    rw [decodeFrom, values_cons]
    cases hv : reverse c with
    | none => rfl
    | some v =>
      have hlt := (code_of_reverse hv).1
      have htoNat := shift_toNat bits hlt
      rw [Option.bind_some, Option.bind_map]
      dsimp only
      rcases h with rfl | rfl | rfl | rfl
      · -- six bits wait
        rw [if_neg (by omega), decodeFrom_eq cs _ _ (by omega), htoNat]
        refine congrArg (Option.bind _) (funext fun rest => ?_)
        rw [Function.comp_apply, bytesFrom, if_neg (by omega)]
        exact congrArg (fun p => bytesFrom p 6 rest) (by omega)
      all_goals
        rw [if_pos (by omega), toOption_map, decodeFrom_eq cs _ _ (by omega), byte_toNat _ (by omega), htoNat, Option.map_bind]
        refine congrArg (Option.bind _) (funext fun rest => ?_)
        rw [Function.comp_apply, Function.comp_apply, bytesFrom, if_pos (by omega)]
        refine congr (congrArg Option.map (congrArg (fun b => (UInt8.ofNat b :: ·)) ?_))
          (congrArg (fun p => bytesFrom p _ rest) ?_)
        · omega
        · omega

/-! ## Groups -/

def valuesOf : List UInt8 → List Nat
  | []                     => []
  | [b0]                   => [b0.toNat / 4, b0.toNat % 4 * 16]
  | [b0, b1]               => [b0.toNat / 4, b0.toNat % 4 * 16 + b1.toNat / 16, b1.toNat % 16 * 4]
  | b0 :: b1 :: b2 :: rest =>
    b0.toNat / 4 :: (b0.toNat % 4 * 16 + b1.toNat / 16) :: (b1.toNat % 16 * 4 + b2.toNat / 64) :: b2.toNat % 64 :: valuesOf rest

theorem bytesFrom_zero (v : Nat) (vs : List Nat) : bytesFrom 0 0 (v :: vs) = bytesFrom v 6 vs := by
  rw [bytesFrom, if_neg (by omega), Nat.zero_mul, Nat.zero_add]

theorem bytesFrom_six (p v : Nat) (vs : List Nat) :
    bytesFrom p 6 (v :: vs) = (bytesFrom ((p * 64 + v) % 16) 4 vs).map (UInt8.ofNat ((p * 64 + v) / 16) :: ·) := by
  rw [bytesFrom, if_pos (by omega)]
  rfl

theorem bytesFrom_four (p v : Nat) (vs : List Nat) :
    bytesFrom p 4 (v :: vs) = (bytesFrom ((p * 64 + v) % 4) 2 vs).map (UInt8.ofNat ((p * 64 + v) / 4) :: ·) := by
  rw [bytesFrom, if_pos (by omega)]
  rfl

theorem bytesFrom_two (p v : Nat) (vs : List Nat) :
    bytesFrom p 2 (v :: vs) = (bytesFrom 0 0 vs).map (UInt8.ofNat (p * 64 + v) :: ·) := by
  rw [bytesFrom, if_pos (by omega), Nat.pow_zero, Nat.mod_one, Nat.div_one]

theorem bytesFrom_nil (p n : Nat) : bytesFrom p n [] = if p = 0 then some [] else none := rfl

theorem valuesOf_lt : ∀ (b : List UInt8), ∀ v ∈ valuesOf b, v < 64
  | [] => by simp [valuesOf]
  | [b0] => by
    have h0 := b0.toNat_lt
    simp only [valuesOf, List.mem_cons, List.not_mem_nil, or_false, forall_eq_or_imp, forall_eq]
    omega
  | [b0, b1] => by
    have h0 := b0.toNat_lt
    have h1 := b1.toNat_lt
    simp only [valuesOf, List.mem_cons, List.not_mem_nil, or_false, forall_eq_or_imp, forall_eq]
    omega
  | b0 :: b1 :: b2 :: rest => by
    have h0 := b0.toNat_lt
    have h1 := b1.toNat_lt
    have h2 := b2.toNat_lt
    simp only [valuesOf, List.mem_cons, forall_eq_or_imp]
    exact ⟨by omega, by omega, by omega, by omega, valuesOf_lt rest⟩

theorem ofNat_of_eq {n : Nat} {b : UInt8} (h : n = b.toNat) : UInt8.ofNat n = b := by
  rw [h, UInt8.ofNat_toNat]

theorem bytesFrom_valuesOf : ∀ (b : List UInt8), bytesFrom 0 0 (valuesOf b) = some b
  | [] => rfl
  | [b0] => by
    rw [valuesOf, bytesFrom_zero, bytesFrom_six, bytesFrom_nil, if_pos (by omega), ofNat_of_eq (b := b0) (by omega)]
    rfl
  | [b0, b1] => by
    have h1 := b1.toNat_lt
    rw [valuesOf, bytesFrom_zero, bytesFrom_six, bytesFrom_four, bytesFrom_nil, if_pos (by omega),
      ofNat_of_eq (b := b0) (by omega), ofNat_of_eq (b := b1) (by omega)]
    rfl
  | b0 :: b1 :: b2 :: rest => by
    have h1 := b1.toNat_lt
    have h2 := b2.toNat_lt
    rw [valuesOf, bytesFrom_zero, bytesFrom_six, bytesFrom_four, bytesFrom_two, bytesFrom_valuesOf rest,
      ofNat_of_eq (b := b0) (by omega), ofNat_of_eq (b := b1) (by omega), ofNat_of_eq (b := b2) (by omega)]
    rfl

theorem eq_valuesOf : ∀ (vs : List Nat) {b : List UInt8}, (∀ v ∈ vs, v < 64) → vs.length % 4 ≠ 1 → bytesFrom 0 0 vs = some b →
    vs = valuesOf b
  | [], b, _, _, h => by
    cases h
    rfl
  | [_], _, _, hmod, _ => absurd rfl hmod
  | [v0, v1], b, hb, _, h => by
    have h0 := hb v0 (by simp)
    have h1 := hb v1 (by simp)
    rw [bytesFrom_zero, bytesFrom_six, bytesFrom_nil] at h
    split at h
    · cases h
      simp only [valuesOf, UInt8.toNat_ofNat', List.cons.injEq, and_true]
      omega
    · cases h
  | [v0, v1, v2], b, hb, _, h => by
    have h0 := hb v0 (by simp)
    have h1 := hb v1 (by simp)
    have h2 := hb v2 (by simp)
    rw [bytesFrom_zero, bytesFrom_six, bytesFrom_four, bytesFrom_nil] at h
    split at h
    · cases h
      simp only [valuesOf, UInt8.toNat_ofNat', List.cons.injEq, and_true]
      omega
    · cases h
  | v0 :: v1 :: v2 :: v3 :: vs, b, hb, hmod, h => by
    have h0 := hb v0 (by simp)
    have h1 := hb v1 (by simp)
    have h2 := hb v2 (by simp)
    have h3 := hb v3 (by simp)
    rw [bytesFrom_zero, bytesFrom_six, bytesFrom_four, bytesFrom_two] at h
    cases hrest : bytesFrom 0 0 vs with
    | none =>
      rw [hrest] at h
      cases h
    | some rest =>
      rw [hrest] at h
      cases h
      have hvs := eq_valuesOf vs (fun v hv => hb v (by simp [hv]))
        (fun hlen => hmod (by simp only [List.length_cons]; omega)) hrest
      simp only [valuesOf, UInt8.toNat_ofNat', List.cons.injEq]
      exact ⟨by omega, by omega, by omega, by omega, hvs⟩

/-! ## The encoder's values -/

theorem or_toNat (x y : Nat) {n : Nat} (h : y < 2 ^ n) : x <<< n ||| y = x * 2 ^ n + y := by
  rw [← Nat.shiftLeft_add_eq_or_of_lt h, Nat.shiftLeft_eq]

theorem shiftRight_toNat (b : UInt8) : (b >>> 2).toNat = b.toNat / 4 ∧ (b >>> 4).toNat = b.toNat / 16 ∧
    (b >>> 6).toNat = b.toNat / 64 := by
  simp only [UInt8.toNat_shiftRight, Nat.shiftRight_eq_div_pow]
  exact ⟨rfl, rfl, rfl⟩

theorem and_toNat (b : UInt8) : (b &&& 0x03).toNat = b.toNat % 4 ∧ (b &&& 0x0f).toNat = b.toNat % 16 ∧
    (b &&& 0x3f).toNat = b.toNat % 64 := by
  simp only [UInt8.toNat_and]
  exact ⟨Nat.and_two_pow_sub_one_eq_mod _ 2, Nat.and_two_pow_sub_one_eq_mod _ 4, Nat.and_two_pow_sub_one_eq_mod _ 6⟩

theorem second_toNat (b0 b1 : UInt8) : ((b0 &&& 0x03) <<< 4 ||| b1 >>> 4).toNat = b0.toNat % 4 * 16 + b1.toNat / 16 := by
  have h1 := b1.toNat_lt
  have hshift : ((b0 &&& 0x03) <<< 4).toNat = (b0.toNat % 4) <<< 4 := by
    rw [UInt8.toNat_shiftLeft, (and_toNat b0).1]
    show (b0.toNat % 4) <<< 4 % 256 = _
    rw [Nat.shiftLeft_eq]
    omega
  rw [UInt8.toNat_or, hshift, (shiftRight_toNat b1).2.1, or_toNat _ _ (by omega : b1.toNat / 16 < 2 ^ 4)]
  rfl

theorem third_toNat (b1 b2 : UInt8) : ((b1 &&& 0x0f) <<< 2 ||| b2 >>> 6).toNat = b1.toNat % 16 * 4 + b2.toNat / 64 := by
  have h2 := b2.toNat_lt
  have hshift : ((b1 &&& 0x0f) <<< 2).toNat = (b1.toNat % 16) <<< 2 := by
    rw [UInt8.toNat_shiftLeft, (and_toNat b1).2.1]
    show (b1.toNat % 16) <<< 2 % 256 = _
    rw [Nat.shiftLeft_eq]
    omega
  rw [UInt8.toNat_or, hshift, (shiftRight_toNat b2).2.2, or_toNat _ _ (by omega : b2.toNat / 64 < 2 ^ 2)]
  rfl

theorem code_of_toNat {b : UInt8} (h : b.toNat = v) : code b = code (UInt8.ofNat v) := by
  rw [← h, UInt8.ofNat_toNat]

theorem toBase64Url_eq : ∀ (b : List UInt8), toBase64Url b = (valuesOf b).map (fun v => code (UInt8.ofNat v))
  | [] => rfl
  | [b0] => by
    rw [toBase64Url, group, valuesOf, code_of_toNat (shiftRight_toNat b0).1, code_of_toNat (second_toNat b0 _)]
    rfl
  | [b0, b1] => by
    rw [toBase64Url, group, valuesOf, code_of_toNat (shiftRight_toNat b0).1, code_of_toNat (second_toNat b0 _)]
    show _ ++ [code _] ++ [] = _
    rw [code_of_toNat (third_toNat b1 _)]
    rfl
  | b0 :: b1 :: b2 :: rest => by
    rw [toBase64Url, group, valuesOf, code_of_toNat (shiftRight_toNat b0).1, code_of_toNat (second_toNat b0 _),
      toBase64Url_eq rest]
    show _ ++ [code _] ++ [code _] ++ _ = _
    rw [code_of_toNat (third_toNat b1 _), code_of_toNat (and_toNat b2).2.2]
    rfl

/-! ## One spelling -/

theorem code_mem (h : v < 64) : code (UInt8.ofNat v) ∈ alphabet := by
  have hlt : (UInt8.ofNat v).toNat < alphabet.length := by
    rw [alphabet_length, UInt8.toNat_ofNat']
    omega
  rw [code, List.getD_eq_getElem?_getD, List.getElem?_eq_getElem hlt, Option.getD_some]
  exact List.getElem_mem hlt

theorem padding_notMem : (0x3d : UInt16) ∉ alphabet := by decide +kernel

theorem values_codes : ∀ (vs : List Nat), (∀ v ∈ vs, v < 64) → values (vs.map fun v => code (UInt8.ofNat v)) = some vs
  | [], _ => rfl
  | v :: vs, h => by
    rw [List.map_cons, values_cons, reverse_code (h v List.mem_cons_self), values_codes vs fun w hw =>
      h w (List.mem_cons_of_mem v hw)]
    rfl

theorem eq_codes : ∀ (cs : JsString) {vs : List Nat}, values cs = some vs →
    (∀ v ∈ vs, v < 64) ∧ cs = vs.map fun v => code (UInt8.ofNat v)
  | [], vs, h => by
    cases h
    exact ⟨by simp, rfl⟩
  | c :: cs, vs, h => by
    rw [values_cons] at h
    cases hc : reverse c with
    | none =>
      rw [hc] at h
      cases h
    | some v =>
      cases hcs : values cs with
      | none =>
        rw [hc, hcs] at h
        cases h
      | some rest =>
        rw [hc, hcs] at h
        cases h
        have ⟨hlt, heq⟩ := eq_codes cs hcs
        refine ⟨?_, by rw [List.map_cons, code_ofNat hc, ← heq]⟩
        rintro w (_ | ⟨_, hw⟩)
        · exact (code_of_reverse hc).1
        · exact hlt w hw

theorem mem_alphabet {b : List UInt8} {c : UInt16} (h : c ∈ toBase64Url b) : c ∈ alphabet := by
  rw [toBase64Url_eq] at h
  obtain ⟨v, hv, rfl⟩ := List.mem_map.1 h
  exact code_mem (valuesOf_lt b v hv)

theorem unpadded_toBase64Url (b : List UInt8) : unpadded (toBase64Url b) = toBase64Url b := by
  refine List.rdropWhile_eq_self_iff.2 (fun hne heq => padding_notMem ?_)
  rw [← of_decide_eq_true heq]
  exact mem_alphabet (List.getLast_mem hne)

def leftover (vs : List Nat) : Nat := vs.getLastD 0 % 2 ^ (6 * vs.length % 8)

theorem leftover_cons {v0 v1 v2 v3 : Nat} : ∀ (vs : List Nat), v3 < 64 → leftover vs = 0 →
    leftover (v0 :: v1 :: v2 :: v3 :: vs) = 0
  | [], _, _ => by
    simp only [leftover, List.getLastD_cons, List.getLastD_nil, List.length_cons, List.length_nil]
    exact Nat.mod_one v3
  | v :: vs, _, h => by
    have hlen : 6 * (v0 :: v1 :: v2 :: v3 :: v :: vs).length % 8 = 6 * (v :: vs).length % 8 := by
      simp only [List.length_cons]
      omega
    rw [leftover, hlen]
    exact h

theorem valuesOf_length : ∀ (b : List UInt8), (valuesOf b).length % 4 ≠ 1 ∧ leftover (valuesOf b) = 0
  | [] => ⟨by decide, rfl⟩
  | [b0] => ⟨by simp [valuesOf], by
    simp only [leftover, valuesOf, List.getLastD_cons, List.getLastD_nil, List.length_cons, List.length_nil]
    exact Nat.mul_mod_left _ 16⟩
  | [b0, b1] => ⟨by simp [valuesOf], by
    simp only [leftover, valuesOf, List.getLastD_cons, List.getLastD_nil, List.length_cons, List.length_nil]
    exact Nat.mul_mod_left _ 4⟩
  | b0 :: b1 :: b2 :: rest => by
    obtain ⟨hlen, hleft⟩ := valuesOf_length rest
    refine ⟨?_, leftover_cons _ (by omega) hleft⟩
    simp only [valuesOf, List.length_cons]
    omega

theorem fromBase64Url_toOption (t : JsString) : (fromBase64Url t).toOption =
    if (unpadded t).length % 4 = 1 then none else (values (unpadded t)).bind (bytesFrom 0 0) := by
  unfold fromBase64Url
  split
  · rfl
  · exact decodeFrom_eq _ 0 0 (.inl rfl)

theorem toOption_eq_some {α : Type} {r : Except String α} {a : α} : r.toOption = some a ↔ r = .ok a := by
  cases r <;> simp [Except.toOption]

theorem fromBase64Url_ok {t : JsString} {b : List UInt8} : fromBase64Url t = .ok b ↔ unpadded t = toBase64Url b := by
  rw [← toOption_eq_some, fromBase64Url_toOption]
  constructor
  · intro h
    split at h
    · cases h
    · rename_i hmod
      obtain ⟨vs, hvs, hb⟩ := Option.bind_eq_some_iff.1 h
      obtain ⟨hlt, heq⟩ := eq_codes _ hvs
      rw [heq, List.length_map] at hmod
      rw [heq, toBase64Url_eq, ← eq_valuesOf vs hlt hmod hb]
  · intro h
    rw [h, toBase64Url_eq, List.length_map, if_neg (valuesOf_length b).1, values_codes _ (valuesOf_lt b), Option.bind_some,
      bytesFrom_valuesOf]

theorem error_of_forall {t : JsString} (h : ∀ b, unpadded t ≠ toBase64Url b) : ∃ message, fromBase64Url t = .error message := by
  cases hr : fromBase64Url t with
  | error message => exact ⟨message, rfl⟩
  | ok b => exact absurd (fromBase64Url_ok.1 hr) (h b)

theorem length_toBase64Url : ∀ (b : List UInt8), (toBase64Url b).length = base64UrlLength b.length
  | [] => rfl
  | [b0] => by simp [toBase64Url_eq, valuesOf, base64UrlLength]
  | [b0, b1] => by simp [toBase64Url_eq, valuesOf, base64UrlLength]
  | b0 :: b1 :: b2 :: rest => by
    have hgroup : (toBase64Url (b0 :: b1 :: b2 :: rest)).length = 4 + (toBase64Url rest).length := by
      rw [toBase64Url, List.length_append]
      rfl
    have hthree : (b0 :: b1 :: b2 :: rest).length = rest.length + 3 := rfl
    rw [hgroup, length_toBase64Url rest, hthree, base64UrlLength, base64UrlLength, Nat.add_mod_right,
      Nat.add_div_right _ (by omega)]
    omega

/-- **Every byte string has one spelling.**  A text decodes exactly when it is, less its padding, what the encoder writes for some
bytes, and then to them; a stray character, an impossible length and leftover bits are refused. -/
theorem fromBase64Url_canonical :
    (∀ t b, fromBase64Url t = .ok b ↔ unpadded t = toBase64Url b) ∧
    (∀ b, fromBase64Url (toBase64Url b) = .ok b) ∧
    (∀ t, (∃ c ∈ unpadded t, c ∉ alphabet) → ∃ message, fromBase64Url t = .error message) ∧
    (∀ t, (unpadded t).length % 4 = 1 → ∃ message, fromBase64Url t = .error message) ∧
    ∀ t vs, values (unpadded t) = some vs → leftover vs ≠ 0 → ∃ message, fromBase64Url t = .error message := by
  refine ⟨fun t b => fromBase64Url_ok, fun b => fromBase64Url_ok.2 (unpadded_toBase64Url b), ?_, ?_, ?_⟩
  · rintro t ⟨c, hc, hout⟩
    refine error_of_forall (fun b hb => hout (mem_alphabet (b := b) ?_))
    rwa [← hb]
  · intro t hlen
    refine error_of_forall (fun b hb => (valuesOf_length b).1 ?_)
    rw [← hlen, hb, toBase64Url_eq, List.length_map]
  · intro t vs hvs hleft
    refine error_of_forall (fun b hb => hleft ?_)
    rw [hb, toBase64Url_eq, values_codes _ (valuesOf_lt b)] at hvs
    cases hvs
    exact (valuesOf_length b).2

end Base64Url
end Dormouse

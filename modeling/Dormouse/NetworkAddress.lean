import Dormouse.IpLiteral
/-!
# NetworkAddress — the spelling of an address

`serializeIpv6` of `lib/src/lib/ip-literal.ts` and `canonicalAddress` of `host/remote/network-interfaces.ts`, over what the platform
reads: Node's `isIP` and the URL parser (`NodeNet`).  Decimal numbers, as they are written and read.
-/
namespace Dormouse
namespace LocalNet

open Term (isDigit isHexDigit parseDigits digitValue)
open DirectPath (decimal colon)

/-- The platform's readers of addresses. -/
structure NodeNet where
  /-- `isIP`: 4 or 6 of a literal, and 0 of anything else. -/
  isIP     : JsString → Nat
  /-- `new URL(text).hostname`; none where it throws. -/
  hostname : JsString → Option JsString

/-- IPv6 as `new URL` serializes it; none of text that is not one. -/
def serializeIpv6 (N : NodeNet) (address : JsString) : Option JsString :=
  (N.hostname (units "http://[" ++ address ++ units "]/")).map (fun h => (h.drop 1).dropLast)

def percent : UInt16 := 0x25

def canonicalAddress (N : NodeNet) (address : JsString) : Option JsString :=
  if address.contains percent then none
  else if N.isIP address = 4 then some address
  else if N.isIP address = 6 then serializeIpv6 N address
  else none

/-- What the serializer writes is a literal of hex digits and colons, and its own spelling. -/
def SerializesOnce (N : NodeNet) : Prop :=
  ∀ a s, N.isIP a = 6 → serializeIpv6 N a = some s →
    N.isIP s = 6 ∧ serializeIpv6 N s = some s ∧ s ≠ [] ∧ ∀ c ∈ s, isHexDigit c = true ∨ c = colon

/-- **A canonical address is its own spelling.** -/
theorem canonicalAddress_again {N : NodeNet} (hN : SerializesOnce N) {a s : JsString} (h : canonicalAddress N a = some s) :
    canonicalAddress N s = some s := by
  unfold canonicalAddress at h
  split at h
  · cases h
  · rename_i hzone
    split at h
    · rename_i hfour
      cases h
      rw [canonicalAddress, if_neg hzone, if_pos hfour]
    · split at h
      · rename_i hsix
        obtain ⟨hsix', hagain, -, hchars⟩ := hN a s hsix h
        have hzone' : ¬ s.contains percent = true := by
          rw [List.contains_iff_mem]
          exact fun hin => (hchars percent hin).elim (absurd · (by decide)) (absurd · (by decide))
        rw [canonicalAddress, if_neg hzone', if_neg (by rw [hsix']; decide), if_pos hsix', hagain]
      · cases h

/-! ## Joined parts -/

theorem mem_intercalate {sep : JsString} {c : UInt16} : ∀ {parts : List JsString}, c ∈ sep.intercalate parts →
    c ∈ sep ∨ ∃ part ∈ parts, c ∈ part
  | [], h => absurd h (by simp [List.intercalate])
  | [part], h => .inr ⟨part, List.mem_cons_self, by rwa [List.intercalate_singleton] at h⟩
  | part :: p :: rest, h => by
    rw [List.intercalate_cons_cons] at h
    rcases List.mem_append.1 h with h | h
    · rcases List.mem_append.1 h with h | h
      · exact .inr ⟨part, List.mem_cons_self, h⟩
      · exact .inl h
    · exact (mem_intercalate h).imp_right (fun ⟨q, hq, hc⟩ => ⟨q, List.mem_cons_of_mem part hq, hc⟩)

/-! ## Decimal numbers -/

theorem digit_units : ∀ n < 0x3a, 0x30 ≤ n → isDigit n.toUInt16 = true ∧ digitValue n.toUInt16 = n - 0x30 := by decide

theorem toDigits_bounds {n : Nat} {c : Char} (h : c ∈ Nat.toDigits 10 n) : 0x30 ≤ c.toNat ∧ c.toNat < 0x3a := by
  have hdigit := Nat.isDigit_of_mem_toDigits (by decide) (by decide) h
  simp only [Char.isDigit, Bool.and_eq_true, decide_eq_true_eq, ge_iff_le, UInt32.le_iff_toNat_le] at hdigit
  exact ⟨hdigit.1, Nat.lt_succ_of_le hdigit.2⟩

theorem decimal_digits (n : Nat) : ∀ c ∈ decimal n, isDigit c = true := by
  intro c hc
  obtain ⟨d, hd, rfl⟩ := List.mem_map.1 hc
  obtain ⟨hlow, hhigh⟩ := toDigits_bounds hd
  exact (digit_units d.toNat hhigh hlow).1

theorem decimal_ne_nil (n : Nat) : decimal n ≠ [] := fun h => Nat.toDigits_ne_nil (List.map_eq_nil_iff.1 h)

theorem parseDigits_decimal (n : Nat) : parseDigits 10 (decimal n) = n := by
  have hfold : ∀ (l : List Char) (m : Nat), (∀ c ∈ l, 0x30 ≤ c.toNat ∧ c.toNat < 0x3a) →
      (l.map (fun c => c.toNat.toUInt16)).foldl (fun n c => n * 10 + digitValue c) m = Nat.ofDigitChars 10 l m := by
    intro l
    induction l with
    | nil => exact fun _ _ => rfl
    | cons c l ih =>
      intro m h
      obtain ⟨hlow, hhigh⟩ := h c List.mem_cons_self
      rw [List.map_cons, List.foldl_cons, ih _ (fun d hd => h d (List.mem_cons_of_mem c hd)), (digit_units c.toNat hhigh hlow).2,
        Nat.mul_comm, Nat.ofDigitChars_cons]
      rfl
  rw [parseDigits, decimal, hfold _ 0 (fun c hc => toDigits_bounds hc), Nat.ofDigitChars_ten_toDigits]

end LocalNet
end Dormouse

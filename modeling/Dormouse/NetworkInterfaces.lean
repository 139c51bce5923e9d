import Dormouse.BigEndian
import Dormouse.Ipv6Value
/-!
# NetworkInterfaces — the addresses that a list of ranges admits

`canonicalCidr` and `allowedAddressTest` of `host/remote/network-interfaces.ts`, over what the platform reads of an address and how
its block lists match one range.  A text's address is a number of its family, and a range is the first bits of one.
-/
namespace Dormouse
namespace LocalNet

open Term (isDigit isHexDigit parseDigits)
open DirectPath (decimal colon ipv6Groups ipv6Value quadOctets hexText isIpv4Literal IsDottedQuad IsIpv6)

inductive Family where
  | ipv4
  | ipv6
  deriving DecidableEq

structure Cidr where
  family  : Family
  /-- The network address, masked to its bits and spelled canonically. -/
  network : JsString
  bits    : Nat
  deriving DecidableEq

def slash : UInt16 := 0x2f
def dot : UInt16 := 0x2e

def maskUnit (width kept unit : Nat) : Nat :=
  if kept = 0 then 0 else (BitVec.ofNat 32 unit &&& ~~~((1#32 <<< (width - kept)) - 1#32)).toNat

/-- Zero every bit past `bits` in units of `width` bits each. -/
def mask (us : List Nat) (width bits : Nat) : List Nat :=
  us.mapIdx (fun index unit => maskUnit width (min width (bits - index * width)) unit)

/-- `/^\d{1,3}$/`. -/
def isBitsText (s : JsString) : Bool := (1 ≤ s.length && s.length ≤ 3) && s.all isDigit

section Code
variable (N : NodeNet)

/-- The rest of `parseCidr`, for an address without a zone. -/
def cidrAt (address : JsString) (bits : Nat) : Option Cidr :=
  let family := N.isIP address
  if family = 4 ∧ bits ≤ 32 then some ⟨.ipv4, [dot].intercalate ((mask (quadOctets address) 8 bits).map decimal), bits⟩
  else
    match if family = 6 ∧ bits ≤ 128 then serializeIpv6 N address else none with
    | none            => none
    | some serialized =>
      let groups := mask (ipv6Groups serialized) 16 bits
      (serializeIpv6 N ([colon].intercalate (groups.map hexText))).map (⟨.ipv6, ·, bits⟩)

def parseCidr (text : JsString) : Option Cidr :=
  let address := text.takeWhile (· != slash)
  let bitsText := (text.dropWhile (· != slash)).drop 1
  if !text.contains slash || !isBitsText bitsText then none
  -- `isIP` accepts a zone, which names an interface, not a range
  else if address.contains percent then none
  else cidrAt N address (parseDigits 10 bitsText)

def canonicalCidr (text : JsString) : Option JsString :=
  (parseCidr N text).map (fun cidr => cidr.network ++ slash :: decimal cidr.bits)

structure BlockLists where
  ipv4 : List Cidr
  ipv6 : List Cidr

def BlockLists.addSubnet (lists : BlockLists) (cidr : Cidr) : BlockLists :=
  match cidr.family with
  | .ipv4 => { lists with ipv4 := lists.ipv4 ++ [cidr] }
  | .ipv6 => { lists with ipv6 := lists.ipv6 ++ [cidr] }

def addRange (lists : BlockLists) (text : JsString) : BlockLists :=
  match parseCidr N text with
  | none      => lists
  | some cidr => lists.addSubnet cidr

def blockListsOf (cidrs : List JsString) : BlockLists := cidrs.foldl (addRange N) ⟨[], []⟩

def mappedIpv4 (address : JsString) : Option JsString :=
  match serializeIpv6 N address with
  | none            => none
  | some serialized =>
    let groups := ipv6Groups serialized
    if (groups.take 5).any (· != 0) || groups.getD 5 0 != 0xffff then none
    else
      some ([dot].intercalate ([groups.getD 6 0 >>> 8, groups.getD 6 0 &&& 0xff, groups.getD 7 0 >>> 8,
        groups.getD 7 0 &&& 0xff].map decimal))

/-- The platform's match of one subnet against an address of a family. -/
abbrev SubnetMatch := Cidr → JsString → Family → Bool

variable (inSubnet : SubnetMatch)

/-- `lists[family]`. -/
def BlockLists.list (lists : BlockLists) : Family → List Cidr
  | .ipv4 => lists.ipv4
  | .ipv6 => lists.ipv6

/-- `BlockList.check`. -/
def check (list : List Cidr) (address : JsString) (family : Family) : Bool := list.any (fun cidr => inSubnet cidr address family)

def allowedAddressTest (cidrs : List JsString) : JsString → Bool :=
  let lists := blockListsOf N cidrs
  fun address =>
    let family := N.isIP address
    if family = 0 || address.contains percent then false
    else if family = 4 then check inSubnet lists.ipv4 address .ipv4
    else
      match mappedIpv4 N address with
      | none      => check inSubnet lists.ipv6 address .ipv6
      | some ipv4 => check inSubnet lists.ipv4 ipv4 .ipv4

end Code

/-! ## Addresses and ranges -/

def Family.width : Family → Nat
  | .ipv4 => 8
  | .ipv6 => 16

def Family.count : Family → Nat
  | .ipv4 => 4
  | .ipv6 => 8

def Family.size (family : Family) : Nat := family.width * family.count

/-- An address is a number of its family. -/
structure Address where
  family : Family
  value  : Nat
  deriving DecidableEq

def unitsOf (text : JsString) : Option (Family × List Nat) :=
  if text.contains percent then none
  else if isIpv4Literal text then some (.ipv4, quadOctets text)
  else (ipv6Value text).map (Prod.mk .ipv6)

def readAddress (text : JsString) : Option Address :=
  (unitsOf text).map (fun read => ⟨read.1, BigEndian.value read.1.width read.2⟩)

namespace Address

def first (a : Address) (bits : Nat) : Nat := a.value / 2 ^ (a.family.size - bits)

def masked (a : Address) (bits : Nat) : Address := ⟨a.family, a.first bits * 2 ^ (a.family.size - bits)⟩

/-- The address that one counts as: what an IPv4-mapped one carries, and every other itself. -/
def counted : Address → Address
  | ⟨.ipv6, value⟩ => if value / 2 ^ 32 = 0xffff then ⟨.ipv4, value % 2 ^ 32⟩ else ⟨.ipv6, value⟩
  | ⟨.ipv4, value⟩ => ⟨.ipv4, value⟩

end Address

def IsCidr (text : JsString) (net : Address) (bits : Nat) : Prop :=
  ∃ written digits, text = written ++ slash :: digits ∧ slash ∉ written ∧ readAddress written = some net ∧
    1 ≤ digits.length ∧ digits.length ≤ 3 ∧ (∀ c ∈ digits, isDigit c = true) ∧ parseDigits 10 digits = bits ∧
    bits ≤ net.family.size

def ParsesTo (text : JsString) (network : Address) (bits : Nat) : Prop := ∃ net, IsCidr text net bits ∧ net.masked bits = network

/-! ## What the platform reads -/

/-- The platform's readers take addresses as they are written, and spell each IPv6 address one way. -/
structure ReadsAddresses (N : NodeNet) (spelling : List Nat → JsString) : Prop where
  named    : ∀ a, N.isIP a = 0 ∨ N.isIP a = 4 ∨ N.isIP a = 6
  four     : ∀ a, N.isIP a = 4 ↔ IsDottedQuad a
  six      : ∀ a, percent ∉ a → (N.isIP a = 6 ↔ IsIpv6 a)
  hostname : ∀ a v, ipv6Value a = some v → N.hostname (units "http://[" ++ a ++ units "]/") = some (units "[" ++ spelling v ++ units "]")
  spelled  : ∀ v, v.length = 8 → (∀ u ∈ v, u < 2 ^ 16) →
    ipv6Value (spelling v) = some v ∧ ∀ c ∈ spelling v, isHexDigit c = true ∨ c = colon

def MatchesSubnets (inSubnet : SubnetMatch) : Prop :=
  ∀ (cidr : Cidr) (address : JsString) (a net : Address), readAddress address = some a → readAddress cidr.network = some net →
    a.family = cidr.family → net.family = cidr.family → cidr.bits ≤ cidr.family.size →
    (inSubnet cidr address cidr.family = true ↔ a.first cidr.bits = net.first cidr.bits)

/-! ## Masks -/

theorem keep_bits {unit k : Nat} (hunit : unit < 2 ^ 32) (hk : k < 32) :
    (BitVec.ofNat 32 unit &&& ~~~((1#32 <<< k) - 1#32)).toNat = unit / 2 ^ k * 2 ^ k := by
  have hone : ((1#32 <<< k) - 1#32).toNat = 2 ^ k - 1 := by
    have hpow : 2 ^ k < 2 ^ 32 := Nat.pow_lt_pow_right (by decide) hk
    have hpos : 0 < 2 ^ k := Nat.two_pow_pos k
    rw [BitVec.toNat_sub, BitVec.toNat_shiftLeft]
    simp only [BitVec.toNat_ofNat, Nat.shiftLeft_eq]
    omega
  apply Nat.eq_of_testBit_eq
  intro i
  rw [BitVec.toNat_and, Nat.testBit_and, BitVec.testBit_toNat, BitVec.testBit_toNat, BitVec.getLsbD_not, ← BitVec.testBit_toNat,
    ← BitVec.testBit_toNat, hone, BitVec.toNat_ofNat, Nat.mod_eq_of_lt hunit, Nat.testBit_two_pow_sub_one,
    ← Nat.shiftLeft_eq, ← Nat.shiftRight_eq_div_pow, Nat.testBit_shiftLeft, Nat.testBit_shiftRight]
  by_cases hi : k ≤ i
  · by_cases hi32 : i < 32
    · simp [hi, hi32]
    · have hhigh : unit.testBit i = false :=
        Nat.testBit_lt_two_pow (hunit.trans_le (Nat.pow_le_pow_right (by decide) (Nat.le_of_not_lt hi32)))
      simp [hi, hhigh]
  · simp [hi, Nat.lt_of_not_le hi]

theorem maskUnit_eq {width kept unit : Nat} (hwidth : width < 32) (hunit : unit < 2 ^ width) :
    maskUnit width kept unit = unit / 2 ^ (width - kept) * 2 ^ (width - kept) := by
  unfold maskUnit
  split
  · rename_i hzero
    rw [hzero, Nat.sub_zero, Nat.div_eq_of_lt hunit, Nat.zero_mul]
  · exact keep_bits (hunit.trans (Nat.pow_lt_pow_right (by decide) hwidth)) (by omega)

/-- **The mask of the code keeps the first bits.** -/
theorem mask_eq {width : Nat} (hwidth : width < 32) : ∀ {us : List Nat} (bits : Nat), (∀ u ∈ us, u < 2 ^ width) →
    mask us width bits = BigEndian.mask width us bits
  | [], _, _ => rfl
  | u :: us, bits, h => by
    obtain ⟨hu, hus⟩ := List.forall_mem_cons.1 h
    have htail := mask_eq hwidth (bits - width) hus
    rw [mask] at htail ⊢
    rw [List.mapIdx_cons, BigEndian.mask, ← htail, maskUnit_eq hwidth hu, Nat.zero_mul, Nat.sub_zero]
    refine congrArg (_ :: us.mapIdx ·) ?_
    funext index unit
    have hindex : bits - (index + 1) * width = bits - width - index * width := by
      rw [Nat.add_mul, Nat.one_mul, Nat.add_comm, Nat.sub_add_eq]
    rw [hindex]

/-! ## Spelling -/

def WellFormed (family : Family) (us : List Nat) : Prop := us.length = family.count ∧ ∀ u ∈ us, u < 2 ^ family.width

variable {family : Family} {us : List Nat}

theorem wellFormed_mask (h : WellFormed family us) (bits : Nat) :
    WellFormed family (BigEndian.mask family.width us bits) :=
  ⟨(BigEndian.length_mask us bits).trans h.1, BigEndian.mask_lt bits h.2⟩

theorem quad_chars {s : JsString} (h : IsDottedQuad s) : ∀ c ∈ s, isDigit c = true ∨ c = dot := by
  obtain ⟨a, b, c, d, -, -, -, -, rfl⟩ := h
  intro u hu
  rcases mem_intercalate hu with hu | ⟨part, hpart, hu⟩
  · exact .inr (List.mem_singleton.1 hu)
  · simp only [List.mem_cons, List.not_mem_nil, or_false] at hpart
    rcases hpart with rfl | rfl | rfl | rfl <;> exact .inl (decimal_digits _ u hu)

theorem wellFormed_quad {quad : JsString} (h : IsDottedQuad quad) : WellFormed .ipv4 (quadOctets quad) := by
  obtain ⟨a, b, c, d, ha, hb, hc, hd, heq⟩ := DirectPath.quad_octets h
  rw [heq]
  refine ⟨rfl, ?_⟩
  simp only [Family.width, List.mem_cons, List.not_mem_nil, or_false, forall_eq_or_imp, forall_eq]
  omega

theorem quad_of_octets (h : WellFormed .ipv4 us) :
    IsDottedQuad ([dot].intercalate (us.map decimal)) ∧ quadOctets ([dot].intercalate (us.map decimal)) = us := by
  obtain ⟨hlen, hlt⟩ := h
  obtain ⟨a, b, c, d, rfl⟩ := List.length_eq_four.1 hlen
  simp only [Family.width, List.mem_cons, List.not_mem_nil, or_false, forall_eq_or_imp, forall_eq] at hlt
  obtain ⟨ha, hb, hc, hd⟩ := hlt
  exact ⟨⟨a, b, c, d, by omega, by omega, by omega, by omega, rfl⟩,
    DirectPath.quadOctets_joined (by omega) (by omega) (by omega) (by omega)⟩

variable {text : JsString}

theorem unitsOf_zone {read : Family × List Nat} (h : unitsOf text = some read) : percent ∉ text := by
  intro hin
  rw [unitsOf, if_pos (List.contains_iff_mem.2 hin)] at h
  cases h

theorem unitsOf_quad (h : IsDottedQuad text) : unitsOf text = some (.ipv4, quadOctets text) := by
  have hzone : ¬text.contains percent = true := by
    rw [List.contains_iff_mem]
    exact fun hin => (quad_chars h percent hin).elim (absurd · (by decide)) (absurd · (by decide))
  rw [unitsOf, if_neg hzone, if_pos (DirectPath.isIpv4Literal_iff.2 h)]

theorem unitsOf_other (hzone : percent ∉ text) (h : ¬IsDottedQuad text) :
    unitsOf text = (ipv6Value text).map (Prod.mk .ipv6) := by
  rw [unitsOf, if_neg (by rw [List.contains_iff_mem]; exact hzone), if_neg (by rw [DirectPath.isIpv4Literal_iff]; exact h)]

theorem unitsOf_wellFormed (h : unitsOf text = some (family, us)) :
    WellFormed family us := by
  by_cases hquad : IsDottedQuad text
  · rw [unitsOf_quad hquad] at h
    cases h
    exact wellFormed_quad hquad
  · rw [unitsOf_other (unitsOf_zone h) hquad, Option.map_eq_some_iff] at h
    obtain ⟨v, hv, heq⟩ := h
    cases heq
    exact DirectPath.ipv6Value_units hv

def spell (spelling : List Nat → JsString) : Family → List Nat → JsString
  | .ipv4, us => [dot].intercalate (us.map decimal)
  | .ipv6, us => spelling us

/-! ## Ranges -/

theorem bne_slash {written : JsString} (h : slash ∉ written) : ∀ c ∈ written, (c != slash) = true := fun c hc =>
  bne_iff_ne.2 (fun heq : c = slash => h (heq ▸ hc))

theorem takeWhile_slash {written digits : JsString} (h : slash ∉ written) :
    (written ++ slash :: digits).takeWhile (· != slash) = written := by
  rw [List.takeWhile_append_of_pos (bne_slash h), List.takeWhile_cons_of_neg (by decide), List.append_nil]

theorem dropWhile_slash {written digits : JsString} (h : slash ∉ written) :
    (written ++ slash :: digits).dropWhile (· != slash) = slash :: digits := by
  rw [List.dropWhile_append_of_pos (bne_slash h), List.dropWhile_cons_of_neg (by decide)]

theorem split_slash (h : text.contains slash = true) :
    text = text.takeWhile (· != slash) ++ slash :: (text.dropWhile (· != slash)).drop 1 ∧ slash ∉ text.takeWhile (· != slash) := by
  obtain ⟨before, after, rfl, hbefore⟩ := List.eq_append_cons_of_mem (List.contains_iff_mem.1 h)
  rw [takeWhile_slash hbefore, dropWhile_slash hbefore]
  exact ⟨rfl, hbefore⟩

theorem isCidr_bits {net : Address} {bits : Nat} (h : IsCidr text net bits) : bits ≤ net.family.size := by
  obtain ⟨_, _, -, -, -, -, -, -, -, hbits⟩ := h
  exact hbits

theorem readAddress_units {value : Nat} (h : readAddress text = some ⟨family, value⟩) :
    ∃ us, unitsOf text = some (family, us) ∧ WellFormed family us ∧ value = BigEndian.value family.width us := by
  rw [readAddress, Option.map_eq_some_iff] at h
  obtain ⟨⟨family, us⟩, hunits, heq⟩ := h
  cases heq
  exact ⟨us, hunits, unitsOf_wellFormed hunits, rfl⟩

theorem isCidr_units {value bits : Nat} (h : IsCidr text ⟨family, value⟩ bits) :
    ∃ us, WellFormed family us ∧ value = BigEndian.value family.width us := by
  obtain ⟨_, _, -, -, hread, -⟩ := h
  obtain ⟨us, -, hwell, heq⟩ := readAddress_units hread
  exact ⟨us, hwell, heq⟩

theorem isCidr_unique {net net' : Address} {bits bits' : Nat} (h : IsCidr text net bits) (h' : IsCidr text net' bits') :
    net = net' ∧ bits = bits' := by
  obtain ⟨written, digits, rfl, hslash, hread, -, -, -, rfl, -⟩ := h
  obtain ⟨written', digits', heq, hslash', hread', -, -, -, rfl, -⟩ := h'
  have hwritten := congrArg (·.takeWhile (· != slash)) heq
  have hdigits := congrArg (·.dropWhile (· != slash)) heq
  simp only [takeWhile_slash hslash, takeWhile_slash hslash'] at hwritten
  simp only [dropWhile_slash hslash, dropWhile_slash hslash', List.cons.injEq, true_and] at hdigits
  subst hwritten hdigits
  exact ⟨Option.some.inj (hread.symm.trans hread'), rfl⟩

theorem isBitsText_decimal {n : Nat} (h : n ≤ 128) :
    1 ≤ (decimal n).length ∧ (decimal n).length ≤ 3 ∧ ∀ c ∈ decimal n, isDigit c = true := by
  refine ⟨List.length_pos_iff.2 (decimal_ne_nil n), ?_, decimal_digits n⟩
  rw [decimal, List.length_map]
  exact (Nat.length_toDigits_le_iff (by decide) (by decide)).2 (by omega)

theorem size_le (family : Family) : family.size ≤ 128 := by cases family <;> decide

theorem value_network (h : WellFormed family us) (bits : Nat) :
    (⟨family, BigEndian.value family.width (BigEndian.mask family.width us bits)⟩ : Address) =
      (⟨family, BigEndian.value family.width us⟩ : Address).masked bits := by
  rw [BigEndian.value_mask bits h.2, h.1]
  rfl

theorem masked_first (a : Address) (bits : Nat) : (a.masked bits).first bits = a.first bits :=
  Nat.mul_div_cancel _ (Nat.two_pow_pos _)

section Reads
variable {N : NodeNet} {spelling : List Nat → JsString} (hN : ReadsAddresses N spelling)
include hN

/-- **What is spelled is read as it was.** -/
theorem unitsOf_spell {family : Family} {us : List Nat} (h : WellFormed family us) :
    unitsOf (spell spelling family us) = some (family, us) ∧ slash ∉ spell spelling family us := by
  cases family with
  | ipv4 =>
    obtain ⟨hquad, hoctets⟩ := quad_of_octets h
    refine ⟨(unitsOf_quad hquad).trans (by rw [hoctets]), fun hin => ?_⟩
    exact (quad_chars hquad slash hin).elim (absurd · (by decide)) (absurd · (by decide))
  | ipv6 =>
    obtain ⟨hvalue, hchars⟩ := hN.spelled us h.1 h.2
    have hzone : percent ∉ spelling us := fun hin => (hchars percent hin).elim (absurd · (by decide)) (absurd · (by decide))
    have hquad : ¬IsDottedQuad (spelling us) := fun hquad =>
      (hchars 0x2e (DirectPath.quad_units hquad).2.1).elim (absurd · (by decide)) (absurd · (by decide))
    refine ⟨?_, fun hin => (hchars slash hin).elim (absurd · (by decide)) (absurd · (by decide))⟩
    rw [spell, unitsOf_other hzone hquad, hvalue, Option.map_some]

variable {text : JsString}

theorem serializeIpv6_value {v : List Nat} (h : ipv6Value text = some v) :
    serializeIpv6 N text = some (spelling v) := by
  have hdrop : ((units "[" ++ spelling v ++ units "]").drop 1).dropLast = spelling v := List.dropLast_concat
  rw [serializeIpv6, hN.hostname text v h, Option.map_some, hdrop]

theorem ipv6Groups_spelling {v : List Nat} (h : WellFormed .ipv6 v) : ipv6Groups (spelling v) = v := by
  obtain ⟨hvalue, hchars⟩ := hN.spelled v h.1 h.2
  refine DirectPath.ipv6Groups_eq (fun hin => ?_) hvalue
  exact (hchars 0x2e hin).elim (absurd · (by decide)) (absurd · (by decide))

theorem isIP_cases (hzone : percent ∉ text) :
    (N.isIP text = 4 ∧ IsDottedQuad text) ∨ (N.isIP text = 6 ∧ ∃ us, ipv6Value text = some us ∧ unitsOf text = some (.ipv6, us)) ∨
      (N.isIP text = 0 ∧ unitsOf text = none) := by
  rcases hN.named text with hzero | hfour | hsix
  · have hquad : ¬IsDottedQuad text := fun h => absurd ((hN.four text).2 h) (by rw [hzero]; decide)
    have hsix : ¬IsIpv6 text := fun h => absurd ((hN.six text hzone).2 h) (by rw [hzero]; decide)
    have hnone : ipv6Value text = none := by
      rw [← DirectPath.ipv6Value_isSome_iff, Option.not_isSome_iff_eq_none] at hsix
      exact hsix
    exact .inr (.inr ⟨hzero, by rw [unitsOf_other hzone hquad, hnone, Option.map_none]⟩)
  · exact .inl ⟨hfour, (hN.four text).1 hfour⟩
  · have hquad : ¬IsDottedQuad text := fun h => absurd ((hN.four text).2 h) (by rw [hsix]; decide)
    obtain ⟨us, hus⟩ := Option.isSome_iff_exists.1 (DirectPath.ipv6Value_isSome_iff.2 ((hN.six text hzone).1 hsix))
    exact .inr (.inl ⟨hsix, us, hus, by rw [unitsOf_other hzone hquad, hus, Option.map_some]⟩)

/-- **An address and its bits are a network**, where it is a literal with as many bits. -/
theorem cidrAt_eq {address : JsString} (hzone : percent ∉ address) (bits : Nat) :
    cidrAt N address bits = (unitsOf address).bind (fun read =>
      if bits ≤ read.1.size then some ⟨read.1, spell spelling read.1 (BigEndian.mask read.1.width read.2 bits), bits⟩ else none) := by
  rcases isIP_cases hN hzone with ⟨hip, hquad⟩ | ⟨hip, us, hvalue, hunits⟩ | ⟨hip, hunits⟩
  · have hmask : mask (quadOctets address) 8 bits = BigEndian.mask 8 (quadOctets address) bits :=
      mask_eq (by decide) bits (wellFormed_quad hquad).2
    rw [unitsOf_quad hquad, Option.bind_some, cidrAt, hip, hmask]
    by_cases hbits : bits ≤ 32
    · rw [if_pos ⟨rfl, hbits⟩]
      exact (if_pos hbits).symm
    · rw [if_neg (fun h => hbits h.2), if_neg (fun h => absurd h.1 (by decide))]
      exact (if_neg hbits).symm
  · have hwell := unitsOf_wellFormed hunits
    have hmasked := wellFormed_mask hwell bits
    have hmask : mask us 16 bits = BigEndian.mask 16 us bits := mask_eq (by decide) bits hwell.2
    rw [hunits, Option.bind_some, cidrAt, hip, if_neg (fun h => absurd h.1 (by decide)), serializeIpv6_value hN hvalue]
    by_cases hbits : bits ≤ 128
    · rw [if_pos ⟨rfl, hbits⟩]
      show (serializeIpv6 N ([colon].intercalate ((mask (ipv6Groups (spelling us)) 16 bits).map hexText))).map _ = _
      have hwritten : serializeIpv6 N ([colon].intercalate ((BigEndian.mask 16 us bits).map hexText)) =
          some (spelling (BigEndian.mask 16 us bits)) :=
        serializeIpv6_value hN (DirectPath.ipv6Value_written hmasked.1 hmasked.2)
      rw [ipv6Groups_spelling hN hwell, hmask, hwritten]
      exact (if_pos hbits).symm
    · rw [if_neg (fun h => hbits h.2)]
      exact (if_neg hbits).symm
  · rw [hunits, Option.bind_none, cidrAt, hip, if_neg (fun h => absurd h.1 (by decide)), if_neg (fun h => absurd h.1 (by decide))]

/-- **The ranges a text is parsed to**, and how the network of one is spelled. -/
theorem parseCidr_eq_some {cidr : Cidr} : parseCidr N text = some cidr ↔
    ∃ family us bits, IsCidr text ⟨family, BigEndian.value family.width us⟩ bits ∧ WellFormed family us ∧
      cidr = ⟨family, spell spelling family (BigEndian.mask family.width us bits), bits⟩ := by
  constructor
  · intro h
    simp only [parseCidr] at h
    split at h
    · cases h
    · rename_i hwritten
      rw [Bool.or_eq_true, not_or, Bool.not_eq_true', Bool.not_eq_true', Bool.not_eq_false, Bool.not_eq_false] at hwritten
      obtain ⟨hslash, hdigits⟩ := hwritten
      split at h
      · cases h
      · rename_i hzone
        rw [List.contains_iff_mem] at hzone
        rw [cidrAt_eq hN hzone, Option.bind_eq_some_iff] at h
        obtain ⟨⟨family, us⟩, hunits, hcidr⟩ := h
        obtain ⟨hbits, heq⟩ := Option.ite_none_right_eq_some.1 hcidr
        cases heq
        simp only [isBitsText, Bool.and_eq_true, decide_eq_true_eq, List.all_eq_true] at hdigits
        refine ⟨family, us, _, ⟨_, _, (split_slash hslash).1, (split_slash hslash).2, ?_, hdigits.1.1, hdigits.1.2, hdigits.2, rfl,
          hbits⟩, unitsOf_wellFormed hunits, rfl⟩
        rw [readAddress, hunits, Option.map_some]
  · rintro ⟨family, us, bits, ⟨written, digits, rfl, hslash, hread, hlow, hhigh, hdigits, rfl, hbits⟩, hwell, rfl⟩
    obtain ⟨us', hunits, hwell', hvalue⟩ := readAddress_units hread
    obtain rfl := BigEndian.value_inj (hwell'.1.trans hwell.1.symm) hwell'.2 hwell.2 hvalue.symm
    have hzone := unitsOf_zone hunits
    have hdigits' : isBitsText digits = true := by
      simp only [isBitsText, Bool.and_eq_true, decide_eq_true_eq, List.all_eq_true]
      exact ⟨⟨hlow, hhigh⟩, hdigits⟩
    have hin : (written ++ slash :: digits).contains slash = true :=
      List.contains_iff_mem.2 (List.mem_append_right _ List.mem_cons_self)
    rw [parseCidr, takeWhile_slash hslash, dropWhile_slash hslash, List.drop_one, List.tail_cons, hin, hdigits',
      if_neg (by decide), if_neg (by rw [List.contains_iff_mem]; exact hzone), cidrAt_eq hN hzone, hunits, Option.bind_some]
    exact if_pos hbits

/-! ## Canonical texts -/

theorem isCidr_written {family : Family} {us : List Nat} {bits : Nat} (h : WellFormed family us) (hbits : bits ≤ family.size) :
    IsCidr (spell spelling family us ++ slash :: decimal bits) ⟨family, BigEndian.value family.width us⟩ bits := by
  obtain ⟨hunits, hslash⟩ := unitsOf_spell hN h
  obtain ⟨hlow, hhigh, hdigits⟩ := isBitsText_decimal (hbits.trans (size_le family))
  exact ⟨_, _, rfl, hslash, by rw [readAddress, hunits, Option.map_some], hlow, hhigh, hdigits, parseDigits_decimal bits, hbits⟩

variable {text canonical : JsString}

/-- **A canonical text** is the network and the bits of what it was made from. -/
theorem canonicalCidr_eq_some : canonicalCidr N text = some canonical ↔
    ∃ family us bits, IsCidr text ⟨family, BigEndian.value family.width us⟩ bits ∧ WellFormed family us ∧
      canonical = spell spelling family (BigEndian.mask family.width us bits) ++ slash :: decimal bits := by
  rw [canonicalCidr, Option.map_eq_some_iff]
  constructor
  · rintro ⟨cidr, hcidr, rfl⟩
    obtain ⟨family, us, bits, his, hwell, rfl⟩ := (parseCidr_eq_some hN).1 hcidr
    exact ⟨family, us, bits, his, hwell, rfl⟩
  · rintro ⟨family, us, bits, his, hwell, rfl⟩
    exact ⟨_, (parseCidr_eq_some hN).2 ⟨family, us, bits, his, hwell, rfl⟩, rfl⟩

theorem isCidr_canonical (h : canonicalCidr N text = some canonical) :
    ∃ network bits, ParsesTo text network bits ∧ IsCidr canonical network bits := by
  obtain ⟨family, us, bits, his, hwell, rfl⟩ := (canonicalCidr_eq_some hN).1 h
  have hwritten := isCidr_written hN (wellFormed_mask hwell bits) (isCidr_bits his)
  rw [value_network hwell bits] at hwritten
  exact ⟨_, bits, ⟨_, his, rfl⟩, hwritten⟩

theorem canonicalCidr_again (h : canonicalCidr N text = some canonical) :
    canonicalCidr N canonical = some canonical := by
  obtain ⟨family, us, bits, his, hwell, rfl⟩ := (canonicalCidr_eq_some hN).1 h
  have hmasked := wellFormed_mask hwell bits
  refine (canonicalCidr_eq_some hN).2 ⟨family, _, bits, isCidr_written hN hmasked (isCidr_bits his), hmasked, ?_⟩
  rw [BigEndian.mask_mask]

theorem canonicalCidr_of_same {text text' canonical : JsString} {network : Address} {bits : Nat}
    (h : canonicalCidr N text = some canonical) (hp : ParsesTo text network bits) (hp' : ParsesTo text' network bits) :
    canonicalCidr N text' = some canonical := by
  obtain ⟨family, us, bits', his, hwell, rfl⟩ := (canonicalCidr_eq_some hN).1 h
  obtain ⟨net, hnet, rfl⟩ := hp
  obtain ⟨rfl, rfl⟩ := isCidr_unique his hnet
  obtain ⟨⟨family', value⟩, hnet', hsame⟩ := hp'
  cases (Address.mk.inj hsame).1
  obtain ⟨us', hwell', rfl⟩ := isCidr_units hnet'
  have hmasked := wellFormed_mask hwell bits'
  have hmasked' := wellFormed_mask hwell' bits'
  rw [← value_network hwell, ← value_network hwell'] at hsame
  have hmask := BigEndian.value_inj (hmasked'.1.trans hmasked.1.symm) hmasked'.2 hmasked.2 (Address.mk.inj hsame).2
  exact (canonicalCidr_eq_some hN).2 ⟨_, us', bits', hnet', hwell', by rw [hmask]⟩

theorem canonicalCidr_isSome {network : Address} {bits : Nat} (h : ParsesTo text network bits) :
    ∃ canonical, canonicalCidr N text = some canonical := by
  obtain ⟨⟨family, value⟩, hnet, rfl⟩ := h
  obtain ⟨us, hwell, rfl⟩ := isCidr_units hnet
  exact ⟨_, (canonicalCidr_eq_some hN).2 ⟨family, us, bits, hnet, hwell, rfl⟩⟩

/-- **One canonical text for one network**, and for nothing else. -/
theorem canonicalCidr_eq_iff {text text' : JsString} : canonicalCidr N text = canonicalCidr N text' ↔
    ∀ network bits, ParsesTo text network bits ↔ ParsesTo text' network bits := by
  have hhalf : ∀ {t t' : JsString}, canonicalCidr N t = canonicalCidr N t' → ∀ {network bits}, ParsesTo t network bits →
      ParsesTo t' network bits := by
    intro t t' heq network bits hp
    obtain ⟨canonical, hcanonical⟩ := canonicalCidr_isSome hN hp
    obtain ⟨net, b, ⟨n, hn, rfl⟩, hthere⟩ := isCidr_canonical hN hcanonical
    obtain ⟨net', b', hp', hthere'⟩ := isCidr_canonical hN (heq.symm.trans hcanonical)
    obtain ⟨m, hm, rfl⟩ := hp
    obtain ⟨rfl, rfl⟩ := isCidr_unique hn hm
    obtain ⟨rfl, rfl⟩ := isCidr_unique hthere hthere'
    exact hp'
  constructor
  · exact fun heq network bits => ⟨hhalf heq, hhalf heq.symm⟩
  · intro h
    have hsome : ∀ {t t' : JsString} {c : JsString}, (∀ network bits, ParsesTo t network bits → ParsesTo t' network bits) →
        canonicalCidr N t = some c → canonicalCidr N t' = some c := by
      intro t t' c hsub hc
      obtain ⟨network, bits, hp, -⟩ := isCidr_canonical hN hc
      exact canonicalCidr_of_same hN hc hp (hsub network bits hp)
    refine Option.ext (fun c => ⟨?_, ?_⟩)
    · exact hsome (fun network bits => (h network bits).1)
    · exact hsome (fun network bits => (h network bits).2)

end Reads

/-! ## Block lists -/

theorem mem_addSubnet {lists : BlockLists} {cidr added : Cidr} :
    cidr ∈ (lists.addSubnet added).list family ↔ cidr ∈ lists.list family ∨ (cidr = added ∧ cidr.family = family) := by
  cases hadded : added.family <;> cases family <;> simp only [BlockLists.addSubnet, hadded, BlockLists.list, List.mem_append,
    List.mem_singleton]
  · exact or_congr_right ⟨fun h => ⟨h, h ▸ hadded⟩, And.left⟩
  · exact (or_iff_left (fun h => absurd (hadded.symm.trans (h.1 ▸ h.2)) (by decide))).symm
  · exact (or_iff_left (fun h => absurd (hadded.symm.trans (h.1 ▸ h.2)) (by decide))).symm
  · exact or_congr_right ⟨fun h => ⟨h, h ▸ hadded⟩, And.left⟩

theorem mem_blockListsOf {N : NodeNet} {cidrs : List JsString} {cidr : Cidr} :
    cidr ∈ (blockListsOf N cidrs).list family ↔ cidr.family = family ∧ ∃ text ∈ cidrs, parseCidr N text = some cidr := by
  have hfold : ∀ (cidrs : List JsString) (lists : BlockLists), cidr ∈ (cidrs.foldl (addRange N) lists).list family ↔
      cidr ∈ lists.list family ∨ (cidr.family = family ∧ ∃ text ∈ cidrs, parseCidr N text = some cidr) := by
    intro cidrs
    induction cidrs with
    | nil => simp
    | cons text cidrs ih =>
      intro lists
      rw [List.foldl_cons, ih, addRange]
      cases hparse : parseCidr N text with
      | none => simp [hparse]
      | some added =>
        simp only [mem_addSubnet, List.mem_cons, exists_eq_or_imp, hparse, Option.some.injEq]
        tauto
  have hempty : cidr ∉ (⟨[], []⟩ : BlockLists).list family := by cases family <;> exact List.not_mem_nil
  rw [blockListsOf, hfold, or_iff_right hempty]

section Lists
variable {N : NodeNet} {spelling : List Nat → JsString} (hN : ReadsAddresses N spelling)
include hN

/-- **A family's list admits the addresses of its ranges.** -/
theorem check_iff {inSubnet : SubnetMatch} (hB : MatchesSubnets inSubnet) (cidrs : List JsString) {address : JsString} {a : Address}
    (ha : readAddress address = some a) : check inSubnet ((blockListsOf N cidrs).list a.family) address a.family = true ↔
      ∃ text ∈ cidrs, ∃ net bits, IsCidr text net bits ∧ net.family = a.family ∧ a.first bits = net.first bits := by
  have hmatch : ∀ {family us bits}, WellFormed family us → bits ≤ family.size → family = a.family →
      (inSubnet ⟨family, spell spelling family (BigEndian.mask family.width us bits), bits⟩ address family = true ↔
        a.first bits = (⟨family, BigEndian.value family.width us⟩ : Address).first bits) := by
    intro family us bits hwell hbits hfamily
    have hnet : readAddress (spell spelling family (BigEndian.mask family.width us bits)) =
        some ((⟨family, BigEndian.value family.width us⟩ : Address).masked bits) := by
      rw [readAddress, (unitsOf_spell hN (wellFormed_mask hwell bits)).1, Option.map_some, value_network hwell bits]
    have hsubnet := hB ⟨family, spell spelling family (BigEndian.mask family.width us bits), bits⟩ address a _ ha hnet hfamily.symm
      rfl hbits
    rwa [masked_first] at hsubnet
  rw [check, List.any_eq_true]
  constructor
  · rintro ⟨cidr, hmem, hin⟩
    obtain ⟨hfamily, text, htext, hparse⟩ := mem_blockListsOf.1 hmem
    obtain ⟨family, us, bits, his, hwell, rfl⟩ := (parseCidr_eq_some hN).1 hparse
    rw [← hfamily] at hin
    exact ⟨text, htext, _, bits, his, hfamily, (hmatch hwell (isCidr_bits his) hfamily).1 hin⟩
  · rintro ⟨text, htext, ⟨family, value⟩, bits, his, hfamily, hfirst⟩
    obtain ⟨us, hwell, rfl⟩ := isCidr_units his
    refine ⟨_, mem_blockListsOf.2 ⟨hfamily, text, htext, (parseCidr_eq_some hN).2 ⟨_, us, bits, his, hwell, rfl⟩⟩, ?_⟩
    rw [← hfamily]
    exact (hmatch hwell (isCidr_bits his) hfamily).2 hfirst

end Lists

/-! ## Mapped addresses -/

theorem exists_eight (h : us.length = 8) : ∃ a b c d e f g i, us = [a, b, c, d, e, f, g, i] := by
  obtain ⟨a, b, c, d, hfront⟩ := List.length_eq_four.1 (by rw [List.length_take, h]; rfl : (us.take 4).length = 4)
  obtain ⟨e, f, g, i, hback⟩ := List.length_eq_four.1 (by rw [List.length_drop, h] : (us.drop 4).length = 4)
  refine ⟨a, b, c, d, e, f, g, i, ?_⟩
  rw [← List.take_append_drop 4 us, hfront, hback]
  rfl

theorem value_octets {g i : Nat} (hg : g < 2 ^ 16) (hi : i < 2 ^ 16) :
    BigEndian.value 8 [g >>> 8, g &&& 0xff, i >>> 8, i &&& 0xff] = BigEndian.value 16 [g, i] ∧
      WellFormed .ipv4 [g >>> 8, g &&& 0xff, i >>> 8, i &&& 0xff] := by
  have hand : ∀ n, n &&& 0xff = n % 256 := fun n => Nat.and_two_pow_sub_one_eq_mod n 8
  have hshift : ∀ n, n >>> 8 = n / 256 := fun n => Nat.shiftRight_eq_div_pow n 8
  simp only [hand, hshift]
  refine ⟨?_, rfl, ?_⟩
  · simp only [BigEndian.value, List.length_cons, List.length_nil]
    omega
  · simp only [Family.width, List.mem_cons, List.not_mem_nil, or_false, forall_eq_or_imp, forall_eq]
    omega

theorem mapped_value {a b c d e f g i : Nat} (h : ∀ u ∈ [a, b, c, d, e, f, g, i], u < 2 ^ 16) :
    (BigEndian.value 16 [a, b, c, d, e, f, g, i] / 2 ^ 32 = 0xffff ↔ [a, b, c, d, e, f] = [0, 0, 0, 0, 0, 0xffff]) ∧
      BigEndian.value 16 [a, b, c, d, e, f, g, i] % 2 ^ 32 = BigEndian.value 16 [g, i] := by
  have hfront : ∀ u ∈ [a, b, c, d, e, f], u < 2 ^ 16 := fun u hu => h u (List.mem_append_left [g, i] hu)
  have hback : ∀ u ∈ [g, i], u < 2 ^ 16 := fun u hu => h u (List.mem_append_right [a, b, c, d, e, f] hu)
  have hlow : BigEndian.value 16 [g, i] < 2 ^ 32 := BigEndian.value_lt hback
  have happend : BigEndian.value 16 [a, b, c, d, e, f, g, i] =
      BigEndian.value 16 [a, b, c, d, e, f] * 2 ^ 32 + BigEndian.value 16 [g, i] :=
    BigEndian.value_append [g, i] [a, b, c, d, e, f]
  have hmapped : BigEndian.value 16 [0, 0, 0, 0, 0, 0xffff] = 0xffff := by decide
  have hdiv : BigEndian.value 16 [a, b, c, d, e, f, g, i] / 2 ^ 32 = BigEndian.value 16 [a, b, c, d, e, f] := by omega
  refine ⟨?_, by omega⟩
  rw [hdiv]
  constructor
  · intro heq
    exact BigEndian.value_inj rfl hfront (by decide) (heq.trans hmapped.symm)
  · intro heq
    rw [heq, hmapped]

section Reads
variable {N : NodeNet} {spelling : List Nat → JsString} (hN : ReadsAddresses N spelling)
include hN

/-- **What a mapped address carries is what it counts as**, and no other one carries any. -/
theorem mappedIpv4_cases {address : JsString} {us : List Nat} (h : ipv6Value address = some us) :
    (∃ quad counted, mappedIpv4 N address = some quad ∧ readAddress quad = some counted ∧ counted.family = .ipv4 ∧
        Address.counted ⟨.ipv6, BigEndian.value 16 us⟩ = counted) ∨
      (mappedIpv4 N address = none ∧ Address.counted ⟨.ipv6, BigEndian.value 16 us⟩ = ⟨.ipv6, BigEndian.value 16 us⟩) := by
  have hwell : WellFormed .ipv6 us := DirectPath.ipv6Value_units h
  obtain ⟨a, b, c, d, e, f, g, i, rfl⟩ := exists_eight hwell.1
  obtain ⟨hmapped, hcarried⟩ := mapped_value hwell.2
  have hoctets := value_octets (hwell.2 g (by simp)) (hwell.2 i (by simp))
  have hcode : mappedIpv4 N address = if ([a, b, c, d, e].any (· != 0) || f != 0xffff) = true then none
      else some (spell spelling .ipv4 [g >>> 8, g &&& 0xff, i >>> 8, i &&& 0xff]) := by
    simp only [mappedIpv4, serializeIpv6_value hN h, ipv6Groups_spelling hN hwell]
    rfl
  rw [hcode, Address.counted, hcarried]
  by_cases hfront : [a, b, c, d, e, f] = [0, 0, 0, 0, 0, 0xffff]
  · simp only [List.cons.injEq, and_true] at hfront
    obtain ⟨rfl, rfl, rfl, rfl, rfl, rfl⟩ := hfront
    refine .inl ⟨_, ⟨.ipv4, BigEndian.value 16 [g, i]⟩, if_neg (by decide), ?_, rfl, if_pos (hmapped.2 rfl)⟩
    rw [readAddress, (unitsOf_spell hN hoctets.2).1, Option.map_some, ← hoctets.1]
    rfl
  · refine .inr ⟨if_pos ?_, if_neg (fun heq => hfront (hmapped.1 heq))⟩
    simp only [List.cons.injEq, and_true] at hfront
    simp only [List.any_cons, List.any_nil, Bool.or_false, Bool.or_eq_true, bne_iff_ne, ne_eq]
    tauto

/-- **An address is admitted by the ranges of what it counts as.** -/
theorem allowed_iff {inSubnet : SubnetMatch} (hB : MatchesSubnets inSubnet) (cidrs : List JsString) (address : JsString) :
    allowedAddressTest N inSubnet cidrs address = true ↔ ∃ a, readAddress address = some a ∧ ∃ text ∈ cidrs, ∃ net bits,
      IsCidr text net bits ∧ net.family = a.counted.family ∧ a.counted.first bits = net.first bits := by
  simp only [allowedAddressTest]
  by_cases hzone : percent ∈ address
  · have hnone : readAddress address = none := by rw [readAddress, unitsOf, if_pos (List.contains_iff_mem.2 hzone), Option.map_none]
    rw [hnone, List.contains_iff_mem.2 hzone, Bool.or_true, if_pos rfl]
    exact ⟨fun h => absurd h (by decide), fun h => by obtain ⟨a, ha, -⟩ := h; cases ha⟩
  · have hcontains : address.contains percent = false := Bool.eq_false_iff.2 (fun h => hzone (List.contains_iff_mem.1 h))
    rcases isIP_cases hN hzone with ⟨hip, hquad⟩ | ⟨hip, us, hvalue, hunits⟩ | ⟨hip, hunits⟩
    · have hread : readAddress address = some ⟨.ipv4, BigEndian.value 8 (quadOctets address)⟩ := by
        rw [readAddress, unitsOf_quad hquad]
        rfl
      rw [hip, hcontains, if_neg (by decide), if_pos rfl, hread]
      have hcheck := check_iff hN hB cidrs hread
      simp only [Option.some.injEq, exists_eq_left']
      exact hcheck
    · have hread : readAddress address = some ⟨.ipv6, BigEndian.value 16 us⟩ := by
        rw [readAddress, hunits]
        rfl
      rw [hip, hcontains, if_neg (by decide), if_neg (by decide), hread]
      simp only [Option.some.injEq, exists_eq_left']
      rcases mappedIpv4_cases hN hvalue with ⟨quad, counted, hmapped, hquad, hfamily, hcounted⟩ | ⟨hmapped, hcounted⟩
      · have hcheck := check_iff hN hB cidrs hquad
        rw [hfamily] at hcheck
        rw [hmapped, hcounted, hfamily]
        exact hcheck
      · rw [hmapped, hcounted]
        exact check_iff hN hB cidrs hread
    · have hnone : readAddress address = none := by rw [readAddress, hunits, Option.map_none]
      rw [hip, hnone, decide_eq_true rfl, Bool.true_or, if_pos rfl]
      exact ⟨fun h => absurd h (by decide), fun h => by obtain ⟨a, ha, -⟩ := h; cases ha⟩

end Reads

/-- **An address is allowed by the ranges of its family that it is in**: a mapped one is the IPv4 address it carries, and only that.
Each range has one canonical text, which is its own and no other range's. -/
theorem allowedAddressTest_spec {N : NodeNet} {spelling : List Nat → JsString} {inSubnet : SubnetMatch}
    (hN : ReadsAddresses N spelling) (hB : MatchesSubnets inSubnet) :
    (∀ cidrs address, allowedAddressTest N inSubnet cidrs address = true ↔ ∃ a, readAddress address = some a ∧ ∃ text ∈ cidrs,
        ∃ net bits, IsCidr text net bits ∧ net.family = a.counted.family ∧ a.counted.first bits = net.first bits) ∧
      (∀ text canonical, canonicalCidr N text = some canonical → canonicalCidr N canonical = some canonical) ∧
      (∀ text text', canonicalCidr N text = canonicalCidr N text' ↔
        ∀ network bits, ParsesTo text network bits ↔ ParsesTo text' network bits) :=
  ⟨allowed_iff hN hB, fun _ _ => canonicalCidr_again hN, fun _ _ => canonicalCidr_eq_iff hN⟩

/-! ## A network whose addresses are spelled in full -/

def fullSpelling (v : List Nat) : JsString := [colon].intercalate (v.map hexText)

def fullNet : NodeNet where
  isIP a := if isIpv4Literal a then 4 else if (ipv6Value a).isSome then 6 else 0
  hostname text := (ipv6Value ((text.drop 8).dropLast.dropLast)).map (fun v => units "[" ++ fullSpelling v ++ units "]")

def fullSubnet : SubnetMatch := fun cidr address family =>
  (readAddress address).any (fun a => (readAddress cidr.network).any (fun net =>
    a.family = family && net.family = family && a.first cidr.bits = net.first cidr.bits))

theorem fullNet_reads : ReadsAddresses fullNet fullSpelling where
  named a := by
    simp only [fullNet]
    split
    · exact .inr (.inl rfl)
    · split
      · exact .inr (.inr rfl)
      · exact .inl rfl
  four a := by
    rw [← DirectPath.isIpv4Literal_iff]
    simp only [fullNet]
    split
    · rename_i hquad
      exact ⟨fun _ => hquad, fun _ => rfl⟩
    · rename_i hquad
      refine ⟨fun h => ?_, fun h => absurd h hquad⟩
      split at h <;> cases h
  six a _ := by
    rw [← DirectPath.ipv6Value_isSome_iff]
    simp only [fullNet]
    split
    · rename_i hquad
      rw [DirectPath.ipv6Value_quad (DirectPath.isIpv4Literal_iff.1 hquad)]
      exact ⟨fun h => absurd h (by decide), fun h => absurd h (by decide)⟩
    · split
      · rename_i hvalue
        exact ⟨fun _ => hvalue, fun _ => rfl⟩
      · rename_i hvalue
        exact ⟨fun h => absurd h (by decide), fun h => absurd h hvalue⟩
  hostname a v h := by
    have hdrop : ((units "http://[" ++ a ++ units "]/").drop 8).dropLast.dropLast = a := by
      have hfront : (units "http://[" ++ a ++ units "]/").drop 8 = a ++ [0x5d, 0x2f] := rfl
      rw [hfront, List.dropLast_append_of_ne_nil (List.cons_ne_nil _ _)]
      exact List.dropLast_concat
    simp only [fullNet, hdrop, h, Option.map_some]
  spelled v hlen hlt := by
    refine ⟨DirectPath.ipv6Value_written hlen hlt, fun c hc => ?_⟩
    rcases mem_intercalate hc with hc | ⟨part, hpart, hc⟩
    · exact .inr (List.mem_singleton.1 hc)
    · obtain ⟨u, -, rfl⟩ := List.mem_map.1 hpart
      exact .inl ((DirectPath.hexText_read u).2 c hc)

theorem fullSubnet_matches : MatchesSubnets fullSubnet := by
  intro cidr address a net ha hnet hfamily hfamily' _
  simp only [fullSubnet, ha, hnet, Option.any_some, hfamily, hfamily', decide_true, Bool.true_and, decide_eq_true_eq]

theorem allowedAddressTest_spec_range :
    allowedAddressTest fullNet fullSubnet [units "2001:db8:1:2:3:4:5:6/120"] (units "2001:db8:1:2:3:4:5:ff") = true :=
  ((allowedAddressTest_spec fullNet_reads fullSubnet_matches).1 _ _).2
    ⟨⟨.ipv6, 0x20010db800010002000300040005_00ff⟩, by decide +kernel, _, List.mem_cons_self,
      ⟨.ipv6, 0x20010db8000100020003000400050006⟩, 120,
      ⟨units "2001:db8:1:2:3:4:5:6", units "120", by decide +kernel, by decide +kernel, by decide +kernel, by decide,
        by decide, List.all_eq_true.1 (by decide), by decide, by decide⟩, by decide +kernel, by decide +kernel⟩

end LocalNet
end Dormouse

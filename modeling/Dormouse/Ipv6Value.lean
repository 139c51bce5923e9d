import Mathlib.Data.List.Induction
import Dormouse.NetworkAddress
/-!
# Ipv6Value — the groups an address names

`ipv6Groups` of `lib/src/lib/ip-literal.ts`, and the eight groups that a literal means in any of its spellings (`ipv6Value`).  A
literal without a dotted tail is read by the one as it is meant by the other (`ipv6Groups_eq`).
-/
namespace Dormouse
namespace DirectPath

open Term (isDigit isHexDigit digitValue parseDigits)

def ipv6Groups (serialized : JsString) : List Nat :=
  let halves := splitDoubleFrom [] serialized
  let front := (groupsOf (halves.getD 0 [])).map (parseDigits 16)
  let back := (groupsOf (halves.getD 1 [])).map (parseDigits 16)
  front ++ List.replicate (8 - front.length - back.length) 0 ++ back

/-! ## What a literal means -/

def quadOctets (quad : JsString) : List Nat := (quad.splitOn 0x2e).map (parseDigits 10)

def pairs : List Nat → List Nat
  | a :: b :: rest => (a * 256 + b) :: pairs rest
  | _              => []

/-- What groups are worth, a last dotted quad as two; none where one is no group. -/
def groupValues : List JsString → Option (List Nat)
  | []      => some []
  | g :: gs =>
    if isIpv6Group g then (groupValues gs).map (parseDigits 16 g :: ·)
    else if gs.isEmpty && isIpv4Literal g then some (pairs (quadOctets g))
    else none

/-- The groups around a `::`, zeros for what it leaves out. -/
def aroundDouble (front back : List Nat) : List Nat := front ++ List.replicate (8 - front.length - back.length) 0 ++ back

def ipv6Value (s : JsString) : Option (List Nat) :=
  match splitDoubleFrom [] s with
  | [whole]      => (groupValues (groupsOf whole)).filter (fun v => v.length = 8)
  | [head, tail] =>
    if (groupsOf head).all isIpv6Group then
      ((groupValues (groupsOf tail)).filter (fun back => (groupsOf head).length + back.length ≤ 7)).map
        (aroundDouble ((groupsOf head).map (parseDigits 16)))
    else none
  | _            => none

/-! ## Groups -/

theorem quadOctets_joined {a b c d : Nat} (ha : a ≤ 255) (hb : b ≤ 255) (hc : c ≤ 255) (hd : d ≤ 255) :
    quadOctets ([0x2e].intercalate [decimal a, decimal b, decimal c, decimal d]) = [a, b, c, d] := by
  have hsplit : ([0x2e].intercalate [decimal a, decimal b, decimal c, decimal d]).splitOn (0x2e : UInt16) =
      [decimal a, decimal b, decimal c, decimal d] := by
    refine List.splitOn_intercalate _ ?_ (by simp)
    simp only [List.mem_cons, List.not_mem_nil, or_false, forall_eq_or_imp, forall_eq]
    exact ⟨(octet_units a (by omega)).1, (octet_units b (by omega)).1, (octet_units c (by omega)).1, (octet_units d (by omega)).1⟩
  rw [quadOctets, hsplit, List.map_cons, List.map_cons, List.map_cons, List.map_cons, List.map_nil]
  simp only [LocalNet.parseDigits_decimal]

theorem quad_octets {quad : JsString} (h : IsDottedQuad quad) :
    ∃ a b c d : Nat, a ≤ 255 ∧ b ≤ 255 ∧ c ≤ 255 ∧ d ≤ 255 ∧ quadOctets quad = [a, b, c, d] := by
  obtain ⟨a, b, c, d, ha, hb, hc, hd, rfl⟩ := h
  exact ⟨a, b, c, d, ha, hb, hc, hd, quadOctets_joined ha hb hc hd⟩

theorem digitValue_lt : ∀ c : UInt16, isHexDigit c = true → digitValue c < 16 := by
  intro c h
  simp only [isHexDigit, isDigit, Bool.or_eq_true, Bool.and_eq_true, decide_eq_true_eq, UInt16.le_iff_toNat_le] at h
  simp only [digitValue, UInt16.le_iff_toNat_le]
  have h30 : (0x30 : UInt16).toNat = 0x30 := rfl
  have h39 : (0x39 : UInt16).toNat = 0x39 := rfl
  have h41 : (0x41 : UInt16).toNat = 0x41 := rfl
  have h46 : (0x46 : UInt16).toNat = 0x46 := rfl
  have h61 : (0x61 : UInt16).toNat = 0x61 := rfl
  have h66 : (0x66 : UInt16).toNat = 0x66 := rfl
  split
  · omega
  · split <;> omega

theorem parseDigits_concat (base : Nat) (s : JsString) (c : UInt16) :
    parseDigits base (s ++ [c]) = parseDigits base s * base + digitValue c := by
  rw [parseDigits, List.foldl_append]
  rfl

theorem parseDigits_hex_lt (s : JsString) (h : ∀ c ∈ s, isHexDigit c = true) : parseDigits 16 s < 16 ^ s.length := by
  induction s using List.reverseRecOn with
  | nil => decide
  | append_singleton s c ih =>
    have hc := digitValue_lt c (h c (List.mem_append_right s List.mem_cons_self))
    have hs := ih (fun d hd => h d (List.mem_append_left [c] hd))
    rw [parseDigits_concat, List.length_append, List.length_singleton, Nat.pow_succ]
    omega

theorem group_lt {g : JsString} (h : IsHexGroup g) : parseDigits 16 g < 2 ^ 16 :=
  (parseDigits_hex_lt g h.2.2).trans_le (Nat.pow_le_pow_right (by decide) h.2.1 : 16 ^ g.length ≤ 16 ^ 4)

theorem groupValues_append : ∀ {init : List JsString} (gs : List JsString), (∀ g ∈ init, IsHexGroup g) →
    groupValues (init ++ gs) = (groupValues gs).map (init.map (parseDigits 16) ++ ·)
  | [], gs, _ => by simp
  | g :: init, gs, h => by
    obtain ⟨hg, hinit⟩ := List.forall_mem_cons.1 h
    rw [List.cons_append, groupValues, if_pos (isIpv6Group_iff.2 hg), groupValues_append gs hinit, Option.map_map]
    rfl

variable {gs : List JsString}

theorem groupValues_hex (h : ∀ g ∈ gs, IsHexGroup g) :
    groupValues gs = some (gs.map (parseDigits 16)) := by
  have happend := groupValues_append [] h
  rw [List.append_nil] at happend
  rw [happend, groupValues, Option.map_some, List.append_nil]

theorem groupValues_quad {init : List JsString} {quad : JsString} (h : ∀ g ∈ init, IsHexGroup g) (hquad : IsDottedQuad quad) :
    groupValues (init ++ [quad]) = some (init.map (parseDigits 16) ++ pairs (quadOctets quad)) := by
  have hnot : ¬isIpv6Group quad = true := fun hg => (group_units (isIpv6Group_iff.1 hg)).2.1 (quad_units hquad).2.1
  rw [groupValues_append [quad] h, groupValues, if_neg hnot, List.isEmpty_nil, Bool.true_and, if_pos (isIpv4Literal_iff.2 hquad),
    Option.map_some]

theorem groupValues_cases : ∀ {gs : List JsString} {v : List Nat}, groupValues gs = some v →
    ((∀ g ∈ gs, IsHexGroup g) ∧ v = gs.map (parseDigits 16)) ∨
      ∃ init quad, gs = init ++ [quad] ∧ (∀ g ∈ init, IsHexGroup g) ∧ IsDottedQuad quad ∧
        v = init.map (parseDigits 16) ++ pairs (quadOctets quad) := by
  intro gs
  induction gs with
  | nil =>
    intro v h
    cases h
    exact .inl ⟨nofun, rfl⟩
  | cons g gs ih =>
    intro v h
    rw [groupValues] at h
    split at h
    · rename_i hg
      have hg := isIpv6Group_iff.1 hg
      obtain ⟨w, hw, rfl⟩ := Option.map_eq_some_iff.1 h
      rcases ih hw with ⟨hall, rfl⟩ | ⟨init, quad, rfl, hinit, hquad, rfl⟩
      · exact .inl ⟨List.forall_mem_cons.2 ⟨hg, hall⟩, rfl⟩
      · exact .inr ⟨g :: init, quad, rfl, List.forall_mem_cons.2 ⟨hg, hinit⟩, hquad, rfl⟩
    · split at h
      · rename_i hlast
        rw [Bool.and_eq_true, List.isEmpty_iff] at hlast
        obtain ⟨rfl, hquad⟩ := hlast
        cases h
        exact .inr ⟨[], g, rfl, nofun, isIpv4Literal_iff.1 hquad, rfl⟩
      · cases h

theorem pairs_quad {quad : JsString} (h : IsDottedQuad quad) :
    (pairs (quadOctets quad)).length = 2 ∧ ∀ u ∈ pairs (quadOctets quad), u < 2 ^ 16 := by
  obtain ⟨a, b, c, d, ha, hb, hc, hd, heq⟩ := quad_octets h
  rw [heq]
  refine ⟨rfl, ?_⟩
  simp only [pairs, List.mem_cons, List.not_mem_nil, or_false, forall_eq_or_imp, forall_eq]
  omega

/-- **Groups worth `n` have `n` values.** -/
theorem isGroups_iff {n : Nat} : IsGroups gs n ↔ ∃ v, groupValues gs = some v ∧ v.length = n := by
  constructor
  · rintro (⟨hall, rfl⟩ | ⟨init, quad, rfl, hinit, hquad, rfl⟩)
    · exact ⟨_, groupValues_hex hall, List.length_map _⟩
    · refine ⟨_, groupValues_quad hinit hquad, ?_⟩
      rw [List.length_append, List.length_map, (pairs_quad hquad).1]
  · rintro ⟨v, hv, rfl⟩
    rcases groupValues_cases hv with ⟨hall, rfl⟩ | ⟨init, quad, rfl, hinit, hquad, rfl⟩
    · exact .inl ⟨hall, List.length_map _⟩
    · refine .inr ⟨init, quad, rfl, hinit, hquad, ?_⟩
      rw [List.length_append, List.length_map, (pairs_quad hquad).1]

variable {v : List Nat}

theorem groupValues_lt (h : groupValues gs = some v) : ∀ u ∈ v, u < 2 ^ 16 := by
  have hmap : ∀ init : List JsString, (∀ g ∈ init, IsHexGroup g) → ∀ u ∈ init.map (parseDigits 16), u < 2 ^ 16 := by
    intro init hinit u hu
    obtain ⟨g, hg, rfl⟩ := List.mem_map.1 hu
    exact group_lt (hinit g hg)
  rcases groupValues_cases h with ⟨hall, rfl⟩ | ⟨init, quad, rfl, hinit, hquad, rfl⟩
  · exact hmap gs hall
  · exact List.forall_mem_append.2 ⟨hmap init hinit, (pairs_quad hquad).2⟩

/-! ## Literals -/

theorem ipv6Value_one {s a : JsString} (hs : splitDoubleFrom [] s = [a]) :
    ipv6Value s = (groupValues (groupsOf a)).filter (fun v => v.length = 8) := by rw [ipv6Value, hs]

theorem ipv6Value_two {s a b : JsString} (hs : splitDoubleFrom [] s = [a, b]) (ha : ∀ g ∈ groupsOf a, IsHexGroup g) :
    ipv6Value s = ((groupValues (groupsOf b)).filter (fun back => (groupsOf a).length + back.length ≤ 7)).map
      (aroundDouble ((groupsOf a).map (parseDigits 16))) := by
  rw [ipv6Value, hs]
  exact if_pos (List.all_eq_true.2 (fun g hg => isIpv6Group_iff.2 (ha g hg)))

theorem ipv6Value_joined (h : ∀ g ∈ gs, IsHexGroup g) (hlen : gs.length = 8) :
    ipv6Value ([colon].intercalate gs) = some (gs.map (parseDigits 16)) := by
  have hplain := plain_of_hex h
  rw [ipv6Value_one (halves_joined hplain), groupsOf_joined hplain, groupValues_hex h]
  exact Option.filter_some_pos (decide_eq_true (by rw [List.length_map, hlen]))

variable {s : JsString}

theorem ipv6Value_cases (h : ipv6Value s = some v) :
    (splitDoubleFrom [] s = [s] ∧ groupValues (groupsOf s) = some v ∧ v.length = 8) ∨
      ∃ a b back, splitDoubleFrom [] s = [a, b] ∧ s = a ++ [colon, colon] ++ b ∧ (∀ g ∈ groupsOf a, IsHexGroup g) ∧
        groupValues (groupsOf b) = some back ∧ (groupsOf a).length + back.length ≤ 7 ∧
        v = aroundDouble ((groupsOf a).map (parseDigits 16)) back := by
  cases hs : splitDoubleFrom [] s with
  | nil => exact absurd hs (splitDoubleFrom_ne_nil s [])
  | cons a rest =>
    cases rest with
    | nil =>
      have ha := splitDoubleFrom_one s [] hs
      rw [List.nil_append] at ha
      subst ha
      rw [ipv6Value_one hs, Option.filter_eq_some_iff] at h
      exact .inl ⟨rfl, h.1, of_decide_eq_true h.2⟩
    | cons b rest =>
      cases rest with
      | nil =>
        have hab := splitDoubleFrom_two s [] hs
        by_cases hall : (groupsOf a).all isIpv6Group = true
        · have hhex : ∀ g ∈ groupsOf a, IsHexGroup g := fun g hg => isIpv6Group_iff.1 (List.all_eq_true.1 hall g hg)
          rw [ipv6Value_two hs hhex, Option.map_eq_some_iff] at h
          obtain ⟨back, hback, rfl⟩ := h
          rw [Option.filter_eq_some_iff] at hback
          exact .inr ⟨a, b, back, rfl, hab, hhex, hback.1, of_decide_eq_true hback.2, rfl⟩
        · simp only [ipv6Value, hs, if_neg hall] at h
          cases h
      | cons c rest =>
        simp only [ipv6Value, hs] at h
        cases h

theorem ipv6Value_quad (h : IsDottedQuad s) : ipv6Value s = none := by
  have hplain : ∀ g ∈ [s], IsPlain g :=
    List.forall_mem_singleton.2 ⟨(quad_units h).1, List.ne_nil_of_mem (quad_units h).2.1⟩
  have hgroups : groupValues [s] = some (pairs (quadOctets s)) := @groupValues_quad [] s nofun h
  have hsplit := halves_joined hplain
  have hread := groupsOf_joined hplain
  rw [List.intercalate_singleton] at hsplit hread
  rw [ipv6Value_one hsplit, hread, hgroups]
  refine Option.filter_some_neg ?_
  rw [(pairs_quad h).1]
  decide

theorem length_aroundDouble {front back : List Nat} (h : front.length + back.length ≤ 7) :
    (aroundDouble front back).length = 8 := by
  rw [aroundDouble, List.length_append, List.length_append, List.length_replicate]
  omega

/-- **A literal means eight groups of sixteen bits.** -/
theorem ipv6Value_units (h : ipv6Value s = some v) : v.length = 8 ∧ ∀ u ∈ v, u < 2 ^ 16 := by
  rcases ipv6Value_cases h with ⟨-, hv, hlen⟩ | ⟨a, b, back, -, -, ha, hback, hle, rfl⟩
  · exact ⟨hlen, groupValues_lt hv⟩
  · refine ⟨length_aroundDouble (by rw [List.length_map]; exact hle), ?_⟩
    refine List.forall_mem_append.2 ⟨List.forall_mem_append.2 ⟨groupValues_lt (groupValues_hex ha), ?_⟩, groupValues_lt hback⟩
    intro u hu
    rw [List.eq_of_mem_replicate hu]
    decide

/-- **What has a value is an IPv6 address.** -/
theorem ipv6Value_isSome_iff : (ipv6Value s).isSome = true ↔ IsIpv6 s := by
  constructor
  · intro h
    obtain ⟨v, hv⟩ := Option.isSome_iff_exists.1 h
    rcases ipv6Value_cases hv with ⟨-, hgroups, hlen⟩ | ⟨a, b, back, -, hab, ha, hback, hle, -⟩
    · exact .inl ⟨groupsOf s, isGroups_iff.2 ⟨v, hgroups, hlen⟩, (joined_groupsOf s).symm⟩
    · refine .inr ⟨groupsOf a, groupsOf b, back.length, ha, isGroups_iff.2 ⟨back, hback, rfl⟩, hle, ?_⟩
      rw [joined_groupsOf, joined_groupsOf, hab]
  · rintro (⟨gs, hgs, rfl⟩ | ⟨head, tail, n, hhead, htail, hle, rfl⟩)
    · have hplain := plain_of_groups hgs
      obtain ⟨v, hv, hlen⟩ := isGroups_iff.1 hgs
      have hkeep : (some v).filter (fun v => v.length = 8) = some v := Option.filter_some_pos (decide_eq_true hlen)
      rw [ipv6Value_one (halves_joined hplain), groupsOf_joined hplain, hv, hkeep]
      rfl
    · have hsplit := halves_double (plain_of_hex hhead) (plain_of_groups htail)
      obtain ⟨back, hback, rfl⟩ := isGroups_iff.1 htail
      have hhead' := groupsOf_joined (plain_of_hex hhead)
      have hkeep : (some back).filter (fun back => head.length + back.length ≤ 7) = some back :=
        Option.filter_some_pos (decide_eq_true hle)
      rw [ipv6Value_two hsplit (by rw [hhead']; exact hhead), hhead', groupsOf_joined (plain_of_groups htail), hback, hkeep]
      rfl

theorem mem_joined {g : JsString} {c : UInt16} (hg : g ∈ gs) (hc : c ∈ g) : c ∈ [colon].intercalate gs := by
  cases gs with
  | nil => cases hg
  | cons g₀ rest =>
    rw [intercalate_cons]
    rcases List.mem_cons.1 hg with rfl | hrest
    · exact List.mem_append_left _ hc
    · exact List.mem_append_right _ (List.mem_flatMap.2 ⟨g, hrest, List.mem_cons_of_mem colon hc⟩)

/-- **A literal without a dotted tail is read as it is meant.** -/
theorem ipv6Groups_eq (hdot : (0x2e : UInt16) ∉ s) (h : ipv6Value s = some v) : ipv6Groups s = v := by
  have hplain : ∀ (half : JsString) (w : List Nat), (∀ c ∈ half, c ∈ s) → groupValues (groupsOf half) = some w →
      w = (groupsOf half).map (parseDigits 16) := by
    intro half w hsub hw
    rcases groupValues_cases hw with ⟨-, rfl⟩ | ⟨init, quad, heq, -, hquad, -⟩
    · rfl
    · have hlast : quad ∈ groupsOf half := by
        rw [heq]
        exact List.mem_append_right _ List.mem_cons_self
      have hin := mem_joined hlast (quad_units hquad).2.1
      rw [joined_groupsOf] at hin
      exact absurd (hsub _ hin) hdot
  rcases ipv6Value_cases h with ⟨hs, hv, hlen⟩ | ⟨a, b, back, hs, hab, ha, hback, hle, rfl⟩
  · have hv := hplain s v (fun _ hc => hc) hv
    rw [ipv6Groups, hs]
    show (groupsOf s).map (parseDigits 16) ++ List.replicate (8 - ((groupsOf s).map (parseDigits 16)).length - 0) 0 ++ [] = v
    rw [← hv, hlen, List.append_nil]
    exact List.append_nil v
  · have hb := hplain b back (fun c hc => by rw [hab]; exact List.mem_append_right _ hc) hback
    rw [ipv6Groups, hs, hb]
    rfl

/-! ## Hex numbers -/

/-- `toString(16)`. -/
def hexText (n : Nat) : JsString := (Nat.toDigits 16 n).map (fun c => c.toNat.toUInt16)

theorem hexDigit_units : ∀ n < 16, isHexDigit (Nat.digitChar n).toNat.toUInt16 = true ∧
    digitValue (Nat.digitChar n).toNat.toUInt16 = n := by decide

theorem hexText_small {n : Nat} (h : n < 16) : hexText n = [(Nat.digitChar n).toNat.toUInt16] := by
  rw [hexText, Nat.toDigits_of_lt_base h, List.map_singleton]

theorem hexText_large {n : Nat} (h : 16 ≤ n) :
    hexText n = hexText (n / 16) ++ [(Nat.digitChar (n % 16)).toNat.toUInt16] := by
  rw [hexText, Nat.toDigits_of_base_le (by decide) h, List.map_append, List.map_singleton]
  rfl

/-- **A number is read as it is written**, in hex digits. -/
theorem hexText_read (n : Nat) : parseDigits 16 (hexText n) = n ∧ ∀ c ∈ hexText n, isHexDigit c = true := by
  induction n using Nat.strong_induction_on with
  | _ n ih =>
    by_cases h : n < 16
    · rw [hexText_small h]
      exact ⟨(Nat.zero_add _).trans (hexDigit_units n h).2, List.forall_mem_singleton.2 (hexDigit_units n h).1⟩
    · obtain ⟨hread, hdigits⟩ := ih (n / 16) (by omega)
      have hlast := hexDigit_units (n % 16) (Nat.mod_lt _ (by decide))
      rw [hexText_large (Nat.le_of_not_lt h), parseDigits_concat, hread, hlast.2]
      exact ⟨Nat.div_add_mod' n 16, List.forall_mem_append.2 ⟨hdigits, List.forall_mem_singleton.2 hlast.1⟩⟩

theorem hexText_group {n : Nat} (h : n < 2 ^ 16) : IsHexGroup (hexText n) := by
  refine ⟨?_, ?_, (hexText_read n).2⟩
  · rw [hexText, List.length_map]
    exact Nat.length_toDigits_pos
  · rw [hexText, List.length_map]
    exact (Nat.length_toDigits_le_iff (by decide) (by decide)).2 h

/-- **Groups written in hex and joined mean themselves.** -/
theorem ipv6Value_written (hlen : v.length = 8) (h : ∀ u ∈ v, u < 2 ^ 16) :
    ipv6Value ([colon].intercalate (v.map hexText)) = some v := by
  have hgroups : ∀ g ∈ v.map hexText, IsHexGroup g := by
    intro g hg
    obtain ⟨u, hu, rfl⟩ := List.mem_map.1 hg
    exact hexText_group (h u hu)
  rw [ipv6Value_joined hgroups (by rw [List.length_map, hlen]), List.map_map]
  exact congrArg some (List.map_id'' (fun u => (hexText_read u).1) v)

end DirectPath
end Dormouse

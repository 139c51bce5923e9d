import Dormouse.TermText
/-!
# IpLiteral — the address a path refusal may name

`isIpLiteral` of `security/direct-path.ts`.  What it accepts is said apart from how it reads: an IPv6 address is its groups, joined
(`IsIpv6`).  Joined groups come apart where they were joined (`halves_joined`), and the loop counts them (`countGroups_eq_some`).
-/
namespace Dormouse
namespace DirectPath

open Term (isDigit isHexDigit)

/-! ## The acceptor -/

def maxPathAddressLength : Nat := 45

def colon : UInt16 := 0x3a

def inRange (lo hi c : UInt16) : Bool := lo ≤ c && c ≤ hi

/-- `IPV4_OCTET`. -/
def isOctet : JsString → Bool
  | [a, b, c] =>
    (a == 0x32 && b == 0x35 && inRange 0x30 0x35 c) || (a == 0x32 && inRange 0x30 0x34 b && isDigit c) ||
      (a == 0x31 && isDigit b && isDigit c)
  | [a, b]    => inRange 0x31 0x39 a && isDigit b
  | [a]       => isDigit a
  | _         => false

/-- `IPV4_LITERAL`: no octet has a dot, so the match is of the parts between dots. -/
def isIpv4Literal (s : JsString) : Bool := (s.splitOn 0x2e).length == 4 && (s.splitOn 0x2e).all isOctet

/-- `IPV6_GROUP`. -/
def isIpv6Group (s : JsString) : Bool := (1 ≤ s.length && s.length ≤ 4) && s.all isHexDigit

/-- `split('::')`; `run` is what was read since the last one. -/
def splitDoubleFrom (run : JsString) : JsString → List JsString
  | []          => [run]
  | [c]         => [run ++ [c]]
  | c :: d :: s => if c = colon ∧ d = colon then run :: splitDoubleFrom [] s else splitDoubleFrom (run ++ [c]) (d :: s)

def groupsOf (half : JsString) : List JsString := if half = [] then [] else half.splitOn colon

def countGroups (tailAllowed : Bool) : Nat → List JsString → Option Nat
  | count, []      => some count
  | count, g :: gs =>
    if isIpv6Group g then countGroups tailAllowed (count + 1) gs
    else if tailAllowed && gs.isEmpty && isIpv4Literal g then countGroups tailAllowed (count + 2) gs
    else none

def isIpLiteral (value : JsString) : Bool :=
  if value.length > maxPathAddressLength ∨ value.length = 0 then false
  else if isIpv4Literal value then true
  else
    let halves := splitDoubleFrom [] value
    if halves.length > 2 then false
    else
      let head := groupsOf (halves.getD 0 [])
      let tail := if halves.length = 2 then groupsOf (halves.getD 1 []) else []
      (countGroups (halves.length == 1 || !tail.isEmpty) 0 (head ++ tail)).any
        (fun count => if halves.length = 2 then count ≤ 7 else count = 8)

/-! ## Addresses -/

def decimal (n : Nat) : JsString := (Nat.toDigits 10 n).map (fun c => c.toNat.toUInt16)

def IsDottedQuad (s : JsString) : Prop :=
  ∃ a b c d : Nat, a ≤ 255 ∧ b ≤ 255 ∧ c ≤ 255 ∧ d ≤ 255 ∧ s = [0x2e].intercalate [decimal a, decimal b, decimal c, decimal d]

def IsHexGroup (g : JsString) : Prop := 1 ≤ g.length ∧ g.length ≤ 4 ∧ ∀ c ∈ g, isHexDigit c = true

/-- Groups worth `n` of the eight: all of hex digits, or the last one a dotted quad, which is worth two. -/
def IsGroups (gs : List JsString) (n : Nat) : Prop :=
  ((∀ g ∈ gs, IsHexGroup g) ∧ n = gs.length) ∨
    ∃ init quad, gs = init ++ [quad] ∧ (∀ g ∈ init, IsHexGroup g) ∧ IsDottedQuad quad ∧ n = init.length + 2

/-- Eight groups, or fewer with a `::` for the others. -/
def IsIpv6 (s : JsString) : Prop :=
  (∃ gs, IsGroups gs 8 ∧ s = [colon].intercalate gs) ∨
    ∃ head tail n, (∀ g ∈ head, IsHexGroup g) ∧ IsGroups tail n ∧ head.length + n ≤ 7 ∧
      s = [colon].intercalate head ++ [colon, colon] ++ [colon].intercalate tail

/-! ## Octets -/

theorem inRange_eq {lo hi c : UInt16} (hlo : 0x30 ≤ lo.toNat) (h : inRange lo hi c = true) :
    ∃ d, lo.toNat ≤ 0x30 + d ∧ 0x30 + d ≤ hi.toNat ∧ c = UInt16.ofNat (0x30 + d) := by
  rw [inRange, Bool.and_eq_true, decide_eq_true_eq, decide_eq_true_eq, UInt16.le_iff_toNat_le, UInt16.le_iff_toNat_le] at h
  have hsum : 0x30 + (c.toNat - 0x30) = c.toNat := by omega
  exact ⟨c.toNat - 0x30, by omega, by omega, by rw [hsum, UInt16.ofNat_toNat]⟩

theorem digit_eq {c : UInt16} (h : isDigit c = true) : ∃ d ≤ 9, c = UInt16.ofNat (0x30 + d) := by
  obtain ⟨d, _, hd, rfl⟩ := @inRange_eq 0x30 0x39 c (by decide) h
  have hd : 0x30 + d ≤ 0x39 := hd
  exact ⟨d, by omega, rfl⟩

theorem isOctet_decimal : ∀ n < 256, isOctet (decimal n) = true := by decide +kernel

theorem decimal_three : ∀ a < 10, ∀ b < 10, ∀ c < 10, 0 < a →
    decimal (100 * a + 10 * b + c) = [UInt16.ofNat (0x30 + a), UInt16.ofNat (0x30 + b), UInt16.ofNat (0x30 + c)] := by
  decide +kernel

theorem decimal_two : ∀ b < 10, ∀ c < 10, 0 < b → decimal (10 * b + c) = [UInt16.ofNat (0x30 + b),
    UInt16.ofNat (0x30 + c)] := by
  decide +kernel

theorem decimal_one : ∀ c < 10, decimal c = [UInt16.ofNat (0x30 + c)] := by decide +kernel

variable {s : JsString}

theorem isOctet_iff : isOctet s = true ↔ ∃ n ≤ 255, s = decimal n := by
  constructor
  · intro h
    unfold isOctet at h
    split at h
    · simp only [Bool.or_eq_true, Bool.and_eq_true, beq_iff_eq] at h
      rcases h with (⟨⟨rfl, rfl⟩, hc⟩ | ⟨⟨rfl, hb⟩, hc⟩) | ⟨⟨rfl, hb⟩, hc⟩
      · obtain ⟨d, _, hd, rfl⟩ := inRange_eq (by decide) hc
        have hd : 0x30 + d ≤ 0x35 := hd
        exact ⟨100 * 2 + 10 * 5 + d, by omega, (decimal_three 2 (by omega) 5 (by omega) d (by omega) (by omega)).symm⟩
      · obtain ⟨e, _, he, rfl⟩ := inRange_eq (by decide) hb
        obtain ⟨d, hd, rfl⟩ := digit_eq hc
        have he : 0x30 + e ≤ 0x34 := he
        exact ⟨100 * 2 + 10 * e + d, by omega, (decimal_three 2 (by omega) e (by omega) d (by omega) (by omega)).symm⟩
      · obtain ⟨e, he, rfl⟩ := digit_eq hb
        obtain ⟨d, hd, rfl⟩ := digit_eq hc
        exact ⟨100 * 1 + 10 * e + d, by omega, (decimal_three 1 (by omega) e (by omega) d (by omega) (by omega)).symm⟩
    · rw [Bool.and_eq_true] at h
      obtain ⟨e, hlo, he, rfl⟩ := inRange_eq (by decide) h.1
      obtain ⟨d, hd, rfl⟩ := digit_eq h.2
      have hlo : 0x31 ≤ 0x30 + e := hlo
      have he : 0x30 + e ≤ 0x39 := he
      exact ⟨10 * e + d, by omega, (decimal_two e (by omega) d (by omega) (by omega)).symm⟩
    · obtain ⟨d, hd, rfl⟩ := digit_eq h
      exact ⟨d, by omega, (decimal_one d (by omega)).symm⟩
    · cases h
  · rintro ⟨n, hn, rfl⟩
    exact isOctet_decimal n (by omega)

/-! ## Dotted quads -/

theorem octet_units : ∀ n < 256, (0x2e : UInt16) ∉ decimal n ∧ colon ∉ decimal n ∧ (decimal n).length ≤ 3 := by decide +kernel

theorem isIpv4Literal_iff : isIpv4Literal s = true ↔ IsDottedQuad s := by
  rw [isIpv4Literal, Bool.and_eq_true, beq_iff_eq, List.all_eq_true]
  constructor
  · rintro ⟨hlen, hall⟩
    match hs : s.splitOn 0x2e, hlen with
    | [p, q, r, t], _ =>
      rw [hs] at hall
      obtain ⟨a, ha, rfl⟩ := isOctet_iff.1 (hall p (by simp))
      obtain ⟨b, hb, rfl⟩ := isOctet_iff.1 (hall q (by simp))
      obtain ⟨c, hc, rfl⟩ := isOctet_iff.1 (hall r (by simp))
      obtain ⟨d, hd, rfl⟩ := isOctet_iff.1 (hall t (by simp))
      exact ⟨a, b, c, d, ha, hb, hc, hd, by rw [← hs, List.intercalate_splitOn]⟩
  · rintro ⟨a, b, c, d, ha, hb, hc, hd, rfl⟩
    have hsplit : ([0x2e].intercalate [decimal a, decimal b, decimal c, decimal d]).splitOn (0x2e : UInt16) =
        [decimal a, decimal b, decimal c, decimal d] := by
      refine List.splitOn_intercalate _ ?_ (by simp)
      simp only [List.mem_cons, List.not_mem_nil, or_false, forall_eq_or_imp, forall_eq]
      exact ⟨(octet_units a (by omega)).1, (octet_units b (by omega)).1, (octet_units c (by omega)).1,
        (octet_units d (by omega)).1⟩
    rw [hsplit]
    refine ⟨rfl, ?_⟩
    simp only [List.mem_cons, List.not_mem_nil, or_false, forall_eq_or_imp, forall_eq]
    exact ⟨isOctet_decimal a (by omega), isOctet_decimal b (by omega), isOctet_decimal c (by omega),
      isOctet_decimal d (by omega)⟩

theorem quad_units (h : IsDottedQuad s) : colon ∉ s ∧ (0x2e : UInt16) ∈ s ∧ s.length ≤ 15 := by
  obtain ⟨a, b, c, d, ha, hb, hc, hd, rfl⟩ := h
  have hua := octet_units a (by omega)
  have hub := octet_units b (by omega)
  have huc := octet_units c (by omega)
  have hud := octet_units d (by omega)
  have hdot : colon ≠ 0x2e := by decide
  simp only [List.intercalate, List.intersperse, List.flatten_cons, List.flatten_nil, List.mem_append, List.mem_singleton,
    List.length_append, List.length_singleton, List.append_nil, true_or, or_true, true_and]
  exact ⟨by tauto, by omega⟩

theorem group_units {g : JsString} (h : IsHexGroup g) : colon ∉ g ∧ (0x2e : UInt16) ∉ g ∧ g ≠ [] := by
  refine ⟨fun hc => absurd (h.2.2 _ hc) (by decide), fun hc => absurd (h.2.2 _ hc) (by decide), ?_⟩
  exact List.ne_nil_of_length_pos h.1

theorem isIpv6Group_iff {g : JsString} : isIpv6Group g = true ↔ IsHexGroup g := by
  rw [isIpv6Group, Bool.and_eq_true, Bool.and_eq_true, decide_eq_true_eq, decide_eq_true_eq, List.all_eq_true, and_assoc]
  rfl

/-! ## Counting -/

theorem countGroups_append {allowed : Bool} : ∀ (init : List JsString) (gs : List JsString) (count : Nat),
    (∀ g ∈ init, IsHexGroup g) → countGroups allowed count (init ++ gs) = countGroups allowed (count + init.length) gs
  | [], gs, count, _ => rfl
  | g :: init, gs, count, h => by
    rw [List.cons_append, countGroups, if_pos (isIpv6Group_iff.2 (h g List.mem_cons_self)),
      countGroups_append init gs _ (fun x hx => h x (List.mem_cons_of_mem g hx)), List.length_cons]
    congr 1
    omega

/-- **What the loop counts**: groups of hex digits one each, a last dotted quad two, where it may be the last. -/
theorem countGroups_eq_some {allowed : Bool} : ∀ {gs : List JsString} {count n : Nat}, countGroups allowed count gs = some n ↔
    ((∀ g ∈ gs, IsHexGroup g) ∧ n = count + gs.length) ∨
      (allowed = true ∧ ∃ init quad, gs = init ++ [quad] ∧ (∀ g ∈ init, IsHexGroup g) ∧ IsDottedQuad quad ∧
        n = count + init.length + 2) := by
  intro gs count n
  constructor
  · induction gs generalizing count with
    | nil =>
      intro h
      cases h
      exact .inl ⟨by simp, rfl⟩
    | cons g gs ih =>
      intro h
      rw [countGroups] at h
      split at h
      · rename_i hg
        have hg := isIpv6Group_iff.1 hg
        rcases ih h with ⟨hall, rfl⟩ | ⟨hallowed, init, quad, rfl, hall, hquad, rfl⟩
        · exact .inl ⟨List.forall_mem_cons.2 ⟨hg, hall⟩, by rw [List.length_cons]; omega⟩
        · exact .inr ⟨hallowed, g :: init, quad, rfl, List.forall_mem_cons.2 ⟨hg, hall⟩, hquad, by rw [List.length_cons]; omega⟩
      · split at h
        · rename_i hlast
          rw [Bool.and_eq_true, Bool.and_eq_true, List.isEmpty_iff] at hlast
          obtain ⟨⟨hallowed, rfl⟩, hquad⟩ := hlast
          cases h
          exact .inr ⟨hallowed, [], g, rfl, by simp, isIpv4Literal_iff.1 hquad, rfl⟩
        · cases h
  · rintro (⟨hall, rfl⟩ | ⟨hallowed, init, quad, rfl, hall, hquad, rfl⟩)
    · have happend := @countGroups_append allowed gs [] count hall
      rwa [List.append_nil] at happend
    · have hnot : ¬isIpv6Group quad = true := fun hg => (group_units (isIpv6Group_iff.1 hg)).2.1 (quad_units hquad).2.1
      rw [countGroups_append init _ count hall, countGroups, if_neg hnot, hallowed, isIpv4Literal_iff.2 hquad]
      rfl

/-! ## Halves -/

theorem splitDoubleFrom_ne_nil : ∀ (s run : JsString), splitDoubleFrom run s ≠ []
  | [], run => List.cons_ne_nil run []
  | [c], run => List.cons_ne_nil _ []
  | c :: d :: s, run => by
    rw [splitDoubleFrom]
    split
    · exact List.cons_ne_nil run _
    · exact splitDoubleFrom_ne_nil (d :: s) _

theorem splitDoubleFrom_one : ∀ (s run : JsString) {a : JsString}, splitDoubleFrom run s = [a] → a = run ++ s
  | [], run, a, h => by
    cases h
    rw [List.append_nil]
  | [c], run, a, h => by
    cases h
    rfl
  | c :: d :: s, run, a, h => by
    rw [splitDoubleFrom] at h
    split at h
    · rw [List.cons.injEq] at h
      exact absurd h.2 (splitDoubleFrom_ne_nil s [])
    · rw [splitDoubleFrom_one (d :: s) _ h, List.append_assoc]
      rfl

theorem splitDoubleFrom_two : ∀ (s run : JsString) {a b : JsString}, splitDoubleFrom run s = [a, b] →
    run ++ s = a ++ [colon, colon] ++ b
  | [], run, a, b, h => by cases h
  | [c], run, a, b, h => by cases h
  | c :: d :: s, run, a, b, h => by
    rw [splitDoubleFrom] at h
    split at h
    · rename_i hcd
      obtain ⟨rfl, rfl⟩ := hcd
      rw [List.cons.injEq] at h
      obtain ⟨rfl, hrest⟩ := h
      rw [splitDoubleFrom_one s [] hrest, List.append_assoc]
      rfl
    · have ih := splitDoubleFrom_two (d :: s) _ h
      rwa [List.append_assoc] at ih

theorem splitDoubleFrom_plain : ∀ (g run rest : JsString), colon ∉ g →
    splitDoubleFrom run (g ++ rest) = splitDoubleFrom (run ++ g) rest
  | [], run, rest, _ => by rw [List.nil_append, List.append_nil]
  | c :: g, run, rest, h => by
    have hc : c ≠ colon := fun heq => h (by rw [heq]; exact List.mem_cons_self)
    have hstep : splitDoubleFrom run (c :: (g ++ rest)) = splitDoubleFrom (run ++ [c]) (g ++ rest) := by
      cases hrest : g ++ rest with
      | nil => rfl
      | cons d ds => rw [splitDoubleFrom, if_neg (fun hboth => hc hboth.1)]
    rw [List.cons_append, hstep, splitDoubleFrom_plain g _ rest (fun hmem => h (List.mem_cons_of_mem c hmem)),
      List.append_assoc]
    rfl

theorem splitDoubleFrom_group {g : JsString} (hg : colon ∉ g) (hne : g ≠ []) (run rest : JsString) :
    splitDoubleFrom run (colon :: g ++ rest) = splitDoubleFrom (run ++ colon :: g) rest := by
  obtain ⟨c, g, rfl⟩ := List.exists_cons_of_ne_nil hne
  have hc : c ≠ colon := fun heq => hg (by rw [heq]; exact List.mem_cons_self)
  rw [List.cons_append, List.cons_append, splitDoubleFrom, if_neg (fun hboth => hc hboth.2), ← List.cons_append,
    splitDoubleFrom_plain _ _ _ hg, List.append_assoc]
  rfl

def IsPlain (g : JsString) : Prop := colon ∉ g ∧ g ≠ []

theorem intercalate_cons (g : JsString) (gs : List JsString) :
    [colon].intercalate (g :: gs) = g ++ gs.flatMap (colon :: ·) := by
  induction gs generalizing g with
  | nil => simp [List.intercalate]
  | cons g' gs ih => rw [List.intercalate_cons_cons, ih, List.flatMap_cons, List.append_assoc]; rfl

theorem splitDoubleFrom_groups : ∀ (gs : List JsString) (run rest : JsString), (∀ g ∈ gs, IsPlain g) →
    splitDoubleFrom run (gs.flatMap (colon :: ·) ++ rest) = splitDoubleFrom (run ++ gs.flatMap (colon :: ·)) rest
  | [], run, rest, _ => by rw [List.flatMap_nil, List.nil_append, List.append_nil]
  | g :: gs, run, rest, h => by
    have hg := h g List.mem_cons_self
    rw [List.flatMap_cons, List.append_assoc, splitDoubleFrom_group hg.1 hg.2,
      splitDoubleFrom_groups gs _ rest (fun x hx => h x (List.mem_cons_of_mem g hx)), List.append_assoc]

theorem splitDoubleFrom_joined (gs : List JsString) (rest : JsString) (h : ∀ g ∈ gs, IsPlain g) :
    splitDoubleFrom [] ([colon].intercalate gs ++ rest) = splitDoubleFrom ([colon].intercalate gs) rest := by
  cases gs with
  | nil => rfl
  | cons g gs =>
    rw [intercalate_cons, List.append_assoc, splitDoubleFrom_plain g _ _ (h g List.mem_cons_self).1,
      splitDoubleFrom_groups gs _ rest (fun x hx => h x (List.mem_cons_of_mem g hx)), List.nil_append]

variable {gs : List JsString}

/-- **Joined groups come apart where they were joined.** -/
theorem halves_joined (h : ∀ g ∈ gs, IsPlain g) :
    splitDoubleFrom [] ([colon].intercalate gs) = [[colon].intercalate gs] := by
  have hjoined := splitDoubleFrom_joined gs [] h
  rwa [List.append_nil] at hjoined

variable {head tail : List JsString}

theorem halves_double (hh : ∀ g ∈ head, IsPlain g) (ht : ∀ g ∈ tail, IsPlain g) :
    splitDoubleFrom [] ([colon].intercalate head ++ [colon, colon] ++ [colon].intercalate tail) =
      [[colon].intercalate head, [colon].intercalate tail] := by
  rw [List.append_assoc, splitDoubleFrom_joined head _ hh]
  show splitDoubleFrom _ (colon :: colon :: [colon].intercalate tail) = _
  rw [splitDoubleFrom, if_pos ⟨rfl, rfl⟩, halves_joined ht]

theorem groupsOf_joined (h : ∀ g ∈ gs, IsPlain g) : groupsOf ([colon].intercalate gs) = gs := by
  cases gs with
  | nil => rfl
  | cons g gs =>
    have hne : [colon].intercalate (g :: gs) ≠ [] := by
      rw [intercalate_cons]
      exact List.append_ne_nil_of_left_ne_nil (h g List.mem_cons_self).2 _
    rw [groupsOf, if_neg hne, List.splitOn_intercalate _ (fun x hx => (h x hx).1) (List.cons_ne_nil g gs)]

theorem joined_groupsOf (half : JsString) : [colon].intercalate (groupsOf half) = half := by
  unfold groupsOf
  split
  · rename_i h
    rw [h]
    rfl
  · exact List.intercalate_splitOn _

/-! ## Literals -/

theorem plain_of_hex (h : ∀ g ∈ gs, IsHexGroup g) : ∀ g ∈ gs, IsPlain g := fun g hg =>
  ⟨(group_units (h g hg)).1, (group_units (h g hg)).2.2⟩

variable {n : Nat}

theorem plain_of_groups (h : IsGroups gs n) : ∀ g ∈ gs, IsPlain g := by
  rcases h with ⟨hall, -⟩ | ⟨init, quad, rfl, hall, hquad, -⟩
  · exact plain_of_hex hall
  · intro g hg
    rcases List.mem_append.1 hg with hg | hg
    · exact plain_of_hex hall g hg
    · rw [List.mem_singleton.1 hg]
      exact ⟨(quad_units hquad).1, List.ne_nil_of_mem (quad_units hquad).2.1⟩

theorem countGroups_of_groups (h : IsGroups gs n) (hne : gs ≠ []) (count : Nat) :
    countGroups true count gs = some (count + n) := by
  rw [countGroups_eq_some]
  rcases h with ⟨hall, rfl⟩ | ⟨init, quad, rfl, hall, hquad, rfl⟩
  · exact .inl ⟨hall, rfl⟩
  · exact .inr ⟨rfl, init, quad, rfl, hall, hquad, rfl⟩

theorem isGroups_of_count (h : countGroups true 0 gs = some n) : IsGroups gs n := by
  rcases countGroups_eq_some.1 h with ⟨hall, rfl⟩ | ⟨-, init, quad, rfl, hall, hquad, rfl⟩
  · exact .inl ⟨hall, Nat.zero_add _⟩
  · exact .inr ⟨init, quad, rfl, hall, hquad, by rw [Nat.zero_add]⟩

theorem isGroups_append (hne : tail ≠ []) (h : IsGroups (head ++ tail) n) :
    (∀ g ∈ head, IsHexGroup g) ∧ ∃ m, IsGroups tail m ∧ n = head.length + m := by
  rcases h with ⟨hall, rfl⟩ | ⟨init, quad, heq, hall, hquad, rfl⟩
  · exact ⟨fun g hg => hall g (List.mem_append_left _ hg), tail.length,
      .inl ⟨fun g hg => hall g (List.mem_append_right _ hg), rfl⟩, List.length_append⟩
  · obtain ⟨last, q, rfl⟩ : ∃ last q, tail = last ++ [q] := ⟨_, _, (List.dropLast_append_getLast hne).symm⟩
    rw [← List.append_assoc] at heq
    obtain ⟨rfl, hq⟩ := List.append_inj' heq rfl
    cases hq
    exact ⟨fun g hg => hall g (List.mem_append_left _ hg), last.length + 2,
      .inr ⟨last, quad, rfl, fun g hg => hall g (List.mem_append_right _ hg), hquad, rfl⟩, by rw [List.length_append]; omega⟩

theorem countGroups_append_groups (hh : ∀ g ∈ head, IsHexGroup g) (ht : IsGroups tail n) :
    countGroups (!tail.isEmpty) 0 (head ++ tail) = some (head.length + n) := by
  rw [countGroups_append head tail 0 hh, Nat.zero_add]
  cases tail with
  | nil =>
    rcases ht with ⟨-, rfl⟩ | ⟨init, quad, heq, -⟩
    · rfl
    · exact absurd heq (List.append_ne_nil_of_right_ne_nil init (List.cons_ne_nil quad [])).symm
  | cons g gs => exact countGroups_of_groups ht (List.cons_ne_nil g gs) _

section Halves
variable {s a b : JsString} (hlen : ¬(s.length > maxPathAddressLength ∨ s.length = 0)) (h4 : ¬isIpv4Literal s = true)
include hlen h4

theorem isIpLiteral_one (hs : splitDoubleFrom [] s = [a]) :
    isIpLiteral s = (countGroups true 0 (groupsOf a)).any (fun count => count = 8) := by
  rw [isIpLiteral, if_neg hlen, if_neg h4, hs]
  show (countGroups true 0 (groupsOf a ++ [])).any (fun count => decide (count = 8)) = _
  rw [List.append_nil]

theorem isIpLiteral_two (hs : splitDoubleFrom [] s = [a, b]) :
    isIpLiteral s = (countGroups (!(groupsOf b).isEmpty) 0 (groupsOf a ++ groupsOf b)).any (fun count => count ≤ 7) := by
  rw [isIpLiteral, if_neg hlen, if_neg h4, hs]
  rfl

theorem isIpLiteral_more {c : JsString} {rest : List JsString} (hs : splitDoubleFrom [] s = a :: b :: c :: rest) :
    isIpLiteral s = false := by
  rw [isIpLiteral, if_neg hlen, if_neg h4, hs]
  exact if_pos (by simp only [List.length_cons]; omega)

theorem isIpv6_of_accepted (h : isIpLiteral s = true) : IsIpv6 s := by
  match hs : splitDoubleFrom [] s, splitDoubleFrom_ne_nil s [] with
  | [a], _ =>
    have ha := splitDoubleFrom_one s [] hs
    rw [List.nil_append] at ha
    rw [isIpLiteral_one hlen h4 hs, Option.any_eq_true] at h
    obtain ⟨count, hcount, height⟩ := h
    rw [of_decide_eq_true height] at hcount
    exact .inl ⟨groupsOf a, isGroups_of_count hcount, by rw [joined_groupsOf, ha]⟩
  | [a, b], _ =>
    have hab := splitDoubleFrom_two s [] hs
    rw [List.nil_append] at hab
    rw [isIpLiteral_two hlen h4 hs, Option.any_eq_true] at h
    obtain ⟨count, hcount, hle⟩ := h
    have hle := of_decide_eq_true hle
    have hjoined : s = [colon].intercalate (groupsOf a) ++ [colon, colon] ++ [colon].intercalate (groupsOf b) := by
      rw [joined_groupsOf, joined_groupsOf, hab]
    cases hb : groupsOf b with
    | nil =>
      rw [hb] at hcount hjoined
      rw [List.append_nil] at hcount
      rcases countGroups_eq_some.1 hcount with ⟨hall, rfl⟩ | ⟨habs, -⟩
      · exact .inr ⟨groupsOf a, [], 0, hall, .inl ⟨by simp, rfl⟩, by omega, hjoined⟩
      · cases habs
    | cons g gs =>
      rw [hb] at hcount hjoined
      obtain ⟨hhead, m, htail, rfl⟩ := isGroups_append (List.cons_ne_nil g gs) (isGroups_of_count hcount)
      exact .inr ⟨groupsOf a, g :: gs, m, hhead, htail, hle, hjoined⟩
  | _ :: _ :: _ :: _, _ =>
    rw [isIpLiteral_more hlen h4 hs] at h
    cases h

theorem accepted_of_isIpv6 (h : IsIpv6 s) : isIpLiteral s = true := by
  rcases h with ⟨gs, hgs, rfl⟩ | ⟨head, tail, n, hhead, htail, hle, rfl⟩
  · have hplain := plain_of_groups hgs
    have hne : gs ≠ [] := by
      rintro rfl
      exact hlen (.inr rfl)
    rw [isIpLiteral_one hlen h4 (halves_joined hplain), groupsOf_joined hplain, countGroups_of_groups hgs hne]
    rfl
  · have hplain := plain_of_hex hhead
    have hplain' := plain_of_groups htail
    rw [isIpLiteral_two hlen h4 (halves_double hplain hplain'), groupsOf_joined hplain, groupsOf_joined hplain',
      countGroups_append_groups hhead htail]
    exact decide_eq_true hle

end Halves

theorem isIpv6_ne_nil (h : IsIpv6 s) : s ≠ [] := by
  rcases h with ⟨gs, hgs, rfl⟩ | ⟨head, tail, n, -, -, -, rfl⟩
  · cases gs with
    | nil =>
      rcases hgs with ⟨-, heq⟩ | ⟨init, quad, heq, -⟩
      · cases heq
      · exact absurd heq (List.append_ne_nil_of_right_ne_nil init (List.cons_ne_nil quad [])).symm
    | cons g gs =>
      rw [intercalate_cons]
      exact List.append_ne_nil_of_left_ne_nil (plain_of_groups hgs g List.mem_cons_self).2 _
  · rw [List.append_assoc]
    exact List.append_ne_nil_of_right_ne_nil _ (List.cons_ne_nil colon _)

/-- **A path refusal's address is an IP literal**, and every IP literal is one. -/
theorem isIpLiteral_iff (s : JsString) :
    isIpLiteral s = true ↔ IsDottedQuad s ∨ (IsIpv6 s ∧ s.length ≤ maxPathAddressLength) := by
  by_cases h4 : isIpv4Literal s = true
  · have hquad := isIpv4Literal_iff.1 h4
    have hunits := quad_units hquad
    have hpos := List.length_pos_iff.2 (List.ne_nil_of_mem hunits.2.1)
    have haccepted : isIpLiteral s = true := by
      rw [isIpLiteral, if_neg (by rw [maxPathAddressLength]; omega), if_pos h4]
    exact ⟨fun _ => .inl hquad, fun _ => haccepted⟩
  · constructor
    · intro h
      have hlen : ¬(s.length > maxPathAddressLength ∨ s.length = 0) := fun hlen => by
        rw [isIpLiteral, if_pos hlen] at h
        cases h
      exact .inr ⟨isIpv6_of_accepted hlen h4 h, by omega⟩
    · rintro (hquad | ⟨h6, hlen⟩)
      · exact absurd (isIpv4Literal_iff.2 hquad) h4
      · have hpos := List.length_pos_iff.2 (isIpv6_ne_nil h6)
        exact accepted_of_isIpv6 (by omega) h4 h6

end DirectPath
end Dormouse

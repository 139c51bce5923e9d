import Dormouse.TermControls
/-!
# TermPaints — whether output changes the screen

`outputPaints` of `lib/src/lib/terminal-controls.ts`.  Output that does not paint ends on the ground, behind a whole token, and starts
with no character that prints; so a token of it is the same token when more such output follows (`inertToken_append`), and what follows
is judged as it is alone (`outputPaints_append`).
-/
namespace Dormouse
namespace Term

/-! ## Tokens of the ground -/

def isBetween (low high c : UInt16) : Bool := low ≤ c && c ≤ high

/-- A CSI that is complete: its private marker, parameters, intermediates and final character. -/
structure Csi where
  lead          : JsString
  params        : JsString
  intermediates : JsString
  final         : UInt16
  deriving DecidableEq

def csiLead : JsString → JsString × JsString
  | []      => ([], [])
  | c :: cs => if isBetween 0x3c 0x3f c then ([c], cs) else ([], c :: cs)

def csiBody (text : JsString) : Option (Csi × JsString) :=
  let lead := csiLead text
  let params := lead.2.span (isBetween 0x30 0x3b)
  let intermediates := params.2.span (isBetween 0x20 0x2f)
  match intermediates.2 with
  | []      => none
  | c :: cs => if isBetween 0x40 0x7e c then some (⟨lead.1, params.1, intermediates.1, c⟩, cs) else none

def csiToken : JsString → Option (Csi × JsString)
  | []      => none
  | c :: cs =>
    if c = 0x9b then csiBody cs
    else
      match cs with
      | []      => none
      | d :: ds => if c = esc ∧ d = 0x5b then csiBody ds else none

/-- A charset designation, cursor save or restore, or a keypad mode: what follows its ESC. -/
def escapeToken : JsString → Option JsString
  | []      => none
  | d :: ds =>
    if isBetween 0x28 0x2b d then
      match ds with
      | []      => none
      | e :: es => if isBetween 0x30 0x7e e then some es else none
    else if d = 0x37 ∨ d = 0x38 ∨ d = 0x3d ∨ d = 0x3e then some ds
    else none

def isInertControl (c : UInt16) : Bool :=
  isBetween 0x00 0x09 c || isBetween 0x0d 0x1a c || isBetween 0x1c 0x1f c || isBetween 0x7f 0x83 c || isBetween 0x86 0x9f c

/-- `INERT_TOKEN.exec` at the start of a text: the CSI, if it is one, and what follows. -/
def inertToken : JsString → Option (Option Csi × JsString)
  | []      => none
  | c :: cs =>
    match csiToken (c :: cs) with
    | some (csi, rest) => some (some csi, rest)
    | none             =>
      if c = esc then (escapeToken cs).map (fun rest => (none, rest))
      else if isInertControl c then some (none, cs)
      else none

/-! ## What paints -/

def paintingModes : List JsString := [units "5", units "47", units "1047", units "1049"]

def inertCsi : List JsString :=
  (units "ABCDEFGHIZ`adefrs").map (fun c => [c]) ++ [units ">q", units "?S", units "?r", units "?s"]

def csiPaints (csi : Csi) : Bool :=
  if csi.intermediates ≠ [] then
    !((csi.intermediates = units " " ∧ [csi.final] = units "q") ∨ (csi.intermediates = units "$" ∧ [csi.final] = units "p"))
  else if (units "mnctu").contains csi.final then false
  else if [csi.final] = units "h" ∨ [csi.final] = units "l" then
    csi.lead = units "?" && (csi.params.splitOn 0x3b).any paintingModes.contains
  else !inertCsi.contains (csi.lead ++ [csi.final])

/-- Whether anything paints of the tokens a text starts with, the first `n` characters long at least. -/
def groundPaints : (n : Nat) → JsString → Bool
  | 0,     _    => false
  | n + 1, text =>
    match inertToken text with
    | none             => true
    | some (csi, rest) => csi.any csiPaints || groundPaints (n - (text.length - rest.length - 1)) rest

def isDcsQuery (introducer rest : JsString) : Bool :=
  (introducer = [esc, 0x50] || introducer = [0x90]) && (units "$q" <+: rest || units "+q" <+: rest)

def oscImages : List JsString := ["1337;File=", "1337;MultipartFile=", "1337;FilePart=", "1337;FileEnd"].map units

def isOscImage (rest : JsString) : Bool := oscImages.any (fun image => image <+: rest)

/-- Whether the control an introducer opens may paint, by what its payload starts with. -/
def controlPaints (introducer rest : JsString) : Bool :=
  match stringControlKind introducer with
  | .other => !isDcsQuery introducer rest
  | .osc   => isOscImage rest

/-- Where reading goes on behind the end of a control: ST ends it, a bare ESC opens the next sequence. -/
def afterControl (e : UInt16) (rest : JsString) : JsString :=
  if e ≠ esc then rest
  else
    match rest with
    | []      => [e]
    | c :: cs => if c = backslash then cs else e :: c :: cs

theorem afterControl_length (e : UInt16) (rest : JsString) : (afterControl e rest).length ≤ rest.length + 1 := by
  unfold afterControl
  split
  · omega
  · split
    · exact Nat.le_refl _
    · split
      · simp only [List.length_cons]
        omega
      · exact Nat.le_refl _

def outputPaints (data : JsString) : Bool :=
  match h : introducerScan data with
  | none   => groundPaints data.length data
  | some m =>
    if groundPaints m.gap.length data then true
    else if controlPaints m.introducer m.rest then true
    else
      match h' : stringControlEndScan (stringControlKind m.introducer) m.rest with
      | none              => true
      | some (_, e, rest) =>
        have := introducerScan_length h
        have := congrArg List.length (stringControlEndScan_text h')
        have := afterControl_length e rest
        outputPaints (afterControl e rest)
termination_by data.length
decreasing_by
  simp only [List.length_append, List.length_cons] at *
  omega

/-! ## More text behind a token -/

def Unprinted (t : JsString) : Prop := ∀ c ∈ t.head?, isBetween 0x20 0x7e c = false

section

variable {t u : JsString}

theorem Unprinted.not_between (h : Unprinted t) {c : UInt16} (hc : c ∈ t.head?) {low high : UInt16} (hlow : 0x20 ≤ low)
    (hhigh : high ≤ 0x7e) : isBetween low high c = false := by
  have hnot := h c hc
  simp only [isBetween, Bool.and_eq_false_iff, decide_eq_false_iff_not, UInt16.not_le] at hnot ⊢
  rcases hnot with hlt | hgt
  · exact .inl (UInt16.lt_of_lt_of_le hlt hlow)
  · exact .inr (UInt16.lt_of_le_of_lt hhigh hgt)

theorem span_append {p : UInt16 → Bool} (ht : ∀ c ∈ t.head?, p c = false) : ∀ u : JsString,
    (u ++ t).span p = ((u.span p).1, (u.span p).2 ++ t)
  | [] => by
    cases t with
    | nil => rfl
    | cons e t =>
      have he : p e = false := ht e rfl
      simp [List.span_eq_takeWhile_dropWhile, he]
  | c :: cs => by
    have ih := span_append ht cs
    simp only [List.span_eq_takeWhile_dropWhile, Prod.mk.injEq] at ih ⊢
    rw [List.cons_append, List.takeWhile_cons, List.takeWhile_cons, List.dropWhile_cons, List.dropWhile_cons]
    split
    · exact ⟨congrArg _ ih.1, ih.2⟩
    · exact ⟨rfl, rfl⟩

theorem csiLead_append (ht : Unprinted t) : ∀ u : JsString, csiLead (u ++ t) = ((csiLead u).1, (csiLead u).2 ++ t)
  | [] => by
    cases t with
    | nil => rfl
    | cons e t =>
      have he := ht.not_between (c := e) rfl (show 0x20 ≤ 0x3c by decide) (show 0x3f ≤ 0x7e by decide)
      simp only [List.nil_append, csiLead, he, Bool.false_eq_true, if_false]
  | c :: u => by
    rw [List.cons_append, csiLead, csiLead]
    split
    · rfl
    · rfl

theorem csiBody_append (ht : Unprinted t) (u : JsString) : csiBody (u ++ t) = (csiBody u).map (fun k => (k.1, k.2 ++ t)) := by
  have hparam : ∀ c ∈ t.head?, isBetween 0x30 0x3b c = false := fun c hc => ht.not_between hc (by decide) (by decide)
  have hintermediate : ∀ c ∈ t.head?, isBetween 0x20 0x2f c = false := fun c hc => ht.not_between hc (by decide) (by decide)
  have hfinal : ∀ c ∈ t.head?, isBetween 0x40 0x7e c = false := fun c hc => ht.not_between hc (by decide) (by decide)
  simp only [csiBody, csiLead_append ht, span_append hparam, span_append hintermediate]
  cases ((((csiLead u).2.span (isBetween 0x30 0x3b)).2).span (isBetween 0x20 0x2f)).2 with
  | cons c cs =>
    rw [List.cons_append]
    dsimp only
    split
    · rfl
    · rfl
  | nil =>
    cases t with
    | nil => rfl
    | cons e t =>
      rw [List.nil_append]
      dsimp only
      rw [hfinal e rfl]
      rfl

theorem csiToken_append (ht : Unprinted t) (hu : u ≠ []) : csiToken (u ++ t) = (csiToken u).map (fun k => (k.1, k.2 ++ t)) := by
  obtain ⟨c, cs, rfl⟩ := List.exists_cons_of_ne_nil hu
  rw [List.cons_append]
  unfold csiToken
  dsimp only
  split
  · exact csiBody_append ht cs
  · cases cs with
    | cons d ds =>
      rw [List.cons_append]
      dsimp only
      split
      · exact csiBody_append ht ds
      · rfl
    | nil =>
      cases t with
      | nil => rfl
      | cons e t =>
        have he : e ≠ 0x5b := by
          rintro rfl
          exact absurd (ht 0x5b rfl) (by decide)
        rw [List.nil_append]
        dsimp only
        rw [if_neg (fun h => he h.2)]
        rfl

theorem escapeToken_append (ht : Unprinted t) (u : JsString) : escapeToken (u ++ t) = (escapeToken u).map (· ++ t) := by
  cases u with
  | nil =>
    cases t with
    | nil => rfl
    | cons e t =>
      have he := ht.not_between (c := e) rfl (show 0x20 ≤ 0x28 by decide) (show 0x2b ≤ 0x7e by decide)
      have hne : ¬ (e = 0x37 ∨ e = 0x38 ∨ e = 0x3d ∨ e = 0x3e) := by
        rintro (rfl | rfl | rfl | rfl)
        all_goals exact absurd (ht _ rfl) (by decide)
      simp only [List.nil_append, escapeToken, he, Bool.false_eq_true, if_false, if_neg hne, Option.map_none]
  | cons d ds =>
    rw [List.cons_append]
    unfold escapeToken
    dsimp only
    split
    · cases ds with
      | cons e es =>
        rw [List.cons_append]
        dsimp only
        split
        · rfl
        · rfl
      | nil =>
        cases t with
        | nil => rfl
        | cons e t =>
          have he := ht.not_between (c := e) rfl (show 0x20 ≤ 0x30 by decide) (show 0x7e ≤ 0x7e by decide)
          simp only [List.nil_append, he, Bool.false_eq_true, if_false, Option.map_none]
    · split
      · rfl
      · rfl

/-- **A token is the same token when more follows that does not print first.** -/
theorem inertToken_append (ht : Unprinted t) (hu : u ≠ []) :
    inertToken (u ++ t) = (inertToken u).map (fun k => (k.1, k.2 ++ t)) := by
  have hcsi := csiToken_append ht hu
  obtain ⟨c, cs, rfl⟩ := List.exists_cons_of_ne_nil hu
  rw [List.cons_append] at hcsi ⊢
  unfold inertToken
  dsimp only
  rw [hcsi]
  cases csiToken (c :: cs) with
  | some k => rfl
  | none =>
    rw [Option.map_none]
    dsimp only
    split
    · rw [escapeToken_append ht cs, Option.map_map, Option.map_map]
      rfl
    · split
      · rfl
      · rfl

/-! ## Reading the ground -/

theorem csiBody_some {k : Csi × JsString} (h : csiBody t = some k) : ∃ body, t = body ++ k.1.final :: k.2 ∧
    isBetween 0x40 0x7e k.1.final = true := by
  simp only [csiBody, List.span_eq_takeWhile_dropWhile] at h
  split at h
  · cases h
  · rename_i c cs hrest
    split at h
    · rename_i hc
      cases h
      have hlead : t = (csiLead t).1 ++ (csiLead t).2 := by
        cases t with
        | nil => rfl
        | cons d ds =>
          rw [csiLead]
          split
          · rfl
          · rfl
      refine ⟨(csiLead t).1 ++ ((csiLead t).2.takeWhile (isBetween 0x30 0x3b) ++
        ((csiLead t).2.dropWhile (isBetween 0x30 0x3b)).takeWhile (isBetween 0x20 0x2f)), ?_, hc⟩
      rw [List.append_assoc, List.append_assoc, ← hrest, List.takeWhile_append_dropWhile, List.takeWhile_append_dropWhile]
      exact hlead
    · cases h

theorem ne_esc_of_between {low c : UInt16} (h : isBetween low 0x7e c = true) (hlow : esc < low) : c ≠ esc := by
  rintro rfl
  rw [isBetween, Bool.and_eq_true, decide_eq_true_iff] at h
  exact absurd h.1 (UInt16.not_le.2 hlow)

theorem csiToken_some {k : Csi × JsString} (h : csiToken t = some k) : ∃ token c, t = token ++ c :: k.2 ∧ c ≠ esc := by
  cases t with
  | nil => cases h
  | cons c cs =>
    unfold csiToken at h
    dsimp only at h
    split at h
    · obtain ⟨body, rfl, hc⟩ := csiBody_some h
      exact ⟨c :: body, k.1.final, rfl, ne_esc_of_between hc (by decide)⟩
    · cases cs with
      | nil => cases h
      | cons d ds =>
        dsimp only at h
        split at h
        · obtain ⟨body, rfl, hc⟩ := csiBody_some h
          exact ⟨c :: d :: body, k.1.final, rfl, ne_esc_of_between hc (by decide)⟩
        · cases h

theorem escapeToken_some {rest : JsString} (h : escapeToken t = some rest) : ∃ token c, t = token ++ c :: rest ∧ c ≠ esc := by
  cases t with
  | nil => cases h
  | cons d ds =>
    unfold escapeToken at h
    dsimp only at h
    split at h
    · cases ds with
      | nil => cases h
      | cons e es =>
        dsimp only at h
        split at h
        · rename_i he
          cases h
          exact ⟨[d], e, rfl, ne_esc_of_between he (by decide)⟩
        · cases h
    · split at h
      · rename_i hd
        cases h
        refine ⟨[], d, rfl, ?_⟩
        rintro rfl
        exact absurd hd (by decide)
      · cases h

theorem inertToken_some {k : Option Csi × JsString} (h : inertToken t = some k) :
    ∃ token c, t = token ++ c :: k.2 ∧ c ≠ esc := by
  cases t with
  | nil => cases h
  | cons c cs =>
    unfold inertToken at h
    dsimp only at h
    split at h
    · rename_i csi rest hcsi
      cases h
      exact csiToken_some hcsi
    · split at h
      · obtain ⟨rest, hrest, rfl⟩ := Option.map_eq_some_iff.1 h
        obtain ⟨token, e, rfl, he⟩ := escapeToken_some hrest
        exact ⟨c :: token, e, rfl, he⟩
      · rename_i hne
        split at h
        · cases h
          exact ⟨[], c, rfl, hne⟩
        · cases h

theorem groundPaints_succ {n : Nat} (h : groundPaints (n + 1) t = false) : ∃ k, inertToken t = some k ∧ k.1.any csiPaints = false ∧
    groundPaints (n - (t.length - k.2.length - 1)) k.2 = false := by
  rw [groundPaints] at h
  split at h
  · cases h
  · rename_i csi rest htoken
    rw [Bool.or_eq_false_iff] at h
    exact ⟨(csi, rest), htoken, h.1, h.2⟩

/-- Ground that is read to its end is read so when more follows, and reading goes on with what follows. -/
theorem groundPaints_append (ht : Unprinted t) {k : Nat} (hk : groundPaints k t = false) : ∀ (n : Nat) (u : JsString),
    u.length = n → groundPaints n u = false → groundPaints (n + k) (u ++ t) = false ∧ endsWithEsc u = false := by
  intro n
  induction n using Nat.strongRecOn with
  | ind n ih =>
    intro u hlen hu
    cases n with
    | zero =>
      rw [List.length_eq_zero_iff.1 hlen, Nat.zero_add, List.nil_append]
      exact ⟨hk, rfl⟩
    | succ n =>
      obtain ⟨⟨csi, rest⟩, htoken, hcsi, hrest⟩ := groundPaints_succ hu
      have hne : u ≠ [] := by
        rintro rfl
        cases hlen
      have htoken' := inertToken_append ht hne
      obtain ⟨token, c, rfl, hc⟩ := inertToken_some htoken
      have hlen' : token.length + (rest.length + 1) = n + 1 := by simpa using hlen
      have hshort : n - ((token ++ c :: rest).length - rest.length - 1) = rest.length := by
        simp only [List.length_append, List.length_cons]
        omega
      rw [hshort] at hrest
      obtain ⟨ihpaints, ihesc⟩ := ih rest.length (by omega) rest rfl hrest
      refine ⟨?_, ?_⟩
      · have hshort' : n + k - ((token ++ c :: rest ++ t).length - (rest ++ t).length - 1) = rest.length + k := by
          simp only [List.length_append, List.length_cons]
          omega
        rw [Nat.add_right_comm, groundPaints, htoken', htoken]
        simp only [Option.map_some, hshort', ihpaints, hcsi, Bool.or_self]
      · rw [endsWithEsc_append_cons]
        cases rest with
        | nil =>
          rw [endsWithEsc, List.getLast?_singleton]
          simpa using hc
        | cons d ds =>
          rw [endsWithEsc_cons]
          exact ihesc

theorem groundPaints_more (ht : Unprinted t) : ∀ (n : Nat) (u : JsString), n ≤ u.length → groundPaints n u = false →
    groundPaints n (u ++ t) = false := by
  intro n
  induction n using Nat.strongRecOn with
  | ind n ih =>
    intro u hlen hu
    cases n with
    | zero => rw [groundPaints]
    | succ n =>
      obtain ⟨⟨csi, rest⟩, htoken, hcsi, hrest⟩ := groundPaints_succ hu
      have hne : u ≠ [] := by
        rintro rfl
        cases hlen
      have htoken' := inertToken_append ht hne
      obtain ⟨token, c, rfl, -⟩ := inertToken_some htoken
      have hlen' : n + 1 ≤ token.length + (rest.length + 1) := by simpa using hlen
      have hread : (token ++ c :: rest ++ t).length - (rest ++ t).length - 1 = (token ++ c :: rest).length - rest.length - 1 := by
        simp only [List.length_append, List.length_cons]
        omega
      have hleft : n - ((token ++ c :: rest).length - rest.length - 1) ≤ rest.length := by
        simp only [List.length_append, List.length_cons]
        omega
      rw [groundPaints, htoken', htoken]
      simp only [Option.map_some, hread, ih _ (by omega) rest hleft hrest, hcsi, Bool.or_self]

theorem unprinted_of_token {k : Option Csi × JsString} (h : inertToken t = some k) : Unprinted t := by
  intro c hc
  cases t with
  | nil => cases hc
  | cons d cs =>
    obtain rfl : d = c := Option.some.inj hc
    by_cases hesc : d = esc
    · rw [hesc]
      decide
    · by_cases hcsi : d = 0x9b
      · rw [hcsi]
        decide
      · unfold inertToken csiToken at h
        simp only [hcsi, hesc, false_and, if_false] at h
        have hcontrol : isInertControl d = true := by
          cases cs with
          | nil =>
            by_contra hno
            simp [hno] at h
          | cons e _ =>
            by_contra hno
            simp [hno] at h
        simp only [isInertControl, isBetween, Bool.or_eq_true, Bool.and_eq_true, decide_eq_true_iff, UInt16.le_iff_toNat_le] at hcontrol
        simp only [isBetween, Bool.and_eq_false_iff, decide_eq_false_iff_not, UInt16.le_iff_toNat_le]
        simp only [UInt16.reduceToNat] at *
        omega

end

/-! ## Reading on -/

section

variable {s t : JsString}

theorem outputPaints_none (h : introducerScan s = none) : outputPaints s = groundPaints s.length s := by
  rw [outputPaints]
  split
  · rfl
  · rename_i m hm
    cases h.symm.trans hm

theorem outputPaints_some {m : Introduced} (h : introducerScan s = some m) : outputPaints s = false ↔
    groundPaints m.gap.length s = false ∧ controlPaints m.introducer m.rest = false ∧
      ∃ p e rest, stringControlEndScan (stringControlKind m.introducer) m.rest = some (p, e, rest) ∧
        outputPaints (afterControl e rest) = false := by
  rw [outputPaints]
  split
  · rename_i hnone
    cases h.symm.trans hnone
  · rename_i m' hm
    cases h.symm.trans hm
    split
    · rename_i hground
      exact iff_of_false nofun (fun hall => absurd (hground.symm.trans hall.1) nofun)
    · rename_i hground
      split
      · rename_i hcontrol
        exact iff_of_false nofun (fun hall => absurd (hcontrol.symm.trans hall.2.1) nofun)
      · rename_i hcontrol
        rw [Bool.not_eq_true] at hground hcontrol
        rw [and_iff_right hground, and_iff_right hcontrol]
        split
        · rename_i hnone
          refine iff_of_false nofun (fun ⟨p, e, rest, hend, _⟩ => ?_)
          cases hnone.symm.trans hend
        · rename_i p e rest hend
          refine ⟨fun hrest => ⟨p, e, rest, hend, hrest⟩, fun ⟨p', e', rest', hend', hrest⟩ => ?_⟩
          cases hend.symm.trans hend'
          exact hrest

theorem unprinted_of_silent (h : outputPaints t = false) : Unprinted t := by
  intro c hc
  obtain ⟨cs, rfl⟩ : ∃ cs, t = c :: cs := by
    cases t with
    | nil => cases hc
    | cons d ds => exact ⟨ds, by rw [Option.some.inj hc]⟩
  rcases hscan : introducerScan (c :: cs) with _ | m
  · rw [outputPaints_none hscan] at h
    obtain ⟨k, htoken, -⟩ := groundPaints_succ h
    exact unprinted_of_token htoken c rfl
  · obtain ⟨hground, -⟩ := (outputPaints_some hscan).1 h
    obtain ⟨hintroducer, htext⟩ := introducerScan_some hscan
    rcases hgap : m.gap with _ | ⟨d, ds⟩
    · rw [hgap, List.nil_append] at htext
      rcases hintroducer with ⟨d, hd, heq⟩ | ⟨d, -, heq⟩
      · rw [heq] at htext
        obtain rfl := (List.cons.inj htext).1
        simp only [isC1Introducer, Bool.or_eq_true, beq_iff_eq] at hd
        rcases hd with (((rfl | rfl) | rfl) | rfl) | rfl
        all_goals decide
      · rw [heq] at htext
        rw [(List.cons.inj htext).1]
        decide
    · rw [hgap] at hground
      obtain ⟨k, htoken, -⟩ := groundPaints_succ hground
      exact unprinted_of_token htoken c rfl

theorem controlPaints_append {introducer rest p r : JsString} {e : UInt16} (h : controlPaints introducer rest = false)
    (hend : stringControlEndScan (stringControlKind introducer) rest = some (p, e, r)) (t : JsString) :
    controlPaints introducer (rest ++ t) = false := by
  unfold controlPaints at h ⊢
  split at h
  · have hquery : isDcsQuery introducer rest = true := by simpa using h
    simp only [isDcsQuery, Bool.and_eq_true, Bool.or_eq_true, decide_eq_true_iff] at hquery
    simp only [Bool.not_eq_false', isDcsQuery, Bool.and_eq_true, Bool.or_eq_true, decide_eq_true_iff]
    exact ⟨hquery.1, hquery.2.imp (fun hq => hq.trans (List.prefix_append _ _)) (fun hq => hq.trans (List.prefix_append _ _))⟩
  · rename_i hkind
    rw [hkind] at hend
    obtain ⟨-, he⟩ := stringControlEndScan_payload hend
    have hfree : ∀ image ∈ oscImages, e ∉ image := by
      intro image himage hin
      have hall : oscImages.all (fun image => image.all (fun c => !isStringEnd .osc c)) = true := by decide
      have := List.all_eq_true.1 (List.all_eq_true.1 hall image himage) e hin
      rw [he] at this
      cases this
    rw [isOscImage, List.any_eq_false] at h ⊢
    intro image himage hpre
    rw [decide_eq_true_iff] at hpre
    rcases List.prefix_or_prefix_of_prefix hpre (List.prefix_append rest t) with hin | hin
    · exact h image himage (decide_eq_true hin)
    · refine hfree image himage (hin.subset ?_)
      rw [stringControlEndScan_text hend]
      exact List.mem_append_right _ List.mem_cons_self

theorem outputPaints_esc : outputPaints [esc] = true := by
  rw [outputPaints_none rfl]
  decide +kernel

/-- **Output that does not paint, twice**: the one behind the other does not either. -/
theorem outputPaints_append (ht : outputPaints t = false) : ∀ (n : Nat) (s : JsString), s.length = n → outputPaints s = false →
    outputPaints (s ++ t) = false := by
  have hunprinted := unprinted_of_silent ht
  intro n
  induction n using Nat.strongRecOn with
  | ind n ih =>
    intro s hlen hs
    rcases hscan : introducerScan s with _ | m
    · rw [outputPaints_none hscan] at hs
      have hesc : endsWithEsc s = false := (groundPaints_append (k := 0) hunprinted (by rw [groundPaints]) _ s rfl hs).2
      have hjoined := introducerScan_ground (x := t) hscan (fun h => absurd (hesc.symm.trans h.1) nofun)
      rcases htscan : introducerScan t with _ | m
      · rw [htscan] at hjoined
        rw [outputPaints_none htscan] at ht
        rw [outputPaints_none hjoined, List.length_append]
        exact (groundPaints_append hunprinted ht _ s rfl hs).1
      · rw [htscan] at hjoined
        obtain ⟨hground, hrest⟩ := (outputPaints_some htscan).1 ht
        refine (outputPaints_some hjoined).2 ⟨?_, hrest⟩
        rw [show (Introduced.behind s m).gap.length = s.length + m.gap.length from List.length_append]
        exact (groundPaints_append hunprinted hground _ s rfl hs).1
    · obtain ⟨hground, hcontrol, p, e, rest, hend, hafter⟩ := (outputPaints_some hscan).1 hs
      obtain ⟨-, htext⟩ := introducerScan_some hscan
      have hgap : m.gap.length ≤ s.length := by
        rw [htext, List.length_append]
        omega
      refine (outputPaints_some (introducerScan_append hscan t)).2 ⟨groundPaints_more hunprinted _ s hgap hground,
        controlPaints_append hcontrol hend t, p, e, rest ++ t, stringControlEndScan_append hend t, ?_⟩
      have hbehind : afterControl e (rest ++ t) = afterControl e rest ++ t := by
        unfold afterControl at hafter ⊢
        split
        · rfl
        · rename_i hesc
          rw [ne_eq, not_not] at hesc
          cases rest with
          | nil =>
            subst hesc
            exact absurd (outputPaints_esc.symm.trans hafter) nofun
          | cons c cs =>
            rw [List.cons_append]
            dsimp only
            split
            · rfl
            · rfl
      have hshort : (afterControl e rest).length < n := by
        have := introducerScan_length hscan
        have := congrArg List.length (stringControlEndScan_text hend)
        have := afterControl_length e rest
        simp only [List.length_append, List.length_cons] at *
        omega
      rw [hbehind]
      exact ih _ hshort _ rfl hafter

end

/-- **Cutting output hides no painting.** -/
theorem paints_of_cut (chunks : List JsString) (h : outputPaints chunks.flatten = true) : ∃ c ∈ chunks, outputPaints c = true := by
  by_contra hnone
  have hsilent : ∀ chunks : List JsString, (∀ c ∈ chunks, outputPaints c = false) → outputPaints chunks.flatten = false := by
    intro chunks
    induction chunks with
    | nil              => exact fun _ => by decide +kernel
    | cons c chunks ih =>
      intro hall
      rw [List.flatten_cons]
      exact outputPaints_append (ih (fun d hd => hall d (List.mem_cons_of_mem _ hd))) _ c rfl (hall c List.mem_cons_self)
  have hflat := hsilent chunks (fun c hc => Bool.eq_false_iff.2 (fun hpaints => hnone ⟨c, hc, hpaints⟩))
  exact absurd (h.symm.trans hflat) nofun

theorem paints_of_cut_color : outputPaints [units "\x1b[3", units "1mHi"].flatten = true ∧
    ∃ c ∈ [units "\x1b[3", units "1mHi"], outputPaints c = true := by
  have hpaints : outputPaints [units "\x1b[3", units "1mHi"].flatten = true := by decide +kernel
  exact ⟨hpaints, paints_of_cut _ hpaints⟩

example : outputPaints (units "\x1b]8;;a\x1b\\\x1b[2 q\x9b?6n") = false := by decide +kernel

end Term
end Dormouse

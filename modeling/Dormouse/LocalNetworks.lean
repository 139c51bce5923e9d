import Dormouse.NetworkAddress
/-!
# LocalNetworks — the lines of a description that are kept

`keepAllowed` of `host/remote/local-networks.ts`, and the two uses a policy makes of it.  A line that is kept has no line end in it,
so what is written is cut where it was joined (`cut_join`), and is kept as it is (`keepLine_again`).
-/
namespace Dormouse
namespace LocalNet

open Term (isDigit isSpace isHexDigit parseDigits)
open DirectPath (decimal colon)

/-! ## Lines -/

def cr : UInt16 := 0x0d
def lf : UInt16 := 0x0a

/-- `split(LINE_END)`. -/
def cut : JsString → List JsString
  | []          => [[]]
  | [c]         => if c = cr ∨ c = lf then [[], []] else [[c]]
  | c :: d :: s =>
    if c = cr ∧ d = lf then [] :: cut s
    else if c = cr ∨ c = lf then [] :: cut (d :: s)
    else (cut (d :: s)).modifyHead (c :: ·)

/-- `LINE_END.exec(sdp)?.[0]`. -/
def lineEnd : JsString → Option JsString
  | []          => none
  | [c]         => if c = cr ∨ c = lf then some [c] else none
  | c :: d :: s =>
    if c = cr ∧ d = lf then some [cr, lf]
    else if c = cr ∨ c = lf then some [c]
    else lineEnd (d :: s)

/-! ## Candidates -/

/-- What the pattern reads of a candidate, its numbers as numbers. -/
structure CandidateFields where
  foundation : JsString
  component  : Nat
  priority   : Nat
  address    : JsString
  port       : Nat
  type       : JsString

def CandidateFields.line (f : CandidateFields) : JsString :=
  [0x20].intercalate [units "a=candidate:" ++ f.foundation, decimal f.component, units "UDP", decimal f.priority, f.address,
    decimal f.port, units "typ", f.type]

def isIceChar (c : UInt16) : Bool :=
  (0x41 ≤ c && c ≤ 0x5a) || (0x61 ≤ c && c ≤ 0x7a) || isDigit c || c == 0x2b || c == 0x2f

def isFoundation (s : JsString) : Bool := (1 ≤ s.length && s.length ≤ 32) && s.all isIceChar

/-- `\d+`. -/
def isNumber (s : JsString) : Bool := !s.isEmpty && s.all isDigit

/-- `\S+`. -/
def isWritten (s : JsString) : Bool := !s.isEmpty && s.all (fun c => !isSpace c)

/-- `[\x21-\x7e]+`. -/
def isExtension (s : JsString) : Bool := !s.isEmpty && s.all (fun c => 0x21 ≤ c && c ≤ 0x7e)

def candidateTypes : List JsString := [units "host", units "srflx", units "prflx", units "relay"]

/-- `CANDIDATE`: no part of it has a space in it, so the match is of the parts between spaces. -/
def readCandidate (line : JsString) : Option CandidateFields :=
  match line.splitOn 0x20 with
  | key :: component :: transport :: priority :: written :: port :: typ :: type :: extensions =>
    if key.take 12 = units "a=candidate:" && isFoundation (key.drop 12) && isNumber component &&
        (transport = units "UDP" || transport = units "udp") && isNumber priority && isWritten written && isNumber port &&
        typ = units "typ" && candidateTypes.contains type && extensions.all isExtension then
      some ⟨key.drop 12, parseDigits 10 component, parseDigits 10 priority, written, parseDigits 10 port, type⟩
    else none
  | _ => none

structure Candidate where
  address : JsString
  line    : JsString
  deriving DecidableEq

def parseCandidate (N : NodeNet) (line : JsString) : Option Candidate :=
  match readCandidate line with
  | none   => none
  | some f =>
    match canonicalAddress N f.address with
    | none         => none
    | some address =>
      if f.component < 1 ∨ f.component > 256 ∨ f.priority > 0xffffffff ∨ f.port > 0xffff then none
      else some ⟨address, { f with address }.line⟩

/-! ## What is kept -/

/-- `[ \t\v\f]`. -/
def isCSpace (c : UInt16) : Bool := c == 0x20 || c == 0x09 || c == 0x0b || c == 0x0c

def lower (c : UInt16) : UInt16 := if 0x41 ≤ c ∧ c ≤ 0x5a then c + 0x20 else c

def startsWithLetters (letters s : JsString) : Bool := (s.take letters.length).map lower = letters

def isCandidateLike (line : JsString) : Bool := startsWithLetters (units "a=candidate") (line.dropWhile isCSpace)

def fieldsOf (line : JsString) : List JsString := (line.splitOnP isCSpace).filter (fun field => !field.isEmpty)

def isConnection (line : JsString) : Bool := (fieldsOf line).head?.any (startsWithLetters (units "c="))

def placeholder : JsString := units "c=IN IP4 0.0.0.0"

variable (N : NodeNet) (inAllowed : JsString → Bool)

def keepStep (kept : List JsString × Nat) (line : JsString) : List JsString × Nat :=
  if isCandidateLike line then
    match parseCandidate N line with
    | none           => kept
    | some candidate => if inAllowed candidate.address then (kept.1 ++ [candidate.line], kept.2 + 1) else kept
  else if isConnection line && !((fieldsOf line)[2]?.any inAllowed) then (kept.1 ++ [placeholder], kept.2)
  else (kept.1 ++ [line], kept.2)

@[ext]
structure Described where
  sdp        : JsString
  candidates : Nat

def keepAllowed (sdp : JsString) : Described :=
  let eol := (lineEnd sdp).getD [lf]
  let kept := (cut sdp).foldl (keepStep N inAllowed) ([], 0)
  ⟨eol.intercalate kept.1, kept.2⟩

def describe (sdp : JsString) : Option JsString :=
  let described := keepAllowed N inAllowed sdp
  if described.candidates = 0 then none else some described.sdp

def acceptRemote (sdp : JsString) : JsString := (keepAllowed N inAllowed sdp).sdp

def keepLine (line : JsString) : Option JsString :=
  if isCandidateLike line then ((parseCandidate N line).filter (fun c => inAllowed c.address)).map Candidate.line
  else if isConnection line && !((fieldsOf line)[2]?.any inAllowed) then some placeholder
  else some line

/-! ## Cutting and joining -/

def IsLine (s : JsString) : Prop := ∀ c ∈ s, c ≠ cr ∧ c ≠ lf

def IsEol (eol : JsString) : Prop := eol = [cr, lf] ∨ eol = [cr] ∨ eol = [lf]

variable {c : UInt16}

theorem isLine_cons {s : JsString} : IsLine (c :: s) ↔ (c ≠ cr ∧ c ≠ lf) ∧ IsLine s := List.forall_mem_cons

theorem cut_cons (h : c ≠ cr ∧ c ≠ lf) (s : JsString) : cut (c :: s) = (cut s).modifyHead (c :: ·) := by
  have hnot : ¬ (c = cr ∨ c = lf) := not_or.2 h
  cases s with
  | nil => exact if_neg hnot
  | cons d ds => rw [cut, if_neg (fun hboth => h.1 hboth.1), if_neg hnot]

theorem cut_line : ∀ {s : JsString}, IsLine s → cut s = [s]
  | [], _ => rfl
  | c :: s, h => by
    obtain ⟨hc, hs⟩ := isLine_cons.1 h
    rw [cut_cons hc, cut_line hs]
    rfl

theorem cut_eol {eol : JsString} (h : IsEol eol) {rest : JsString} (hrest : eol = [cr] → rest.head? ≠ some lf) :
    cut (eol ++ rest) = [] :: cut rest := by
  rcases h with rfl | rfl | rfl
  · rw [List.cons_append, List.cons_append, List.nil_append, cut, if_pos ⟨rfl, rfl⟩]
  · cases rest with
    | nil => rfl
    | cons d ds =>
      have hd : d ≠ lf := fun heq => hrest rfl (by rw [heq]; rfl)
      rw [List.cons_append, List.nil_append, cut, if_neg (fun hboth => hd hboth.2), if_pos (.inl rfl)]
  · cases rest with
    | nil => rfl
    | cons d ds => rw [List.cons_append, List.nil_append, cut, if_neg (fun hboth => absurd hboth.1 (by decide)), if_pos (.inr rfl)]

theorem cut_append {eol rest : JsString} (h : IsEol eol) (hrest : eol = [cr] → rest.head? ≠ some lf) :
    ∀ {s : JsString}, IsLine s → cut (s ++ (eol ++ rest)) = s :: cut rest
  | [], _ => cut_eol h hrest
  | c :: s, hs => by
    obtain ⟨hc, hs⟩ := isLine_cons.1 hs
    rw [List.cons_append, cut_cons hc, cut_append h hrest hs]
    rfl

theorem lineEnd_cons (h : c ≠ cr ∧ c ≠ lf) (s : JsString) : lineEnd (c :: s) = lineEnd s := by
  have hnot : ¬ (c = cr ∨ c = lf) := not_or.2 h
  cases s with
  | nil => exact if_neg hnot
  | cons d ds => rw [lineEnd, if_neg (fun hboth => h.1 hboth.1), if_neg hnot]

theorem lineEnd_append {eol rest : JsString} (h : IsEol eol) (hrest : eol = [cr] → rest.head? ≠ some lf) :
    ∀ {s : JsString}, IsLine s → lineEnd (s ++ (eol ++ rest)) = some eol
  | [], _ => by
    rcases h with rfl | rfl | rfl
    · rfl
    · cases rest with
      | nil => rfl
      | cons d ds =>
        have hd : d ≠ lf := fun heq => hrest rfl (by rw [heq]; rfl)
        rw [List.nil_append, List.cons_append, List.nil_append, lineEnd, if_neg (fun hboth => hd hboth.2), if_pos (.inl rfl)]
    · cases rest with
      | nil => rfl
      | cons d ds =>
        rw [List.nil_append, List.cons_append, List.nil_append, lineEnd, if_neg (fun hboth => absurd hboth.1 (by decide)),
          if_pos (.inr rfl)]
  | c :: s, hs => by
    obtain ⟨hc, hs⟩ := isLine_cons.1 hs
    rw [List.cons_append, lineEnd_cons hc, lineEnd_append h hrest hs]

theorem join_head {lines : List JsString} (h : ∀ l ∈ lines, IsLine l) : ([cr].intercalate lines).head? ≠ some lf := by
  cases lines with
  | nil => exact nofun
  | cons l lines =>
    cases l with
    | nil =>
      cases lines with
      | nil => exact nofun
      | cons _ _ =>
        rw [List.intercalate_cons_cons]
        exact fun heq => absurd (Option.some.inj heq) (by decide)
    | cons c l =>
      have hc := (isLine_cons.1 (h _ List.mem_cons_self)).1
      cases lines with
      | nil =>
        rw [List.intercalate_singleton]
        exact fun heq => hc.2 (Option.some.inj heq)
      | cons _ _ =>
        rw [List.intercalate_cons_cons]
        exact fun heq => hc.2 (Option.some.inj heq)

/-- **What is joined is cut where it was joined.** -/
theorem cut_join {eol : JsString} (heol : IsEol eol) : ∀ {lines : List JsString}, lines ≠ [] → (∀ l ∈ lines, IsLine l) →
    cut (eol.intercalate lines) = lines
  | [], hne, _ => absurd rfl hne
  | [l], _, h => by
    rw [List.intercalate_singleton]
    exact cut_line (h l List.mem_cons_self)
  | l :: m :: ls, _, h => by
    have hrest : ∀ k ∈ m :: ls, IsLine k := fun k hk => h k (List.mem_cons_of_mem l hk)
    rw [List.intercalate_cons_cons, List.append_assoc,
      cut_append heol (fun hcr => hcr ▸ join_head hrest) (h l List.mem_cons_self), cut_join heol (List.cons_ne_nil m ls) hrest]

theorem join_again {eol : JsString} (heol : IsEol eol) {lines : List JsString} (h : ∀ l ∈ lines, IsLine l) :
    ((lineEnd (eol.intercalate lines)).getD [lf]).intercalate lines = eol.intercalate lines := by
  match lines with
  | [] => rfl
  | [l] => rw [List.intercalate_singleton, List.intercalate_singleton]
  | l :: m :: ls =>
    have hrest : ∀ k ∈ m :: ls, IsLine k := fun k hk => h k (List.mem_cons_of_mem l hk)
    have hend : lineEnd (eol.intercalate (l :: m :: ls)) = some eol := by
      rw [List.intercalate_cons_cons, List.append_assoc]
      exact lineEnd_append heol (fun hcr => hcr ▸ join_head hrest) (h l List.mem_cons_self)
    rw [hend]
    rfl

theorem cut_lines : ∀ s : JsString, cut s ≠ [] ∧ ∀ l ∈ cut s, IsLine l
  | [] => ⟨List.cons_ne_nil _ _, fun l hl => by
    rw [List.mem_singleton.1 hl]
    exact nofun⟩
  | [c] => by
    rw [cut]
    split
    · refine ⟨List.cons_ne_nil _ _, fun l hl => ?_⟩
      simp only [List.mem_cons, List.not_mem_nil, or_false, or_self] at hl
      rw [hl]
      exact nofun
    · rename_i hc
      refine ⟨List.cons_ne_nil _ _, fun l hl => ?_⟩
      rw [List.mem_singleton.1 hl]
      exact isLine_cons.2 ⟨not_or.1 hc, nofun⟩
  | c :: d :: s => by
    have hcons : ∀ {ls : List JsString}, (∀ l ∈ ls, IsLine l) → ∀ l ∈ [] :: ls, IsLine l :=
      fun h => List.forall_mem_cons.2 ⟨nofun, h⟩
    rw [cut]
    split
    · exact ⟨List.cons_ne_nil _ _, hcons (cut_lines s).2⟩
    · split
      · exact ⟨List.cons_ne_nil _ _, hcons (cut_lines (d :: s)).2⟩
      · rename_i hc
        obtain ⟨hne, hlines⟩ := cut_lines (d :: s)
        obtain ⟨l, ls, hcut⟩ := List.exists_cons_of_ne_nil hne
        rw [hcut] at hlines ⊢
        obtain ⟨hl, hls⟩ := List.forall_mem_cons.1 hlines
        exact ⟨List.cons_ne_nil _ _, List.forall_mem_cons.2 ⟨isLine_cons.2 ⟨not_or.1 hc, hl⟩, hls⟩⟩

theorem lineEnd_eol : ∀ s : JsString, IsEol ((lineEnd s).getD [lf])
  | [] => .inr (.inr rfl)
  | [c] => by
    rw [lineEnd]
    split
    · rename_i hc
      rcases hc with rfl | rfl
      · exact .inr (.inl rfl)
      · exact .inr (.inr rfl)
    · exact .inr (.inr rfl)
  | c :: d :: s => by
    rw [lineEnd]
    split
    · exact .inl rfl
    · split
      · rename_i hc
        rcases hc with rfl | rfl
        · exact .inr (.inl rfl)
        · exact .inr (.inr rfl)
      · exact lineEnd_eol (d :: s)

/-! ## A candidate, written and read -/

/-- The fields of a candidate that is read, and a number of it is in range. -/
structure CandidateFields.InRange (f : CandidateFields) : Prop where
  foundation : isFoundation f.foundation = true
  component  : 1 ≤ f.component ∧ f.component ≤ 256
  priority   : f.priority ≤ 0xffffffff
  address    : isWritten f.address = true
  port       : f.port ≤ 0xffff
  type       : f.type ∈ candidateTypes

theorem isNumber_decimal (n : Nat) : isNumber (decimal n) = true := by
  rw [isNumber, Bool.and_eq_true, Bool.not_eq_true', List.isEmpty_eq_false_iff, List.all_eq_true]
  exact ⟨decimal_ne_nil n, decimal_digits n⟩

variable {f : CandidateFields}

/-- **A candidate is read as it is written.** -/
theorem readCandidate_line (h : f.InRange) : readCandidate f.line = some f := by
  obtain ⟨hfoundation, -, -, hwritten, -, htype⟩ := h
  have hice : ∀ c ∈ f.foundation, isIceChar c = true := by
    rw [isFoundation, Bool.and_eq_true, List.all_eq_true] at hfoundation
    exact hfoundation.2
  have hchars : ∀ c ∈ f.address, isSpace c = false := by
    rw [isWritten, Bool.and_eq_true, List.all_eq_true] at hwritten
    exact fun c hc => by simpa using hwritten.2 c hc
  have hnumber : ∀ n, (0x20 : UInt16) ∉ decimal n := fun n hin => absurd (decimal_digits n _ hin) (by decide)
  have hparts : ∀ part ∈ [units "a=candidate:" ++ f.foundation, decimal f.component, units "UDP", decimal f.priority, f.address,
      decimal f.port, units "typ", f.type], (0x20 : UInt16) ∉ part := by
    simp only [List.forall_mem_cons]
    refine ⟨fun hin => ?_, hnumber _, by decide, hnumber _, fun hin => absurd (hchars _ hin) (by decide), hnumber _, by decide,
      fun hin => ?_, nofun⟩
    · rcases List.mem_append.1 hin with hin | hin
      · exact absurd hin (by decide)
      · exact absurd (hice _ hin) (by decide)
    · have htypes : candidateTypes.all (fun t => !t.contains 0x20) = true := by decide
      have := List.all_eq_true.1 htypes f.type htype
      rw [Bool.not_eq_true', ← Bool.not_eq_true, List.contains_iff_mem] at this
      exact this hin
  have hkey : (units "a=candidate:").length = 12 := by decide
  rw [readCandidate, CandidateFields.line, List.splitOn_intercalate _ hparts (List.cons_ne_nil _ _)]
  dsimp only
  rw [List.take_append_of_le_length (by rw [hkey]), List.drop_append_of_le_length (by rw [hkey]), if_pos]
  · rw [parseDigits_decimal, parseDigits_decimal, parseDigits_decimal]
    rfl
  · have hdrop : List.drop 12 (units "a=candidate:") = [] := by decide
    have htake : List.take 12 (units "a=candidate:") = units "a=candidate:" := by decide
    rw [hdrop, htake, List.nil_append, hfoundation, isNumber_decimal, isNumber_decimal, isNumber_decimal, hwritten,
      List.contains_iff_mem.2 htype]
    decide

theorem readCandidate_some {line : JsString} (h : readCandidate line = some f) :
    (∃ rest, line = units "a=candidate:" ++ rest) ∧ isFoundation f.foundation = true ∧ isWritten f.address = true ∧
      f.type ∈ candidateTypes := by
  unfold readCandidate at h
  split at h
  · rename_i key component transport priority written port typ type extensions hsplit
    split at h
    · rename_i hall
      cases h
      simp only [Bool.and_eq_true, decide_eq_true_eq, List.contains_iff_mem] at hall
      obtain ⟨⟨⟨⟨⟨⟨⟨⟨⟨hkey, hfoundation⟩, -⟩, -⟩, -⟩, hwritten⟩, -⟩, -⟩, htype⟩, -⟩ := hall
      have hline : line = key ++ ([0x20] ++ [0x20].intercalate (component :: transport :: priority :: written :: port :: typ ::
          type :: extensions)) := by
        rw [← List.append_assoc, ← List.intercalate_cons_cons, ← hsplit, List.intercalate_splitOn]
      exact ⟨⟨_, by rw [← hkey, ← List.append_assoc, List.take_append_drop, ← hline]⟩, hfoundation, hwritten, htype⟩
    · cases h
  · cases h

theorem isCandidateLike_key (rest : JsString) : isCandidateLike (units "a=candidate:" ++ rest) = true := by
  have hkey : units "a=candidate:" = 0x61 :: (units "=candidate:") := by decide
  have hspace : isCSpace 0x61 = false := by decide
  rw [hkey, List.cons_append, isCandidateLike, List.dropWhile_cons, hspace]
  rfl

theorem CandidateFields.line_key (f : CandidateFields) : ∃ rest, f.line = units "a=candidate:" ++ rest := by
  rw [CandidateFields.line, List.intercalate_cons_cons, List.append_assoc, List.append_assoc]
  exact ⟨_, rfl⟩

structure Rebuilt (N : NodeNet) (inAllowed : JsString → Bool) (f : CandidateFields) : Prop where
  range     : f.InRange
  canonical : canonicalAddress N f.address = some f.address
  allowed   : inAllowed f.address = true

theorem isSpace_literal (h : isHexDigit c = true ∨ c = colon) : isSpace c = false := by
  have hlow : 0x30 ≤ c.toNat ∧ c.toNat ≤ 0x66 := by
    rcases h with h | rfl
    · simp only [isHexDigit, isDigit, Bool.or_eq_true, Bool.and_eq_true, decide_eq_true_eq, UInt16.le_iff_toNat_le] at h
      simp only [UInt16.reduceToNat] at h
      omega
    · decide
  by_contra hspace
  rw [Bool.not_eq_false] at hspace
  simp only [isSpace, Bool.or_eq_true, Bool.and_eq_true, decide_eq_true_eq, beq_iff_eq, UInt16.le_iff_toNat_le,
    ← UInt16.toNat_inj] at hspace
  simp only [UInt16.reduceToNat] at hspace
  omega

variable {N : NodeNet} {inAllowed : JsString → Bool}

theorem parseCandidate_some (hN : SerializesOnce N) {line : JsString} {c : Candidate} (h : parseCandidate N line = some c) :
    isCandidateLike line = true ∧ ∃ f : CandidateFields, c = ⟨f.address, f.line⟩ ∧ f.InRange ∧
      canonicalAddress N f.address = some f.address := by
  unfold parseCandidate at h
  split at h
  · cases h
  · rename_i f hread
    obtain ⟨⟨rest, rfl⟩, hfoundation, hwritten, htype⟩ := readCandidate_some hread
    split at h
    · cases h
    · rename_i address haddress
      split at h
      · cases h
      · rename_i hrange
        cases h
        have hnumbers : (1 ≤ f.component ∧ f.component ≤ 256) ∧ f.priority ≤ 0xffffffff ∧ f.port ≤ 0xffff := by omega
        refine ⟨isCandidateLike_key rest, { f with address }, rfl,
          ⟨hfoundation, hnumbers.1, hnumbers.2.1, ?_, hnumbers.2.2, htype⟩, canonicalAddress_again hN haddress⟩
        -- the serializer writes no space
        unfold canonicalAddress at haddress
        split at haddress
        · cases haddress
        · split at haddress
          · cases haddress
            exact hwritten
          · split at haddress
            · rename_i hsix
              obtain ⟨-, -, hne, hchars⟩ := hN _ _ hsix haddress
              rw [isWritten, Bool.and_eq_true, Bool.not_eq_true', List.isEmpty_eq_false_iff, List.all_eq_true]
              exact ⟨hne, fun c hc => by rw [isSpace_literal (hchars c hc)]; rfl⟩
            · cases haddress

theorem parseCandidate_line (h : f.InRange) (haddress : canonicalAddress N f.address = some f.address) :
    parseCandidate N f.line = some ⟨f.address, f.line⟩ := by
  have hcomponent := h.component
  have hpriority := h.priority
  have hport := h.port
  rw [parseCandidate, readCandidate_line h]
  dsimp only
  rw [haddress]
  dsimp only
  rw [if_neg (by omega)]

theorem isLine_line (h : f.InRange) : IsLine f.line := by
  have hplain : ∀ {s : JsString}, (∀ c ∈ s, isSpace c = false) → IsLine s := by
    intro s hs c hc
    refine ⟨?_, ?_⟩
    · rintro rfl
      exact absurd (hs _ hc) (by decide)
    · rintro rfl
      exact absurd (hs _ hc) (by decide)
  have hdecimal : ∀ n, IsLine (decimal n) := fun n c hc => by
    refine ⟨?_, ?_⟩
    · rintro rfl
      exact absurd (decimal_digits n _ hc) (by decide)
    · rintro rfl
      exact absurd (decimal_digits n _ hc) (by decide)
  have hfoundation : IsLine f.foundation := by
    have hice := h.foundation
    rw [isFoundation, Bool.and_eq_true, List.all_eq_true] at hice
    intro c hc
    refine ⟨?_, ?_⟩
    · rintro rfl
      exact absurd (hice.2 _ hc) (by decide)
    · rintro rfl
      exact absurd (hice.2 _ hc) (by decide)
  have haddress : IsLine f.address := hplain (fun c hc => by
    have hwritten := h.address
    rw [isWritten, Bool.and_eq_true, List.all_eq_true] at hwritten
    simpa using hwritten.2 c hc)
  have htype : IsLine f.type := by
    have htypes : candidateTypes.all (fun t => t.all (fun c => !isSpace c)) = true := by decide
    refine hplain (fun c hc => ?_)
    simpa using List.all_eq_true.1 (List.all_eq_true.1 htypes f.type h.type) c hc
  have hliteral : ∀ s : JsString, s.all (fun c => c != cr && c != lf) = true → IsLine s := by
    intro s hs c hc
    simpa using List.all_eq_true.1 hs c hc
  intro c hc
  rcases mem_intercalate hc with hc | ⟨part, hpart, hc⟩
  · exact hliteral [0x20] (by decide) c hc
  · simp only [List.mem_cons, List.not_mem_nil, or_false] at hpart
    rcases hpart with rfl | rfl | rfl | rfl | rfl | rfl | rfl | rfl
    · exact (List.mem_append.1 hc).elim (fun hc => hliteral (units "a=candidate:") (by decide) c hc) (hfoundation c)
    · exact hdecimal _ c hc
    · exact hliteral (units "UDP") (by decide) c hc
    · exact hdecimal _ c hc
    · exact haddress c hc
    · exact hdecimal _ c hc
    · exact hliteral (units "typ") (by decide) c hc
    · exact htype c hc

/-! ## What is kept, and kept again -/

structure KeptLine (N : NodeNet) (inAllowed : JsString → Bool) (line : JsString) : Prop where
  one        : IsLine line
  again      : keepLine N inAllowed line = some line
  candidate  : isCandidateLike line = true → ∃ f : CandidateFields, Rebuilt N inAllowed f ∧ line = f.line
  connection : isConnection line = true → line = placeholder ∨ ∃ address, (fieldsOf line)[2]? = some address ∧ inAllowed address = true

theorem keptLine_placeholder : KeptLine N inAllowed placeholder := by
  have hcandidate : isCandidateLike placeholder = false := by decide
  refine ⟨?_, ?_, fun h => absurd (hcandidate.symm.trans h) nofun, fun _ => .inl rfl⟩
  · have hall : placeholder.all (fun c => c != cr && c != lf) = true := by decide
    intro c hc
    simpa using List.all_eq_true.1 hall c hc
  · rw [keepLine, hcandidate]
    simp

theorem fieldsOf_head (hc : isCSpace c = false) (rest : JsString) :
    ∃ field, (fieldsOf (c :: rest)).head? = some (c :: field) := by
  rw [fieldsOf, List.splitOnP_cons_eq_if_modifyHead, hc]
  obtain ⟨part, parts, hparts⟩ := List.exists_cons_of_ne_nil (List.splitOnP_ne_nil isCSpace rest)
  rw [hparts]
  exact ⟨part, rfl⟩

theorem CandidateFields.isCandidateLike_line (f : CandidateFields) : isCandidateLike f.line = true := by
  obtain ⟨rest, hkey⟩ := f.line_key
  rw [hkey, isCandidateLike_key]

theorem keptLine_rebuilt (h : Rebuilt N inAllowed f) : KeptLine N inAllowed f.line := by
  refine ⟨isLine_line h.range, ?_, fun _ => ⟨f, h, rfl⟩, fun hconnection => ?_⟩
  · rw [keepLine, if_pos f.isCandidateLike_line, parseCandidate_line h.range h.canonical, Option.filter_some, if_pos h.allowed]
    rfl
  · -- its first field starts with another letter
    obtain ⟨rest, hkey⟩ := f.line_key
    obtain ⟨field, hfield⟩ := fieldsOf_head (c := 0x61) (by decide) (units "=candidate:" ++ rest)
    have hletters : units "a=candidate:" = 0x61 :: units "=candidate:" := by decide
    rw [hkey, hletters, List.cons_append, isConnection, hfield] at hconnection
    have hc : units "c=" = [0x63, 0x3d] := by decide
    simp [startsWithLetters, hc, lower] at hconnection

/-- **A line is kept as a line that is kept as it is.** -/
theorem keepLine_again (hN : SerializesOnce N) {line kept : JsString} (hline : IsLine line) (h : keepLine N inAllowed line = some kept) :
    KeptLine N inAllowed kept := by
  have hkeep := h
  unfold keepLine at h
  split at h
  · obtain ⟨c, hc, rfl⟩ := Option.map_eq_some_iff.1 h
    rw [Option.filter_eq_some_iff] at hc
    obtain ⟨-, f, rfl, hrange, hcanonical⟩ := parseCandidate_some hN hc.1
    exact keptLine_rebuilt ⟨hrange, hcanonical, hc.2⟩
  · rename_i hcandidate
    split at h
    · cases h
      exact keptLine_placeholder
    · rename_i hdropped
      cases h
      refine ⟨hline, hkeep, fun hlike => absurd hlike hcandidate, fun hconnection => .inr ?_⟩
      rw [Bool.and_eq_true, Bool.not_eq_true', not_and, Bool.not_eq_false] at hdropped
      exact (Option.any_eq_true _ _).1 (hdropped hconnection)

theorem keepLines_spec (hN : SerializesOnce N) : ∀ (lines : List JsString) (kept : List JsString × Nat), (∀ l ∈ lines, IsLine l) →
    lines.foldl (keepStep N inAllowed) kept = (kept.1 ++ lines.filterMap (keepLine N inAllowed),
      kept.2 + (lines.filterMap (keepLine N inAllowed)).countP isCandidateLike)
  | [], kept, _ => by simp
  | line :: lines, kept, h => by
    obtain ⟨hline, hlines⟩ := List.forall_mem_cons.1 h
    have hstep : keepStep N inAllowed kept line = (kept.1 ++ (keepLine N inAllowed line).toList,
        kept.2 + (keepLine N inAllowed line).toList.countP isCandidateLike) := by
      unfold keepStep keepLine
      split
      · cases hparse : parseCandidate N line with
        | none => simp
        | some candidate =>
          obtain ⟨-, f, rfl, -⟩ := parseCandidate_some hN hparse
          dsimp only
          rw [Option.filter_some]
          split
          · simp [f.isCandidateLike_line]
          · simp
      · rename_i hcandidate
        split
        · have hplaceholder : isCandidateLike placeholder = false := by decide
          simp [hplaceholder]
        · simp [hcandidate]
    rw [List.foldl_cons, hstep, keepLines_spec hN lines _ hlines, List.filterMap_cons]
    cases keepLine N inAllowed line with
    | none => simp
    | some kept => simp [Nat.add_assoc, List.countP_cons, Nat.add_comm]

theorem keepAllowed_eq (hN : SerializesOnce N) (inAllowed : JsString → Bool) (sdp : JsString) :
    (keepAllowed N inAllowed sdp).sdp = ((lineEnd sdp).getD [lf]).intercalate ((cut sdp).filterMap (keepLine N inAllowed)) ∧
      (keepAllowed N inAllowed sdp).candidates = ((cut sdp).filterMap (keepLine N inAllowed)).countP isCandidateLike := by
  rw [keepAllowed]
  dsimp only
  rw [keepLines_spec hN (cut sdp) ([], 0) (cut_lines sdp).2, List.nil_append, Nat.zero_add]
  exact ⟨rfl, rfl⟩

def isOther (line : JsString) : Bool := !isCandidateLike line && !isConnection line

theorem isOther_placeholder : isOther placeholder = false := by decide

theorem keepLine_other (hN : SerializesOnce N) (inAllowed : JsString → Bool) (line : JsString) :
    ((keepLine N inAllowed line).filter isOther).toList = [line].filter isOther := by
  by_cases hother : isOther line = true
  · have hboth := hother
    rw [isOther, Bool.and_eq_true, Bool.not_eq_true', Bool.not_eq_true'] at hboth
    rw [keepLine, hboth.1, hboth.2]
    simp [hother]
  · have hnone : [line].filter isOther = [] := by simp [hother]
    rw [hnone, keepLine]
    split
    · cases hparse : parseCandidate N line with
      | none => rfl
      | some candidate =>
        obtain ⟨-, f, rfl, -⟩ := parseCandidate_some hN hparse
        rw [Option.filter_some]
        split
        · have hcandidate : isOther f.line = false := by rw [isOther, f.isCandidateLike_line]; rfl
          simp [hcandidate]
        · rfl
    · split
      · simp [isOther_placeholder]
      · simp [hother]

theorem kept_other (hN : SerializesOnce N) (inAllowed : JsString → Bool) : ∀ lines : List JsString,
    (lines.filterMap (keepLine N inAllowed)).filter isOther = lines.filter isOther
  | [] => rfl
  | line :: lines => by
    have hline := keepLine_other hN inAllowed line
    have hlines := kept_other hN inAllowed lines
    rw [List.filterMap_cons, ← List.singleton_append (x := line), List.filter_append, ← hline, ← hlines]
    cases keepLine N inAllowed line with
    | none => rfl
    | some kept =>
      rw [List.filter_cons, Option.filter_some]
      split
      · rfl
      · rfl

theorem kept_candidate (hN : SerializesOnce N) (lines : List JsString) :
    (lines.filterMap (keepLine N inAllowed)).countP isCandidateLike = 0 ↔
      ∀ line ∈ lines, ∀ c, parseCandidate N line = some c → inAllowed c.address = false := by
  rw [List.countP_eq_zero]
  constructor
  · intro h line hline c hc
    obtain ⟨hcandidate, f, rfl, -⟩ := parseCandidate_some hN hc
    by_contra hallowed
    rw [Bool.not_eq_false] at hallowed
    refine h f.line (List.mem_filterMap.2 ⟨line, hline, ?_⟩) f.isCandidateLike_line
    rw [keepLine, if_pos hcandidate, hc, Option.filter_some, if_pos hallowed]
    rfl
  · intro h l hl hcandidate
    obtain ⟨line, hline, hkeep⟩ := List.mem_filterMap.1 hl
    unfold keepLine at hkeep
    split at hkeep
    · obtain ⟨c, hc, rfl⟩ := Option.map_eq_some_iff.1 hkeep
      rw [Option.filter_eq_some_iff] at hc
      exact absurd (hc.2.symm.trans (h line hline c hc.1)) nofun
    · rename_i hplain
      split at hkeep
      · cases hkeep
        exact absurd hcandidate (by decide)
      · cases hkeep
        exact hplain hcandidate

/-- **What is kept of a description.**  Cut at its line ends it has candidates of canonical addresses that are allowed, default
addresses that are allowed or none, and every other line as it was; it has as many candidates as it says, and is kept as it is. -/
theorem keepAllowed_spec (N : NodeNet) (hN : SerializesOnce N) (inAllowed : JsString → Bool) (sdp : JsString) :
    let kept := keepAllowed N inAllowed sdp
    (∀ line ∈ cut kept.sdp, isCandidateLike line = true → ∃ f : CandidateFields, Rebuilt N inAllowed f ∧ line = f.line) ∧
    (∀ line ∈ cut kept.sdp, isConnection line = true →
      line = placeholder ∨ ∃ address, (fieldsOf line)[2]? = some address ∧ inAllowed address = true) ∧
    ((cut kept.sdp).filter isOther = (cut sdp).filter isOther ∨ kept.sdp = [] ∧ (cut sdp).filter isOther = []) ∧
    kept.candidates = (cut kept.sdp).countP isCandidateLike ∧
    keepAllowed N inAllowed kept.sdp = kept ∧
    (describe N inAllowed sdp = none ↔ ∀ line ∈ cut sdp, ∀ c, parseCandidate N line = some c → inAllowed c.address = false) := by
  intro kept
  obtain ⟨hsdp, hcandidates⟩ := keepAllowed_eq hN inAllowed sdp
  obtain ⟨hsdp', hcandidates'⟩ := keepAllowed_eq hN inAllowed kept.sdp
  have hkept : ∀ l ∈ (cut sdp).filterMap (keepLine N inAllowed), KeptLine N inAllowed l := by
    intro l hl
    obtain ⟨line, hline, hkeep⟩ := List.mem_filterMap.1 hl
    exact keepLine_again hN ((cut_lines sdp).2 line hline) hkeep
  have hdescribe : describe N inAllowed sdp = none ↔
      ∀ line ∈ cut sdp, ∀ c, parseCandidate N line = some c → inAllowed c.address = false := by
    rw [← kept_candidate hN, ← hcandidates, describe]
    split
    · rename_i hzero
      exact iff_of_true rfl hzero
    · rename_i hsome
      exact iff_of_false nofun hsome
  have hother := kept_other hN inAllowed (cut sdp)
  have hagain : ((cut sdp).filterMap (keepLine N inAllowed)).filterMap (keepLine N inAllowed) =
      (cut sdp).filterMap (keepLine N inAllowed) := by
    rw [List.filterMap_congr (g := some) (fun l hl => (hkept l hl).again), List.filterMap_some]
  have heol := lineEnd_eol sdp
  change kept.sdp = _ at hsdp
  change kept.candidates = _ at hcandidates
  generalize (cut sdp).filterMap (keepLine N inAllowed) = lines at hsdp hcandidates hkept hother hagain
  by_cases hlines : lines = []
  · -- nothing is kept, and what is written is one empty line
    subst hlines
    have hempty : kept.sdp = [] := hsdp
    have hnone : kept.candidates = 0 := hcandidates
    rw [hempty] at hsdp' hcandidates' ⊢
    have hkeep : keepLine N inAllowed [] = some [] := rfl
    have hcut : (cut []).filterMap (keepLine N inAllowed) = [[]] := by
      rw [cut, List.filterMap_cons, hkeep]
      rfl
    rw [hcut] at hsdp' hcandidates'
    refine ⟨fun line hline hcandidate => ?_, fun line hline hconnection => ?_, .inr ⟨rfl, hother.symm⟩, ?_, ?_, hdescribe⟩
    · rw [List.mem_singleton.1 hline] at hcandidate
      exact absurd hcandidate (by decide)
    · rw [List.mem_singleton.1 hline] at hconnection
      exact absurd hconnection (by decide)
    · rw [hnone]
      decide
    · exact Described.ext (hsdp'.trans hempty.symm) (hcandidates'.trans hnone.symm)
  · have hcut : cut kept.sdp = lines := by
      rw [hsdp]
      exact cut_join heol hlines (fun l hl => (hkept l hl).one)
    rw [hcut] at hsdp' hcandidates' ⊢
    rw [hagain] at hsdp' hcandidates'
    refine ⟨fun l hl => (hkept l hl).candidate, fun l hl => (hkept l hl).connection, .inl hother, hcandidates, ?_, hdescribe⟩
    refine Described.ext (hsdp'.trans ?_) (hcandidates'.trans hcandidates.symm)
    rw [hsdp]
    exact join_again heol (fun l hl => (hkept l hl).one)

def sampleNet : NodeNet where
  isIP a        := if a = units "fd00::a" ∨ a = units "FD00::00a" then 6 else 0
  hostname text :=
    if text = units "http://[fd00::a]/" ∨ text = units "http://[FD00::00a]/" then some (units "[fd00::a]") else none

theorem sampleNet_once : SerializesOnce sampleNet := by
  intro a s _ h
  obtain ⟨host, hhost, rfl⟩ := Option.map_eq_some_iff.1 h
  obtain rfl : host = units "[fd00::a]" := by
    simp only [sampleNet] at hhost
    split at hhost
    · exact (Option.some.inj hhost).symm
    · cases hhost
  refine ⟨by decide, by decide, by decide, ?_⟩
  have hall : ((units "[fd00::a]").drop 1).dropLast.all (fun c => isHexDigit c || c == colon) = true := by decide
  intro c hc
  simpa using List.all_eq_true.1 hall c hc

def sampleOffer : JsString :=
  units "v=0\r\n\tC=IN IP4 10.0.0.1\n a=CANDIDATE:1 x\ra=candidate:1 01 udp 5 FD00::00a 9 typ host x"

theorem keepAllowed_spec_offer : SerializesOnce sampleNet ∧
    let kept := keepAllowed sampleNet (fun a => a = units "fd00::a") sampleOffer
    kept.sdp = units "v=0\r\nc=IN IP4 0.0.0.0\r\na=candidate:1 1 UDP 5 fd00::a 9 typ host" ∧
      keepAllowed sampleNet (fun a => a = units "fd00::a") kept.sdp = kept :=
  ⟨sampleNet_once, by decide +kernel,
    (keepAllowed_spec sampleNet sampleNet_once (fun a => a = units "fd00::a") sampleOffer).2.2.2.2.1⟩

end LocalNet
end Dormouse

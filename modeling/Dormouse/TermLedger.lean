import Dormouse.Ledger
import Dormouse.TermFilter
/-!
# TermLedger — what the parser holds, and what became of every character

After every call the parser is in one mode and within its bounds.  Every character it was given has one fate: it was
emitted, it is held, it was removed as a bell or as part of an answered query, or it is part of an OSC that was consumed
or is being discarded (`Accounts`).  A call reads what was held before what is new, so its ledger settles the ledger of
the calls before it.

A call that throws returns nothing, and what it read is lost: the account is of the runs whose calls all return.
-/
namespace Dormouse
namespace Term

open Ledger (word settle Late all)

variable {P : Payloads} {τ : Type}

inductive Fate where
  | emitted
  | held
  | bell
  | query
  | osc
  deriving DecidableEq

/-- The text of an OSC that ended: its introducer, its payload and its terminator, or nothing where an ESC that is read
again cancelled it. -/
def IsOsc (o : JsString) : Prop :=
  ∃ i payload ending, o = i ++ (payload ++ ending) ∧ IsIntroducer i ∧ stringControlKind i = .osc ∧
    (∀ c ∈ payload, isStringEnd .osc c = false) ∧
    (ending = [] ∨ ending = [esc, backslash] ∨ ∃ c, ending = [c] ∧ isStringEnd .osc c = true ∧ c ≠ esc)

/-- A ledger of `text`: its visible and its held characters, and the OSCs it ends.  `part` is what had been read of an OSC
that is being discarded, `part'` what has been read since. -/
structure Accounts (part text visible held part' : JsString) (l : List (UInt16 × Fate)) : Prop where
  chars   : l.map Prod.fst = text
  visible : word .emitted l = visible
  held    : word .held l = held
  bells   : ∀ e ∈ l, e.2 = .bell → e.1 = bel
  queries : ∃ qs : List JsString, (∀ q ∈ qs, q ∈ deviceAttributeQueries) ∧ word .query l = qs.flatten
  oscs    : ∃ os : List JsString, (∀ o ∈ os, IsOsc o) ∧ part ++ word .osc l = os.flatten ++ part'
  late    : ∀ f, f ≠ .held → f ≠ .bell → Late .held f l

namespace Accounts

theorem nil (part : JsString) : Accounts part [] [] [] part [] :=
  ⟨rfl, rfl, rfl, by simp, ⟨[], by simp, rfl⟩, ⟨[], by simp, by simp⟩, fun _ _ _ => List.Pairwise.nil⟩

theorem append {part part' part'' a b va vb w : JsString} {l m : List (UInt16 × Fate)}
    (hl : Accounts part a va [] part' l) (hm : Accounts part' b vb w part'' m) :
    Accounts part (a ++ b) (va ++ vb) w part'' (l ++ m) where
  chars := by rw [List.map_append, hl.chars, hm.chars]
  visible := by rw [Ledger.word_append, hl.visible, hm.visible]
  held := by rw [Ledger.word_append, hl.held, hm.held, List.nil_append]
  bells e he hb := by
    rcases List.mem_append.mp he with he | he
    · exact hl.bells e he hb
    · exact hm.bells e he hb
  queries := by
    obtain ⟨q1, h1, e1⟩ := hl.queries
    obtain ⟨q2, h2, e2⟩ := hm.queries
    refine ⟨q1 ++ q2, fun q hq => ?_, by rw [Ledger.word_append, e1, e2, List.flatten_append]⟩
    rcases List.mem_append.mp hq with hq | hq
    · exact h1 q hq
    · exact h2 q hq
  oscs := by
    obtain ⟨o1, h1, e1⟩ := hl.oscs
    obtain ⟨o2, h2, e2⟩ := hm.oscs
    refine ⟨o1 ++ o2, fun o ho => ?_, ?_⟩
    · rcases List.mem_append.mp ho with ho | ho
      · exact h1 o ho
      · exact h2 o ho
    · rw [Ledger.word_append, ← List.append_assoc, e1, List.append_assoc, e2, List.flatten_append, List.append_assoc]
  late f hf hb := Late.append hl.held (hm.late f hf hb)

/-- **A later reading settles what an earlier one held.** -/
theorem settle {part part' part'' a b va vb w w' : JsString} {l m : List (UInt16 × Fate)}
    (hl : Accounts part a va w part' l) (hm : Accounts part' (w ++ b) vb w' part'' m) :
    Accounts part (a ++ b) (va ++ vb) w' part'' (Ledger.settle .held l m) := by
  have hchars : m.map Prod.fst = word .held l ++ b := by rw [hm.chars, hl.held]
  refine ⟨?_, ?_, ?_, ?_, ?_, ?_, ?_⟩
  · rw [Ledger.map_fst_settle hchars, hl.chars]
  · rw [Ledger.word_settle hchars (by decide) (hl.late _ (by decide) (by decide)), hl.visible, hm.visible]
  · rw [Ledger.word_held_settle hchars, hm.held]
  · intro e he hb
    rcases Ledger.mem_settle hchars he with ⟨he, -⟩ | he
    · exact hl.bells e he hb
    · exact hm.bells e he hb
  · obtain ⟨q1, h1, e1⟩ := hl.queries
    obtain ⟨q2, h2, e2⟩ := hm.queries
    refine ⟨q1 ++ q2, fun q hq => ?_, ?_⟩
    · rcases List.mem_append.mp hq with hq | hq
      · exact h1 q hq
      · exact h2 q hq
    · rw [Ledger.word_settle hchars (by decide) (hl.late _ (by decide) (by decide)), e1, e2, List.flatten_append]
  · obtain ⟨o1, h1, e1⟩ := hl.oscs
    obtain ⟨o2, h2, e2⟩ := hm.oscs
    refine ⟨o1 ++ o2, fun o ho => ?_, ?_⟩
    · rcases List.mem_append.mp ho with ho | ho
      · exact h1 o ho
      · exact h2 o ho
    · rw [Ledger.word_settle hchars (by decide) (hl.late _ (by decide) (by decide)), ← List.append_assoc, e1,
        List.append_assoc, e2, List.flatten_append, List.append_assoc]
  · intro f hf hb
    exact Ledger.late_settle hchars (hl.late f hf hb) (hm.late f hf hb)

/-! ### One fate for a whole text -/

theorem uniform {f : Fate} (hb : f ≠ .bell) {part text part' : JsString}
    (hq : ∃ qs : List JsString, (∀ q ∈ qs, q ∈ deviceAttributeQueries) ∧
      (if f = .query then text else []) = qs.flatten)
    (ho : ∃ os : List JsString, (∀ o ∈ os, IsOsc o) ∧
      part ++ (if f = .osc then text else []) = os.flatten ++ part') :
    Accounts part text (if f = .emitted then text else []) (if f = .held then text else []) part' (all f text) where
  chars := Ledger.map_fst_all _ _
  visible := Ledger.word_all _ _ _
  held := Ledger.word_all _ _ _
  bells e he h := by
    rw [Ledger.mem_all he] at h
    exact absurd h hb
  queries := by
    rw [Ledger.word_all]
    exact hq
  oscs := by
    rw [Ledger.word_all]
    exact ho
  late g hg _ := Ledger.late_all (Ne.symm hg) _ _

theorem stripped (part run : JsString) :
    Accounts part run [] (run.filter (· != bel)) part (run.map (fun c => (c, if c = bel then .bell else .held))) := by
  have hfate : ∀ e ∈ run.map (fun c => (c, if c = bel then Fate.bell else .held)),
      e.2 = .held ∨ (e.2 = .bell ∧ e.1 = bel) := by
    intro e he
    obtain ⟨c, -, rfl⟩ := List.mem_map.mp he
    by_cases hc : c = bel
    · exact .inr ⟨if_pos hc, hc⟩
    · exact .inl (if_neg hc)
  have hnone : ∀ f, f ≠ .held → f ≠ .bell →
      word f (run.map (fun c => (c, if c = bel then Fate.bell else .held))) = [] := by
    intro f h1 h2
    refine Ledger.word_eq_nil.mpr (fun e he hf => ?_)
    rcases hfate e he with h | ⟨h, -⟩
    · exact h1 (hf.symm.trans h)
    · exact h2 (hf.symm.trans h)
  refine ⟨by simp [Function.comp_def], hnone _ (by decide) (by decide), ?_, ?_, ⟨[], by simp, hnone _ (by decide) (by decide)⟩,
    ⟨[], by simp, by rw [hnone _ (by decide) (by decide)]; simp⟩, ?_⟩
  · induction run with
    | nil => rfl
    | cons c cs ih =>
      have ih := ih (fun e he => hfate e (by simp only [List.map_cons, List.mem_cons]; exact .inr he)) (fun f h1 h2 => by
        have := hnone f h1 h2
        rw [List.map_cons, Ledger.word_cons] at this
        exact (List.append_eq_nil_iff.mp this).2)
      rw [List.map_cons, Ledger.word_cons, ih]
      by_cases hc : c = bel
      · subst hc
        rfl
      · simp [hc]
  · intro e he hb
    rcases hfate e he with h | ⟨-, h⟩
    · rw [h] at hb
      cases hb
    · exact h
  · intro f h1 h2
    refine List.Pairwise.imp_of_mem (R := fun _ _ => True) (fun _ hy _ _ hf => ?_)
      (List.pairwise_of_forall (fun _ _ => trivial))
    rcases hfate _ hy with h | ⟨h, -⟩
    · exact h1 (hf.symm.trans h)
    · exact h2 (hf.symm.trans h)

end Accounts

def Accounted (part text visible held part' : JsString) : Prop := ∃ l, Accounts part text visible held part' l

namespace Accounted

theorem append {part part' part'' a b va vb w : JsString} (hl : Accounted part a va [] part')
    (hm : Accounted part' b vb w part'') : Accounted part (a ++ b) (va ++ vb) w part'' := by
  obtain ⟨l, hl⟩ := hl
  obtain ⟨m, hm⟩ := hm
  exact ⟨l ++ m, hl.append hm⟩

theorem settle {part part' part'' a b va vb w w' : JsString} (hl : Accounted part a va w part')
    (hm : Accounted part' (w ++ b) vb w' part'') : Accounted part (a ++ b) (va ++ vb) w' part'' := by
  obtain ⟨l, hl⟩ := hl
  obtain ⟨m, hm⟩ := hm
  exact ⟨_, hl.settle hm⟩

theorem nil (part : JsString) : Accounted part [] [] [] part := ⟨[], .nil part⟩

theorem emitted (part text : JsString) : Accounted part text text [] part :=
  ⟨_, .uniform (f := .emitted) (by decide) ⟨[], by simp, rfl⟩ ⟨[], by simp, by simp⟩⟩

theorem held (part text : JsString) : Accounted part text [] text part :=
  ⟨_, .uniform (f := .held) (by decide) ⟨[], by simp, rfl⟩ ⟨[], by simp, by simp⟩⟩

theorem query (part : JsString) {q : JsString} (hq : q ∈ deviceAttributeQueries) : Accounted part q [] [] part :=
  ⟨_, .uniform (f := .query) (by decide) ⟨[q], by simpa using hq, by simp⟩ ⟨[], by simp, by simp⟩⟩

theorem osc {part text : JsString} (h : IsOsc (part ++ text)) : Accounted part text [] [] [] :=
  ⟨_, .uniform (f := .osc) (by decide) ⟨[], by simp, rfl⟩ ⟨[part ++ text], by simpa using h, by simp⟩⟩

theorem discarded (part text : JsString) : Accounted part text [] [] (part ++ text) :=
  ⟨_, .uniform (f := .osc) (by decide) ⟨[], by simp, rfl⟩ ⟨[], by simp, by simp⟩⟩

end Accounted

/-! ## Ground text -/

theorem queryAt_some {text rest : JsString} (h : queryAt text = some rest) :
    ∃ q ∈ deviceAttributeQueries, text = q ++ rest := by
  unfold queryAt at h
  split at h
  · rename_i r hr
    cases h
    exact ⟨_, by decide, after?_some hr⟩
  · exact ⟨_, by decide, after?_some h⟩

theorem answer_accounted (part u : JsString) : Accounted part u (answerDeviceAttributeQueries (P := P) u).1 [] part := by
  fun_induction answerDeviceAttributeQueries (P := P) u with
  | case1 => exact .nil part
  | case2 c cs rest hq _ r ih =>
    obtain ⟨q, hmem, ht⟩ := queryAt_some hq
    rw [ht]
    exact (Accounted.query part hmem).append ih
  | case3 c cs hq r ih => exact (Accounted.emitted part [c]).append ih

theorem Accounted.strip {part run visible held part' : JsString}
    (h : Accounted part (run.filter (· != bel)) visible held part') : Accounted part run visible held part' := by
  have hs : Accounted part run [] (run.filter (· != bel)) part := ⟨_, Accounts.stripped part run⟩
  have := hs.settle (b := []) (by rw [List.append_nil]; exact h)
  rwa [List.append_nil] at this

theorem readGap_accounted (part gap : JsString) : Accounted part gap (readGap (P := P) gap).visibleData [] part := by
  rw [show (readGap (P := P) gap).visibleData = (answerDeviceAttributeQueries (P := P) (gap.filter (· != bel))).1 by
    rw [readGap, strip_fst]]
  exact (answer_accounted part _).strip

theorem readTail_accounted (part : JsString) (t : τ) (text : JsString) :
    Accounted part text (readTail (P := P) t text).2.visibleData (readTail (P := P) t text).1.pending part := by
  set u := text.filter (· != bel) with hu
  obtain ⟨c, hc⟩ := takeSuffix_suffix u
  have htake : u.take (u.length - (takeDeviceAttributePendingSuffix u).length) = c := by
    have hlen : u.length = c.length + (takeDeviceAttributePendingSuffix u).length := by
      rw [← List.length_append, hc]
    conv_lhs => rw [← hc]
    rw [List.take_append_of_le_length (by rw [hc]; omega), List.take_of_length_le (by rw [hc]; omega)]
  have hvisible : (readTail (P := P) t text).2.visibleData = (answerDeviceAttributeQueries (P := P) c).1 := by
    rw [readTail]
    simp only [strip_fst, ← hu, htake]
  have hpending : (readTail (P := P) t text).1.pending = takeDeviceAttributePendingSuffix u := by
    rw [readTail]
    simp only [strip_fst, ← hu]
  have hread := (answer_accounted (P := P) part c).append (Accounted.held part (takeDeviceAttributePendingSuffix u))
  rw [hc, List.append_nil, hu] at hread
  rw [hvisible, hpending, hu]
  exact hread.strip

/-! ## String controls -/

def Mode.Discards : Mode → JsString → Prop
  | .discarding _, part => ∃ i b, part = i ++ b ∧ IsIntroducer i ∧ stringControlKind i = .osc ∧
      ∀ c ∈ b, isStringEnd .osc c = false
  | _,             part => part = []

theorem streamed_accounted (part : JsString) (t : τ) (kind : StringControlKind) (text : JsString) :
    Accounted part text (beginForwarding t kind text).2 (heldEscOf text) part := by
  show Accounted part text (if endsWithEsc text then text.dropLast else text) (if endsWithEsc text then [esc] else []) part
  by_cases he : endsWithEsc text = true
  · obtain ⟨t', rfl⟩ := endsWithEsc_iff.mp he
    rw [if_pos he, if_pos he, List.dropLast_concat]
    have := (Accounted.emitted part t').append (Accounted.held part [esc])
    rwa [List.append_nil] at this
  · rw [if_neg he, if_neg he]
    exact .emitted part text

theorem discarded_accounted (part : JsString) {body : JsString} (he : findStringControlEnd .osc body = none) :
    ∃ b, (∀ c ∈ b, isStringEnd .osc c = false) ∧ Accounted part body [] (heldEscOf body) (part ++ b) := by
  obtain ⟨b, hb, hfree⟩ := findStringControlEnd_none he
  have := (Accounted.discarded part b).append (Accounted.held (part ++ b) (heldEscOf body))
  rw [← hb] at this
  exact ⟨b, hfree, this⟩

theorem isOsc_of_end {i b : JsString} (hi : IsIntroducer i) (hk : stringControlKind i = .osc)
    (hb : ∀ c ∈ b, isStringEnd .osc c = false) {text : JsString} {e : StringControlEnd}
    (he : findStringControlEnd .osc text = some e) : IsOsc (i ++ b ++ (e.payload ++ e.ending)) := by
  obtain ⟨-, hp, hs⟩ := findStringControlEnd_some he
  refine ⟨i, b ++ e.payload, e.ending, by simp, hi, hk, ?_, ?_⟩
  · intro c hc
    rcases List.mem_append.mp hc with hc | hc
    · exact hb c hc
    · exact hp c hc
  · cases hs with
    | char hc hne => exact .inr (.inr ⟨_, rfl, hc, hne⟩)
    | st => exact .inr (.inl rfl)
    | cancel _ => exact .inl rfl

theorem route_accounted {h : Handler P τ} {t t' : τ} {m : Introduced} {e : StringControlEnd} {visible : JsString}
    {events : List (TerminalProtocolEvent P)} (hi : IsIntroducer m.introducer)
    (he : findStringControlEnd (stringControlKind m.introducer) m.rest = some e)
    (hr : routeControl h t m e = (t', some (visible, events))) :
    Accounted [] (m.introducer ++ (e.payload ++ e.ending)) visible [] [] := by
  have hcase : visible = m.introducer ++ (e.payload ++ e.ending) ∨
      (visible = [] ∧ stringControlKind m.introducer = .osc) := by
    unfold routeControl at hr
    by_cases hk : stringControlKind m.introducer = .osc
    · simp only [hk, ne_eq, not_true, if_false] at hr
      split at hr
      · split at hr <;> cases hr
        · exact .inl rfl
        · exact .inr ⟨rfl, hk⟩
      · split at hr <;> cases hr
        · exact .inl rfl
        · exact .inr ⟨rfl, hk⟩
    · simp only [ne_eq, hk, not_false_eq_true, if_true] at hr
      cases hr
      exact .inl rfl
  rcases hcase with rfl | ⟨rfl, hk⟩
  · exact .emitted [] _
  · rw [hk] at he
    refine .osc ?_
    have := isOsc_of_end (b := []) hi hk (by simp) he
    rwa [List.append_nil] at this

/-! ## A call -/

/-- **A reading from ground accounts for its text.** -/
theorem groundLoop_accounted (h : Handler P τ) (text : JsString) : ∀ (t : τ) (em : Emitted P),
    (groundLoop h t text).2 = some em → ∃ part', (groundLoop h t text).1.mode.Discards part' ∧
      Accounted [] text em.visibleData (groundLoop h t text).1.mode.held part' := by
  induction text using scan_induction with
  | tail text hm =>
    intro t em hem
    rw [groundLoop_tail h t hm] at hem ⊢
    cases hem
    exact ⟨[], rfl, readTail_accounted [] t text⟩
  | opened text m hm he =>
    intro t em hem
    obtain ⟨hi, ht⟩ := introducerScan_some hm
    rw [groundLoop_opened h t hm he] at hem ⊢
    cases hem
    have hgap := readGap_accounted (P := P) [] m.gap
    have hheld := holdOpen_held t m.introducer m.rest
    generalize holdOpen t m.introducer m.rest = r at hheld ⊢
    rw [ht]
    cases hheld with
    | forwarded hr => exact ⟨[], rfl, hgap.append (streamed_accounted [] t (stringControlKind m.introducer) _)⟩
    | kept hk hr hl => exact ⟨[], rfl, hgap.append (.held [] _)⟩
    | discarded hk hr hl =>
      obtain ⟨b, hb, hacc⟩ := discarded_accounted m.introducer (by rw [← hk]; exact he)
      refine ⟨m.introducer ++ b, ⟨m.introducer, b, rfl, hi, hk, hb⟩, hgap.append ?_⟩
      show Accounted [] (m.introducer ++ m.rest) ([] ++ []) (heldEscOf (m.introducer ++ m.rest)) _
      rw [heldEscOf_introducer hi]
      exact (Accounted.discarded [] m.introducer).append hacc
  | control text m e hm he ih =>
    intro t em hem
    obtain ⟨hi, ht⟩ := introducerScan_some hm
    obtain ⟨hend, -⟩ := findStringControlEnd_some he
    cases hr : routeControl h t m e with
    | mk t' out =>
      cases out with
      | none =>
        rw [groundLoop_threw h t hm he hr] at hem
        cases hem
      | some out =>
        obtain ⟨visible, events⟩ := out
        rw [groundLoop_goes_on h t hm he hr] at hem ⊢
        obtain ⟨em', hem', rfl⟩ := Option.map_eq_some_iff.mp hem
        obtain ⟨part', hpart, hacc⟩ := ih t' em' hem'
        refine ⟨part', hpart, ?_⟩
        have hall := ((readGap_accounted (P := P) [] m.gap).append (route_accounted hi he hr)).append hacc
        show Accounted [] text ((readGap m.gap).visibleData ++ visible ++ em'.visibleData) _ part'
        rw [ht, hend]
        simpa only [List.append_assoc] using hall

/-- **So does a call**, of what was held and what is new. -/
theorem process_accounted (h : Handler P τ) (m : Mode) (t : τ) {part data : JsString}
    {r : TerminalProtocolParseResult P} (hd : m.Discards part) (hr : (process h (m.parser t) data).2 = some r) :
    ∃ part', (process h (m.parser t) data).1.mode.Discards part' ∧
      Accounted part (m.held ++ data) r.visibleData (process h (m.parser t) data).1.mode.held part' := by
  cases m with
  | ground w =>
    cases hd
    rw [process_ground] at hr ⊢
    obtain ⟨em, hem, rfl⟩ := Option.map_eq_some_iff.mp hr
    exact groundLoop_accounted h (w ++ data) t em hem
  | forwarding kind held =>
    cases hd
    cases he : findStringControlEnd kind (held ++ data) with
    | none =>
      rw [process_forwarding_open h t he] at hr ⊢
      cases hr
      exact ⟨[], rfl, streamed_accounted [] t kind _⟩
    | some e =>
      obtain ⟨hend, -⟩ := findStringControlEnd_some he
      rw [process_forwarding_end h t he] at hr ⊢
      obtain ⟨em, hem, rfl⟩ := Option.map_eq_some_iff.mp hr
      obtain ⟨part', hpart, hacc⟩ := groundLoop_accounted h e.rest t em hem
      refine ⟨part', hpart, ?_⟩
      have hall := (Accounted.emitted [] (e.payload ++ e.ending)).append hacc
      show Accounted [] (held ++ data) _ _ _
      rw [hend, ← List.append_assoc]
      exact hall
  | discarding held =>
    obtain ⟨i, b, rfl, hi, hk, hb⟩ := hd
    cases he : findStringControlEnd .osc (held ++ data) with
    | none =>
      rw [process_discarding_open h t he] at hr ⊢
      cases hr
      obtain ⟨b', hb', hacc⟩ := discarded_accounted (i ++ b) he
      refine ⟨i ++ b ++ b', ⟨i, b ++ b', List.append_assoc _ _ _, hi, hk, fun c hc => ?_⟩, hacc⟩
      rcases List.mem_append.mp hc with hc | hc
      · exact hb c hc
      · exact hb' c hc
    | some e =>
      obtain ⟨hend, -⟩ := findStringControlEnd_some he
      rw [process_discarding_end h t he] at hr ⊢
      obtain ⟨em, hem, rfl⟩ := Option.map_eq_some_iff.mp hr
      obtain ⟨part', hpart, hacc⟩ := groundLoop_accounted h e.rest t em hem
      refine ⟨part', hpart, ?_⟩
      have hall := (Accounted.osc (isOsc_of_end hi hk hb he)).append hacc
      show Accounted _ (held ++ data) _ _ _
      rw [hend, ← List.append_assoc]
      exact hall

/-! ## The table of `OSC 99` -/

theorem groundLoop_table {h : Handler P τ} {I : τ → Prop} (hI : ∀ t c, I t → I (h.parse t c).1) (text : JsString) :
    ∀ t, I t → I (groundLoop h t text).1.osc99Pending := by
  induction text using scan_induction with
  | tail text hm =>
    intro t ht
    rw [groundLoop_tail h t hm]
    exact ht
  | opened text m hm he =>
    intro t ht
    rw [groundLoop_opened h t hm he]
    have hheld := holdOpen_held t m.introducer m.rest
    generalize holdOpen t m.introducer m.rest = r at hheld ⊢
    cases hheld <;> exact ht
  | control text m e hm he ih =>
    intro t ht
    have hroute : I (routeControl h t m e).1 := by
      unfold routeControl
      simp only
      split
      · exact ht
      · split
        · exact ht
        · have := hI t e.payload ht
          split <;> simp_all
    rw [groundLoop_control h t hm he]
    split
    · rename_i t' hr
      rw [hr] at hroute
      exact hroute
    · rename_i t' visible events hr
      rw [hr] at hroute
      exact ih t' hroute

theorem process_table {h : Handler P τ} {I : τ → Prop} (hI : ∀ t c, I t → I (h.parse t c).1) (m : Mode) (t : τ)
    (data : JsString) (ht : I t) : I (process h (m.parser t) data).1.osc99Pending := by
  cases m with
  | ground w =>
    rw [process_ground]
    exact groundLoop_table hI _ t ht
  | forwarding kind held =>
    cases he : findStringControlEnd kind (held ++ data) with
    | none =>
      rw [process_forwarding_open h t he]
      exact ht
    | some e =>
      rw [process_forwarding_end h t he]
      exact groundLoop_table hI _ t ht
  | discarding held =>
    cases he : findStringControlEnd .osc (held ++ data) with
    | none =>
      rw [process_discarding_open h t he]
      exact ht
    | some e =>
      rw [process_discarding_end h t he]
      exact groundLoop_table hI _ t ht

def EntryBounded (e : Osc99PendingNotification) : Prop :=
  (codePoints e.title).length ≤ osc99PendingTitleLimit ∧ (codePoints e.body).length ≤ osc99PendingBodyLimit

structure TableBounded (table : Osc99Pending) : Prop where
  ids     : table.length ≤ osc99MaxPendingIds
  entries : ∀ e ∈ table, EntryBounded e.2

theorem TableBounded.filter {table : Osc99Pending} (h : TableBounded table) (p : JsString × Osc99PendingNotification → Bool) :
    TableBounded (table.filter p) :=
  ⟨le_trans (List.length_filter_le _ _) h.ids, fun e he => h.entries e (List.mem_filter.mp he).1⟩

variable {table : Osc99Pending} {id : Option JsString}

theorem osc99Target_bounded {now : Int} (h : TableBounded table) :
    TableBounded (osc99Target now table id).1 ∧ EntryBounded (osc99Target now table id).2 := by
  have hfresh : EntryBounded ⟨[], [], now⟩ := ⟨Nat.zero_le _, Nat.zero_le _⟩
  cases id with
  | none => exact ⟨h, hfresh⟩
  | some id =>
    unfold osc99Target
    simp only
    cases hl : table.lookup id with
    | some pending =>
      refine ⟨h, ?_⟩
      obtain ⟨l₁, l₂, rfl, -⟩ := List.lookup_eq_some_iff.mp hl
      exact h.entries (id, pending) (by simp)
    | none =>
      refine ⟨⟨?_, ?_⟩, hfresh⟩
      · simp only [enforceOsc99PendingCap, List.length_drop]
        omega
      · intro e he
        rcases List.mem_append.mp (List.mem_of_mem_drop he) with he | he
        · exact h.entries e he
        · rw [List.mem_singleton.mp he]
          exact hfresh

theorem osc99Store_bounded {target : Osc99PendingNotification} (h : TableBounded table) (ht : EntryBounded target) :
    TableBounded (osc99Store table id target) := by
  cases id with
  | none => exact h
  | some id =>
    refine ⟨by simpa [osc99Store] using h.ids, fun e he => ?_⟩
    obtain ⟨e', he', rfl⟩ := List.mem_map.mp he
    split
    · exact ht
    · exact h.entries e' he'

theorem osc99Delete_bounded (h : TableBounded table) :
    TableBounded (osc99Delete table id) := by
  cases id with
  | none => exact h
  | some id => exact h.filter _

theorem osc99Append_bounded {now : Int} {payloadType payload : JsString} {done : Bool} (h : TableBounded table) :
    TableBounded (osc99Append (P := P) now table id payloadType done payload).1 := by
  obtain ⟨h1, h2, h3⟩ : TableBounded (osc99Target now table id).1 ∧ EntryBounded (osc99Target now table id).2 :=
    osc99Target_bounded h
  unfold osc99Append
  simp only
  have htarget : EntryBounded
      (if payloadType = units "title" then
        ⟨appendLimited (osc99Target now table id).2.title payload osc99PendingTitleLimit,
          (osc99Target now table id).2.body, now⟩
      else if payloadType = units "body" then
        ⟨(osc99Target now table id).2.title,
          appendLimited (osc99Target now table id).2.body payload osc99PendingBodyLimit, now⟩
      else ⟨(osc99Target now table id).2.title, (osc99Target now table id).2.body, now⟩) := by
    split
    · exact ⟨codePoints_truncateText _ _, h3⟩
    · split
      · exact ⟨h2, codePoints_truncateText _ _⟩
      · exact ⟨h2, h3⟩
  split
  · exact osc99Store_bounded h1 htarget
  · exact osc99Delete_bounded (osc99Store_bounded h1 htarget)

/-- **The table stays within its bounds**, whatever a program reports. -/
theorem parseOsc_bounded (R : Readers P) (now : Int) (table : Osc99Pending) (content : JsString)
    (h : TableBounded table) : TableBounded (parseOsc R now table content).1 := by
  have h99 : TableBounded (parseOsc99 R now table content).1 := by
    have hexp : TableBounded (expireOsc99Pending now table) := h.filter _
    unfold parseOsc99
    simp only
    split
    · exact hexp
    · split
      · exact hexp
      · split
        · exact hexp
        · split
          · exact hexp
          · exact osc99Append_bounded hexp
  have hite : ∀ {b : Bool} {x y : Osc99Pending × Parsed P}, TableBounded x.1 → TableBounded y.1 →
      TableBounded (if b then x else y).1 := by
    intro b x y hx hy
    cases b
    · exact hy
    · exact hx
  unfold parseOsc
  refine hite h (hite h (hite h (hite h (hite h (hite h (hite h (hite h99 (hite h ?_))))))))
  by_cases h367 : content = units "367"
  · rw [if_pos h367]
    exact h
  rw [if_neg h367]
  cases after? (units "367;") content with
  | some payload => exact h
  | none =>
    refine hite h ?_
    cases parseColorQuery R content with
    | some events => exact h
    | none => exact hite h h

/-! ## Whole runs -/

/-- The `visibleData` of the calls that returned. -/
def visibleOf (results : List (Option (TerminalProtocolParseResult P))) : JsString :=
  (results.map (fun r => (r.map (·.visibleData)).getD [])).flatten

/-- At most one of `pending`, `forwarding` and `discarding` is set, and each is within its bound, as is the table. -/
structure Parser.Bounded (p : Parser Osc99Pending) : Prop where
  forwarding : p.forwarding ≠ none → p.pending = [] ∧ p.discarding = none
  discarding : p.discarding ≠ none → p.pending = [] ∧ p.forwarding = none
  pending    : p.pending.length ≤ oscIncompleteLimit
  heldEsc    : ∀ f, p.forwarding = some f → f.heldEsc.length ≤ 1
  discardEsc : ∀ heldEsc, p.discarding = some heldEsc → heldEsc.length ≤ 1
  table      : TableBounded p.osc99Pending

theorem Parser.bounded_of_mode {p : Parser Osc99Pending} (hp : p.Exclusive) (hw : p.mode.WellHeld)
    (ht : TableBounded p.osc99Pending) : p.Bounded := by
  obtain ⟨m, t, rfl⟩ : ∃ m t, p = Mode.parser t m := ⟨p.mode, p.osc99Pending, hp⟩
  rw [Mode.mode_parser] at hw
  rw [Mode.osc99Pending_parser] at ht
  have hlen : ∀ {w : JsString}, (w = [] ∨ w = [esc]) → w.length ≤ 1 := by
    rintro w (rfl | rfl) <;> decide
  have hq : ∀ w ∈ deviceAttributePendingSuffixes, w.length ≤ oscIncompleteLimit := by decide
  cases hw with
  | none => exact ⟨by simp [Mode.parser], by simp [Mode.parser],
      Nat.zero_le _, by simp [Mode.parser], by simp [Mode.parser], ht⟩
  | query hw => exact ⟨by simp [Mode.parser], by simp [Mode.parser], hq _ hw, by simp [Mode.parser], by simp [Mode.parser], ht⟩
  | osc _ _ _ hl => exact ⟨by simp [Mode.parser], by simp [Mode.parser], hl, by simp [Mode.parser], by simp [Mode.parser], ht⟩
  | forwarding hw =>
    refine ⟨by simp [Mode.parser], by simp [Mode.parser], Nat.zero_le _, ?_, by simp [Mode.parser], ht⟩
    rintro f hf
    cases hf
    exact hlen hw
  | discarding hw =>
    refine ⟨by simp [Mode.parser], by simp [Mode.parser], Nat.zero_le _, by simp [Mode.parser], ?_, ht⟩
    rintro e he
    cases he
    exact hlen hw

/-- Every call of a list reads, to its end, only OSCs that `parseOsc` does not throw on: a condition on the parser before
the call, and on its chunk. -/
def AllReadable (R : Readers P) : Parser Osc99Pending → List (Int × JsString) → Prop
  | _, []                    => True
  | p, (now, data) :: chunks =>
    p.mode.Ahead (Readable oscThrows) data ∧ AllReadable R (process (oscHandler R now) p data).1 chunks

theorem calls_accounted (R : Readers P) : ∀ (chunks : List (Int × JsString)) (p : Parser Osc99Pending) (part : JsString),
    p.Exclusive → p.mode.Discards part → AllReadable R p chunks → ∃ part', (calls R p chunks).1.mode.Discards part' ∧
      ∀ {a v : JsString}, Accounted [] a v p.mode.held part →
        Accounted [] (a ++ streamOf chunks) (v ++ visibleOf (calls R p chunks).2) (calls R p chunks).1.mode.held part'
  | [], p, part, _, hd, _ => ⟨part, hd, fun h => by simpa [streamOf, visibleOf, calls] using h⟩
  | (now, data) :: chunks, p, part, hp, hd, hread => by
    obtain ⟨hnow, hlater⟩ := hread
    have hret : (process (oscHandler R now) p data).2 ≠ none := by
      rw [hp, process_returns]
      exact hnow
    obtain ⟨r, hr⟩ := Option.ne_none_iff_exists'.mp hret
    obtain ⟨part₁, hd₁, hacc₁⟩ := process_accounted (oscHandler R now) p.mode p.osc99Pending hd (by rw [← hp]; exact hr)
    rw [← hp] at hd₁ hacc₁
    obtain ⟨part₂, hd₂, hacc₂⟩ := calls_accounted R chunks _ part₁ (process_exclusive _ p data hp) hd₁ hlater
    refine ⟨part₂, hd₂, fun {a v} h => ?_⟩
    have hall := hacc₂ (h.settle hacc₁)
    have hvisible : visibleOf (calls R p ((now, data) :: chunks)).2 =
        r.visibleData ++ visibleOf (calls R (process (oscHandler R now) p data).1 chunks).2 := by
      show ((process (oscHandler R now) p data).2.map (·.visibleData)).getD [] ++ _ = _
      rw [hr]
      rfl
    rw [hvisible, show streamOf ((now, data) :: chunks) = data ++ streamOf chunks from rfl, ← List.append_assoc,
      ← List.append_assoc]
    exact hall

/-- **After every call the parser is within its bounds; and in every run whose calls read only OSCs that `parseOsc` does
not throw on, every character has exactly one fate**, the visible ones in the order they came. -/
theorem parser_bounded_accounted (R : Readers P) (chunks : List (Int × JsString)) :
    (calls R .fresh chunks).1.Bounded ∧
      (AllReadable R .fresh chunks → ∃ part, (calls R .fresh chunks).1.mode.Discards part ∧
        Accounted [] (streamOf chunks) (visibleOf (calls R .fresh chunks).2) (calls R .fresh chunks).1.mode.held
          part) := by
  obtain ⟨hexc, hheld⟩ := calls_fresh R chunks
  constructor
  · refine Parser.bounded_of_mode hexc hheld ?_
    refine (Mealy.feed_invariant (I := fun p : Parser Osc99Pending => p.Exclusive ∧ TableBounded p.osc99Pending) ?_ chunks
      Parser.fresh ⟨rfl, ⟨Nat.zero_le _, by simp [Parser.fresh, Parser.ground]⟩⟩).2
    rintro p ⟨now, data⟩ ⟨hp, ht⟩
    refine ⟨process_exclusive _ p data hp, ?_⟩
    rw [hp]
    exact process_table (parseOsc_bounded R now) p.mode p.osc99Pending data ht
  · intro hread
    obtain ⟨part, hd, hacc⟩ := calls_accounted R chunks .fresh [] rfl rfl hread
    exact ⟨part, hd, hacc (Accounted.nil [])⟩

theorem parser_bounded_accounted_sample :
    AllReadable noReaders .fresh [(0, [0x61, 0x1b]), (1, units "]0;x" ++ [0x07, 0x07, 0x62])] ∧
      ∃ part, Accounted [] ([0x61, 0x1b] ++ (units "]0;x" ++ [0x07, 0x07, 0x62])) [0x61, 0x62] [] part := by
  have hread : AllReadable noReaders .fresh [(0, [0x61, 0x1b]), (1, units "]0;x" ++ [0x07, 0x07, 0x62])] := by
    have h₁ : Clean (Readable oscThrows) ([] ++ [0x61, 0x1b]) := by decide +kernel
    have hmode : (process (oscHandler noReaders 0) .fresh [0x61, 0x1b]).1.mode = .ground [0x1b] := by decide +kernel
    have h₂ : Clean (Readable oscThrows) ([0x1b] ++ (units "]0;x" ++ [0x07, 0x07, 0x62])) := by decide +kernel
    exact ⟨h₁, by rw [hmode]; exact h₂, trivial⟩
  obtain ⟨part, -, hacc⟩ := (parser_bounded_accounted noReaders _).2 hread
  have hvisible : visibleOf (calls noReaders .fresh [(0, [0x61, 0x1b]), (1, units "]0;x" ++ [0x07, 0x07, 0x62])]).2 =
      [0x61, 0x62] := by decide +kernel
  have hheld : (calls noReaders .fresh [(0, [0x61, 0x1b]), (1, units "]0;x" ++ [0x07, 0x07, 0x62])]).1.mode.held = [] := by
    decide +kernel
  rw [hvisible, hheld] at hacc
  exact ⟨hread, part, hacc⟩

theorem isOsc_head {o : JsString} (h : IsOsc o) : o.head? = some esc ∨ ∃ c, o.head? = some c ∧ isC1Introducer c = true := by
  obtain ⟨i, payload, ending, rfl, hi, -⟩ := h
  rcases hi with ⟨c, hc, rfl⟩ | ⟨d, hd, rfl⟩
  · exact .inr ⟨c, rfl, hc⟩
  · exact .inl rfl

/-- The text before an `OSC 9;4;valueOf` is lost with the call that throws: it is neither emitted nor held, and it is no
bell, no query and no part of an OSC. -/
theorem parser_loses_text_on_valueOf :
    ¬ ∃ part, (calls noReaders .fresh [(0, [0x61, 0x1b] ++ units "]9;4;valueOf" ++ [0x07])]).1.mode.Discards part ∧
      Accounted [] (streamOf [(0, [0x61, 0x1b] ++ units "]9;4;valueOf" ++ [0x07])])
        (visibleOf (calls noReaders .fresh [(0, [0x61, 0x1b] ++ units "]9;4;valueOf" ++ [0x07])]).2)
        (calls noReaders .fresh [(0, [0x61, 0x1b] ++ units "]9;4;valueOf" ++ [0x07])]).1.mode.held part := by
  rintro ⟨part, hd, l, hl⟩
  have hmode : (calls noReaders .fresh [(0, [0x61, 0x1b] ++ units "]9;4;valueOf" ++ [0x07])]).1.mode = .ground [] := by
    decide +kernel
  have hvisible : visibleOf (calls noReaders .fresh [(0, [0x61, 0x1b] ++ units "]9;4;valueOf" ++ [0x07])]).2 = [] := by
    decide +kernel
  rw [hmode] at hd hl
  rw [hvisible] at hl
  cases hd
  cases l with
  | nil => exact absurd hl.chars (by decide)
  | cons e l =>
    obtain ⟨c, f⟩ := e
    have hc : c = 0x61 := (List.cons.inj hl.chars).1
    subst hc
    -- the fate of the first character
    cases f with
    | emitted =>
      have := hl.visible
      rw [Ledger.word_cons, if_pos rfl] at this
      cases this
    | held =>
      have := hl.held
      rw [Ledger.word_cons, if_pos rfl] at this
      cases this
    | bell => exact absurd (hl.bells (0x61, .bell) (by simp) rfl) (by decide)
    | query =>
      obtain ⟨qs, hqs, hword⟩ := hl.queries
      rw [Ledger.word_cons, if_pos rfl] at hword
      have hmem : (0x61 : UInt16) ∈ qs.flatten := by
        rw [← hword]
        simp
      obtain ⟨q, hq, hin⟩ := List.mem_flatten.mp hmem
      have hall : ∀ q ∈ deviceAttributeQueries, (0x61 : UInt16) ∉ q := by decide
      exact hall q (hqs q hq) hin
    | osc =>
      obtain ⟨os, hos, hword⟩ := hl.oscs
      rw [Ledger.word_cons, if_pos rfl, List.append_nil] at hword
      cases os with
      | nil => cases hword
      | cons o os =>
        have hhead := isOsc_head (hos o (by simp))
        cases o with
        | nil => simp at hhead
        | cons d ds =>
          have hd : d = 0x61 := by
            have := congrArg List.head? hword
            simpa using this.symm
          subst hd
          revert hhead
          simp only [List.head?_cons, Option.some.injEq, exists_eq_left']
          decide

end Term
end Dormouse

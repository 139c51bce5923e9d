import Dormouse.TermScan
import Dormouse.TermHandler
/-!
# TermFilter — the parser and the filter frame alike

Over a stream whose ground text has no bell and no `CSI > q`, a parser that has read part of it is a filter that has
read the same part, less the characters the parser holds (`process_reads`): each call's `textData` is what the filter's
machine writes between the two.  So the two write the same text, whatever the partitions.  One call can fail to return:
where `parseOsc` throws.
-/
namespace Dormouse
namespace Term

variable {P : Payloads} {τ : Type}

/-! ## The conditions -/

/-- `CSI > q`, in its two spellings. -/
def deviceAttributeQueries : List JsString := [[0x1b, 0x5b, 0x3e, 0x71], [0x9b, 0x3e, 0x71]]

def QuietRun (run : JsString) : Prop := bel ∉ run ∧ ∀ q ∈ deviceAttributeQueries, ¬ q <:+: run

def Quiet : Span → Prop
  | .ground run => QuietRun run
  | _           => True

def Readable (throws : JsString → Bool) : Span → Prop
  | .control introducer payload _ cancelled =>
    stringControlKind introducer = .osc → cancelled = false → throws payload = false
  | _ => True

instance (run : JsString) : Decidable (QuietRun run) :=
  inferInstanceAs (Decidable (bel ∉ run ∧ ∀ q ∈ deviceAttributeQueries, ¬ q <:+: run))

instance : DecidablePred Quiet
  | .ground run      => inferInstanceAs (Decidable (QuietRun run))
  | .control _ _ _ _ => .isTrue trivial
  | .opened _ _      => .isTrue trivial

instance (throws : JsString → Bool) : DecidablePred (Readable throws)
  | .ground _                               => .isTrue trivial
  | .opened _ _                             => .isTrue trivial
  | .control introducer payload _ cancelled => inferInstanceAs (Decidable
      (stringControlKind introducer = .osc → cancelled = false → throws payload = false))

theorem QuietRun.infix {a b c : JsString} (h : QuietRun (a ++ b ++ c)) : QuietRun b :=
  ⟨fun hb => h.1 (by simp [hb]), fun q hq hin => h.2 q hq (hin.trans ⟨a, c, rfl⟩)⟩

theorem QuietRun.append_esc {a : JsString} (h : QuietRun a) : QuietRun (a ++ [esc]) := by
  refine ⟨fun hb => ?_, fun q hq hin => ?_⟩
  · rcases List.mem_append.mp hb with hb | hb
    · exact h.1 hb
    · exact absurd (List.mem_singleton.mp hb) (by decide)
  · obtain ⟨l, r, hlr⟩ := hin
    rcases List.eq_nil_or_concat r with rfl | ⟨r', x, rfl⟩
    · -- a query ends in `q`
      have hlast := congrArg List.getLast? hlr
      simp only [deviceAttributeQueries, List.mem_cons, List.not_mem_nil, or_false] at hq
      rcases hq with rfl | rfl
      · have : (0x71 : UInt16) = esc := by simpa using hlast
        exact absurd this (by decide)
      · have : (0x71 : UInt16) = esc := by simpa using hlast
        exact absurd this (by decide)
    · have hcut : l ++ q ++ r' = a := by
        have := congrArg List.dropLast hlr
        simpa [← List.append_assoc] using this
      exact h.2 q hq ⟨l, r', hcut⟩

theorem filter_quiet {a : JsString} (h : bel ∉ a) : a.filter (· != bel) = a :=
  List.filter_eq_self.mpr (fun c hc => by
    have : c ≠ bel := by
      rintro rfl
      exact h hc
    simpa using this)

theorem quiet_cuttable (throws : JsString → Bool) : Cuttable (fun s => Quiet s ∧ Readable throws s) where
  nil := by
    refine ⟨⟨by simp, fun q hq hin => ?_⟩, trivial⟩
    rw [List.infix_nil.mp hin] at hq
    exact absurd hq (by decide)
  held {a b} h := by
    have hq : QuietRun (a ++ b) := h.1
    rw [filter_quiet (fun hb => hq.1 (by simp [hb]))]
    obtain ⟨c, hc⟩ := takeSuffix_suffix a
    refine ⟨?_, trivial⟩
    have : QuietRun (c ++ (takeDeviceAttributePendingSuffix a ++ b) ++ []) := by
      rw [List.append_nil, ← List.append_assoc, hc]
      exact hq
    exact this.infix
  straddle {a b d} h hd hs := by
    have hq : QuietRun (a ++ d :: b) := h.1
    rw [filter_quiet (fun hb => hq.1 (by simp [hb]))] at hs
    obtain ⟨c, hc⟩ := takeSuffix_suffix a
    rw [hs] at hc
    exact endsWithEsc_iff.mpr ⟨c, hc.symm⟩

/-! ## A call returns unless `parseOsc` throws -/

variable {e : StringControlEnd}

theorem routeControl_readable {h : Handler P τ} {t : τ} {m : Introduced} :
    (routeControl h t m e).2 ≠ none ↔ Readable h.throws (.control m.introducer e.payload e.ending e.cancelled) := by
  unfold routeControl Readable
  by_cases hk : stringControlKind m.introducer = .osc
  · cases hcan : e.cancelled with
    | true => simp [hk]
    | false =>
      simp only [hk, ne_eq, not_true, if_false, Bool.false_eq_true, true_implies]
      cases ht : h.throws e.payload with
      | true =>
        have := h.parse_throws (t := t) ht
        cases hp : h.parse t e.payload with
        | mk t' r =>
          rw [hp] at this
          cases this
          simp
      | false =>
        cases hc : h.claims e.payload with
        | true =>
          obtain ⟨events, he⟩ := h.parse_claims (t := t) ht hc
          cases hp : h.parse t e.payload with
          | mk t' r =>
            rw [hp] at he
            cases he
            simp
        | false =>
          rw [h.parse_passed ht hc]
          simp
  · simp [hk]

/-- **A reading returns exactly when it can read every OSC that ended.** -/
theorem groundLoop_returns (h : Handler P τ) (text : JsString) :
    ∀ t, (groundLoop h t text).2 ≠ none ↔ Clean (Readable h.throws) text := by
  induction text using scan_induction with
  | tail text hm =>
    intro t
    rw [groundLoop_tail h t hm]
    simp only [ne_eq, reduceCtorEq, not_false_eq_true, true_iff]
    exact .of_ground hm trivial
  | opened text m hm he =>
    intro t
    rw [groundLoop_opened h t hm he]
    simp only [ne_eq, reduceCtorEq, not_false_eq_true, true_iff]
    intro s hs
    rw [scan_opened hm he] at hs
    simp only [List.mem_cons, List.not_mem_nil, or_false] at hs
    rcases hs with rfl | rfl <;> trivial
  | control text m e hm he ih =>
    intro t
    rw [clean_control hm he, ← routeControl_readable (h := h) (t := t), groundLoop_control h t hm he]
    cases hr : routeControl h t m e with
    | mk t' out =>
      cases out with
      | none => simp
      | some out =>
        obtain ⟨visible, events⟩ := out
        simp only [ne_eq, Option.map_eq_none_iff, reduceCtorEq, not_false_eq_true, true_and]
        rw [← ne_eq, ih t']
        exact ⟨fun hc => ⟨trivial, hc⟩, fun hc => hc.2⟩

theorem process_returns (h : Handler P τ) (m : Mode) (t : τ) (data : JsString) :
    (process h (m.parser t) data).2 ≠ none ↔ m.Ahead (Readable h.throws) data := by
  cases m with
  | ground w =>
    rw [process_ground, ne_eq, Option.map_eq_none_iff, ← ne_eq, groundLoop_returns h]
    rfl
  | forwarding kind held =>
    cases he : findStringControlEnd kind (held ++ data) with
    | none =>
      rw [process_forwarding_open h t he]
      simp [Mode.Ahead, he]
    | some e =>
      rw [process_forwarding_end h t he, ne_eq, Option.map_eq_none_iff, ← ne_eq, groundLoop_returns h]
      simp [Mode.Ahead, he]
  | discarding held =>
    cases he : findStringControlEnd .osc (held ++ data) with
    | none =>
      rw [process_discarding_open h t he]
      simp [Mode.Ahead, he]
    | some e =>
      rw [process_discarding_end h t he, ne_eq, Option.map_eq_none_iff, ← ne_eq, groundLoop_returns h]
      simp [Mode.Ahead, he]

theorem readable_left {throws : JsString → Bool} (y text : JsString) :
    Clean (Readable throws) (text ++ y) → Clean (Readable throws) text := by
  induction text using scan_induction with
  | tail text hm => exact fun _ => .of_ground hm trivial
  | opened text m hm he =>
    intro _ s hs
    rw [scan_opened hm he] at hs
    simp only [List.mem_cons, List.not_mem_nil, or_false] at hs
    rcases hs with rfl | rfl <;> trivial
  | control text m e hm he ih =>
    intro hc
    have hc' := (clean_control (introducerScan_append hm y) (findStringControlEnd_append he y)).mp hc
    exact (clean_control hm he).mpr ⟨trivial, hc'.2.1, ih hc'.2.2⟩

theorem Mode.readable_left {throws : JsString → Bool} {m : Mode} {data y : JsString}
    (hc : m.Ahead (Readable throws) (data ++ y)) : m.Ahead (Readable throws) data := by
  cases m with
  | ground w => exact Term.readable_left y _ (by rw [List.append_assoc]; exact hc)
  | forwarding kind held =>
    intro e he
    refine Term.readable_left y _ (hc { e with rest := e.rest ++ y } ?_)
    rw [← List.append_assoc]
    exact findStringControlEnd_append he y
  | discarding held =>
    intro e he
    refine Term.readable_left y _ (hc { e with rest := e.rest ++ y } ?_)
    rw [← List.append_assoc]
    exact findStringControlEnd_append he y

/-! ## What the parser has read, as the filter reads it -/

/-- The state of a filter that has read what the parser of a mode has, less what it holds. -/
def Mode.filterState : Mode → FilterState
  | .ground _          => .ground
  | .forwarding kind _ => .ofKind kind
  | .discarding _      => .osc

def Mode.held : Mode → JsString
  | .ground pending       => pending
  | .forwarding _ heldEsc => heldEsc
  | .discarding heldEsc   => heldEsc

/-- From `q`, the filter writes `out` over `x` but for a rest `w`, which it reads from `q'`. -/
def Reads (q : FilterState) (x : JsString) (q' : FilterState) (w out : JsString) : Prop :=
  ∀ y, filterRun q (x ++ y) = ((filterRun q' (w ++ y)).1, out ++ (filterRun q' (w ++ y)).2)

theorem Reads.trans {q q' q'' : FilterState} {x w w' z out out' : JsString} (h : Reads q x q' w out)
    (h' : Reads q' (w ++ z) q'' w' out') : Reads q (x ++ z) q'' w' (out ++ out') := by
  intro y
  rw [List.append_assoc, h (z ++ y), ← List.append_assoc w, h' y, List.append_assoc]

variable {kind : StringControlKind}

theorem reads_payload {body : JsString} (he : findStringControlEnd kind body = none) :
    Reads (.ofKind kind) body (.ofKind kind) (heldEscOf body) [] := by
  intro y
  obtain ⟨b, hb, hfree⟩ := findStringControlEnd_none he
  have hskip : ∀ {b : JsString}, (∀ c ∈ b, isStringEnd kind c = false) → ∀ x,
      filterRun (.ofKind kind) (b ++ x) = filterRun (.ofKind kind) x := by
    intro b hb x
    rw [filterRun_string, filterRun_string, stringControlEndScan_free hb]
    cases stringControlEndScan kind x <;> rfl
  nth_rewrite 1 [hb]
  rw [List.append_assoc, hskip hfree]
  rfl

variable {text : JsString}

theorem filterRun_end (he : findStringControlEnd kind text = some e) (y : JsString) :
    filterRun (.ofKind kind) (text ++ y) = filterRun .ground (e.rest ++ y) := by
  obtain ⟨ht, hp, hs⟩ := findStringControlEnd_some he
  have hscan : ∀ (c : UInt16) (x : JsString), isStringEnd kind c = true →
      filterRun (.ofKind kind) (e.payload ++ c :: x) = filterRun (.afterEnd c) x := by
    intro c x hc
    rw [filterRun_string, stringControlEndScan_free hp, stringControlEndScan, if_pos hc]
    rfl
  cases hs with
  | char hc hne =>
    rw [ht]
    simp only [List.cons_append, List.nil_append, List.append_assoc]
    rw [hscan _ _ hc, FilterState.afterEnd, if_neg hne]
  | st =>
    rw [ht]
    simp only [List.cons_append, List.nil_append, List.append_assoc]
    rw [hscan _ _ (isStringEnd_esc kind)]
    rfl
  | cancel hd =>
    rw [ht]
    simp only [List.cons_append, List.nil_append, List.append_assoc]
    rw [hscan _ _ (isStringEnd_esc kind), filterRun_ground_esc]
    exact filterRun_stringEscape hd _

theorem reads_end {q : FilterState} {w out : JsString} (he : findStringControlEnd kind text = some e)
    (h : Reads .ground e.rest q w out) :
    Reads (.ofKind kind) text q w out := by
  intro y
  rw [filterRun_end he y]
  exact h y

theorem reads_gap {m : Introduced} {q : FilterState} {w out : JsString} (hm : introducerScan text = some m)
    (h : Reads (.ofKind (stringControlKind m.introducer)) m.rest q w out) :
    Reads .ground text q w (m.gap ++ out) := by
  intro y
  rw [filterRun_found (introducerScan_append hm y)]
  show ((filterRun (.ofKind (stringControlKind m.introducer)) (m.rest ++ y)).1,
    m.gap ++ (filterRun (.ofKind (stringControlKind m.introducer)) (m.rest ++ y)).2) = _
  rw [h y, List.append_assoc]

theorem answer_quiet : ∀ {text : JsString}, (∀ q ∈ deviceAttributeQueries, ¬ q <:+: text) →
    answerDeviceAttributeQueries (P := P) text = (text, [])
  | [], _ => by rw [answerDeviceAttributeQueries]
  | c :: cs, h => by
    rw [answerDeviceAttributeQueries]
    split
    · rename_i rest hq
      unfold queryAt at hq
      split at hq
      · rename_i r hr
        refine absurd ?_ (h [0x1b, 0x5b, 0x3e, 0x71] (by decide))
        exact ⟨[], r, by rw [after?_some hr]; rfl⟩
      · refine absurd ?_ (h [0x9b, 0x3e, 0x71] (by decide))
        exact ⟨[], rest, by rw [after?_some hq]; rfl⟩
    · rw [answer_quiet (fun q hq hin => h q hq (hin.trans ⟨[c], [], by simp⟩))]

theorem readGap_quiet {gap : JsString} (h : QuietRun gap) : readGap (P := P) gap = ⟨gap, gap, []⟩ := by
  simp only [readGap, strip_plain h.1, answer_quiet h.2, List.append_nil]

theorem readTail_quiet (t : τ) (h : QuietRun text) :
    ∃ c, text = c ++ takeDeviceAttributePendingSuffix text ∧
      readTail (P := P) t text = (⟨takeDeviceAttributePendingSuffix text, none, none, t⟩, ⟨c, c, []⟩) := by
  obtain ⟨c, hc⟩ := takeSuffix_suffix text
  refine ⟨c, hc.symm, ?_⟩
  have hlen : text.length = c.length + (takeDeviceAttributePendingSuffix text).length := by
    rw [← List.length_append, hc]
  have htake : text.take (text.length - (takeDeviceAttributePendingSuffix text).length) = c := by
    conv_lhs => rw [← hc]
    rw [List.take_append_of_le_length (by rw [hc]; omega)]
    rw [List.take_of_length_le (by rw [hc]; omega)]
  have hquiet : ∀ q ∈ deviceAttributeQueries, ¬ q <:+: c := by
    intro q hq hin
    exact h.2 q hq (hin.trans ⟨[], takeDeviceAttributePendingSuffix text, by rw [List.nil_append, hc]⟩)
  simp only [readTail, strip_plain h.1, htake, answer_quiet hquiet, List.append_nil]

theorem reads_tail (hm : introducerScan text = none) {c : JsString}
    (hc : text = c ++ takeDeviceAttributePendingSuffix text) :
    Reads .ground text .ground (takeDeviceAttributePendingSuffix text) c := by
  intro y
  have hfree : introducerScan c = none := by
    rw [hc] at hm
    exact introducerScan_none_left hm
  have hesc : takeDeviceAttributePendingSuffix text = [] → endsWithEsc c = false := by
    intro hnil
    by_contra he
    rw [hnil, List.append_nil] at hc
    obtain ⟨u, hu⟩ := endsWithEsc_iff.mp (by simpa using he)
    rw [hc, hu, takeSuffix_esc] at hnil
    cases hnil
  have hhead : ¬ Straddles c (takeDeviceAttributePendingSuffix text ++ y) := by
    rintro ⟨h1, h2⟩
    rcases takeSuffix_mem text with hnil | hmem
    · rw [hesc hnil] at h1
      cases h1
    · have hall : ∀ s ∈ deviceAttributePendingSuffixes, s ≠ [] ∧ s.head?.any isOpener = false := by decide
      obtain ⟨hne, hop⟩ := hall _ hmem
      obtain ⟨d, ds, hd⟩ := List.exists_cons_of_ne_nil hne
      rw [hd] at h2 hop
      exact absurd h2 (by simpa using hop)
  nth_rewrite 1 [hc]
  rw [List.append_assoc]
  refine filterRun_over hfree hhead (fun hnil => ?_)
  exact hesc (List.append_eq_nil_iff.mp hnil).1

theorem quiet_tail {throws : JsString → Bool} {text y : JsString} (hm : introducerScan text = none)
    (hc : Clean (fun s => Quiet s ∧ Readable throws s) (text ++ y)) : QuietRun text := by
  by_cases hst : Straddles text y
  · obtain ⟨h1, h2⟩ := hst
    obtain ⟨t0, rfl⟩ := endsWithEsc_iff.mp h1
    cases y with
    | nil => cases h2
    | cons d y =>
      rw [List.append_assoc] at hc
      have hrun : QuietRun t0 := (hc.gap (introducerScan_straddle hm (by simpa using h2))).1
      exact hrun.append_esc
  · have hover := introducerScan_ground hm hst
    cases hy : introducerScan y with
    | none =>
      rw [hy] at hover
      have hrun : QuietRun (text ++ y) := (hc.ground hover).1
      exact QuietRun.infix (a := []) hrun
    | some m =>
      rw [hy] at hover
      have hrun : QuietRun (text ++ m.gap) := (hc.gap hover).1
      exact QuietRun.infix (a := []) hrun

/-- **A reading from ground writes what the filter writes over the same text**, less what it holds. -/
theorem groundLoop_reads (h : Handler P τ) (y text : JsString) : ∀ (t : τ) (em : Emitted P),
    Clean (fun s => Quiet s ∧ Readable h.throws s) (text ++ y) → (groundLoop h t text).2 = some em →
      Reads .ground text (groundLoop h t text).1.mode.filterState (groundLoop h t text).1.mode.held em.textData := by
  induction text using scan_induction with
  | tail text hm =>
    intro t em hc hem
    obtain ⟨c, hsplit, hread⟩ := readTail_quiet (P := P) t (quiet_tail hm hc)
    rw [groundLoop_tail h t hm, hread] at hem ⊢
    cases hem
    exact reads_tail hm hsplit
  | opened text m hm he =>
    intro t em hc hem
    obtain ⟨hi, -⟩ := introducerScan_some hm
    have hgap : readGap (P := P) m.gap = ⟨m.gap, m.gap, []⟩ := readGap_quiet (hc.gap (introducerScan_append hm y)).1
    rw [groundLoop_opened h t hm he] at hem ⊢
    cases hem
    rw [hgap]
    show Reads _ _ _ _ (m.gap ++ [])
    refine reads_gap hm ?_
    have hpay := reads_payload he
    have hheld := holdOpen_held t m.introducer m.rest
    generalize holdOpen t m.introducer m.rest = r at hheld ⊢
    cases hheld with
    | forwarded hr =>
      show Reads _ _ _ (heldEscOf (m.introducer ++ m.rest)) []
      rw [heldEscOf_introducer hi]
      exact hpay
    | kept hk hr hl =>
      intro y
      show _ = ((filterRun .ground (m.introducer ++ m.rest ++ y)).1, [] ++ (filterRun .ground (m.introducer ++ m.rest ++ y)).2)
      rw [List.append_assoc, filterRun_introducer hi]
      rfl
    | discarded hk hr hl =>
      show Reads _ _ .osc (heldEscOf (m.introducer ++ m.rest)) []
      rw [heldEscOf_introducer hi, hk]
      rw [hk] at hpay
      exact hpay
  | control text m e hm he ih =>
    intro t em hc hem
    obtain ⟨hg, hctl, hrest⟩ := (clean_control (introducerScan_append hm y) (findStringControlEnd_append he y)).mp hc
    have hgap : readGap (P := P) m.gap = ⟨m.gap, m.gap, []⟩ := readGap_quiet hg.1
    have hret := routeControl_readable (h := h) (t := t) (m := m) (e := e) |>.mpr hctl.2
    cases hr : routeControl h t m e with
    | mk t' out =>
      cases out with
      | none => exact absurd (by rw [hr]) hret
      | some out =>
        obtain ⟨visible, events⟩ := out
        rw [groundLoop_goes_on h t hm he hr] at hem ⊢
        obtain ⟨em', hem', rfl⟩ := Option.map_eq_some_iff.mp hem
        have htext : (readGap m.gap ++ ⟨visible, [], events⟩ ++ em' : Emitted P).textData =
            m.gap ++ em'.textData := by
          show (readGap (P := P) m.gap).textData ++ [] ++ em'.textData = _
          rw [hgap, List.append_nil]
        rw [htext]
        exact reads_gap hm (reads_end he (ih t' em' hrest hem'))

/-- **So does a call.** -/
theorem process_reads (h : Handler P τ) (m : Mode) (t : τ) {data y : JsString} {r : TerminalProtocolParseResult P}
    (hc : m.Ahead (fun s => Quiet s ∧ Readable h.throws s) (data ++ y))
    (hr : (process h (m.parser t) data).2 = some r) :
    Reads m.filterState (m.held ++ data) (process h (m.parser t) data).1.mode.filterState
      (process h (m.parser t) data).1.mode.held r.textData := by
  cases m with
  | ground w =>
    rw [process_ground] at hr ⊢
    obtain ⟨em, hem, rfl⟩ := Option.map_eq_some_iff.mp hr
    exact groundLoop_reads h y (w ++ data) t em (by rw [List.append_assoc]; exact hc) hem
  | forwarding kind held =>
    cases he : findStringControlEnd kind (held ++ data) with
    | none =>
      rw [process_forwarding_open h t he] at hr ⊢
      cases hr
      exact reads_payload he
    | some e =>
      have hc' := hc { e with rest := e.rest ++ y } (by
        rw [← List.append_assoc]
        exact findStringControlEnd_append he y)
      rw [process_forwarding_end h t he] at hr ⊢
      obtain ⟨em, hem, rfl⟩ := Option.map_eq_some_iff.mp hr
      exact reads_end he (groundLoop_reads h y e.rest t em hc' hem)
  | discarding held =>
    cases he : findStringControlEnd .osc (held ++ data) with
    | none =>
      rw [process_discarding_open h t he] at hr ⊢
      cases hr
      exact reads_payload he
    | some e =>
      have hc' := hc { e with rest := e.rest ++ y } (by
        rw [← List.append_assoc]
        exact findStringControlEnd_append he y)
      rw [process_discarding_end h t he] at hr ⊢
      obtain ⟨em, hem, rfl⟩ := Option.map_eq_some_iff.mp hr
      exact reads_end he (groundLoop_reads h y e.rest t em hc' hem)

/-! ## Whole streams -/

/-- The calls of a stream's chunks, each with its reading of the clock. -/
def calls (R : Readers P) (p : Parser Osc99Pending) (chunks : List (Int × JsString)) :
    Parser Osc99Pending × List (Option (TerminalProtocolParseResult P)) :=
  Mealy.feed (fun p c => process (oscHandler R c.1) p c.2) p chunks

def streamOf (chunks : List (Int × JsString)) : JsString := (chunks.map Prod.snd).flatten

/-- The `textData` of the calls that returned. -/
def textOf (results : List (Option (TerminalProtocolParseResult P))) : JsString :=
  (results.map (fun r => (r.map (·.textData)).getD [])).flatten

def Parser.groundSuffix (p : Parser τ) : JsString := if p.pending ∈ deviceAttributePendingSuffixes then p.pending else []

def Parser.fresh : Parser Osc99Pending := .ground []

/-- **A run of calls has read what the filter reads**, and each returned. -/
theorem calls_reads (R : Readers P) : ∀ (chunks : List (Int × JsString)) (m : Mode) (t : Osc99Pending),
    m.Ahead (fun s => Quiet s ∧ Readable oscThrows s) (streamOf chunks) →
      (∀ r ∈ (calls R (m.parser t) chunks).2, r ≠ none) ∧
        Reads m.filterState (m.held ++ streamOf chunks) (calls R (m.parser t) chunks).1.mode.filterState
          (calls R (m.parser t) chunks).1.mode.held (textOf (calls R (m.parser t) chunks).2)
  | [], m, t, _ => by
    refine ⟨by simp [calls], fun y => ?_⟩
    simp [calls, streamOf, textOf]
  | (now, data) :: chunks, m, t, hc => by
    have hsplit : streamOf ((now, data) :: chunks) = data ++ streamOf chunks := rfl
    rw [hsplit] at hc ⊢
    have hret : (process (oscHandler R now) (m.parser t) data).2 ≠ none := by
      rw [process_returns]
      refine Mode.readable_left (y := streamOf chunks) ?_
      revert hc
      cases m with
      | ground w => exact fun hc s hs => (hc s hs).2
      | forwarding kind held => exact fun hc e he s hs => (hc e he s hs).2
      | discarding held => exact fun hc e he s hs => (hc e he s hs).2
    obtain ⟨r, hr⟩ := Option.ne_none_iff_exists'.mp hret
    have hexc := process_exclusive (oscHandler R now) (m.parser t) data (m.exclusive_parser t)
    have hread := process_reads (oscHandler R now) m t hc hr
    have hahead := Mode.ahead_process (quiet_cuttable _) (oscHandler R now) m t hc hret
    obtain ⟨hrest, hreads⟩ := calls_reads R chunks _ (process (oscHandler R now) (m.parser t) data).1.osc99Pending hahead
    rw [← hexc] at hrest hreads
    refine ⟨?_, ?_⟩
    · intro r' hr'
      rcases List.mem_cons.mp hr' with rfl | hr'
      · exact hret
      · exact hrest r' hr'
    · have htext : textOf (calls R (m.parser t) ((now, data) :: chunks)).2 =
          r.textData ++ textOf (calls R (process (oscHandler R now) (m.parser t) data).1 chunks).2 := by
        show ((process (oscHandler R now) (m.parser t) data).2.map (·.textData)).getD [] ++ _ = _
        rw [hr]
        rfl
      rw [htext, ← List.append_assoc]
      exact hread.trans hreads

theorem held_groundSuffix {p : Parser τ} (hp : p.Exclusive) (hw : p.mode.WellHeld) :
    (filterRun p.mode.filterState p.mode.held).2 ++ (filterRun p.mode.filterState p.mode.held).1.heldEsc =
      p.groundSuffix := by
  obtain ⟨m, t, rfl⟩ : ∃ m t, p = Mode.parser t m := ⟨p.mode, p.osc99Pending, hp⟩
  rw [Mode.mode_parser] at hw ⊢
  cases hw with
  | none => rfl
  | @query w hw =>
    have hall : ∀ w ∈ deviceAttributePendingSuffixes,
        (filterRun .ground w).2 ++ (filterRun .ground w).1.heldEsc = w := by decide
    show (filterRun .ground w).2 ++ (filterRun .ground w).1.heldEsc =
      if w ∈ deviceAttributePendingSuffixes then w else []
    rw [hall w hw, if_pos hw]
  | @osc i b hi hk he hl =>
    have hne : i ++ b ∉ deviceAttributePendingSuffixes := by
      intro hmem
      have hall : ∀ w ∈ deviceAttributePendingSuffixes, introducerScan w = none := by decide
      have := hall _ hmem
      rw [introducerScan_introducer hi] at this
      cases this
    have hread : filterRun .osc b = ((filterRun .osc (heldEscOf b)).1, (filterRun .osc (heldEscOf b)).2) := by
      have := reads_payload he []
      rwa [List.append_nil, List.append_nil, List.nil_append] at this
    show (filterRun .ground (i ++ b)).2 ++ (filterRun .ground (i ++ b)).1.heldEsc =
      if i ++ b ∈ deviceAttributePendingSuffixes then i ++ b else []
    rw [if_neg hne, filterRun_introducer hi, hk]
    show (filterRun .osc b).2 ++ (filterRun .osc b).1.heldEsc = []
    rw [hread]
    rcases heldEscOf_cases b with h | h <;> rw [h] <;> rfl
  | @forwarding kind w hw => rcases hw with rfl | rfl <;> cases kind <;> rfl
  | discarding hw => rcases hw with rfl | rfl <;> rfl

theorem calls_fresh (R : Readers P) (chunks : List (Int × JsString)) :
    (calls R .fresh chunks).1.Exclusive ∧ (calls R .fresh chunks).1.mode.WellHeld := by
  refine Mealy.feed_invariant (I := fun p : Parser Osc99Pending => p.Exclusive ∧ p.mode.WellHeld) ?_ chunks
    Parser.fresh ⟨rfl, .none⟩
  rintro p ⟨now, data⟩ ⟨hp, -⟩
  refine ⟨process_exclusive _ p data hp, ?_⟩
  rw [hp]
  exact process_wellHeld _ _ _ _

/-- The two projections agree on every partition of a stream: the parser's into calls that all return, and the
filter's. -/
def FramesAlike (R : Readers P) (stream : JsString) : Prop :=
  ∀ (calls₁ : List (Int × JsString)) (chunks₂ : List JsString), streamOf calls₁ = stream → chunks₂.flatten = stream →
    (∀ r ∈ (calls R .fresh calls₁).2, r ≠ none) ∧
      textOf (calls R .fresh calls₁).2 ++ (calls R .fresh calls₁).1.groundSuffix =
        (Mealy.feed filter .ground chunks₂).2.flatten ++ (Mealy.feed filter .ground chunks₂).1.heldEsc

/-- **The parser and the filter frame every stream alike, however each is fed, exactly when `parseOsc` throws on none of
its OSCs**; the filter alone never sees where its chunks end. -/
theorem parser_frames_as_filter (R : Readers P) (stream : JsString) :
    (Clean Quiet stream → (FramesAlike R stream ↔ Clean (Readable oscThrows) stream)) ∧
      ∀ chunks chunks' : List JsString, chunks.flatten = stream → chunks'.flatten = stream →
        (Mealy.feed filter .ground chunks).1 = (Mealy.feed filter .ground chunks').1 ∧
          (Mealy.feed filter .ground chunks).2.flatten = (Mealy.feed filter .ground chunks').2.flatten := by
  have hfilter : ∀ chunks : List JsString, chunks.flatten = stream →
      ((Mealy.feed filter .ground chunks).1, (Mealy.feed filter .ground chunks).2.flatten) =
        filterRun .ground stream := by
    rintro chunks rfl
    exact Mealy.feed_run filter_run chunks .ground
  constructor
  · intro hquiet
    constructor
    · intro halike
      obtain ⟨hret, -⟩ := halike [(0, stream)] [stream] (by simp [streamOf]) (by simp)
      have hret := hret _ (by simp only [calls, Mealy.feed, List.mem_singleton]; rfl)
      have hahead := (process_returns (oscHandler R 0) (.ground []) [] stream).mp hret
      exact hahead
    · intro hread calls₁ chunks₂ h₁ h₂
      subst h₁
      have hahead : (Mode.ground []).Ahead (fun s => Quiet s ∧ Readable oscThrows s) (streamOf calls₁) :=
        fun s hs => ⟨hquiet s hs, hread s hs⟩
      obtain ⟨hret, hreads⟩ := calls_reads R calls₁ (.ground []) [] hahead
      obtain ⟨hexc, hheld⟩ := calls_fresh R calls₁
      have hf := hfilter chunks₂ h₂
      have hrun := hreads []
      rw [List.append_nil, List.append_nil] at hrun
      rw [show filterRun .ground (streamOf calls₁) = _ from hrun] at hf
      refine ⟨hret, ?_⟩
      obtain ⟨hstate, hout⟩ := Prod.mk.inj hf
      rw [hstate, hout, List.append_assoc, ← held_groundSuffix hexc hheld]
      rfl
  · intro chunks chunks' h h'
    have hf := (hfilter chunks h).trans (hfilter chunks' h').symm
    exact Prod.mk.inj hf

def noReaders : Readers ⟨Unit, Unit, Unit, Unit, Unit⟩ where
  cwdFromOsc7 _ := none
  cwdFromOsc9_9 _ := none
  cwdFromOsc633 _ := none
  cwdFromOsc1337 _ := none
  parseToolAnnounce _ := none
  parseToolState _ := none
  parseToolOpen _ := none
  parseToolDehydrate _ := none
  colorProvider := none
  formatOscColorResponse _ _ := none
  number _ := .nan
  decodeUtf8 bytes := bytes.map Nat.toUInt16
  atob _ := none

theorem parser_frames_as_filter_sample :
    Clean Quiet ([0x61, 0x1b] ++ units "]0;x" ++ [0x07, 0x62, 0x90, 0x71, 0x9c, 0x1b]) ∧
      FramesAlike noReaders ([0x61, 0x1b] ++ units "]0;x" ++ [0x07, 0x62, 0x90, 0x71, 0x9c, 0x1b]) := by
  have hq : Clean Quiet ([0x61, 0x1b] ++ units "]0;x" ++ [0x07, 0x62, 0x90, 0x71, 0x9c, 0x1b]) := by decide +kernel
  exact ⟨hq, ((parser_frames_as_filter noReaders _).1 hq).mpr (by decide +kernel)⟩

theorem parser_throws_on_valueOf :
    Clean Quiet ([0x61, 0x1b] ++ units "]9;4;valueOf" ++ [0x07]) ∧
      ¬ FramesAlike noReaders ([0x61, 0x1b] ++ units "]9;4;valueOf" ++ [0x07]) := by
  refine ⟨by decide +kernel, fun h => ?_⟩
  obtain ⟨hret, -⟩ := h [(0, [0x61, 0x1b] ++ units "]9;4;valueOf" ++ [0x07])]
    [[0x61, 0x1b] ++ units "]9;4;valueOf" ++ [0x07]] (by simp [streamOf]) (by simp)
  have hnone : ((calls noReaders .fresh [(0, [0x61, 0x1b] ++ units "]9;4;valueOf" ++ [0x07])]).2.map
      Option.isSome) = [false] := by decide +kernel
  have hsome : ∀ b ∈ ((calls noReaders .fresh [(0, [0x61, 0x1b] ++ units "]9;4;valueOf" ++ [0x07])]).2.map
      Option.isSome), b = true := by
    intro b hb
    obtain ⟨r, hr, rfl⟩ := List.mem_map.mp hb
    exact Option.isSome_iff_ne_none.mpr (hret r hr)
  rw [hnone] at hsome
  exact absurd (hsome false (by simp)) (by decide)

end Term
end Dormouse

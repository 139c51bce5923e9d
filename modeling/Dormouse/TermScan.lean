import Dormouse.TermProtocol
/-!
# TermScan — what the parser reads, span by span

A text read from ground is a list of spans (`scan`): runs of ground text and string controls, the last of which may still
be open.  A reachable parser is in one of three modes: it holds ground text or an open OSC to read again, it streams a
string control through, or it discards one (`Mode`).  Each call is then one reading of the loop (`process_ground`,
`process_forwarding`, `process_discarding`), and what is left of a stream after a call is read by the parser it leaves
(`Mode.ahead_process`).
-/
namespace Dormouse
namespace Term

variable {P : Payloads} {τ : Type}

/-! ## The end of a string control -/

theorem isStringEnd_esc (kind : StringControlKind) : isStringEnd kind esc = true := by
  cases kind <;> decide

inductive EndShape (kind : StringControlKind) : StringControlEnd → Prop where
  | char {payload rest : JsString} {c : UInt16} (hc : isStringEnd kind c = true) (hne : c ≠ esc) :
    EndShape kind ⟨payload, [c], rest, c == can || c == sub⟩
  | st {payload rest : JsString} : EndShape kind ⟨payload, [esc, backslash], rest, false⟩
  | cancel {payload ds : JsString} {d : UInt16} (hd : d ≠ backslash) : EndShape kind ⟨payload, [], esc :: d :: ds, true⟩

variable {kind : StringControlKind} {text : JsString} {e : StringControlEnd}

theorem findStringControlEnd_some (h : findStringControlEnd kind text = some e) :
    text = e.payload ++ (e.ending ++ e.rest) ∧ (∀ c ∈ e.payload, isStringEnd kind c = false) ∧ EndShape kind e := by
  unfold findStringControlEnd at h
  split at h
  · cases h
  · rename_i payload c rest hs
    obtain ⟨hp, hc⟩ := stringControlEndScan_payload hs
    have ht := stringControlEndScan_text hs
    split at h
    · rename_i hne
      cases h
      exact ⟨by simp [ht], hp, .char hc hne⟩
    · rename_i hce
      have hce : c = esc := by simpa using hce
      subst hce
      split at h
      · cases h
      · rename_i d ds
        split at h
        · rename_i hd
          cases h
          subst hd
          exact ⟨by simp [ht], hp, .st⟩
        · rename_i hd
          cases h
          exact ⟨by simp [ht], hp, .cancel hd⟩

/-- **An end stays where it is when more text arrives.** -/
theorem findStringControlEnd_append (h : findStringControlEnd kind text = some e) (x : JsString) :
    findStringControlEnd kind (text ++ x) = some { e with rest := e.rest ++ x } := by
  unfold findStringControlEnd at h ⊢
  split at h
  · cases h
  · rename_i payload c rest hs
    rw [stringControlEndScan_append hs x]
    simp only
    split at h
    · rename_i hne
      cases h
      rw [if_pos hne]
    · rename_i hce
      rw [if_neg hce]
      split at h
      · cases h
      · rename_i d ds
        simp only [List.cons_append]
        split at h
        · rename_i hd
          cases h
          rw [if_pos hd]
        · rename_i hd
          cases h
          rw [if_neg hd]
          rfl

theorem findStringControlEnd_free {b : JsString} (hb : ∀ c ∈ b, isStringEnd kind c = false) (t : JsString) :
    findStringControlEnd kind (b ++ t) =
      (findStringControlEnd kind t).map (fun e => { e with payload := b ++ e.payload }) := by
  unfold findStringControlEnd
  rw [stringControlEndScan_free hb]
  cases hs : stringControlEndScan kind t with
  | none => rfl
  | some m =>
    obtain ⟨payload, c, rest⟩ := m
    simp only [Option.map_some]
    split
    · rfl
    · split
      · rfl
      · split <;> rfl

/-- An open string control is payload, and perhaps an ESC that the next chunk decides. -/
theorem findStringControlEnd_none (h : findStringControlEnd kind text = none) :
    ∃ b, text = b ++ heldEscOf text ∧ ∀ c ∈ b, isStringEnd kind c = false := by
  unfold findStringControlEnd at h
  split at h
  · rename_i hs
    have hall := stringControlEndScan_none hs
    refine ⟨text, ?_, hall⟩
    have : endsWithEsc text = false := by
      by_contra he
      obtain ⟨t', rfl⟩ := endsWithEsc_iff.mp (by simpa using he)
      have := hall esc (by simp)
      rw [isStringEnd_esc] at this
      cases this
    simp [heldEscOf, this]
  · rename_i payload c rest hs
    obtain ⟨hp, -⟩ := stringControlEndScan_payload hs
    have ht := stringControlEndScan_text hs
    split at h
    · cases h
    · rename_i hce
      have hce : c = esc := by simpa using hce
      subst hce
      split at h
      · refine ⟨payload, ?_, hp⟩
        have he : endsWithEsc text = true := endsWithEsc_iff.mpr ⟨payload, ht⟩
        rw [heldEscOf, if_pos he]
        exact ht
      · split at h <;> cases h

/-! ## Spans -/

inductive Span where
  | ground (run : JsString)
  | control (introducer payload ending : JsString) (cancelled : Bool)
  | opened (introducer body : JsString)
  deriving DecidableEq

def scan (text : JsString) : List Span :=
  match hm : introducerScan text with
  | none   => [.ground text]
  | some m =>
    match he : findStringControlEnd (stringControlKind m.introducer) m.rest with
    | none   => [.ground m.gap, .opened m.introducer m.rest]
    | some e =>
      have := introducerScan_length hm
      have := findStringControlEnd_length he
      .ground m.gap :: .control m.introducer e.payload e.ending e.cancelled :: scan e.rest
termination_by text.length

theorem scan_ground (h : introducerScan text = none) : scan text = [.ground text] := by
  rw [scan]
  split
  · rfl
  · rename_i m hm
    rw [h] at hm
    cases hm

variable {m : Introduced}

theorem scan_opened (hm : introducerScan text = some m)
    (he : findStringControlEnd (stringControlKind m.introducer) m.rest = none) :
    scan text = [.ground m.gap, .opened m.introducer m.rest] := by
  rw [scan]
  split
  · rename_i h
    rw [hm] at h
    cases h
  · rename_i m' hm'
    rw [hm] at hm'
    cases hm'
    split
    · rfl
    · rename_i e' he'
      rw [he] at he'
      cases he'

theorem scan_control (hm : introducerScan text = some m)
    (he : findStringControlEnd (stringControlKind m.introducer) m.rest = some e) :
    scan text = .ground m.gap :: .control m.introducer e.payload e.ending e.cancelled :: scan e.rest := by
  rw [scan]
  split
  · rename_i h
    rw [hm] at h
    cases h
  · rename_i m' hm'
    rw [hm] at hm'
    cases hm'
    split
    · rename_i he'
      rw [he] at he'
      cases he'
    · rename_i e' he'
      rw [he] at he'
      cases he'
      rfl

def Clean (C : Span → Prop) (text : JsString) : Prop := ∀ s ∈ scan text, C s

instance {C : Span → Prop} [DecidablePred C] (text : JsString) : Decidable (Clean C text) :=
  inferInstanceAs (Decidable (∀ s ∈ scan text, C s))

variable {C : Span → Prop}

theorem Clean.of_ground (h : introducerScan text = none) (hg : C (.ground text)) : Clean C text := by
  intro s hs
  rw [scan_ground h] at hs
  rw [List.mem_singleton.mp hs]
  exact hg

theorem Clean.ground {C : Span → Prop} {text : JsString} (h : introducerScan text = none) (hc : Clean C text) :
    C (.ground text) := hc _ (by rw [scan_ground h]; simp)

theorem Clean.gap {C : Span → Prop} {text : JsString} {m : Introduced} (hm : introducerScan text = some m)
    (hc : Clean C text) : C (.ground m.gap) := by
  cases he : findStringControlEnd (stringControlKind m.introducer) m.rest with
  | none => exact hc _ (by rw [scan_opened hm he]; simp)
  | some e => exact hc _ (by rw [scan_control hm he]; simp)

theorem clean_control (hm : introducerScan text = some m)
    (he : findStringControlEnd (stringControlKind m.introducer) m.rest = some e) :
    Clean C text ↔
      C (.ground m.gap) ∧ C (.control m.introducer e.payload e.ending e.cancelled) ∧ Clean C e.rest := by
  unfold Clean
  rw [scan_control hm he]
  simp

theorem Clean.regap {text text' : JsString} {m m' : Introduced} (hm : introducerScan text = some m)
    (hm' : introducerScan text' = some m') (hi : m'.introducer = m.introducer) (hr : m'.rest = m.rest)
    (hg : C (.ground m'.gap)) (hc : Clean C text) : Clean C text' := by
  cases he : findStringControlEnd (stringControlKind m.introducer) m.rest with
  | none =>
    have he' : findStringControlEnd (stringControlKind m'.introducer) m'.rest = none := by rw [hi, hr, he]
    intro s hs
    rw [scan_opened hm' he', hi, hr] at hs
    rcases List.mem_cons.mp hs with rfl | hs
    · exact hg
    · exact hc s (by rw [scan_opened hm he]; exact List.mem_cons_of_mem _ hs)
  | some e =>
    have he' : findStringControlEnd (stringControlKind m'.introducer) m'.rest = some e := by rw [hi, hr, he]
    rw [clean_control hm' he', hi]
    obtain ⟨-, h1, h2⟩ := (clean_control hm he).mp hc
    exact ⟨hg, h1, h2⟩

/-! ## The loop, by what it finds -/

theorem groundLoop_tail (h : Handler P τ) (t : τ) (hm : introducerScan text = none) :
    groundLoop h t text = ((readTail (P := P) t text).1, some (readTail t text).2) := by
  rw [groundLoop]
  split
  · rfl
  · rename_i m hm'
    rw [hm] at hm'
    cases hm'

theorem groundLoop_opened (h : Handler P τ) (t : τ) (hm : introducerScan text = some m)
    (he : findStringControlEnd (stringControlKind m.introducer) m.rest = none) :
    groundLoop h t text =
      ((holdOpen t m.introducer m.rest).1, some (readGap m.gap ++ ⟨(holdOpen t m.introducer m.rest).2, [], []⟩)) := by
  rw [groundLoop]
  split
  · rename_i hm'
    rw [hm] at hm'
    cases hm'
  · rename_i m' hm'
    rw [hm] at hm'
    cases hm'
    split
    · rfl
    · rename_i e' he'
      rw [he] at he'
      cases he'

theorem groundLoop_control (h : Handler P τ) (t : τ) (hm : introducerScan text = some m)
    (he : findStringControlEnd (stringControlKind m.introducer) m.rest = some e) :
    groundLoop h t text =
      match routeControl h t m e with
      | (t', none) => (.ground t', none)
      | (t', some (visible, events)) =>
        ((groundLoop h t' e.rest).1,
          (groundLoop h t' e.rest).2.map (fun rest => readGap m.gap ++ ⟨visible, [], events⟩ ++ rest)) := by
  rw [groundLoop]
  split
  · rename_i hm'
    rw [hm] at hm'
    cases hm'
  · rename_i m' hm'
    rw [hm] at hm'
    cases hm'
    split
    · rename_i he'
      rw [he] at he'
      cases he'
    · rename_i e' he'
      rw [he] at he'
      cases he'
      rfl

theorem groundLoop_goes_on (h : Handler P τ) (t : τ) {t' : τ} {visible : JsString} {events : List (TerminalProtocolEvent P)}
    (hm : introducerScan text = some m) (he : findStringControlEnd (stringControlKind m.introducer) m.rest = some e)
    (hr : routeControl h t m e = (t', some (visible, events))) :
    groundLoop h t text =
      ((groundLoop h t' e.rest).1,
        (groundLoop h t' e.rest).2.map (fun rest => readGap m.gap ++ ⟨visible, [], events⟩ ++ rest)) := by
  rw [groundLoop_control h t hm he, hr]

theorem groundLoop_threw (h : Handler P τ) (t : τ) {t' : τ} (hm : introducerScan text = some m)
    (he : findStringControlEnd (stringControlKind m.introducer) m.rest = some e) (hr : routeControl h t m e = (t', none)) :
    groundLoop h t text = (.ground t', none) := by
  rw [groundLoop_control h t hm he, hr]

/-- **Induction along the loop**: over a text read from ground, control by control. -/
theorem scan_induction {motive : JsString → Prop}
    (tail : ∀ text, introducerScan text = none → motive text)
    (opened : ∀ text m, introducerScan text = some m →
      findStringControlEnd (stringControlKind m.introducer) m.rest = none → motive text)
    (control : ∀ text m e, introducerScan text = some m →
      findStringControlEnd (stringControlKind m.introducer) m.rest = some e → motive e.rest → motive text)
    (text : JsString) : motive text := by
  cases hm : introducerScan text with
  | none => exact tail text hm
  | some m =>
    cases he : findStringControlEnd (stringControlKind m.introducer) m.rest with
    | none => exact opened text m hm he
    | some e => exact control text m e hm he (scan_induction tail opened control e.rest)
termination_by text.length
decreasing_by
  have h1 := introducerScan_length hm
  have h2 := findStringControlEnd_length he
  omega

/-! ## Modes -/

inductive Mode where
  | ground (pending : JsString)
  | forwarding (kind : StringControlKind) (heldEsc : JsString)
  | discarding (heldEsc : JsString)
  deriving DecidableEq

def Parser.mode (p : Parser τ) : Mode :=
  match p.discarding with
  | some heldEsc => .discarding heldEsc
  | none         =>
    match p.forwarding with
    | some f => .forwarding f.kind f.heldEsc
    | none   => .ground p.pending

def Mode.parser (t : τ) : Mode → Parser τ
  | .ground pending          => ⟨pending, none, none, t⟩
  | .forwarding kind heldEsc => ⟨[], some ⟨kind, heldEsc⟩, none, t⟩
  | .discarding heldEsc      => ⟨[], none, some heldEsc, t⟩

@[simp] theorem Mode.mode_parser (t : τ) (m : Mode) : (m.parser t).mode = m := by
  cases m <;> rfl

@[simp] theorem Mode.osc99Pending_parser (t : τ) (m : Mode) : (m.parser t).osc99Pending = t := by
  cases m <;> rfl

def Parser.Exclusive (p : Parser τ) : Prop := p = p.mode.parser p.osc99Pending

theorem Mode.exclusive_parser (t : τ) (m : Mode) : (m.parser t).Exclusive := by
  simp [Parser.Exclusive]

def Routed (introducer body : JsString) : Prop :=
  stringControlKind introducer = .osc → oscDispositionAt body = some .forward

inductive Held (t : τ) (introducer body : JsString) : Parser τ × JsString → Prop where
  | forwarded (hr : Routed introducer body) :
    Held t introducer body (beginForwarding t (stringControlKind introducer) (introducer ++ body))
  | kept (hk : stringControlKind introducer = .osc) (hr : oscDispositionAt body ≠ some .forward)
    (hl : (introducer ++ body).length ≤ oscIncompleteLimit) :
    Held t introducer body ((Mode.ground (introducer ++ body)).parser t, [])
  | discarded (hk : stringControlKind introducer = .osc) (hr : oscDispositionAt body ≠ some .forward)
    (hl : oscIncompleteLimit < (introducer ++ body).length) :
    Held t introducer body ((Mode.discarding (heldEscOf (introducer ++ body))).parser t, [])

theorem holdOpen_held (t : τ) (introducer body : JsString) : Held t introducer body (holdOpen t introducer body) := by
  unfold holdOpen
  simp only
  by_cases hk : stringControlKind introducer = .osc
  · rw [if_pos hk]
    split
    · rename_i hr
      exact .forwarded (fun _ => hr)
    · rename_i hr
      split
      · rename_i hl
        exact .kept hk hr hl
      · rename_i hl
        exact .discarded hk hr (by omega)
  · rw [if_neg hk, if_pos rfl]
    exact .forwarded (fun h => absurd h hk)

theorem holdOpen_exclusive (t : τ) (introducer body : JsString) : (holdOpen t introducer body).1.Exclusive := by
  have hh := holdOpen_held t introducer body
  generalize holdOpen t introducer body = r at hh ⊢
  cases hh <;> rfl

theorem groundLoop_exclusive (h : Handler P τ) (text : JsString) : ∀ t, (groundLoop h t text).1.Exclusive := by
  induction text using scan_induction with
  | tail text hm =>
    intro t
    rw [groundLoop_tail h t hm]
    rfl
  | opened text m hm he =>
    intro t
    rw [groundLoop_opened h t hm he]
    exact holdOpen_exclusive t _ _
  | control text m e hm he ih =>
    intro t
    rw [groundLoop_control h t hm he]
    split
    · rfl
    · exact ih _

/-! ## A call, by the mode it starts in -/

def Emitted.result (e : Emitted P) : TerminalProtocolParseResult P :=
  ⟨e.visibleData, filterTerminalBellEvents e.events, e.textData, some 0⟩

theorem queryAt_ne_nil {text rest : JsString} (h : queryAt text = some rest) : ∃ c cs, text = c :: cs ∧
    (c = esc ∨ c = 0x9b) := by
  unfold queryAt after? at h
  cases text with
  | nil => simp at h
  | cons c cs =>
    refine ⟨c, cs, rfl, ?_⟩
    by_contra hc
    rw [not_or] at hc
    have h1 : ((0x1b : UInt16) == c) = false := by simpa using fun h => hc.1 h.symm
    have h2 : ((0x9b : UInt16) == c) = false := by simpa using fun h => hc.2 h.symm
    simp [List.isPrefixOf, h1, h2] at h

theorem answer_plain : ∀ {text : JsString}, (∀ c ∈ text, c ≠ esc ∧ c ≠ 0x9b) →
    answerDeviceAttributeQueries (P := P) text = (text, [])
  | [], _ => by rw [answerDeviceAttributeQueries]
  | c :: cs, h => by
    rw [answerDeviceAttributeQueries]
    split
    · rename_i rest hq
      obtain ⟨c', cs', heq, hc⟩ := queryAt_ne_nil hq
      cases heq
      obtain ⟨h1, h2⟩ := h c (by simp)
      exact absurd hc (by simp [h1, h2])
    · rw [answer_plain (fun d hd => h d (by simp [hd]))]

theorem takeSuffix_plain (h : ∀ c ∈ text, c ≠ esc ∧ c ≠ 0x9b) :
    takeDeviceAttributePendingSuffix text = [] := by
  unfold takeDeviceAttributePendingSuffix
  rw [List.find?_eq_none.mpr]
  · rfl
  · intro s hs hsuf
    have hsub := (List.isSuffixOf_iff_suffix.mp hsuf).subset
    simp only [deviceAttributePendingSuffixes, List.mem_cons, List.not_mem_nil, or_false] at hs
    rcases hs with rfl | rfl | rfl | rfl | rfl
    · exact (h 0x1b (hsub (by simp))).1 rfl
    · exact (h 0x1b (hsub (by simp))).1 rfl
    · exact (h 0x1b (hsub (by simp))).1 rfl
    · exact (h 0x9b (hsub (by simp))).2 rfl
    · exact (h 0x9b (hsub (by simp))).2 rfl

theorem strip_plain (h : bel ∉ text) : stripStandaloneBells (P := P) text = (text, []) := by
  unfold stripStandaloneBells
  rw [if_neg (by simpa using h)]

theorem groundLoop_plain (h : Handler P τ) (t : τ) {data : JsString} (hd : needsParse data = false) :
    groundLoop h t data = (.ground t, some ⟨data, data, []⟩) := by
  simp only [needsParse, Bool.or_eq_false_iff, List.any_eq_false, beq_iff_eq, not_or, Bool.or_eq_true] at hd
  obtain ⟨hc, hs⟩ := hd
  have hplain : ∀ c ∈ data, c ≠ esc ∧ c ≠ 0x9b := fun c hm => ⟨(hc c hm).1.2, (hc c hm).2⟩
  have hbel : bel ∉ data := fun hm => (hc bel hm).1.1 rfl
  rw [groundLoop_tail h t (by simpa using hs)]
  simp only [readTail, strip_plain hbel, takeSuffix_plain hplain, List.length_nil, Nat.sub_zero, List.take_length,
    answer_plain hplain, List.append_nil]
  rfl

theorem process_ground (h : Handler P τ) (t : τ) (pending data : JsString) :
    process h ((Mode.ground pending).parser t) data =
      ((groundLoop h t (pending ++ data)).1, (groundLoop h t (pending ++ data)).2.map Emitted.result) := by
  show processGround h _ data = _
  unfold processGround
  split
  · rename_i hp
    obtain ⟨hw, hd⟩ := hp
    have hw : pending = [] := hw
    subst hw
    rw [List.nil_append, groundLoop_plain h t hd]
    rfl
  · rfl

variable {heldEsc data : JsString}

theorem process_forwarding_open (h : Handler P τ) (t : τ) (he : findStringControlEnd kind (heldEsc ++ data) = none) :
    process h ((Mode.forwarding kind heldEsc).parser t) data =
      ((Mode.forwarding kind (heldEscOf (heldEsc ++ data))).parser t,
        some ⟨(beginForwarding t kind (heldEsc ++ data)).2, [], [], none⟩) := by
  show processForwarded h _ ⟨kind, heldEsc⟩ data = _
  simp only [processForwarded, he]
  rfl

theorem process_forwarding_end (h : Handler P τ) (t : τ) (he : findStringControlEnd kind (heldEsc ++ data) = some e) :
    process h ((Mode.forwarding kind heldEsc).parser t) data =
      ((groundLoop h t e.rest).1, (groundLoop h t e.rest).2.map (fun r =>
        ⟨e.payload ++ e.ending ++ r.visibleData, r.result.events, r.textData, some (e.payload ++ e.ending).length⟩)) := by
  have hp : process h ((Mode.forwarding kind heldEsc).parser t) data =
      ((process h ((Mode.ground []).parser t) e.rest).1,
        (process h ((Mode.ground []).parser t) e.rest).2.map (fun rest =>
          ⟨e.payload ++ e.ending ++ rest.visibleData, rest.events, rest.textData,
            some (e.payload ++ e.ending).length⟩)) := by
    show processForwarded h _ ⟨kind, heldEsc⟩ data = _
    simp only [processForwarded, he]
    rfl
  rw [hp, process_ground, List.nil_append, Option.map_map]
  rfl

theorem process_discarding_open (h : Handler P τ) (t : τ) (he : findStringControlEnd .osc (heldEsc ++ data) = none) :
    process h ((Mode.discarding heldEsc).parser t) data =
      ((Mode.discarding (heldEscOf (heldEsc ++ data))).parser t, some ⟨[], [], [], some 0⟩) := by
  unfold process
  simp only [Mode.parser, he]

theorem process_discarding_end (h : Handler P τ) (t : τ) (he : findStringControlEnd .osc (heldEsc ++ data) = some e) :
    process h ((Mode.discarding heldEsc).parser t) data =
      ((groundLoop h t e.rest).1, (groundLoop h t e.rest).2.map Emitted.result) := by
  have hg := process_ground h t [] e.rest
  rw [List.nil_append] at hg
  rw [← hg]
  unfold process
  simp only [Mode.parser, he]

/-- **Every call leaves the parser in one mode.** -/
theorem process_exclusive (h : Handler P τ) (p : Parser τ) (data : JsString) (hp : p.Exclusive) :
    (process h p data).1.Exclusive := by
  rw [hp]
  cases p.mode with
  | ground w =>
    rw [process_ground]
    exact groundLoop_exclusive h _ _
  | forwarding kind held =>
    cases he : findStringControlEnd kind (held ++ data) with
    | none =>
      rw [process_forwarding_open h _ he]
      rfl
    | some e =>
      rw [process_forwarding_end h _ he]
      exact groundLoop_exclusive h _ _
  | discarding held =>
    cases he : findStringControlEnd .osc (held ++ data) with
    | none =>
      rw [process_discarding_open h _ he]
      rfl
    | some e =>
      rw [process_discarding_end h _ he]
      exact groundLoop_exclusive h _ _

/-! ## What is held -/

/-- Held ground text is a partial query; a held OSC is open, and within its limit; of a string that streams, at most the
ESC that may end it is held. -/
inductive Mode.WellHeld : Mode → Prop where
  | none : WellHeld (.ground [])
  | query {w : JsString} (hw : w ∈ deviceAttributePendingSuffixes) : WellHeld (.ground w)
  | osc {i b : JsString} (hi : IsIntroducer i) (hk : stringControlKind i = .osc)
    (he : findStringControlEnd .osc b = Option.none) (hl : (i ++ b).length ≤ oscIncompleteLimit) :
    WellHeld (.ground (i ++ b))
  | forwarding {kind : StringControlKind} {w : JsString} (hw : w = [] ∨ w = [esc]) : WellHeld (.forwarding kind w)
  | discarding {w : JsString} (hw : w = [] ∨ w = [esc]) : WellHeld (.discarding w)

theorem heldEscOf_cases (text : JsString) : heldEscOf text = [] ∨ heldEscOf text = [esc] := by
  unfold heldEscOf
  split
  · exact .inr rfl
  · exact .inl rfl

theorem takeSuffix_mem (u : JsString) :
    takeDeviceAttributePendingSuffix u = [] ∨ takeDeviceAttributePendingSuffix u ∈ deviceAttributePendingSuffixes := by
  unfold takeDeviceAttributePendingSuffix
  cases hf : deviceAttributePendingSuffixes.find? (fun suffix => suffix.isSuffixOf u) with
  | none => exact .inl rfl
  | some s => exact .inr (List.mem_of_find?_eq_some hf)

theorem groundLoop_wellHeld (h : Handler P τ) (text : JsString) : ∀ t, (groundLoop h t text).1.mode.WellHeld := by
  induction text using scan_induction with
  | tail text hm =>
    intro t
    rw [groundLoop_tail h t hm]
    show Mode.WellHeld (.ground (takeDeviceAttributePendingSuffix _))
    rcases takeSuffix_mem (stripStandaloneBells (P := P) text).1 with hw | hw
    · rw [hw]
      exact .none
    · exact .query hw
  | opened text m hm he =>
    intro t
    rw [groundLoop_opened h t hm he]
    have hheld := holdOpen_held t m.introducer m.rest
    generalize holdOpen t m.introducer m.rest = r at hheld ⊢
    cases hheld with
    | forwarded hr => exact .forwarding (heldEscOf_cases _)
    | kept hk hr hl => exact .osc (introducerScan_some hm).1 hk (by rw [← hk]; exact he) hl
    | discarded hk hr hl => exact .discarding (heldEscOf_cases _)
  | control text m e hm he ih =>
    intro t
    rw [groundLoop_control h t hm he]
    split
    · exact .none
    · exact ih _

/-- **Every call holds what it may.** -/
theorem process_wellHeld (h : Handler P τ) (m : Mode) (t : τ) (data : JsString) :
    (process h (m.parser t) data).1.mode.WellHeld := by
  cases m with
  | ground w =>
    rw [process_ground]
    exact groundLoop_wellHeld h _ _
  | forwarding kind held =>
    cases he : findStringControlEnd kind (held ++ data) with
    | none =>
      rw [process_forwarding_open h _ he]
      exact .forwarding (heldEscOf_cases _)
    | some e =>
      rw [process_forwarding_end h _ he]
      exact groundLoop_wellHeld h _ _
  | discarding held =>
    cases he : findStringControlEnd .osc (held ++ data) with
    | none =>
      rw [process_discarding_open h _ he]
      exact .discarding (heldEscOf_cases _)
    | some e =>
      rw [process_discarding_end h _ he]
      exact groundLoop_wellHeld h _ _

/-! ## What is left of a stream -/

/-- What a condition on spans must keep when ground text is cut, its bells stripped and a partial `CSI > q` held. -/
structure Cuttable (C : Span → Prop) : Prop where
  nil      : C (.ground [])
  held     : ∀ {a b : JsString}, C (.ground (a ++ b)) →
    C (.ground (takeDeviceAttributePendingSuffix (a.filter (· != bel)) ++ b))
  straddle : ∀ {a b : JsString} {d : UInt16}, C (.ground (a ++ d :: b)) → isOpener d = true →
    takeDeviceAttributePendingSuffix (a.filter (· != bel)) = [esc] → endsWithEsc a = true

/-- The spans the parser of a mode has still to read, of a stream that goes on with `x`. -/
def Mode.Ahead (C : Span → Prop) : Mode → JsString → Prop
  | .ground pending,          x => Clean C (pending ++ x)
  | .forwarding kind heldEsc, x => ∀ e, findStringControlEnd kind (heldEsc ++ x) = some e → Clean C e.rest
  | .discarding heldEsc,      x => ∀ e, findStringControlEnd .osc (heldEsc ++ x) = some e → Clean C e.rest

theorem strip_fst (segment : JsString) : (stripStandaloneBells (P := P) segment).1 = segment.filter (· != bel) := by
  unfold stripStandaloneBells
  split
  · rfl
  · rename_i hb
    have hne : ∀ c ∈ segment, c ≠ bel := by
      rintro c hc rfl
      exact hb (by simpa using hc)
    exact (List.filter_eq_self.mpr (fun c hc => by simpa using hne c hc)).symm

theorem takeSuffix_esc (u : JsString) : takeDeviceAttributePendingSuffix (u ++ [esc]) = [esc] := by
  have h1 : ∀ (s : JsString) (c : UInt16), c ≠ esc → (s ++ [c]).isSuffixOf (u ++ [esc]) = false := by
    intro s c hc
    by_contra hs
    have hs : s ++ [c] <:+ u ++ [esc] := by simpa using hs
    obtain ⟨r, hr⟩ := hs
    rw [← List.append_assoc] at hr
    have hlast : [c] = [esc] := List.append_inj_right' hr rfl
    exact hc (List.cons.inj hlast).1
  have h2 : [(0x1b : UInt16)].isSuffixOf (u ++ [esc]) = true := List.isSuffixOf_iff_suffix.mpr ⟨u, rfl⟩
  have ha : [(0x1b : UInt16), 0x5b, 0x3e].isSuffixOf (u ++ [esc]) = false := h1 [0x1b, 0x5b] 0x3e (by decide)
  have hb : [(0x1b : UInt16), 0x5b].isSuffixOf (u ++ [esc]) = false := h1 [0x1b] 0x5b (by decide)
  simp only [takeDeviceAttributePendingSuffix, deviceAttributePendingSuffixes, List.find?_cons, ha, hb, h2]
  rfl

theorem takeSuffix_suffix (u : JsString) : takeDeviceAttributePendingSuffix u <:+ u := by
  unfold takeDeviceAttributePendingSuffix
  cases hf : deviceAttributePendingSuffixes.find? (fun suffix => suffix.isSuffixOf u) with
  | none => exact List.nil_suffix
  | some s => exact List.isSuffixOf_iff_suffix.mp (by simpa using List.find?_some hf)

theorem takeSuffix_free (u : JsString) : introducerScan (takeDeviceAttributePendingSuffix u) = none ∧
    (endsWithEsc (takeDeviceAttributePendingSuffix u) = true → takeDeviceAttributePendingSuffix u = [esc]) := by
  rcases takeSuffix_mem u with h | h
  · rw [h]
    exact ⟨rfl, by decide⟩
  · simp only [deviceAttributePendingSuffixes, List.mem_cons, List.not_mem_nil, or_false] at h
    rcases h with h | h | h | h | h <;> rw [h] <;> exact ⟨by decide, by decide⟩

theorem introducerScan_opener {d : UInt16} (hd : isOpener d = true) (y : JsString) :
    introducerScan (d :: y) = (introducerScan y).map (.behind [d]) :=
  introducerScan_cons_none (introducerAt_of_not (isOpener_not_c1 hd) (fun h => absurd h (isOpener_ne_esc hd)))

/-- Ground text to the end of a chunk leaves the rest of the stream behind what is held of it. -/
theorem ahead_tail (hC : Cuttable C) {text y : JsString} (hm : introducerScan text = none) (hc : Clean C (text ++ y)) :
    Clean C (takeDeviceAttributePendingSuffix (text.filter (· != bel)) ++ y) := by
  obtain ⟨hfree, hesc⟩ := takeSuffix_free (text.filter (· != bel))
  by_cases hst : Straddles text y
  · obtain ⟨h1, h2⟩ := hst
    obtain ⟨t0, rfl⟩ := endsWithEsc_iff.mp h1
    cases y with
    | nil => cases h2
    | cons d y =>
      have hd : isOpener d = true := by simpa using h2
      have hs : takeDeviceAttributePendingSuffix ((t0 ++ [esc]).filter (· != bel)) = [esc] := by
        rw [List.filter_append]
        exact takeSuffix_esc _
      have hm' := introducerScan_straddle (x := y) hm hd
      rw [List.append_assoc, List.cons_append, List.nil_append] at hc
      rw [hs]
      exact hc.regap hm' (introducerScan_introducer (.inr ⟨d, hd, rfl⟩) y) rfl rfl hC.nil
  · have hst' : ¬ Straddles (takeDeviceAttributePendingSuffix (text.filter (· != bel))) y := by
      rintro ⟨h1, h2⟩
      cases y with
      | nil => cases h2
      | cons d y =>
        have hd : isOpener d = true := by simpa using h2
        have hrun : ∃ r, C (.ground (text ++ d :: r)) := by
          have hover := introducerScan_ground hm hst
          rw [introducerScan_opener hd, Option.map_map] at hover
          cases hy : introducerScan y with
          | none =>
            rw [hy] at hover
            exact ⟨y, hc.ground hover⟩
          | some m =>
            rw [hy] at hover
            exact ⟨m.gap, by simpa [Introduced.behind] using hc.gap hover⟩
        obtain ⟨r, hr⟩ := hrun
        exact hst ⟨hC.straddle hr hd (hesc h1), h2⟩
    have h1 := introducerScan_ground hm hst
    have h2 := introducerScan_ground hfree hst'
    cases hy : introducerScan y with
    | none =>
      rw [hy] at h1 h2
      exact .of_ground h2 (hC.held (hc.ground h1))
    | some m =>
      rw [hy] at h1 h2
      exact hc.regap h1 h2 rfl rfl (hC.held (hc.gap h1))

theorem heldEscOf_introducer {i : JsString} (hi : IsIntroducer i) (body : JsString) :
    heldEscOf (i ++ body) = heldEscOf body := by
  cases body with
  | cons c cs => rw [heldEscOf, heldEscOf, endsWithEsc_append_cons]
  | nil =>
    rw [List.append_nil]
    have : endsWithEsc i = false := by
      rcases hi with ⟨c, hc, rfl⟩ | ⟨d, hd, rfl⟩
      · have : c ≠ esc := by
          rintro rfl
          revert hc
          decide
        simpa [endsWithEsc] using this
      · simpa [endsWithEsc] using isOpener_ne_esc hd
    simp only [heldEscOf, this]
    rfl

theorem ahead_payload {body y : JsString} (he : findStringControlEnd kind body = none)
    (hc : ∀ e, findStringControlEnd kind (body ++ y) = some e → Clean C e.rest) :
    ∀ e, findStringControlEnd kind (heldEscOf body ++ y) = some e → Clean C e.rest := by
  intro e hy
  obtain ⟨b, hb, hfree⟩ := findStringControlEnd_none he
  refine hc { e with payload := b ++ e.payload } ?_
  rw [hb, List.append_assoc, findStringControlEnd_free hfree]
  rw [hy]
  rfl

theorem clean_before {text y : JsString} (hm : introducerScan text = some m) (hc : Clean C (text ++ y)) :
    ∀ e, findStringControlEnd (stringControlKind m.introducer) (m.rest ++ y) = some e → Clean C e.rest := by
  intro e he
  exact ((clean_control (introducerScan_append hm y) he).mp hc).2.2

/-- **What is left of a stream is read by the parser a reading leaves.** -/
theorem ahead_groundLoop (hC : Cuttable C) (h : Handler P τ) (y : JsString) (text : JsString) :
    ∀ t, Clean C (text ++ y) → (groundLoop h t text).2 ≠ none → (groundLoop h t text).1.mode.Ahead C y := by
  induction text using scan_induction with
  | tail text hm =>
    intro t hc _
    rw [groundLoop_tail h t hm]
    show Clean C (takeDeviceAttributePendingSuffix (stripStandaloneBells (P := P) text).1 ++ y)
    rw [strip_fst]
    exact ahead_tail hC hm hc
  | opened text m hm he =>
    intro t hc _
    obtain ⟨hi, -⟩ := introducerScan_some hm
    rw [groundLoop_opened h t hm he]
    have hend := ahead_payload he (clean_before hm hc)
    have hheld := holdOpen_held t m.introducer m.rest
    generalize holdOpen t m.introducer m.rest = r at hheld ⊢
    cases hheld with
    | forwarded hr =>
      show ∀ e, findStringControlEnd _ (heldEscOf (m.introducer ++ m.rest) ++ y) = some e → Clean C e.rest
      rw [heldEscOf_introducer hi]
      exact hend
    | kept hk hr hl =>
      show Clean C (m.introducer ++ m.rest ++ y)
      rw [List.append_assoc]
      exact hc.regap (introducerScan_append hm y) (introducerScan_introducer hi _) rfl rfl hC.nil
    | discarded hk hr hl =>
      show ∀ e, findStringControlEnd _ (heldEscOf (m.introducer ++ m.rest) ++ y) = some e → Clean C e.rest
      rw [heldEscOf_introducer hi]
      rw [hk] at hend
      exact hend
  | control text m e hm he ih =>
    intro t hc hret
    rw [groundLoop_control h t hm he] at hret ⊢
    cases hr : routeControl h t m e with
    | mk t' out =>
      rw [hr] at hret
      cases out with
      | none => exact absurd rfl hret
      | some out =>
        obtain ⟨visible, events⟩ := out
        refine ih t' (clean_before hm hc _ (findStringControlEnd_append he y)) ?_
        intro hn
        apply hret
        simp only [hn, Option.map_none]

/-- **What one call leaves of a stream is what the next call goes on with.** -/
theorem Mode.ahead_process (hC : Cuttable C) (h : Handler P τ) (m : Mode) (t : τ) {data y : JsString}
    (hc : m.Ahead C (data ++ y)) (hret : (process h (m.parser t) data).2 ≠ none) :
    (process h (m.parser t) data).1.mode.Ahead C y := by
  cases m with
  | ground w =>
    rw [process_ground] at hret ⊢
    refine ahead_groundLoop hC h y _ t (by rw [List.append_assoc]; exact hc) (fun hn => hret ?_)
    simp only [hn, Option.map_none]
  | forwarding kind held =>
    have hc : ∀ e, findStringControlEnd kind (held ++ data ++ y) = some e → Clean C e.rest := by
      rw [List.append_assoc]
      exact hc
    cases he : findStringControlEnd kind (held ++ data) with
    | none =>
      rw [process_forwarding_open h t he, Mode.mode_parser]
      exact ahead_payload he hc
    | some e =>
      rw [process_forwarding_end h t he] at hret ⊢
      refine ahead_groundLoop hC h y _ t (hc _ (findStringControlEnd_append he y)) (fun hn => hret ?_)
      simp only [hn, Option.map_none]
  | discarding held =>
    have hc : ∀ e, findStringControlEnd .osc (held ++ data ++ y) = some e → Clean C e.rest := by
      rw [List.append_assoc]
      exact hc
    cases he : findStringControlEnd .osc (held ++ data) with
    | none =>
      rw [process_discarding_open h t he, Mode.mode_parser]
      exact ahead_payload he hc
    | some e =>
      rw [process_discarding_end h t he] at hret ⊢
      refine ahead_groundLoop hC h y _ t (hc _ (findStringControlEnd_append he y)) (fun hn => hret ?_)
      simp only [hn, Option.map_none]

end Term
end Dormouse

import Dormouse.TermFilter
import Mathlib.Data.List.Infix
/-!
# ClipboardOffers — an `OSC 52` sequence read in pieces

A whole sequence is judged by `clipboardOfferLimit`, its data less the white space; an unterminated one by `oscIncompleteLimit`, the
whole text held so far.  The reads of a sequence change its offer exactly when it makes one and some read ends with more than
`oscIncompleteLimit` of it held (`offer_kept_iff`).
-/
namespace Dormouse
namespace Term

variable {P : Payloads}

/-! ## Sequences and offers -/

/-- A terminated `OSC 52` sequence: any fields, up to the terminator. -/
structure Osc52 where
  introducer : JsString
  fields     : JsString
  ending     : JsString
  introduces : introducer = [esc, 0x5d] ∨ introducer = [0x9d]
  open_      : ∀ c ∈ fields, isStringEnd .osc c = false
  ends       : ending = [bel] ∨ ending = [st] ∨ ending = [esc, backslash]

def Osc52.content (s : Osc52) : JsString := units "52;" ++ s.fields

def Osc52.text (s : Osc52) : JsString := s.introducer ++ (s.content ++ s.ending)

def offerData (content : JsString) : JsString :=
  if (content.splitOn 0x3b).length = 3 then ((content.splitOn 0x3b).getD 2 []).filter (fun c => !isSpace c) else []

/-- Data that is offered: within the limit, and base64 of a text of which something is left. -/
def Offers (R : Readers P) (content : JsString) : Prop :=
  (offerData content).length ≤ clipboardOfferLimit ∧ ∃ text,
    (decodeBase64 R (offerData content)).bind sanitizeClipboardText = some text

def clipboardText : TerminalProtocolEvent P → Option JsString
  | .clipboardOffer text => some text
  | _                    => none

def offersOf (results : List (Option (TerminalProtocolParseResult P))) : List JsString :=
  results.flatMap (fun r => (r.elim [] (·.events)).filterMap clipboardText)

/-- No read but the last leaves more than the parser holds of an unterminated sequence. -/
def WithinPending (chunks : List (Int × JsString)) : Prop :=
  ∀ init rest, chunks = init ++ rest → streamOf rest ≠ [] → (streamOf init).length ≤ oscIncompleteLimit

/-! ## The content -/

theorem parseOsc52_eq (R : Readers P) (content : JsString) : parseOsc52 R content =
    if (offerData content).length > clipboardOfferLimit then []
    else ((decodeBase64 R (offerData content)).bind sanitizeClipboardText).elim [] (fun text => [.clipboardOffer text]) := by
  unfold parseOsc52 offerData
  generalize content.splitOn 0x3b = fields
  rcases fields with _ | ⟨a, _ | ⟨b, _ | ⟨data, _ | ⟨c, more⟩⟩⟩⟩
  case cons.cons.cons.cons =>
    have hmore : ¬(a :: b :: data :: c :: more).length = 3 := by
      simp only [List.length_cons]
      omega
    rw [if_neg hmore]
    refine ite_congr rfl (fun _ => rfl) (fun _ => ?_)
    cases (decodeBase64 R []).bind sanitizeClipboardText <;> rfl
  case cons.cons.cons.nil =>
    refine ite_congr rfl (fun _ => rfl) (fun _ => ?_)
    show _ = ((decodeBase64 R (data.filter fun c => !isSpace c)).bind sanitizeClipboardText).elim _ _
    cases (decodeBase64 R (data.filter fun c => !isSpace c)).bind sanitizeClipboardText <;> rfl
  all_goals
    refine ite_congr rfl (fun _ => rfl) (fun _ => ?_)
    show _ = ((decodeBase64 R []).bind sanitizeClipboardText).elim _ _
    cases (decodeBase64 R []).bind sanitizeClipboardText <;> rfl

theorem offers_iff (R : Readers P) (content : JsString) :
    (parseOsc52 R content).filterMap clipboardText ≠ [] ↔ Offers R content := by
  rw [parseOsc52_eq, Offers]
  split
  · rename_i hlong
    exact ⟨fun h => absurd rfl h, fun h => absurd h.1 (by omega)⟩
  · rename_i hshort
    cases (decodeBase64 R (offerData content)).bind sanitizeClipboardText with
    | none => exact ⟨fun h => absurd rfl h, fun h => by obtain ⟨-, text, h⟩ := h; cases h⟩
    | some text => exact ⟨fun _ => ⟨by omega, text, rfl⟩, fun _ => List.cons_ne_nil text []⟩

namespace Osc52

variable (s : Osc52)

theorem hasId : hasId (units "52") s.content = true :=
  hasId_iff.2 (.inr ⟨s.fields, rfl⟩)

theorem parseOsc_content (R : Readers P) (now : Int) (t : Osc99Pending) :
    parseOsc R now t s.content = (t, .events (parseOsc52 R s.content)) := by
  have hother : ∀ id, id.all isDigit = true → id ≠ units "52" → Term.hasId id s.content = false := by
    intro id hid hne
    by_contra h
    have h := hasId_takeWhile hid (by simpa using h)
    rw [hasId_takeWhile (by decide) s.hasId] at h
    exact hne h.symm
  have hbare : s.content ≠ units "367" := by
    intro h
    have h367 := hother (units "367") (by decide) (by decide)
    rw [hasId_iff.2 (.inl h)] at h367
    cases h367
  have hrest : after? (units "367;") s.content = none := by
    cases ha : after? (units "367;") s.content with
    | none => rfl
    | some rest =>
      have h367 := hother (units "367") (by decide) (by decide)
      rw [hasId_iff.2 (.inr ⟨rest, by rw [after?_some ha]; rfl⟩)] at h367
      cases h367
  unfold parseOsc
  rw [hother (units "7") (by decide) (by decide), hother (units "9") (by decide) (by decide),
    hother (units "133") (by decide) (by decide), hother (units "633") (by decide) (by decide),
    hother (units "1337") (by decide) (by decide), hother (units "0") (by decide) (by decide),
    hother (units "2") (by decide) (by decide), hother (units "99") (by decide) (by decide),
    hother (units "777") (by decide) (by decide), if_neg hbare, hrest, s.hasId]
  rfl

theorem content_open : ∀ c ∈ s.content, isStringEnd .osc c = false := by
  have hid : (units "52;").all (fun c => !isStringEnd .osc c) = true := by decide
  intro c hc
  rcases List.mem_append.1 hc with hc | hc
  · simpa using List.all_eq_true.1 hid c hc
  · exact s.open_ c hc

theorem isIntroducer : IsIntroducer s.introducer := by
  rcases s.introduces with h | h
  · exact .inr ⟨0x5d, by decide, h⟩
  · exact .inl ⟨0x9d, by decide, h⟩

theorem kind_introducer : stringControlKind s.introducer = .osc := by
  rcases s.introduces with h | h <;> rw [h] <;> decide

theorem end_text : findStringControlEnd .osc (s.content ++ s.ending) = some ⟨s.content, s.ending, [], false⟩ := by
  rw [findStringControlEnd_free s.content_open]
  have hending : findStringControlEnd .osc s.ending = some ⟨[], s.ending, [], false⟩ := by
    rcases s.ends with h | h | h <;> rw [h] <;> decide
  rw [hending, Option.map_some, List.append_nil]

theorem ending_ne_nil : s.ending ≠ [] := by
  rcases s.ends with h | h | h <;> rw [h] <;> exact List.cons_ne_nil _ _

/-! ## Part of a sequence -/

section Part
variable {s} {body x : JsString} (hx : x ≠ []) (hbody : body ++ x = s.content ++ s.ending)
include hx hbody

theorem end_part : findStringControlEnd .osc body = none := by
  cases he : findStringControlEnd .osc body with
  | none => rfl
  | some e =>
    have happend := findStringControlEnd_append he x
    rw [hbody, s.end_text] at happend
    have hrest : [] = e.rest ++ x := congrArg StringControlEnd.rest (Option.some.inj happend)
    exact absurd (List.append_eq_nil_iff.1 hrest.symm).2 hx

omit hx in
theorem not_forward_part : oscDispositionAt body ≠ some .forward := by
  rw [content, List.append_assoc, List.append_eq_append_iff] at hbody
  rcases hbody with ⟨c, hid, -⟩ | ⟨c, rfl, -⟩
  · -- what has arrived is no more than `52;`
    have hbody : body ∈ [[], units "5", units "52", units "52;"] := by
      have hinits : body ∈ (units "52;").inits := (List.mem_inits _ _).2 ⟨c, hid.symm⟩
      exact hinits
    revert hbody
    generalize body = b
    revert b
    decide
  · have hdigits := @oscDispositionAt_id (units "52") 0x3b c (by decide) (by decide)
    rw [show units "52;" ++ c = units "52" ++ 0x3b :: c from rfl, hdigits, idDisposition,
      if_neg (by decide), if_neg (by decide),
      if_pos (by decide)]
    exact fun h => by cases h

end Part

/-! ## The loop over a part, and over the whole -/

omit s in
def after (part : JsString) : Mode := if part.length ≤ oscIncompleteLimit then .ground part else .discarding (heldEscOf part)

theorem eq_introducer {part x : JsString} (h : part ++ x = s.text) :
    part = [] ∨ part = [esc] ∨ ∃ body, part = s.introducer ++ body ∧ body ++ x = s.content ++ s.ending := by
  rw [text, List.append_eq_append_iff] at h
  rcases h with ⟨c, hintro, hx⟩ | ⟨body, rfl, hbody⟩
  · have hwhole : c = [] → ∃ body, part = s.introducer ++ body ∧ body ++ x = s.content ++ s.ending := by
      rintro rfl
      exact ⟨[], by rw [hintro, List.append_nil, List.append_nil], by rw [hx]; rfl⟩
    cases part with
    | nil => exact .inl rfl
    | cons u part =>
      cases part with
      | nil =>
        rcases s.introduces with h | h
        · rw [h] at hintro
          cases hintro
          exact .inr (.inl rfl)
        · rw [h] at hintro
          cases hintro
          exact .inr (.inr (hwhole rfl))
      | cons v part =>
        have hlen := congrArg List.length hintro
        have hintroLength : s.introducer.length ≤ 2 := by
          rcases s.introduces with h | h <;> rw [h] <;> decide
        rw [List.length_append, List.length_cons, List.length_cons] at hlen
        exact .inr (.inr (hwhole (List.length_eq_zero_iff.1 (by omega))))
  · exact .inr (.inr ⟨body, rfl, hbody.symm⟩)

theorem introduced (body : JsString) : introducerScan (s.introducer ++ body) = some ⟨[], s.introducer, body⟩ :=
  introducerScan_introducer s.isIntroducer body

theorem holdOpen_part {body x : JsString} (hbody : body ++ x = s.content ++ s.ending) (t : Osc99Pending) :
    holdOpen t s.introducer body = ((after (s.introducer ++ body)).parser t, []) := by
  have hheld := holdOpen_held t s.introducer body
  generalize holdOpen t s.introducer body = r at hheld ⊢
  cases hheld with
  | forwarded hr => exact absurd (hr s.kind_introducer) (not_forward_part hbody)
  | kept _ _ hl => rw [after, if_pos hl]
  | discarded _ _ hl => rw [after, if_neg (by omega)]

omit s in
theorem readGap_nil : readGap (P := P) [] = ⟨[], [], []⟩ := by
  have hstrip : stripStandaloneBells (P := P) [] = ([], []) := strip_plain (by simp)
  rw [readGap, hstrip, answer_plain (by simp)]
  rfl

/-- **Part of a sequence says nothing**: it is held, or discarded when there is too much of it. -/
theorem groundLoop_part (h : Handler P Osc99Pending) (t : Osc99Pending) {part x : JsString} (hx : x ≠ [])
    (hpart : part ++ x = s.text) :
    ∃ em, groundLoop h t part = ((after part).parser t, some em) ∧ em.events = [] := by
  rcases s.eq_introducer hpart with rfl | rfl | ⟨body, rfl, hbody⟩
  · exact ⟨⟨[], [], []⟩, groundLoop_plain h t (by decide), rfl⟩
  · rw [groundLoop_tail h t (by decide)]
    refine ⟨_, rfl, ?_⟩
    have hstrip : stripStandaloneBells (P := P) [esc] = ([esc], []) := strip_plain (by decide)
    have hsuffix : takeDeviceAttributePendingSuffix [esc] = [esc] := by decide
    rw [readTail, hstrip, hsuffix]
    exact congrArg Prod.snd (answer_plain (by simp))
  · rw [groundLoop_opened h t (s.introduced body) (by rw [s.kind_introducer]; exact end_part hx hbody), s.holdOpen_part hbody]
    exact ⟨_, rfl, by rw [readGap_nil]; rfl⟩

theorem groundLoop_text (R : Readers P) (now : Int) (t : Osc99Pending) :
    ∃ em, groundLoop (oscHandler R now) t s.text = ((Mode.ground []).parser t, some em) ∧
    em.events = parseOsc52 R s.content := by
  have hend : findStringControlEnd (stringControlKind s.introducer) (s.content ++ s.ending) = some ⟨s.content,
    s.ending, [], false⟩ := by
    rw [s.kind_introducer, s.end_text]
  have hroute : routeControl (oscHandler R now) t ⟨[], s.introducer, s.content ++ s.ending⟩ ⟨s.content, s.ending, [], false⟩ =
      (t, some ([], parseOsc52 R s.content)) := by
    have hparse : (oscHandler R now).parse t s.content = (t, .events (parseOsc52 R s.content)) := s.parseOsc_content R now t
    rw [routeControl, if_neg (not_not.2 s.kind_introducer), if_neg Bool.false_ne_true, hparse]
  rw [text, groundLoop_goes_on _ t (s.introduced _) hend hroute]
  dsimp only
  rw [groundLoop_plain _ t (by decide : needsParse [] = false)]
  refine ⟨_, rfl, ?_⟩
  rw [readGap_nil]
  exact List.append_nil _

/-! ## Reads -/

section Reads
variable {s} (R : Readers P) (now : Int) (t : Osc99Pending) {part data rest : JsString}

theorem filter_offer (content : JsString) : filterTerminalBellEvents (parseOsc52 R content) = parseOsc52 R content := by
  rw [parseOsc52_eq]
  split
  · rfl
  · cases (decodeBase64 R (offerData content)).bind sanitizeClipboardText <;> rfl

theorem process_part (hrest : rest ≠ []) (hpart : part ++ (data ++ rest) = s.text) :
    ∃ r, process (oscHandler R now) ((Mode.ground part).parser t) data = ((after (part ++ data)).parser t, some r) ∧
    r.events = [] := by
  rw [← List.append_assoc] at hpart
  obtain ⟨em, hloop, hevents⟩ := s.groundLoop_part (oscHandler R now) t hrest hpart
  rw [process_ground, hloop]
  refine ⟨_, rfl, ?_⟩
  rw [Emitted.result, hevents]
  rfl

theorem process_last (hpart : part ++ data = s.text) :
    ∃ r, process (oscHandler R now) ((Mode.ground part).parser t) data = ((Mode.ground []).parser t, some r) ∧
      r.events = parseOsc52 R s.content := by
  obtain ⟨em, hloop, hevents⟩ := s.groundLoop_text R now t
  rw [process_ground, hpart, hloop]
  refine ⟨_, rfl, ?_⟩
  rw [Emitted.result, hevents]
  exact filter_offer R s.content

omit s in
theorem heldEscOf_append {body : JsString} (hopen : findStringControlEnd .osc body = none) (x : JsString) :
    heldEscOf (heldEscOf body ++ x) = heldEscOf (body ++ x) := by
  obtain ⟨b, hb, -⟩ := findStringControlEnd_none hopen
  cases hx : heldEscOf body ++ x with
  | nil =>
    obtain ⟨hnil, rfl⟩ := List.append_eq_nil_iff.1 hx
    rw [List.append_nil, hnil]
    rfl
  | cons c cs =>
    have hwhole : body ++ x = b ++ c :: cs := by
      rw [← hx, ← List.append_assoc, ← hb]
    rw [hwhole, heldEscOf, heldEscOf, endsWithEsc_append_cons]

omit s in
theorem end_append {body x : JsString} (hopen : findStringControlEnd .osc body = none) :
    (findStringControlEnd .osc (heldEscOf body ++ x)).map (·.rest) = (findStringControlEnd .osc (body ++ x)).map (·.rest) := by
  obtain ⟨b, hb, hfree⟩ := findStringControlEnd_none hopen
  have hwhole : body ++ x = b ++ (heldEscOf body ++ x) := by
    rw [← List.append_assoc, ← hb]
  rw [hwhole, findStringControlEnd_free hfree, Option.map_map]
  rfl

theorem process_discarded {body : JsString} (hrest : rest ≠ []) (hbody : body ++ (data ++ rest) = s.content ++ s.ending) :
    ∃ r, process (oscHandler R now) ((Mode.discarding (heldEscOf body)).parser t) data =
      ((Mode.discarding (heldEscOf (body ++ data))).parser t, some r) ∧ r.events = [] := by
  have hopen := end_part (List.append_ne_nil_of_right_ne_nil data hrest) hbody
  rw [← List.append_assoc] at hbody
  have hstill : findStringControlEnd .osc (heldEscOf body ++ data) = none := by
    have hnone := end_append (x := data) hopen
    rw [end_part hrest hbody] at hnone
    exact Option.map_eq_none_iff.1 hnone
  rw [process_discarding_open _ t hstill, heldEscOf_append hopen]
  exact ⟨_, rfl, rfl⟩

theorem process_discarded_last {body : JsString} (hdata : data ≠ []) (hbody : body ++ data = s.content ++ s.ending) :
    ∃ r, process (oscHandler R now) ((Mode.discarding (heldEscOf body)).parser t) data = ((Mode.ground []).parser t, some r) ∧
      r.events = [] := by
  have hsome := end_append (x := data) (end_part hdata hbody)
  rw [hbody, s.end_text] at hsome
  obtain ⟨e, he, hnil⟩ := Option.map_eq_some_iff.1 hsome
  have hnil : e.rest = [] := hnil
  rw [process_discarding_end _ t he, hnil, groundLoop_plain _ t (by decide : needsParse [] = false)]
  exact ⟨_, rfl, rfl⟩

/-! ## Runs -/

omit s in
theorem offersOf_cons {r : TerminalProtocolParseResult P} (results : List (Option (TerminalProtocolParseResult P))) :
    offersOf (some r :: results) = r.events.filterMap clipboardText ++ offersOf results := rfl

omit s in
theorem calls_cons (p : Parser Osc99Pending) (c : Int × JsString) (chunks : List (Int × JsString)) :
    (calls R p (c :: chunks)).2 = (process (oscHandler R c.1) p c.2).2 :: (calls R (process (oscHandler R c.1)
      p c.2).1 chunks).2 := rfl

omit s in
theorem offers_none : ∀ (chunks : List (Int × JsString)) (t : Osc99Pending), streamOf chunks = [] →
    offersOf (calls R ((Mode.ground []).parser t) chunks).2 = []
  | [], _, _ => rfl
  | (now, data) :: chunks, t, h => by
    obtain ⟨rfl, hrest⟩ : data = [] ∧ streamOf chunks = [] := List.append_eq_nil_iff.1 h
    have hstep : process (oscHandler R now) ((Mode.ground []).parser t) [] = ((Mode.ground []).parser t,
      some ⟨[], [], [], some 0⟩) := by
      rw [process_ground, List.append_nil, groundLoop_plain _ t (by decide)]
      rfl
    rw [calls_cons, hstep, offersOf_cons, offers_none chunks t hrest]
    rfl

theorem offers_discarded : ∀ (chunks : List (Int × JsString)) (t : Osc99Pending) {body : JsString}, streamOf chunks ≠ [] →
    body ++ streamOf chunks = s.content ++ s.ending →
    offersOf (calls R ((Mode.discarding (heldEscOf body)).parser t) chunks).2 = []
  | [], _, _, hne, _ => absurd rfl hne
  | (now, data) :: chunks, t, body, hne, hbody => by
    by_cases hlast : streamOf chunks = []
    · have hdata : streamOf ((now, data) :: chunks) = data := by
        show data ++ streamOf chunks = data
        rw [hlast, List.append_nil]
      rw [hdata] at hne hbody
      obtain ⟨r, hstep, hevents⟩ := process_discarded_last R now t hne hbody
      rw [calls_cons, hstep, offersOf_cons, hevents, offers_none R chunks t hlast]
      rfl
    · obtain ⟨r, hstep, hevents⟩ := process_discarded R now t hlast hbody
      have hmore : body ++ data ++ streamOf chunks = s.content ++ s.ending := by
        rw [List.append_assoc]
        exact hbody
      rw [calls_cons, hstep, offersOf_cons, hevents, offers_discarded chunks t hlast hmore]
      rfl

/-- No read but the last leaves too much, of which `part` was there before. -/
def Within (part : JsString) (chunks : List (Int × JsString)) : Prop :=
  ∀ init rest, chunks = init ++ rest → streamOf rest ≠ [] → (part ++ streamOf init).length ≤ oscIncompleteLimit

/-- **What a run offers**: what the whole does, unless a read left too much. -/
theorem offers_run : ∀ (chunks : List (Int × JsString)) (t : Osc99Pending) {part : JsString}, streamOf chunks ≠ [] →
    part ++ streamOf chunks = s.text → part.length ≤ oscIncompleteLimit →
    (Within part chunks → offersOf (calls R ((Mode.ground part).parser t) chunks).2 =
      (parseOsc52 R s.content).filterMap clipboardText) ∧
      (¬Within part chunks → offersOf (calls R ((Mode.ground part).parser t) chunks).2 = [])
  | [], _, _, hne, _, _ => absurd rfl hne
  | (now, data) :: chunks, t, part, hne, hpart, hlen => by
    have hsplit : ∀ init rest, (now, data) :: chunks = init ++ rest → init = [] ∨ ∃ init', init = (now, data) :: init' ∧
      chunks = init' ++ rest := by
      intro init rest h
      cases init with
      | nil => exact .inl rfl
      | cons c init' =>
        rw [List.cons_append, List.cons.injEq] at h
        exact .inr ⟨init', by rw [h.1], h.2⟩
    by_cases hlast : streamOf chunks = []
    · have hdata : part ++ data = s.text := by
        rw [← hpart]
        show part ++ data = part ++ (data ++ streamOf chunks)
        rw [hlast, List.append_nil]
      obtain ⟨r, hstep, hevents⟩ := process_last R now t hdata
      have hwithin : Within part ((now, data) :: chunks) := by
        intro init rest h hrest
        rcases hsplit init rest h with rfl | ⟨init', rfl, rfl⟩
        · rw [streamOf, List.map_nil, List.flatten_nil, List.append_nil]
          exact hlen
        · rw [streamOf, List.map_append, List.flatten_append] at hlast
          exact absurd (List.append_eq_nil_iff.1 hlast).2 hrest
      refine ⟨fun _ => ?_, fun h => absurd hwithin h⟩
      rw [calls_cons, hstep, offersOf_cons, hevents, offers_none R chunks t hlast, List.append_nil]
    · obtain ⟨r, hstep, hevents⟩ := process_part R now t hlast hpart
      have hmore : part ++ data ++ streamOf chunks = s.text := by
        rw [List.append_assoc]
        exact hpart
      have hoffers : ∀ p, offersOf (some r :: (calls R p chunks).2) = offersOf (calls R p chunks).2 := fun p => by
        rw [offersOf_cons, hevents]
        rfl
      rw [calls_cons, hstep, hoffers]
      by_cases hshort : (part ++ data).length ≤ oscIncompleteLimit
      · have hafter : after (part ++ data) = .ground (part ++ data) := if_pos hshort
        have ih := offers_run chunks t hlast hmore hshort
        have hwithin : Within part ((now, data) :: chunks) ↔ Within (part ++ data) chunks := by
          constructor
          · intro h init rest heq hrest
            have hle := h ((now, data) :: init) rest (by rw [heq]; rfl) hrest
            rw [List.append_assoc]
            exact hle
          · intro h init rest heq hrest
            rcases hsplit init rest heq with rfl | ⟨init', rfl, heq'⟩
            · rw [streamOf, List.map_nil, List.flatten_nil, List.append_nil]
              exact hlen
            · have hle := h init' rest heq' hrest
              rw [List.append_assoc] at hle
              exact hle
        rw [hafter, hwithin]
        exact ih
      · have hafter : after (part ++ data) = .discarding (heldEscOf (part ++ data)) := if_neg hshort
        have hnot : ¬Within part ((now, data) :: chunks) := fun h => by
          have hle := h [(now, data)] chunks rfl hlast
          rw [streamOf, List.map_singleton, List.flatten_singleton] at hle
          exact hshort hle
        refine ⟨fun h => absurd h hnot, fun _ => ?_⟩
        rw [hafter]
        rcases s.eq_introducer hmore with hnil | hesc | ⟨body, hpartBody, hbody⟩
        · rw [hnil] at hshort
          exact absurd (Nat.zero_le _) hshort
        · rw [hesc] at hshort
          exact absurd (by decide) hshort
        · rw [hpartBody, heldEscOf_introducer s.isIntroducer]
          exact offers_discarded R chunks t hlast hbody

end Reads

theorem text_ne_nil : s.text ≠ [] :=
  List.append_ne_nil_of_right_ne_nil _ (List.append_ne_nil_of_right_ne_nil _ s.ending_ne_nil)

theorem offers_whole (R : Readers P) (now : Int) (t : Osc99Pending) :
    offersOf (calls R (.ground t) [(now, s.text)]).2 = (parseOsc52 R s.content).filterMap clipboardText := by
  have hstream : streamOf [(now, s.text)] = s.text := by rw [streamOf, List.map_singleton, List.flatten_singleton]
  refine (offers_run R [(now, s.text)] t (by rw [hstream]; exact s.text_ne_nil) hstream (Nat.zero_le _)).1 ?_
  intro init rest heq hrest
  cases init with
  | nil => exact Nat.zero_le _
  | cons c init =>
    rw [List.cons_append, List.cons.injEq] at heq
    rw [(List.append_eq_nil_iff.1 heq.2.symm).2] at hrest
    exact absurd rfl hrest

/-- **The reads of an `OSC 52` sequence change what it offers exactly when it offers something and some read leaves more of it
than the parser holds.** -/
theorem offer_kept_iff (R : Readers P) (s : Osc52) (t : Osc99Pending) (now : Int) (chunks : List (Int × JsString))
    (h : streamOf chunks = s.text) :
    offersOf (calls R (.ground t) chunks).2 = offersOf (calls R (.ground t) [(now, s.text)]).2 ↔
      ¬Offers R s.content ∨ WithinPending chunks := by
  have hsplit : (WithinPending chunks →
        offersOf (calls R (.ground t) chunks).2 = (parseOsc52 R s.content).filterMap clipboardText) ∧
      (¬WithinPending chunks → offersOf (calls R (.ground t) chunks).2 = []) :=
    @offers_run P s R chunks t [] (by rw [h]; exact s.text_ne_nil) h (Nat.zero_le _)
  rw [offers_whole]
  by_cases hw : WithinPending chunks
  · exact ⟨fun _ => .inr hw, fun _ => hsplit.1 hw⟩
  · have hiff := offers_iff R s.content
    rw [hsplit.2 hw]
    constructor
    · exact fun hnil => .inl (fun hoffers => hiff.2 hoffers hnil.symm)
    · intro hor
      by_contra hne
      exact hor.resolve_right hw (hiff.1 (fun hnil => hne hnil.symm))

def greetingReaders : Readers ⟨Unit, Unit, Unit, Unit, Unit⟩ :=
  { noReaders with atob := fun input => if input = units "aGk=" then some [0x68, 0x69] else none }

/-- `c;aGk=`, in two reads. -/
def greeting : Osc52 where
  introducer := [esc, 0x5d]
  fields     := units "c;aGk="
  ending     := [bel]
  introduces := .inl rfl
  open_ c hc := by
    have hall : (units "c;aGk=").all (fun c => !isStringEnd .osc c) = true := by decide
    simpa using List.all_eq_true.1 hall c hc
  ends       := .inl rfl

theorem offer_kept_greeting :
    streamOf [(0, [esc, 0x5d] ++ units "52;c;a"), (1, units "Gk=" ++ [bel])] = greeting.text ∧
    (offersOf (calls greetingReaders (.ground []) [(0, [esc, 0x5d] ++ units "52;c;a"), (1, units "Gk=" ++ [bel])]).2 =
        offersOf (calls greetingReaders (.ground []) [(0, greeting.text)]).2 ↔
      ¬Offers greetingReaders greeting.content ∨
        WithinPending [(0, [esc, 0x5d] ++ units "52;c;a"), (1, units "Gk=" ++ [bel])]) :=
  ⟨by decide +kernel, offer_kept_iff greetingReaders greeting [] 0 _ (by decide +kernel)⟩

def padded : Osc52 where
  introducer := [esc, 0x5d]
  fields     := units "c;aGk=" ++ List.replicate oscIncompleteLimit 0x20
  ending     := [bel]
  introduces := .inl rfl
  open_ c hc := by
    rcases List.mem_append.1 hc with hc | hc
    · exact greeting.open_ c hc
    · rw [List.eq_of_mem_replicate hc]
      decide
  ends       := .inl rfl

theorem offerData_padded : offerData padded.content = units "aGk=" := by
  have hsplit : padded.content.splitOn 0x3b = [units "52", units "c", units "aGk=" ++
    List.replicate oscIncompleteLimit 0x20] := by
    have hlast : (0x3b : UInt16) ∉ units "aGk=" ++ List.replicate oscIncompleteLimit 0x20 := by
      intro h
      rcases List.mem_append.1 h with h | h
      · revert h
        decide
      · exact absurd (List.eq_of_mem_replicate h) (by decide)
    rw [show padded.content = units "52" ++ 0x3b :: (units "c" ++
      0x3b :: (units "aGk=" ++ List.replicate oscIncompleteLimit 0x20)) from rfl,
      List.splitOn_append_cons_self_of_not_mem (by decide), List.splitOn_append_cons_self_of_not_mem (by decide),
      List.splitOn_eq_singleton hlast]
  rw [offerData, hsplit]
  show (units "aGk=" ++ List.replicate oscIncompleteLimit 0x20).filter (fun c => !isSpace c) = _
  rw [List.filter_append, List.filter_replicate, if_neg (by decide), List.append_nil]
  decide +kernel

theorem offer_lost :
    streamOf [(0, padded.introducer ++ padded.content), (1, padded.ending)] = padded.text ∧
    offersOf (calls greetingReaders (.ground []) [(0, padded.text)]).2 = [units "hi"] ∧
    offersOf (calls greetingReaders (.ground []) [(0, padded.introducer ++ padded.content), (1, padded.ending)]).2 = [] := by
  have hstream : streamOf [(0, padded.introducer ++ padded.content), (1, padded.ending)] = padded.text := by
    rw [text, ← List.append_assoc]
    rfl
  refine ⟨hstream, ?_, ?_⟩
  · have hdecoded : (decodeBase64 greetingReaders (units "aGk=")).bind sanitizeClipboardText =
      some (units "hi") := by decide +kernel
    rw [offers_whole, parseOsc52_eq, offerData_padded, if_neg (by decide), hdecoded]
    rfl
  · have hlong : ¬WithinPending [(0, padded.introducer ++ padded.content), (1, padded.ending)] := by
      intro h
      have hle := h [(0, padded.introducer ++ padded.content)] [(1, padded.ending)] rfl (List.cons_ne_nil bel [])
      have hlength : (streamOf [(0, padded.introducer ++ padded.content)]).length = 11 + oscIncompleteLimit := by
        rw [streamOf, List.map_singleton, List.flatten_singleton]
        show (([esc, 0x5d] ++ units "52;c;aGk=") ++ List.replicate oscIncompleteLimit 0x20).length = _
        rw [List.length_append, List.length_replicate]
        rfl
      omega
    exact (@offers_run _ padded greetingReaders [(0, padded.introducer ++ padded.content), (1, padded.ending)] [] []
      (by rw [hstream]; exact padded.text_ne_nil) hstream (Nat.zero_le _)).2 hlong

end Osc52
end Term
end Dormouse

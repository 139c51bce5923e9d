import Dormouse.TermControls
import Dormouse.TermOsc
/-!
# `TerminalProtocolParser`

`lib/src/lib/terminal-protocol.ts`.  A call reads the text held from the last chunk and the new chunk; `index` of the
source's loop is the text not yet read.  A call that throws returns no result (`none`), and leaves the parser as it was
when it threw.

What becomes of an OSC's content is a `Handler`: `parseOsc`, or any other reader of contents that claims the same ids.
-/
namespace Dormouse
namespace Term

/-- The clipped contents that `parseOsc` claims bare; `10`, `11` and `12` it leaves to xterm.js. -/
def bareIds : List JsString :=
  ["0", "2", "7", "9", "50", "52", "99", "133", "367", "633", "777", "1337"].map units

/-- A reader of OSC contents, with a table of its own.  Which contents it claims, and on which it throws, does not depend
on the table; a content routed to xterm.js is never claimed, and of the bare ids it claims `bareIds`. -/
structure Handler (P : Payloads) (τ : Type) where
  parse         : τ → JsString → τ × Parsed P
  claims        : JsString → Bool
  throws        : JsString → Bool
  parse_throws  : ∀ {t c}, throws c = true → (parse t c).2 = .threw
  parse_claims  : ∀ {t c}, throws c = false → claims c = true → ∃ events, (parse t c).2 = .events events
  parse_passed  : ∀ {t c}, throws c = false → claims c = false → parse t c = (t, .passed)
  forward       : ∀ {c}, oscDispositionAt c = some .forward → throws c = false ∧ claims c = false
  digits        : ∀ {c}, c.all isDigit = true → throws c = false ∧ (claims c = true ↔ c ∈ bareIds)

variable {P : Payloads} {τ : Type}

/-! ## Ground text -/

def terminalBell : TerminalProtocolEvent P := .notification ⟨.bell, some (units "Terminal bell"), none⟩

def stripStandaloneBells (segment : JsString) : JsString × List (TerminalProtocolEvent P) :=
  if segment.contains bel then (segment.filter (· != bel), [terminalBell]) else (segment, [])

def isBell : TerminalProtocolEvent P → Bool
  | .notification n => n.source == .bell
  | _               => false

def isRicher : TerminalProtocolEvent P → Bool
  | .notification n => n.source != .bell
  | _               => false

def keepFirstBell : List (TerminalProtocolEvent P) → List (TerminalProtocolEvent P)
  | []      => []
  | e :: es => if isBell e then e :: es.filter (fun e => !isBell e) else e :: keepFirstBell es

def filterTerminalBellEvents (events : List (TerminalProtocolEvent P)) : List (TerminalProtocolEvent P) :=
  let hasRicher := events.any isRicher
  if events.countP isBell = 0 then events
  else if !hasRicher ∧ events.countP isBell = 1 then events
  else if hasRicher then events.filter (fun e => !isBell e)
  else keepFirstBell events

/-- `ITERM2_DEVICE_ATTRIBUTES_RESPONSE`. -/
def deviceAttributesResponse : TerminalProtocolEvent P :=
  .response ([0x1b] ++ units "P>|iTerm2 3.6.6" ++ [0x1b, 0x5c])

/-- `CSI > q`, in its ESC and C1 spellings: what follows the one a text starts with. -/
def queryAt (text : JsString) : Option JsString :=
  match after? [0x1b, 0x5b, 0x3e, 0x71] text with
  | some rest => some rest
  | none      => after? [0x9b, 0x3e, 0x71] text

theorem after?_length {literal s rest : JsString} (h : after? literal s = some rest) :
    rest.length + literal.length = s.length := by
  unfold after? at h
  split at h
  · rename_i hp
    cases h
    have := (List.isPrefixOf_iff_prefix.mp hp).length_le
    rw [List.length_drop]
    omega
  · cases h

theorem queryAt_length {text rest : JsString} (h : queryAt text = some rest) : rest.length < text.length := by
  unfold queryAt at h
  split at h
  · rename_i r hr
    cases h
    have := after?_length hr
    simp only [List.length_cons] at this
    omega
  · have := after?_length h
    simp only [List.length_cons] at this
    omega

def answerDeviceAttributeQueries : JsString → JsString × List (TerminalProtocolEvent P)
  | []      => ([], [])
  | c :: cs =>
    match h : queryAt (c :: cs) with
    | some rest =>
      have := queryAt_length h
      let r := answerDeviceAttributeQueries rest
      (r.1, deviceAttributesResponse :: r.2)
    | none =>
      let r := answerDeviceAttributeQueries cs
      (c :: r.1, r.2)
termination_by ground => ground.length
decreasing_by
  · exact this
  · exact Nat.lt_succ_self _

def deviceAttributePendingSuffixes : List JsString :=
  [[0x1b, 0x5b, 0x3e], [0x1b, 0x5b], [0x1b], [0x9b, 0x3e], [0x9b]]

def takeDeviceAttributePendingSuffix (visibleData : JsString) : JsString :=
  (deviceAttributePendingSuffixes.find? (fun suffix => suffix.isSuffixOf visibleData)).getD []

/-! ## The end of a string control -/

structure StringControlEnd where
  payload   : JsString
  /-- The characters of the terminator or the abort; an ESC that cancels is left to be read. -/
  ending    : JsString
  rest      : JsString
  cancelled : Bool
  deriving DecidableEq, Repr

def findStringControlEnd (kind : StringControlKind) (text : JsString) : Option StringControlEnd :=
  match stringControlEndScan kind text with
  | none                    => none
  | some (payload, c, rest) =>
    if c ≠ esc then some ⟨payload, [c], rest, c == can || c == sub⟩
    else
      match rest with
      | []      => none
      | d :: ds => if d = backslash then some ⟨payload, [c, d], ds, false⟩ else some ⟨payload, [], c :: rest, true⟩

/-! ## The parser -/

def oscIncompleteLimit : Nat := 16384

structure Forwarding where
  kind    : StringControlKind
  heldEsc : JsString
  deriving DecidableEq

structure Parser (τ : Type) where
  pending      : JsString
  forwarding   : Option Forwarding
  discarding   : Option JsString
  osc99Pending : τ

def Parser.ground (t : τ) : Parser τ := ⟨[], none, none, t⟩

structure Emitted (P : Payloads) where
  visibleData : JsString
  textData    : JsString
  events      : List (TerminalProtocolEvent P)

def Emitted.append (a b : Emitted P) : Emitted P :=
  ⟨a.visibleData ++ b.visibleData, a.textData ++ b.textData, a.events ++ b.events⟩

instance : Append (Emitted P) := ⟨Emitted.append⟩

structure TerminalProtocolParseResult (P : Payloads) where
  visibleData      : JsString
  events           : List (TerminalProtocolEvent P)
  textData         : JsString
  resumedStringEnd : Option Nat

def heldEscOf (text : JsString) : JsString := if endsWithEsc text then [esc] else []

def beginForwarding (t : τ) (kind : StringControlKind) (text : JsString) : Parser τ × JsString :=
  (⟨[], some ⟨kind, heldEscOf text⟩, none, t⟩, if endsWithEsc text then text.dropLast else text)

/-- A string control that is still open at the end of the text. -/
def holdOpen (t : τ) (introducer body : JsString) : Parser τ × JsString :=
  let kind := stringControlKind introducer
  let incomplete := introducer ++ body
  let disposition := if kind = .osc then oscDispositionAt body else some .forward
  if disposition = some .forward then beginForwarding t kind incomplete
  else if incomplete.length ≤ oscIncompleteLimit then (⟨incomplete, none, none, t⟩, [])
  else (⟨[], none, some (heldEscOf incomplete), t⟩, [])

def routeControl (h : Handler P τ) (t : τ) (m : Introduced) (e : StringControlEnd) :
    τ × Option (JsString × List (TerminalProtocolEvent P)) :=
  let sequence := m.introducer ++ (e.payload ++ e.ending)
  if stringControlKind m.introducer ≠ .osc then (t, some (sequence, []))
  else if e.cancelled then (t, some (if oscDispositionAt m.rest = some .forward then sequence else [], []))
  else
    match h.parse t e.payload with
    | (t', .threw)         => (t', none)
    | (t', .passed)        => (t', some (sequence, []))
    | (t', .events events) => (t', some ([], events))

def readGap (gap : JsString) : Emitted P :=
  let stripped := stripStandaloneBells (P := P) gap
  let ground := answerDeviceAttributeQueries (P := P) stripped.1
  ⟨ground.1, ground.1, stripped.2 ++ ground.2⟩

/-- Ground text to the end of the chunk, less a partial `CSI > q`. -/
def readTail (t : τ) (text : JsString) : Parser τ × Emitted P :=
  let tail := stripStandaloneBells (P := P) text
  let pending := takeDeviceAttributePendingSuffix tail.1
  let ground := answerDeviceAttributeQueries (P := P) (tail.1.take (tail.1.length - pending.length))
  (⟨pending, none, none, t⟩, ⟨ground.1, ground.1, tail.2 ++ ground.2⟩)

theorem findStringControlEnd_length {kind : StringControlKind} {text : JsString} {e : StringControlEnd}
    (h : findStringControlEnd kind text = some e) : e.rest.length ≤ text.length := by
  unfold findStringControlEnd at h
  split at h
  · cases h
  · rename_i payload c rest hs
    rw [stringControlEndScan_text hs]
    split at h
    · cases h
      simp only [List.length_append, List.length_cons]
      omega
    · split at h
      · cases h
      · split at h
        · cases h
          simp only [List.length_append, List.length_cons]
          omega
        · cases h
          simp only [List.length_append, List.length_cons]
          omega

/-- The loop of `process` over the text not yet read. -/
def groundLoop (h : Handler P τ) (t : τ) (text : JsString) : Parser τ × Option (Emitted P) :=
  match hm : introducerScan text with
  | none   => ((readTail (P := P) t text).1, some (readTail t text).2)
  | some m =>
    match he : findStringControlEnd (stringControlKind m.introducer) m.rest with
    | none   =>
      let opened := holdOpen t m.introducer m.rest
      (opened.1, some (readGap m.gap ++ ⟨opened.2, [], []⟩))
    | some e =>
      have := introducerScan_length hm
      have := findStringControlEnd_length he
      match routeControl h t m e with
      | (t', none)                   => (.ground t', none)
      | (t', some (visible, events)) =>
        let r := groundLoop h t' e.rest
        (r.1, r.2.map (fun rest => readGap m.gap ++ ⟨visible, [], events⟩ ++ rest))
termination_by text.length

/-- `NEEDS_PARSE_RE.test`. -/
def needsParse (data : JsString) : Bool :=
  data.any (fun c => c == bel || c == esc || c == 0x9b) || (introducerScan data).isSome

/-- `process` with nothing streaming. -/
def processGround (h : Handler P τ) (p : Parser τ) (data : JsString) :
    Parser τ × Option (TerminalProtocolParseResult P) :=
  if p.pending = [] ∧ needsParse data = false then (p, some ⟨data, [], data, some 0⟩)
  else
    let r := groundLoop h p.osc99Pending (p.pending ++ data)
    (r.1, r.2.map (fun e => ⟨e.visibleData, filterTerminalBellEvents e.events, e.textData, some 0⟩))

def processForwarded (h : Handler P τ) (p : Parser τ) (f : Forwarding) (data : JsString) :
    Parser τ × Option (TerminalProtocolParseResult P) :=
  let text := f.heldEsc ++ data
  match findStringControlEnd f.kind text with
  | none   =>
    let begun := beginForwarding p.osc99Pending f.kind text
    ({ p with forwarding := begun.1.forwarding }, some ⟨begun.2, [], [], none⟩)
  | some e =>
    let r := processGround h { p with forwarding := none } e.rest
    (r.1, r.2.map (fun rest =>
      ⟨e.payload ++ e.ending ++ rest.visibleData, rest.events, rest.textData, some (e.payload ++ e.ending).length⟩))

/-- `process` with nothing being discarded. -/
def processLive (h : Handler P τ) (p : Parser τ) (data : JsString) :
    Parser τ × Option (TerminalProtocolParseResult P) :=
  match p.forwarding with
  | some f => processForwarded h p f data
  | none   => processGround h p data

def process (h : Handler P τ) (p : Parser τ) (data : JsString) : Parser τ × Option (TerminalProtocolParseResult P) :=
  match p.discarding with
  | none         => processLive h p data
  | some heldEsc =>
    let text := heldEsc ++ data
    match findStringControlEnd .osc text with
    | none   => ({ p with discarding := some (heldEscOf text) }, some ⟨[], [], [], some 0⟩)
    | some e => processLive h { p with discarding := none } e.rest

end Term
end Dormouse

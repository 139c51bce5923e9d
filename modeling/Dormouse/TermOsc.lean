import Dormouse.TermText
/-!
# The operating system commands the parser claims

`lib/src/lib/terminal-protocol.ts`: the events, how an OSC is routed by its id (`oscDispositionAt`) and what each claimed
one is parsed to (`parseOsc`), with the table of unfinished `OSC 99` notifications.

The working directories, the Dor Tool reports and the colours are read by other files, and `Number`, `atob` and
`TextDecoder` by the platform: they are the fields of `Readers`, pure functions of the text they are handed.  The times
stamped on an event are left out; `now` is the reading of the clock that the table of `OSC 99` is kept by.

`OSC94_STATE_TABLE` is an object literal, so a state field that names a member of `Object.prototype` finds that member:
calling it yields a value of its own, or throws (`Parsed.threw`).
-/
namespace Dormouse
namespace Term

/-! ## Events -/

/-- What other files read: `CwdState` (less its time), and the four Dor Tool reports. -/
structure Payloads where
  Cwd           : Type
  ToolAnnounce  : Type
  ToolState     : Type
  ToolOpen      : Type
  ToolDehydrate : Type

inductive NotificationSource where
  | osc9
  | osc99
  | osc777
  | bell
  deriving DecidableEq

structure ActivityNotification where
  source : NotificationSource
  title  : Option JsString
  body   : Option JsString
  deriving DecidableEq

inductive ProgressState where
  | clear
  | normal
  | error
  | indeterminate
  | warning
  deriving DecidableEq

/-- What a handler of `OSC94_STATE_TABLE` returned. -/
inductive ProgressUpdate where
  | update (state : ProgressState) (percent : Option JsNum)
  /-- `Object(raw)`: the inherited `constructor`. -/
  | object (raw : Option JsString)
  /-- The inherited `toString`, called on nothing. -/
  | text (s : JsString)

inductive CommandRunSource where
  | osc633Boundaries
  | osc133Boundaries
  deriving DecidableEq

inductive TitleSource where
  | osc0
  | osc2
  deriving DecidableEq

inductive SemanticEvent (P : Payloads) where
  | cwd (cwd : P.Cwd)
  | promptStart
  | promptEnd
  | commandLine (commandLine : JsString)
  | commandStart (source : CommandRunSource)
  | commandFinish (exitCode : Option Int)
  | title (title : JsString) (source : TitleSource)

inductive TerminalProtocolEvent (P : Payloads) where
  | notification (notification : ActivityNotification)
  | clipboardOffer (text : JsString)
  | toolAnnounce (announce : P.ToolAnnounce)
  | toolState (state : P.ToolState)
  | toolOpen (open_ : P.ToolOpen)
  | toolDehydrate (dehydrate : P.ToolDehydrate)
  | progress (progress : ProgressUpdate)
  | response (data : JsString)
  | semantic (event : SemanticEvent P)

inductive TerminalColorTarget where
  | foreground
  | background
  | cursor
  deriving DecidableEq

structure Readers (P : Payloads) where
  cwdFromOsc7            : JsString → Option P.Cwd
  cwdFromOsc9_9          : JsString → Option P.Cwd
  cwdFromOsc633          : JsString → Option P.Cwd
  cwdFromOsc1337         : JsString → Option P.Cwd
  parseToolAnnounce      : JsString → Option P.ToolAnnounce
  parseToolState         : JsString → Option P.ToolState
  parseToolOpen          : JsString → Option P.ToolOpen
  parseToolDehydrate     : JsString → Option P.ToolDehydrate
  /-- `colorProvider`, when there is one. -/
  colorProvider          : Option (TerminalColorTarget → Option JsString)
  formatOscColorResponse : JsString → Option JsString → Option JsString
  /-- `Number` of a string. -/
  number                 : JsString → JsNum
  /-- `TextDecoder.decode`. -/
  decodeUtf8             : List Nat → JsString
  /-- The bytes of `atob`, `none` where it throws. -/
  atob                   : JsString → Option (List Nat)

variable {P : Payloads}

/-! ## Routing by id -/

inductive Disposition where
  | consume
  | forward
  deriving DecidableEq, Repr

def oscConsumedIds : List JsString :=
  ["0", "2", "7", "9", "10", "11", "12", "50", "52", "99", "133", "367", "633", "777"].map units

def osc1337Forwarded : List JsString := ["File=", "MultipartFile=", "FilePart=", "FileEnd", "ReportCellSize"].map units

/-- `none` while more text could change the answer. -/
def osc1337DispositionAt (rest : JsString) : Option Disposition :=
  if osc1337Forwarded.any (fun command => startsWith rest command) then some .forward
  else if osc1337Forwarded.any (fun command => rest.length < command.length && startsWith command rest) then none
  else some .consume

def oscDispositionAt (text : JsString) : Option Disposition :=
  match text.dropWhile isDigit with
  | []      => none
  | c :: cs =>
    let id := text.takeWhile isDigit
    if id = [] ∨ c ≠ 0x3b then some .forward
    else if id = units "1337" then osc1337DispositionAt cs
    else if id ∈ oscConsumedIds then some .consume
    else some .forward

/-! ## The parsers -/

def titleLimit : Nat := 256
def bodyLimit : Nat := 4096
def commandLineLimit : Nat := 2048
def clipboardOfferLimit : Nat := 16000

/-- What `parseOsc` did with a content: it threw, left it to xterm.js (`null`), or claimed it. -/
inductive Parsed (P : Payloads) where
  | threw
  | passed
  | events (events : List (TerminalProtocolEvent P))

def cwdEvents (cwd : Option P.Cwd) : List (TerminalProtocolEvent P) :=
  match cwd with
  | some cwd => [.semantic (.cwd cwd)]
  | none     => []

def parseOsc7 (R : Readers P) (content : JsString) : List (TerminalProtocolEvent P) :=
  if startsWith content (units "7;") then cwdEvents (R.cwdFromOsc7 (content.drop 2)) else []

def parsePercent (R : Readers P) (raw : Option JsString) : Option JsNum :=
  match raw with
  | none     => none
  | some raw =>
    if raw = [] then none
    else
      match R.number raw with
      | .fin q => if q < 0 ∨ q > 100 then none else some (.fin q)
      | _      => none

/-- The members of `Object.prototype` that throw when called on nothing, or cannot be called. -/
def throwingMembers : List JsString :=
  ["toLocaleString", "valueOf", "hasOwnProperty", "propertyIsEnumerable", "__defineGetter__", "__defineSetter__",
    "__lookupGetter__", "__lookupSetter__", "__proto__"].map units

/-- `OSC94_STATE_TABLE[state]` called on `raw`; an update that is `null` or `false` gives no event. -/
def osc94State (R : Readers P) (state : JsString) (raw : Option JsString) : Parsed P :=
  let update (u : ProgressUpdate) : Parsed P := .events [.progress u]
  if state = [] ∨ state = units "0" then update (.update .clear none)
  else if state = units "1" then
    match parsePercent R raw with
    | none         => .events []
    | some percent => update (.update .normal (some percent))
  else if state = units "2" then update (.update .error (parsePercent R raw))
  else if state = units "3" then update (.update .indeterminate none)
  else if state = units "4" then
    match parsePercent R raw with
    | none         => .events []
    | some percent => update (.update .warning (some percent))
  else if state = units "constructor" then update (.object raw)
  else if state = units "toString" then update (.text (units "[object Undefined]"))
  else if state ∈ throwingMembers then .threw
  else .events []

def parseOsc94 (R : Readers P) (content : JsString) : Parsed P :=
  let fields := content.splitOn 0x3b
  osc94State R (fields[2]?.getD []) fields[3]?

/-- `/^9;(\d+)(?:;|$)/`: the digits, and what follows the match. -/
def osc9Subcommand (content : JsString) : Option (JsString × JsString) :=
  match after? (units "9;") content with
  | none      => none
  | some rest =>
    let digits := rest.takeWhile isDigit
    if digits = [] then none
    else
      match rest.dropWhile isDigit with
      | []      => some (digits, [])
      | c :: cs => if c = 0x3b then some (digits, cs) else none

def parseOsc9 (R : Readers P) (content : JsString) : Parsed P :=
  match osc9Subcommand content with
  | none =>
    match sanitizeText (content.drop 2) bodyLimit with
    | some body => .events [.notification ⟨.osc9, none, some body⟩]
    | none      => .events []
  | some (digits, rest) =>
    if digits = units "4" then parseOsc94 R content
    else if digits = units "9" then .events (cwdEvents (R.cwdFromOsc9_9 rest))
    else .events []

def notificationEvents (source : NotificationSource) (title body : Option JsString) : List (TerminalProtocolEvent P) :=
  if title = none ∧ body = none then [] else [.notification ⟨source, title, body⟩]

def parseOsc777 (content : JsString) : List (TerminalProtocolEvent P) :=
  match after? (units "777;notify;") content with
  | none      => []
  | some rest =>
    match splitAt? [0x3b] rest with
    | none               => notificationEvents .osc777 (sanitizeText rest titleLimit) none
    | some (title, body) => notificationEvents .osc777 (sanitizeText title titleLimit) (sanitizeText body bodyLimit)

def commandLineEvents (encoded : JsString) (encodedWidth : Nat) (decode : JsString → JsString) :
    List (TerminalProtocolEvent P) :=
  match sanitizeCommandLine (decode (truncateText encoded (commandLineLimit * encodedWidth))) commandLineLimit with
  | some commandLine => [.semantic (.commandLine commandLine)]
  | none             => []

def parseOsc133CommandLine (R : Readers P) (params : JsString) : List (TerminalProtocolEvent P) :=
  let quoted := splitAt? (units ";cmdline=") params
  let head := match quoted with
    | some (head, _) => head
    | none           => params
  match (head.splitOn 0x3b).find? (fun field => startsWith field (units "cmdline_url=")) with
  | some url => commandLineEvents (url.drop 12) 12 (decodePercentEncoded R.decodeUtf8)
  | none     =>
    match quoted with
    | some (_, word) => commandLineEvents word 4 decodeShellQuotedWord
    | none           => []

def parseExitCode (R : Readers P) (raw : Option JsString) : Option Int :=
  match raw with
  | none     => none
  | some raw => if raw = [] then none else (R.number raw).int?

def parsePromptBoundary (R : Readers P) (fields : List JsString) (source : CommandRunSource) :
    List (TerminalProtocolEvent P) :=
  if fields[1]? = some (units "A") then [.semantic .promptStart]
  else if fields[1]? = some (units "B") then [.semantic .promptEnd]
  else if fields[1]? = some (units "C") then [.semantic (.commandStart source)]
  else if fields[1]? = some (units "D") then [.semantic (.commandFinish (parseExitCode R fields[2]?))]
  else []

def parseOsc133 (R : Readers P) (content : JsString) : List (TerminalProtocolEvent P) :=
  let fields := content.splitOn 0x3b
  if fields[0]? ≠ some (units "133") then []
  else
    let boundary := parsePromptBoundary R fields .osc133Boundaries
    if fields[1]? ≠ some (units "C") then boundary
    else parseOsc133CommandLine R (content.drop 5) ++ boundary

def parseOsc633Property (R : Readers P) (rawProperties : JsString) : List (TerminalProtocolEvent P) :=
  match after? (units "Cwd=") rawProperties with
  | some path => cwdEvents (R.cwdFromOsc633 path)
  | none      => []

def parseOsc633 (R : Readers P) (content : JsString) : List (TerminalProtocolEvent P) :=
  let fields := content.splitOn 0x3b
  if fields[0]? ≠ some (units "633") then []
  else if fields[1]? = some (units "E") then
    match after? (units "633;E;") content with
    | none      => []
    | some rest => commandLineEvents (rest.takeWhile (· != 0x3b)) 4 decodeOsc633Value
  else if fields[1]? = some (units "P") then parseOsc633Property R (content.drop 6)
  else parsePromptBoundary R fields .osc633Boundaries

def parseOsc1337 (R : Readers P) (content : JsString) : Parsed P :=
  if oscDispositionAt content = some .forward then .passed
  else
    match after? (units "1337;CurrentDir=") content with
    | none      => .events []
    | some path => .events (cwdEvents (R.cwdFromOsc1337 path))

def parseOscTitle (content : JsString) (source : TitleSource) : List (TerminalProtocolEvent P) :=
  match after? (match source with | .osc0 => units "0;" | .osc2 => units "2;") content with
  | none      => []
  | some rest =>
    match sanitizeText rest titleLimit with
    | none           => []
    | some titleText => [.semantic (.title titleText source)]

/-- `/^[A-Za-z0-9+/]*={0,2}$/`, after the base64 characters. -/
def isPadding (rest : JsString) : Bool := rest = [] || rest = [0x3d] || rest = [0x3d, 0x3d]

def isLetter (c : UInt16) : Bool := (0x41 ≤ c && c ≤ 0x5a) || (0x61 ≤ c && c ≤ 0x7a)

def isBase64 (c : UInt16) : Bool := isLetter c || isDigit c || c == 0x2b || c == 0x2f

def decodeBase64 (R : Readers P) (input : JsString) : Option JsString :=
  let normalized := trim input
  if !isPadding (normalized.dropWhile isBase64) || normalized.length % 4 == 1 then none
  else (R.atob normalized).map R.decodeUtf8

def parseOsc52 (R : Readers P) (content : JsString) : List (TerminalProtocolEvent P) :=
  let data := match content.splitOn 0x3b with
    | [_, _, data] => data.filter (fun c => !isSpace c)
    | _            => []
  if data.length > clipboardOfferLimit then []
  else
    match (decodeBase64 R data).bind sanitizeClipboardText with
    | some text => [.clipboardOffer text]
    | none      => []

def parseOsc367 (R : Readers P) (payload : JsString) : List (TerminalProtocolEvent P) :=
  match R.parseToolAnnounce payload with
  | some announce => [.toolAnnounce announce]
  | none          =>
    match R.parseToolState payload with
    | some state => [.toolState state]
    | none       =>
      match R.parseToolOpen payload with
      | some open_ => [.toolOpen open_]
      | none       =>
        match R.parseToolDehydrate payload with
        | some dehydrate => [.toolDehydrate dehydrate]
        | none           => []

/-- `parseColorQuery`; `none` is `null`. -/
def parseColorQuery (R : Readers P) (content : JsString) : Option (List (TerminalProtocolEvent P)) :=
  let target := if content = units "10;?" then some (units "10", TerminalColorTarget.foreground)
    else if content = units "11;?" then some (units "11", .background)
    else if content = units "12;?" then some (units "12", .cursor)
    else none
  match target, R.colorProvider with
  | some (code, target), some provider =>
    match R.formatOscColorResponse code (provider target) with
    | some data => if data = [] then none else some [.response data]
    | none      => none
  | _, _ => none

/-! ## `OSC 99` -/

def osc99PendingTtlMs : Int := 60000
def osc99MaxPendingIds : Nat := 64
def osc99PendingTitleLimit : Nat := 2048
def osc99PendingBodyLimit : Nat := 16384

structure Osc99PendingNotification where
  title     : JsString
  body      : JsString
  updatedAt : Int
  deriving DecidableEq

abbrev Osc99Pending := List (JsString × Osc99PendingNotification)

def parseOsc99Metadata (rawMetadata : JsString) : List (UInt16 × JsString) :=
  (rawMetadata.splitOn 0x3a).filterMap (fun part =>
    match splitAt? [0x3d] part with
    | some ([key], value) => if isLetter key then some (key, value) else none
    | _                   => none)

/-- `metadata.get(key)`: what was set last. -/
def metadataGet (metadata : List (UInt16 × JsString)) (key : UInt16) : Option JsString := metadata.reverse.lookup key

def sanitizeOsc99Id (id : Option JsString) : Option JsString :=
  match id with
  | none    => none
  | some id => if id = [] then none else sanitizeText id titleLimit

/-- `OSC99_RESPONSE_ID_RE`. -/
def isResponseId (id : JsString) : Bool :=
  1 ≤ id.length && id.length ≤ 64 && id.all (fun c => isLetter c || isDigit c || [0x5f, 0x2b, 0x2e, 0x2d].contains c)

def formatOsc99SupportResponse (id : Option JsString) : JsString :=
  let metadata := match id with
    | some id => if isResponseId id then units "i=" ++ id ++ units ":p=?" else units "p=?"
    | none    => units "p=?"
  [0x1b] ++ units "]99;" ++ metadata ++ units ";o=always:p=title,body" ++ [0x1b, 0x5c]

def expireOsc99Pending (now : Int) (table : Osc99Pending) : Osc99Pending :=
  table.filter (fun e => !(e.2.updatedAt < now - osc99PendingTtlMs))

def enforceOsc99PendingCap (table : Osc99Pending) : Osc99Pending := table.drop (table.length - osc99MaxPendingIds)

def appendLimited (existing next : JsString) (limit : Nat) : JsString := truncateText (existing ++ next) limit

/-- The entry a chunk is added to: the pending one of its id, which is opened if it must be, or one of no table. -/
def osc99Target (now : Int) (table : Osc99Pending) (id : Option JsString) : Osc99Pending × Osc99PendingNotification :=
  let fresh : Osc99PendingNotification := ⟨[], [], now⟩
  match id with
  | none    => (table, fresh)
  | some id =>
    match table.lookup id with
    | some pending => (table, pending)
    | none         => (enforceOsc99PendingCap (table ++ [(id, fresh)]), fresh)

def osc99Store (table : Osc99Pending) (id : Option JsString) (target : Osc99PendingNotification) : Osc99Pending :=
  match id with
  | none    => table
  | some id => table.map (fun e => if e.1 = id then (e.1, target) else e)

def osc99Delete (table : Osc99Pending) (id : Option JsString) : Osc99Pending :=
  match id with
  | none    => table
  | some id => table.filter (fun e => e.1 ≠ id)

/-- A `title`, `body` or unknown payload, added to the entry of its id. -/
def osc99Append (now : Int) (table : Osc99Pending) (id : Option JsString) (payloadType : JsString) (done : Bool)
    (payload : JsString) : Osc99Pending × List (TerminalProtocolEvent P) :=
  let opened := osc99Target now table id
  let target : Osc99PendingNotification :=
    if payloadType = units "title" then
      ⟨appendLimited opened.2.title payload osc99PendingTitleLimit, opened.2.body, now⟩
    else if payloadType = units "body" then
      ⟨opened.2.title, appendLimited opened.2.body payload osc99PendingBodyLimit, now⟩
    else ⟨opened.2.title, opened.2.body, now⟩
  let stored := osc99Store opened.1 id target
  if !done then (stored, [])
  else
    (osc99Delete stored id,
      notificationEvents .osc99 (sanitizeText target.title titleLimit) (sanitizeText target.body bodyLimit))

def parseOsc99 (R : Readers P) (now : Int) (table : Osc99Pending) (content : JsString) :
    Osc99Pending × List (TerminalProtocolEvent P) :=
  let table := expireOsc99Pending now table
  match after? (units "99;") content with
  | none               => (table, [])
  | some afterProtocol =>
    let split := (splitAt? [0x3b] afterProtocol).getD (afterProtocol, [])
    let metadata := parseOsc99Metadata split.1
    let payloadType := (metadataGet metadata 0x70).getD (units "title")
    if payloadType = units "?" then
      (table, [.response (formatOsc99SupportResponse (metadataGet metadata 0x69))])
    else if payloadType = units "close" ∨ payloadType = units "alive" then (table, [])
    else
      let encoding := (metadataGet metadata 0x65).getD (units "0")
      let decoded := if encoding = units "1" then decodeBase64 R split.2
        else if encoding = units "0" then some split.2 else none
      match decoded with
      | none         => (table, [])
      | some payload =>
        osc99Append now table (sanitizeOsc99Id (metadataGet metadata 0x69)) payloadType
          (metadataGet metadata 0x64 ≠ some (units "0")) payload

/-! ## The dispatch -/

/-- The id alone, or before `;`. -/
def hasId (id content : JsString) : Bool := content = id || startsWith content (id ++ [0x3b])

def parseOsc (R : Readers P) (now : Int) (table : Osc99Pending) (content : JsString) : Osc99Pending × Parsed P :=
  if hasId (units "7") content then (table, .events (parseOsc7 R content))
  else if hasId (units "9") content then (table, parseOsc9 R content)
  else if hasId (units "133") content then (table, .events (parseOsc133 R content))
  else if hasId (units "633") content then (table, .events (parseOsc633 R content))
  else if hasId (units "1337") content then (table, parseOsc1337 R content)
  else if hasId (units "0") content then (table, .events (parseOscTitle content .osc0))
  else if hasId (units "2") content then (table, .events (parseOscTitle content .osc2))
  else if hasId (units "99") content then
    ((parseOsc99 R now table content).1, .events (parseOsc99 R now table content).2)
  else if hasId (units "777") content then (table, .events (parseOsc777 content))
  else if content = units "367" then (table, .events [])
  else
    match after? (units "367;") content with
    | some payload => (table, .events (parseOsc367 R payload))
    | none         =>
      if hasId (units "52") content then (table, .events (parseOsc52 R content))
      else
        match parseColorQuery R content with
        | some events => (table, .events events)
        | none        => if hasId (units "50") content then (table, .events []) else (table, .passed)

end Term
end Dormouse

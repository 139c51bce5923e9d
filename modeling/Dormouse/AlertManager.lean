import Dormouse.AlertEntry
import Mathlib.Data.Finset.Basic
/-!
# AlertManager — the alert state of all Sessions

The class `AlertManager` of `lib/src/lib/alert-manager.ts`, with every public operation that changes it and every timer
that calls back.  Each takes the clock it reads.  What listeners are told and how awaits end is kept in two logs.

Listeners and claimants do not call back into the manager here.  A claimant answers by an event and by how many events
claimants were offered before, so that any sequence of answers is some claimant's.  The listeners themselves and the
removal listeners are left out.  How a command line is summed up and keyed, which input starts work, and how a number
prints are read by other files: they are the fields of `AlertReaders`.
-/
namespace Dormouse
namespace Alert

abbrev SessionId := JsString
abbrev ViewerId := JsString

structure AlertReaders where
  commandWatchKey      : JsString → Option JsString
  summarizeCommandLine : JsString → JsString
  inputCanStartWork    : JsString → Bool → Bool
  /-- A number in a template literal. -/
  numberText           : JsNum → JsString

inductive CompletionEvent where
  | settled
  | commandFinished (displayCommand : JsString) (watchKey : Option JsString) (exitCode : Option Int) (seen : Bool)
  | notification (notification : ActivityNotification)

inductive Claimant where
  | external (handle : Nat) (claims : Nat → CompletionEvent → Bool)
  /-- The one claimant every await of a Session shares. -/
  | awaits

inductive AwaitOutcome where
  | resolved (cause : AwaitCause) (waitedMs : Int)
  | timeout (waitedMs : Int)
  | died (waitedMs : Int)
  | cancelled (waitedMs : Int)

structure AwaitWaiter where
  handle    : Nat
  until'    : AwaitUntil
  startedAt : Int
  grace     : Bool

inductive SessionStatus where
  | detector (status : QuiesceStatus)
  | watchingDisabled
  | alertRinging
  | oscNotifBusy
  | commandExitArmed
  deriving DecidableEq

structure AlertState where
  episode         : Option AlertEpisode
  status          : SessionStatus
  watchingEnabled : Bool
  todo            : Bool
  notification    : Option ActivityNotification
  awaited         : Bool

def defaultAlertState : AlertState := ⟨none, .watchingDisabled, false, false, none, false⟩

def alertStatesEqual (a b : AlertState) : Bool :=
  a.status = b.status && a.watchingEnabled = b.watchingEnabled && a.todo = b.todo && a.awaited = b.awaited &&
    a.episode.map (·.id) = b.episode.map (·.id) && a.notification = b.notification

structure AlertManager where
  entries         : AList (fun _ : SessionId => AlertEntry)
  removed         : Finset SessionId
  claimants       : AList (fun _ : SessionId => List Claimant)
  awaits          : AList (fun _ : SessionId => List AwaitWaiter)
  /-- The focus of each viewer that is present. -/
  viewers         : AList (fun _ : ViewerId => Option SessionId)
  lastEmitted     : AList (fun _ : SessionId => AlertState)
  watchedCommands : Finset JsString
  arrivals        : Nat
  helpers         : Finset SessionId
  /-- How many episodes were created. -/
  episodes        : Nat
  /-- How many events external claimants were offered. -/
  offers          : Nat
  /-- How many handles were handed out. -/
  handles         : Nat
  emitted         : List (SessionId × AlertState)
  outcomes        : List (Nat × AwaitOutcome)

/-! ## `cfg.alert` -/

def echoWindow : Int := 750
def maxAwaitTimeoutMs : ℚ := 24 * 60 * 60 * 1000

/-! ## Texts -/

def watchRuleFor (rules : Finset JsString) (key : Option JsString) : Option JsString :=
  match key with
  | none     => none
  | some key =>
    if key ∈ rules then some key
    else if (0x20 : UInt16) ∈ key ∧ key.takeWhile (· ≠ 0x20) ∈ rules then some (key.takeWhile (· ≠ 0x20))
    else none

def defaultCommandTitle : JsString := units "shell"

/-- `Math.round`. -/
def roundNumber : JsNum → JsNum
  | .fin q => .fin ⌊q + 1 / 2⌋
  | x      => x

def progressTitle (watch : Option CommandExitWatch) (outcome : ProgressOutcome) : JsString :=
  match watch, outcome with
  | none,   .complete => units "Progress complete"
  | none,   .warning  => units "Progress warning"
  | none,   .error    => units "Progress error"
  | some w, .complete => w.watchKey.getD w.displayCommand ++ units " finished"
  | some w, .warning  => w.watchKey.getD w.displayCommand ++ units " finished with a warning"
  | some w, .error    => w.watchKey.getD w.displayCommand ++ units " reported an error"

def formatCommandExitBody (R : AlertReaders) (displayCommand : JsString) (exitCode : Option Int) : JsString :=
  let command := if Term.trim displayCommand = [] then defaultCommandTitle else Term.trim displayCommand
  match exitCode with
  | none      => command
  | some code => command ++ units " exited " ++ R.numberText (.fin code)

/-- `a === b` of two numbers that may be `null`. -/
def sameNumber : Option JsNum → Option JsNum → Bool
  | some .nan, _ => false
  | a,         b => a = b

def awaitCauseFor (until' : AwaitUntil) : CompletionEvent → Option AwaitCause
  | .commandFinished _ _ _ _ => some .exit
  | .settled                 => if until' = .exit then none else some .quiet
  | .notification _          => if until' = .exit then none else some .bell

namespace AlertManager

def create : AlertManager := ⟨∅, ∅, ∅, ∅, ∅, ∅, ∅, 0, ∅, 0, 0, 0, [], []⟩

/-! ## Reading -/

def isEngaged (m : AlertManager) (id : SessionId) : Bool := m.viewers.entries.any (fun v => v.2 = some id)

def isWatching (m : AlertManager) (e : AlertEntry) : Bool :=
  (watchRuleFor m.watchedCommands (e.commandExitWatch.bind (·.watchKey))).isSome

def getProjectedStatus (m : AlertManager) (id : SessionId) (e : AlertEntry) : SessionStatus :=
  if e.ring.isSome then .alertRinging
  else if e.progress.isSome then .oscNotifBusy
  else if m.isWatching e then .detector e.detector.status
  else if e.commandExitWatch.any (·.seen) ∧ !m.isEngaged id then .commandExitArmed
  else .watchingDisabled

def getState (m : AlertManager) (id : SessionId) : AlertState :=
  match m.entries.lookup id with
  | none   => defaultAlertState
  | some e =>
    if id ∈ m.helpers then defaultAlertState
    else
      { status          := m.getProjectedStatus id e
        watchingEnabled := m.isWatching e
        todo            := e.todo
        notification    := (e.ring.map (·.detail)).or e.notification
        awaited         := (m.awaits.lookup id).any (fun waiters => !waiters.isEmpty)
        episode         := e.ring.map (·.episode) }

/-! ## Publishing -/

def notify (m : AlertManager) (id : SessionId) : AlertManager :=
  let state := m.getState id
  let silent := match m.lastEmitted.lookup id with
    | some last => alertStatesEqual last state
    | none      => decide (id ∈ m.helpers)
  if silent then m
  else
    { m with
      lastEmitted := if id ∈ m.entries then m.lastEmitted.insert id state else m.lastEmitted.erase id
      emitted     := m.emitted ++ [(id, state)] }

/-! ## Entries -/

def modifyEntry (m : AlertManager) (id : SessionId) (f : AlertEntry → AlertEntry) : AlertManager :=
  match m.entries.lookup id with
  | none   => m
  | some e => { m with entries := m.entries.insert id (f e) }

def getOrCreateEntry (m : AlertManager) (id : SessionId) : AlertManager :=
  if id ∈ m.entries then m else { m with entries := m.entries.insert id .create }

/-- The entry raw output feeds: none once the Session was removed. -/
def streamEntry (m : AlertManager) (id : SessionId) : Option AlertManager :=
  if id ∈ m.removed then none else some (m.getOrCreateEntry id)

def reportedEntry (m : AlertManager) (id : SessionId) : AlertManager :=
  { m with removed := m.removed.erase id }.getOrCreateEntry id

/-! ## Awaits -/

def dropClaimant (m : AlertManager) (id : SessionId) (keep : Claimant → Bool) : AlertManager :=
  match m.claimants.lookup id with
  | none    => m
  | some cs =>
    { m with
      claimants :=
        if (cs.filter keep).isEmpty then m.claimants.erase id else m.claimants.insert id (cs.filter keep) }

def Claimant.isAwaits : Claimant → Bool
  | .awaits => true
  | _       => false

def Claimant.isExternal (handle : Nat) : Claimant → Bool
  | .external h _ => h == handle
  | _             => false

def dropWaiter (m : AlertManager) (id : SessionId) (handle : Nat) : AlertManager :=
  match m.awaits.lookup id with
  | none         => m
  | some waiters =>
    let rest := waiters.filter (fun w => w.handle ≠ handle)
    if rest.length = waiters.length then m
    else if !rest.isEmpty then { m with awaits := m.awaits.insert id rest }
    else { m with awaits := m.awaits.erase id }.dropClaimant id (fun c => !Claimant.isAwaits c)

def settleWaiter (m : AlertManager) (id : SessionId) (handle : Nat) (outcome : AwaitOutcome) : AlertManager :=
  let dropped := m.dropWaiter id handle
  { dropped with outcomes := dropped.outcomes ++ [(handle, outcome)] }.notify id

def waitersOf (m : AlertManager) (id : SessionId) : List AwaitWaiter := (m.awaits.lookup id).getD []

/-- `settleWaiters` with `died` or `cancelled`. -/
def settleWaiters (m : AlertManager) (id : SessionId) (outcome : Int → AwaitOutcome) (now : Int) : AlertManager :=
  (m.waitersOf id).foldl (fun m w => m.settleWaiter id w.handle (outcome (now - w.startedAt))) m

/-- The grace windows of the awaits that `ends` names are over. -/
def clearGraces (m : AlertManager) (id : SessionId) (ends : AwaitWaiter → Bool) : AlertManager :=
  match m.awaits.lookup id with
  | none         => m
  | some waiters =>
    { m with awaits := m.awaits.insert id (waiters.map (fun w => { w with grace := w.grace && !ends w })) }

def offerWaiters (m : AlertManager) (id : SessionId) (event : CompletionEvent) (now : Int) : AlertManager × Bool :=
  (m.waitersOf id).foldl
    (fun r w =>
      match awaitCauseFor w.until' event with
      | none       => r
      | some cause => (r.1.settleWaiter id w.handle (.resolved cause (now - w.startedAt)), true))
    (m, false)

def offerClaimants (id : SessionId) (event : CompletionEvent) (now : Int) :
    List Claimant → AlertManager → AlertManager × Bool
  | [],                      m => (m, false)
  | .external _ claims :: cs, m =>
    if claims m.offers event then ({ m with offers := m.offers + 1 }, true)
    else offerClaimants id event now cs { m with offers := m.offers + 1 }
  | .awaits :: cs,            m =>
    match m.offerWaiters id event now with
    | (m', true)  => (m', true)
    | (m', false) => offerClaimants id event now cs m'

/-! ## Completions -/

/-- From a completion that may ring to the ring.  `held` is the arrival an escalated hold kept. -/
def holdOrDeliver (m : AlertManager) (id : SessionId) (source : RingSource) (detail : ActivityNotification)
    (held : Option Nat) (now : Int) : AlertManager :=
  let arrived := held.getD (m.arrivals + 1)
  let m := { m with arrivals := if held.isSome then m.arrivals else m.arrivals + 1 }
  let acked := (m.entries.lookup id).any (fun e => source = .listed .report ∧ e.ackedQuiet)
  if m.isEngaged id then (m.modifyEntry id (·.hold source detail arrived)).notify id
  else if acked then
    (if held.isSome then m else m.modifyEntry id (·.updateReceipt detail)).notify id
  else
    -- only a ring that opens starts an episode
    let opens := (m.entries.lookup id).any (fun e => e.ring.isNone)
    { m.modifyEntry id (·.raiseRing source detail arrived ⟨m.episodes, now⟩) with
      episodes := if opens then m.episodes + 1 else m.episodes }.notify id

def deliver (R : AlertReaders) (m : AlertManager) (id : SessionId) (e : AlertEntry) (event : CompletionEvent)
    (now : Int) : AlertManager :=
  match event with
  | .settled                                         =>
    match e.commandExitWatch.bind (·.watchKey) with
    | none     => m
    | some key =>
      if key = [] ∨ !m.isWatching e then m
      else m.holdOrDeliver id (.watching ⟨key, false⟩) ⟨.watching, some (key ++ units " went quiet"), none⟩ none now
  | .commandFinished displayCommand _ exitCode seen =>
    if seen then
      m.holdOrDeliver id (.listed .exit)
        ⟨.commandExit, some (units "Command finished"), some (formatCommandExitBody R displayCommand exitCode)⟩ none now
    else m
  | .notification notification                       => m.holdOrDeliver id (.listed .report) notification none now

def dispatchCompletion (R : AlertReaders) (m : AlertManager) (id : SessionId) (event : CompletionEvent) (now : Int) :
    AlertManager × Bool :=
  if id ∈ m.helpers then (m, false)
  else
    match offerClaimants id event now ((m.claimants.lookup id).getD []) m with
    | (m', true)  => (m', true)
    | (m', false) =>
      match m'.entries.lookup id with
      | none   => (m', false)
      | some e =>
        if e.inEchoWindow now then (m'.notify id, false)
        else (m'.deliver R id e event now, false)

/-- The user went idle, or left: each held source takes the path it would have taken unengaged. -/
def escalateHeld (m : AlertManager) (id : SessionId) (now : Int) : AlertManager :=
  match (m.entries.lookup id).bind (·.held) with
  | none      => m
  | some held =>
    held.eachSource.foldl (fun m source => m.holdOrDeliver id source held.detail (some held.arrived) now)
      (m.modifyEntry id (fun e => { e with held := none }))

/-! ## Progress and commands -/

def settleProgressEnd (R : AlertReaders) (m : AlertManager) (id : SessionId) (now : Int) : AlertManager :=
  match m.entries.lookup id with
  | none   => m
  | some e =>
    match e.progress.bind (·.ended) with
    | none     => m
    | some end' =>
      let body := end'.percent.map (fun p => units "Progress " ++ R.numberText (roundNumber p) ++ units "%")
      let r := (m.modifyEntry id (·.endRun)).dispatchCompletion R id
        (.notification ⟨.osc9Progress, some (progressTitle e.commandExitWatch end'.outcome), body⟩) now
      if r.2 then r.1.notify id else r.1

/-- A command boundary: a pending end counts first.  Whether it ended a cycle silently. -/
def endRunAtBoundary (R : AlertReaders) (m : AlertManager) (id : SessionId) (now : Int) : AlertManager × Bool :=
  let m := m.settleProgressEnd R id now
  (m.modifyEntry id (·.endRun), ((m.entries.lookup id).bind (·.progress)).isSome)

def startCommandExitWatch (R : AlertReaders) (m : AlertManager) (id : SessionId) (now : Int) : AlertManager :=
  let m := (m.endRunAtBoundary R id now).1
  let started (e : AlertEntry) : AlertEntry :=
    { e with
      pendingCommandLine := none
      ackedQuiet         := false
      commandExitWatch   := some
        { displayCommand :=
            match e.pendingCommandLine with
            | some raw => if raw = [] then defaultCommandTitle else R.summarizeCommandLine raw
            | none     => defaultCommandTitle
          watchKey       := e.pendingCommandLine.bind R.commandWatchKey
          seen           := m.isEngaged id } }
  (m.modifyEntry id started).clearGraces id (fun _ => true)

def finishCommandExitWatch (R : AlertReaders) (m : AlertManager) (id : SessionId) (exitCode : Option Int) (now : Int) :
    AlertManager × Bool :=
  let (m, endedProgress) := m.endRunAtBoundary R id now
  let watch := (m.entries.lookup id).bind (·.commandExitWatch)
  let m := m.modifyEntry id (fun e => { e with commandExitWatch := none, pendingCommandLine := none })
  match watch with
  | none   => (m, endedProgress)
  | some w =>
    ((m.dispatchCompletion R id (.commandFinished w.displayCommand w.watchKey exitCode w.seen) now).1, true)

/-! ## The public operations -/

def setHelper (m : AlertManager) (id : SessionId) (helper : Bool) : AlertManager :=
  let m := { m with helpers := if helper then insert id m.helpers else m.helpers.erase id }
  if id ∈ m.entries then m.notify id else m

def stir (m : AlertManager) (id : SessionId) (s : Stirred) : AlertManager :=
  (s.published.foldl (fun m d => (m.modifyEntry id (fun e => { e with detector := d })).notify id) m).modifyEntry id
    (fun e => { e with detector := s.detector })

def noteWork (m : AlertManager) (id : SessionId) : AlertManager :=
  (m.modifyEntry id (·.noteWork)).clearGraces id (fun w => w.until' = .quiet)

def onData (m : AlertManager) (id : SessionId) (now : Int) : AlertManager :=
  match m.streamEntry id with
  | none   => m
  | some m =>
    match m.entries.lookup id with
    | none   => m
    | some e =>
      if e.inEchoWindow now then m
      else
        let r := e.detector.onData now
        if r.2 then (m.stir id r.1).noteWork id else m.stir id r.1

def onExit (R : AlertReaders) (m : AlertManager) (id : SessionId) (exitCode : Option Int) (now : Int) : AlertManager :=
  let m :=
    if id ∈ m.entries then
      let r := m.finishCommandExitWatch R id exitCode now
      if r.2 then r.1.notify id else r.1
    else m
  m.settleWaiters id .died now

def setTodoForUser (m : AlertManager) (id : SessionId) (todo : Bool) : AlertManager :=
  (m.modifyEntry id (·.setTodo todo)).notify id

def acknowledge (R : AlertReaders) (m : AlertManager) (id : SessionId) (input : Bool) (now : Int) : AlertManager :=
  if id ∉ m.entries then m
  else
    let m := if input then m.modifyEntry id (fun e => { e with echoUntil := now + echoWindow }) else m
    if id ∈ m.helpers then m
    else
      let m := m.modifyEntry id (·.markSeen)
      if input then
        ((m.settleProgressEnd R id now).modifyEntry id (fun e => e.clearRingForUser.1)).setTodoForUser id false
      else (m.modifyEntry id (·.lookAt)).notify id

def onWrite (R : AlertReaders) (m : AlertManager) (id : SessionId) (data : JsString) (userInput : Bool) (now : Int) :
    AlertManager :=
  let m := if userInput then m.acknowledge R id true now else m
  if R.inputCanStartWork data userInput then
    match m.streamEntry id with
    | none   => m
    | some m => m.modifyEntry id (fun e => { e with detector := e.detector.expectWork now })
  else m

def setWatchedCommands (m : AlertManager) (names : Finset JsString) : AlertManager :=
  if names = m.watchedCommands then m
  else
    m.entries.keys.foldl
      (fun m id => (m.modifyEntry id (·.invalidateWatching (fun key => (watchRuleFor names (some key)).isNone))).notify id)
      { m with watchedCommands := names }

def setCommandWatched (m : AlertManager) (name : JsString) (watched : Bool) : AlertManager :=
  let trimmed := Term.trim name
  if trimmed = [] ∨ decide (trimmed ∈ m.watchedCommands) = watched then m
  else m.setWatchedCommands (if watched then insert trimmed m.watchedCommands else m.watchedCommands.erase trimmed)

def registerClaimant (m : AlertManager) (id : SessionId) (claimant : Claimant) : AlertManager :=
  { m with claimants := m.claimants.insert id ((m.claimants.lookup id).getD [] ++ [claimant]) }

def registerCompletionClaimant (m : AlertManager) (id : SessionId) (claims : Nat → CompletionEvent → Bool) : AlertManager :=
  { m.registerClaimant id (.external m.handles claims) with handles := m.handles + 1 }

def unregisterClaimant (m : AlertManager) (id : SessionId) (handle : Nat) : AlertManager :=
  m.dropClaimant id (fun c => !Claimant.isExternal handle c)

def addWaiter (m : AlertManager) (id : SessionId) (waiter : AwaitWaiter) : AlertManager :=
  match m.awaits.lookup id with
  | some waiters => { m with awaits := m.awaits.insert id (waiters ++ [waiter]) }
  | none         => { m.registerClaimant id .awaits with awaits := m.awaits.insert id [waiter] }

def settledAwait (m : AlertManager) (outcome : AwaitOutcome) : AlertManager :=
  { m with handles := m.handles + 1, outcomes := m.outcomes ++ [(m.handles, outcome)] }

def awaitCompletion (m : AlertManager) (id : SessionId) (until' : AwaitUntil) (timeoutMs : JsNum) (now : Int) :
    AlertManager :=
  if id ∈ m.helpers then m.settledAwait (.cancelled 0)
  else
    match timeoutMs with
    | .fin t =>
      if t ≤ 0 ∨ t > maxAwaitTimeoutMs then m.settledAwait (.cancelled 0)
      else if id ∈ m.removed then m.settledAwait (.died 0)
      else
        let m := m.getOrCreateEntry id
        match (m.entries.lookup id).bind (·.consumeAwaitableRing until') with
        | some (e, cause) => ((m.modifyEntry id (fun _ => e)).notify id).settledAwait (.resolved cause 0)
        | none            =>
          let grace := (m.entries.lookup id).any (·.commandExitWatch.isNone)
          { m.addWaiter id ⟨m.handles, until', now, grace⟩ with handles := m.handles + 1 }.notify id
    | _      => m.settledAwait (.cancelled 0)

def endAwait (m : AlertManager) (id : SessionId) (handle : Nat) (outcome : Int → AwaitOutcome) (now : Int) :
    AlertManager :=
  match (m.waitersOf id).find? (fun w => w.handle = handle) with
  | none   => m
  | some w => m.settleWaiter id handle (outcome (now - w.startedAt))

def notifyFromProtocol (R : AlertReaders) (m : AlertManager) (id : SessionId) (notification : Json) (now : Int) :
    AlertManager :=
  if id ∈ m.helpers then m
  else
    let m := m.reportedEntry id
    match normalizeActivityNotification notification with
    | none            => m
    | some normalized => (m.dispatchCompletion R id (.notification normalized) now).1

/-- The state of an update that opens or moves a cycle; `none` ends one. -/
def activeState (state : Term.ProgressState) (percent : Option JsNum) : Option ActiveProgressState :=
  match state with
  | .clear | .error => none
  | .normal         => if percent = some (.fin 100) then none else some .normal
  | .warning        => some .warning
  | .indeterminate  => some .indeterminate

def updateProtocolProgress (m : AlertManager) (id : SessionId) (state : Term.ProgressState) (percent : Option JsNum)
    (now : Int) : AlertManager :=
  if id ∈ m.helpers then m
  else
    let m := m.reportedEntry id
    let live := (m.entries.lookup id).bind (·.progress)
    match activeState state percent with
    | none        =>
      match live with
      | none      => m
      | some live =>
        if live.ended.isSome then m
        else
          let outcome :=
            if state = .error then .error else if live.state = .warning then .warning else .complete
          let ended : PendingProgressEnd := ⟨outcome, if state = .clear then live.percent else percent⟩
          m.modifyEntry id (fun e => { e with progress := some { live with ended := some ended } })
    | some active =>
      let m := (m.modifyEntry id (·.cancelProgressEnd)).noteWork id
      let m := m.modifyEntry id (fun e => { e with detector := e.detector.expectWork now })
      if live.any (fun live => live.state = active && sameNumber live.percent percent) then m
      else (m.modifyEntry id (fun e => { e with progress := some ⟨active, percent, none⟩ })).notify id

def applyTerminalSemanticEvent {P : Term.Payloads} (R : AlertReaders) (m : AlertManager) (id : SessionId)
    (event : Term.SemanticEvent P) (now : Int) : AlertManager × Bool :=
  match event with
  | .commandLine commandLine => (m.modifyEntry id (fun e => { e with pendingCommandLine := some commandLine }),
      (m.entries.lookup id).any (fun e => e.pendingCommandLine ≠ some commandLine))
  | .commandStart _          => (m.startCommandExitWatch R id now, true)
  | .commandFinish exitCode  => m.finishCommandExitWatch R id exitCode now
  | .promptStart | .promptEnd => m.finishCommandExitWatch R id none now
  | .cwd _ | .title _ _      => (m, false)

def applyTerminalSemanticEvents {P : Term.Payloads} (R : AlertReaders) (m : AlertManager) (id : SessionId)
    (events : List (Term.SemanticEvent P)) (now : Int) : AlertManager :=
  if events.isEmpty then m
  else
    let r := events.foldl
      (fun (r : AlertManager × Bool) event =>
        let next := r.1.applyTerminalSemanticEvent R id event now
        (next.1, next.2 || r.2))
      (m.reportedEntry id, false)
    if r.2 then r.1.notify id else r.1

inductive EngagementLapse where
  | idle
  | leave
  deriving DecidableEq

def endLeaveGrace (m : AlertManager) (id : SessionId) : AlertManager :=
  m.modifyEntry id (fun e => { e with leaveGrace := false })

def startLeaveGrace (m : AlertManager) (id : SessionId) : AlertManager :=
  m.modifyEntry id (fun e => { e with leaveGrace := e.held.isSome })

def settleEngagement (m : AlertManager) (id : SessionId) (was moved : Bool) (lapse : Option EngagementLapse) (now : Int) :
    AlertManager :=
  if id ∉ m.entries ∨ id ∈ m.helpers ∨ m.isEngaged id = was then m
  else if !was then ((m.endLeaveGrace id).modifyEntry id (·.markSeen)).notify id
  else if moved then (m.modifyEntry id (fun e => { e with held := none })).notify id
  else if lapse = some .idle then (m.escalateHeld id now).notify id
  else (m.startLeaveGrace id).notify id

/-- One viewer's presence and focus: `after` is its focus, `none` when it is absent. -/
def setViewer (m : AlertManager) (viewerId : ViewerId) (after : Option (Option SessionId)) (lapse : Option EngagementLapse)
    (now : Int) : AlertManager :=
  let before := m.viewers.lookup viewerId
  if before = after then m
  else
    let touched := (before.join.toList ++ after.join.toList).map (fun id => (id, m.isEngaged id))
    let viewers := match after with
      | none       => m.viewers.erase viewerId
      | some focus => m.viewers.insert viewerId focus
    touched.foldl (fun m t => m.settleEngagement t.1 t.2 after.isSome lapse now) { m with viewers := viewers }

def removeViewer (m : AlertManager) (viewerId : ViewerId) (now : Int) : AlertManager :=
  m.setViewer viewerId none (some .leave) now

def dismissAlert (m : AlertManager) (id : SessionId) : AlertManager :=
  if id ∈ m.entries then (m.modifyEntry id (·.lookAt)).notify id else m

def toggleTodo (m : AlertManager) (id : SessionId) : AlertManager :=
  if id ∈ m.helpers then m
  else
    let m := m.getOrCreateEntry id
    m.setTodoForUser id (!(m.entries.lookup id).any (·.todo))

def clearTodo (m : AlertManager) (id : SessionId) : AlertManager :=
  if id ∈ m.helpers then m else (m.getOrCreateEntry id).setTodoForUser id false

def silenceRun (m : AlertManager) (id : SessionId) : AlertManager :=
  if id ∈ m.entries then
    (m.modifyEntry id (fun e => { e with commandExitWatch := none, pendingCommandLine := none }.endRun)).notify id
  else m

def discard (m : AlertManager) (id : SessionId) (now : Int) : AlertManager :=
  let m := { m with removed := insert id m.removed }.settleWaiters id .died now
  let m := { m with claimants := m.claimants.erase id }
  let m := if id ∈ m.entries then { m with entries := m.entries.erase id }.notify id else m
  { m with helpers := m.helpers.erase id }

def remove (m : AlertManager) (id : SessionId) (now : Int) : AlertManager := m.discard id now

def restart (m : AlertManager) (id : SessionId) (now : Int) : AlertManager :=
  let m := m.discard id now
  { m with removed := m.removed.erase id }

def seedEntry (e : AlertEntry) (todo : Json) (notification : Option Json) : AlertEntry :=
  let on := match todo with
    | .bool true => true
    | _          => false
  { e with
    todo               := on
    notification       := if on then notification.bind normalizeActivityNotification else none
    ring               := none
    held               := none
    ackedQuiet         := false
    commandExitWatch   := none
    pendingCommandLine := none }.endRun

def seed (m : AlertManager) (id : SessionId) (todo : Json) (notification : Option Json) : AlertManager :=
  if id ∈ m.helpers then m
  else ((m.getOrCreateEntry id).modifyEntry id (seedEntry · todo notification)).notify id

def dispose (m : AlertManager) (now : Int) : AlertManager :=
  let m := m.awaits.keys.foldl (fun m id => m.settleWaiters id .cancelled now) m
  { m with
    entries := ∅, removed := ∅, helpers := ∅, awaits := ∅, claimants := ∅, viewers := ∅, lastEmitted := ∅ }

/-! ## Timers -/

def detectorFires (R : AlertReaders) (m : AlertManager) (id : SessionId) (kind : DetectorTimer) (now : Int) :
    AlertManager :=
  match m.entries.lookup id with
  | none   => m
  | some e =>
    if kind ∉ e.detector.timers then m
    else
      let r := e.detector.fire kind now
      let m := m.stir id r.1
      if r.2 then
        -- a program that reports progress says when its turn ends
        let settled :=
          if e.progress.isSome then m
          else
            let d := m.dispatchCompletion R id .settled now
            if d.2 then (d.1.modifyEntry id (·.invalidateWatching (fun _ => true))).notify id else d.1
        settled.notify id
      else m

def progressEndFires (R : AlertReaders) (m : AlertManager) (id : SessionId) (now : Int) : AlertManager :=
  m.settleProgressEnd R id now

def leaveGraceFires (m : AlertManager) (id : SessionId) (now : Int) : AlertManager :=
  match m.entries.lookup id with
  | none   => m
  | some e =>
    if !e.leaveGrace then m
    else
      let m := m.endLeaveGrace id
      if m.viewers.entries.isEmpty then m.escalateHeld id now
      else m.modifyEntry id (fun e => { e with held := none })

def awaitGraceFires (m : AlertManager) (id : SessionId) (handle : Nat) (now : Int) : AlertManager :=
  if (m.waitersOf id).any (fun w => w.handle = handle && w.grace) then m.endAwait id handle (.resolved .idle) now else m

end AlertManager

/-- A public operation or a timer's callback, with the clock it reads. -/
inductive AlertOp (P : Term.Payloads) where
  | setHelper (id : SessionId) (helper : Bool)
  | onData (id : SessionId) (now : Int)
  | onExit (id : SessionId) (exitCode : Option Int) (now : Int)
  | onWrite (id : SessionId) (data : JsString) (userInput : Bool) (now : Int)
  | setWatchedCommands (names : Finset JsString)
  | setCommandWatched (name : JsString) (watched : Bool)
  | registerCompletionClaimant (id : SessionId) (claims : Nat → CompletionEvent → Bool)
  | unregisterClaimant (id : SessionId) (handle : Nat)
  | awaitCompletion (id : SessionId) (until' : AwaitUntil) (timeoutMs : JsNum) (now : Int)
  | cancelAwait (id : SessionId) (handle : Nat) (now : Int)
  | notifyFromProtocol (id : SessionId) (notification : Json) (now : Int)
  | updateProtocolProgress (id : SessionId) (state : Term.ProgressState) (percent : Option JsNum) (now : Int)
  | applyTerminalSemanticEvents (id : SessionId) (events : List (Term.SemanticEvent P)) (now : Int)
  | setViewer (viewerId : ViewerId) (after : Option (Option SessionId))
      (lapse : Option AlertManager.EngagementLapse) (now : Int)
  | removeViewer (viewerId : ViewerId) (now : Int)
  | acknowledge (id : SessionId) (input : Bool) (now : Int)
  | dismissAlert (id : SessionId)
  | toggleTodo (id : SessionId)
  | clearTodo (id : SessionId)
  | silenceRun (id : SessionId)
  | remove (id : SessionId) (now : Int)
  | restart (id : SessionId) (now : Int)
  | seed (id : SessionId) (todo : Json) (notification : Option Json)
  | dispose (now : Int)
  | detectorFires (id : SessionId) (kind : DetectorTimer) (now : Int)
  | progressEndFires (id : SessionId) (now : Int)
  | leaveGraceFires (id : SessionId) (now : Int)
  | awaitGraceFires (id : SessionId) (handle : Nat) (now : Int)
  | awaitTimeoutFires (id : SessionId) (handle : Nat) (now : Int)

def AlertManager.step {P : Term.Payloads} (R : AlertReaders) (m : AlertManager) : AlertOp P → AlertManager
  | .setHelper id helper                          => m.setHelper id helper
  | .onData id now                                => m.onData id now
  | .onExit id exitCode now                       => m.onExit R id exitCode now
  | .onWrite id data userInput now                => m.onWrite R id data userInput now
  | .setWatchedCommands names                     => m.setWatchedCommands names
  | .setCommandWatched name watched               => m.setCommandWatched name watched
  | .registerCompletionClaimant id claims         => m.registerCompletionClaimant id claims
  | .unregisterClaimant id handle                 => m.unregisterClaimant id handle
  | .awaitCompletion id until' timeoutMs now      => m.awaitCompletion id until' timeoutMs now
  | .cancelAwait id handle now                    => m.endAwait id handle .cancelled now
  | .notifyFromProtocol id notification now       => m.notifyFromProtocol R id notification now
  | .updateProtocolProgress id state percent now  => m.updateProtocolProgress id state percent now
  | .applyTerminalSemanticEvents id events now    => m.applyTerminalSemanticEvents R id events now
  | .setViewer viewerId after lapse now           => m.setViewer viewerId after lapse now
  | .removeViewer viewerId now                    => m.removeViewer viewerId now
  | .acknowledge id input now                     => m.acknowledge R id input now
  | .dismissAlert id                              => m.dismissAlert id
  | .toggleTodo id                                => m.toggleTodo id
  | .clearTodo id                                 => m.clearTodo id
  | .silenceRun id                                => m.silenceRun id
  | .remove id now                                => m.remove id now
  | .restart id now                               => m.restart id now
  | .seed id todo notification                    => m.seed id todo notification
  | .dispose now                                  => m.dispose now
  | .detectorFires id kind now                    => m.detectorFires R id kind now
  | .progressEndFires id now                      => m.progressEndFires R id now
  | .leaveGraceFires id now                       => m.leaveGraceFires id now
  | .awaitGraceFires id handle now                => m.awaitGraceFires id handle now
  | .awaitTimeoutFires id handle now              => m.endAwait id handle .timeout now

end Alert
end Dormouse

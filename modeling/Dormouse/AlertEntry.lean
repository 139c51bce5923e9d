import Dormouse.Quiesce
import Dormouse.TermOsc
/-!
# AlertEntry — what the alert manager keeps of one Session

`lib/src/lib/alert-manager.ts`, the functions that touch one entry: notifications and how rich each is, the sources of a
ring or a hold, and the verbs that raise, hold, withdraw and clear them.

An episode's id is `crypto.randomUUID()`: the how-manieth it is.  A pending timer of an entry is the field it is kept in:
the end of a progress cycle, and the leave grace.
-/
namespace Dormouse
namespace Alert

/-! ## Notifications -/

inductive ActivityNotificationSource where
  | osc9
  | osc9Progress
  | osc99
  | osc777
  | bel
  | commandExit
  | watching
  deriving DecidableEq

structure ActivityNotification where
  source : ActivityNotificationSource
  title  : Option JsString
  body   : Option JsString
  deriving DecidableEq

def detailRank : ActivityNotificationSource → Nat
  | .osc9 | .osc99 | .osc777 => 4
  | .commandExit             => 3
  | .osc9Progress            => 2
  | .watching                => 1
  | .bel                     => 0

def richer (current : Option ActivityNotification) (next : ActivityNotification) : ActivityNotification :=
  match current with
  | some current => if detailRank current.source > detailRank next.source then current else next
  | none         => next

structure Dated where
  detail  : ActivityNotification
  arrived : Nat

def Dated.takeRicher (into : Dated) (detail : ActivityNotification) (arrived : Nat) : Dated :=
  let rank := detailRank detail.source
  let rank' := detailRank into.detail.source
  if rank < rank' ∨ (rank = rank' ∧ arrived < into.arrived) then into else ⟨detail, arrived⟩

def normalizeNotificationTextField : Option Json → Option JsString
  | some (.str s) => if Term.trim s = [] then none else some (Term.trim s)
  | _             => none

def readSource (s : JsString) : Option ActivityNotificationSource :=
  if s = units "OSC 9" then some .osc9
  else if s = units "OSC 9;4" then some .osc9Progress
  else if s = units "OSC 99" then some .osc99
  else if s = units "OSC 777" then some .osc777
  else if s = units "BEL" then some .bel
  else if s = units "COMMAND_EXIT" then some .commandExit
  else if s = units "WATCHING" then some .watching
  else none

def normalizeActivityNotification (value : Json) : Option ActivityNotification :=
  match value.field (units "source") with
  | some (.str s) =>
    let title := normalizeNotificationTextField (value.field (units "title"))
    let body := normalizeNotificationTextField (value.field (units "body"))
    if title.isNone ∧ body.isNone then none else (readSource s).map (fun source => ⟨source, title, body⟩)
  | _             => none

/-! ## Sources -/

inductive ListedRingSource where
  | exit
  | report
  deriving DecidableEq

/-- The `watching` source: the rule key that raised it, and whether work has arrived since it joined. -/
structure WatchingSource where
  key       : JsString
  workSince : Bool
  deriving DecidableEq

inductive RingSource where
  | watching (source : WatchingSource)
  | listed (source : ListedRingSource)
  deriving DecidableEq

structure SourceSet where
  sources  : List ListedRingSource
  watching : Option WatchingSource

namespace SourceSet

def empty : SourceSet := ⟨[], none⟩

def addSource (set : SourceSet) : RingSource → SourceSet
  | .watching source => { set with watching := some source }
  | .listed source   => if source ∈ set.sources then set else { set with sources := set.sources ++ [source] }

/-- Every source, in the order `eachSource` visits them: `watching` first, a report last. -/
def eachSource (set : SourceSet) : List RingSource :=
  set.watching.toList.map .watching ++
    ([.exit, .report].filter (· ∈ set.sources)).map .listed

/-- The set without `watching`, nothing if that leaves it empty. -/
def dropWatching (set : SourceSet) : Option SourceSet :=
  if set.sources = [] then none else some { set with watching := none }

end SourceSet

structure AlertEpisode where
  id        : Nat
  startedAt : Int
  deriving DecidableEq

structure Ring extends SourceSet, Dated where
  episode : AlertEpisode

structure HeldCompletion extends SourceSet, Dated

/-! ## The entry -/

inductive ProgressOutcome where
  | complete
  | warning
  | error
  deriving DecidableEq

structure PendingProgressEnd where
  outcome : ProgressOutcome
  percent : Option JsNum

inductive ActiveProgressState where
  | normal
  | warning
  | indeterminate
  deriving DecidableEq

structure ActiveProtocolProgress where
  state   : ActiveProgressState
  percent : Option JsNum
  ended   : Option PendingProgressEnd

structure CommandExitWatch where
  displayCommand : JsString
  watchKey       : Option JsString
  seen           : Bool

structure AlertEntry where
  detector           : QuiesceDetector
  ring               : Option Ring
  ackedQuiet         : Bool
  progress           : Option ActiveProtocolProgress
  commandExitWatch   : Option CommandExitWatch
  pendingCommandLine : Option JsString
  todo               : Bool
  notification       : Option ActivityNotification
  held               : Option HeldCompletion
  leaveGrace         : Bool
  echoUntil          : Int

inductive AwaitUntil where
  | quiet
  | exit
  deriving DecidableEq

inductive AwaitCause where
  | quiet
  | exit
  | bell
  | idle
  deriving DecidableEq

namespace AlertEntry

/-- What `getOrCreateEntry` creates. -/
def create : AlertEntry := ⟨.create, none, false, none, none, none, false, none, none, false, 0⟩

def inEchoWindow (e : AlertEntry) (now : Int) : Bool := now < e.echoUntil

/-- The entry of `noteWork`: a settle that rings or is held no longer describes the program. -/
def noteWork (e : AlertEntry) : AlertEntry :=
  { e with
    ring       := e.ring.map (fun r => { r with watching := r.watching.map (fun w => { w with workSince := true }) })
    held       := e.held.map (fun h => { h with watching := h.watching.map (fun w => { w with workSince := true }) })
    ackedQuiet := false }

/-- A ring whose `watching` source is void. -/
def Ring.voidWatching (ring : Ring) (voids : JsString → Bool) : Option Ring :=
  if ring.watching.any (fun w => voids w.key) then
    ring.dropWatching.map (fun set => { ring with toSourceSet := set })
  else some ring

def HeldCompletion.voidWatching (held : HeldCompletion) (voids : JsString → Bool) : Option HeldCompletion :=
  if held.watching.any (fun w => voids w.key) then
    held.dropWatching.map (fun set => { held with toSourceSet := set })
  else some held

def invalidateWatching (e : AlertEntry) (voids : JsString → Bool) : AlertEntry :=
  { e with
    ring := e.ring.bind (Ring.voidWatching · voids)
    held := e.held.bind (HeldCompletion.voidWatching · voids) }

def updateReceipt (e : AlertEntry) (detail : ActivityNotification) : AlertEntry :=
  if e.todo then { e with notification := some (richer e.notification detail) } else e

def raiseRing (e : AlertEntry) (source : RingSource) (detail : ActivityNotification) (arrived : Nat)
    (episode : AlertEpisode) : AlertEntry :=
  match e.ring with
  | none      => { e with ring := some ⟨SourceSet.empty.addSource source, ⟨detail, arrived⟩, episode⟩, ackedQuiet := false }
  | some ring =>
    { e with ring := some ⟨ring.toSourceSet.addSource source, ring.toDated.takeRicher detail arrived, ring.episode⟩ }

def hold (e : AlertEntry) (source : RingSource) (detail : ActivityNotification) (arrived : Nat) : AlertEntry :=
  let held := e.held.getD ⟨SourceSet.empty, ⟨detail, arrived⟩⟩
  { e with
    held         := some ⟨held.toSourceSet.addSource source, held.toDated.takeRicher detail arrived⟩
    todo         := true
    notification := some (richer e.notification detail) }

def answeredWatching (e : AlertEntry) : AlertEntry := { e with detector := e.detector.reset }

/-- A listed source taken off the ring; `none` where it is not there. -/
def withdrawListed (e : AlertEntry) (source : ListedRingSource) : Option AlertEntry :=
  match e.ring with
  | none      => none
  | some ring =>
    if source ∈ ring.sources then
      let rest := ring.sources.filter (· ≠ source)
      some { e with
        ring := if rest = [] ∧ ring.watching = none then none else some { ring with sources := rest } }
    else none

/-- `watching` taken off the ring. -/
def withdrawWatching (e : AlertEntry) : Option AlertEntry :=
  match e.ring with
  | none      => none
  | some ring =>
    if ring.watching = none then none
    else some { e with ring := ring.dropWatching.map (fun set => { ring with toSourceSet := set }) }.answeredWatching

def consumeAwaitableRing (e : AlertEntry) (until' : AwaitUntil) : Option (AlertEntry × AwaitCause) :=
  let report := if until' = .quiet then e.withdrawListed .report else none
  let exit := if e.commandExitWatch.isNone then e.withdrawListed .exit else none
  let watching :=
    if until' = .quiet ∧ (e.ring.bind (·.watching)).any (fun w => !w.workSince) then e.withdrawWatching else none
  match report, exit, watching with
  | some e', _,       _       => some (e', .bell)
  | none,    some e', _       => some (e', .exit)
  | none,    none,    some e' => some (e', .quiet)
  | none,    none,    none    => none

/-- A user verb stops the summons: the entry without its ring and hold, and the ring that went. -/
def clearRingForUser (e : AlertEntry) : AlertEntry × Option Ring :=
  if e.ring.isNone ∧ e.held.isNone then (e, none)
  else
    let cleared := { e with ring := none, held := none, ackedQuiet := true }
    (if (e.ring.bind (·.watching)).isSome ∨ (e.held.bind (·.watching)).isSome then cleared.answeredWatching else cleared,
      e.ring)

def ringToTodo (e : AlertEntry) : Option Ring → AlertEntry
  | none      => e
  | some ring => { e with todo := true, notification := some ring.detail }

/-- The entry of `setTodoForUser`. -/
def setTodo (e : AlertEntry) (todo : Bool) : AlertEntry :=
  let (cleared, ring) := e.clearRingForUser
  let shown := if todo then cleared.ringToTodo ring else cleared
  { shown with todo := todo, notification := if todo then shown.notification else none }

def lookAt (e : AlertEntry) : AlertEntry :=
  let (cleared, ring) := e.clearRingForUser
  cleared.ringToTodo ring

def cancelProgressEnd (e : AlertEntry) : AlertEntry :=
  { e with progress := e.progress.map (fun p => { p with ended := none }) }

def endRun (e : AlertEntry) : AlertEntry := { e with progress := none, detector := e.detector.reset }

def markSeen (e : AlertEntry) : AlertEntry :=
  { e with commandExitWatch := e.commandExitWatch.map (fun w => { w with seen := true }) }

end AlertEntry

end Alert
end Dormouse

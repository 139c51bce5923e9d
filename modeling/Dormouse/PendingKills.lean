import Dormouse.OrdMap
import Dormouse.Steps
import Dormouse.Js
/-!
# PendingKills — a close that waits to be undone

`lib/src/lib/pending-kills.ts`: what was closed leaves the layout at once and lives on until its countdown ends or the user
restores it.  One timer serves all countdowns, each of which may be held and released.  The actions of an entry and the
listeners do not call back into the store; the actions of each kill ever added are known by their number, and what ran of
them is in `log`.

Every call happens at some time of the clock.  `unheld` remembers how long a kill has been running down, up to the last call.
-/
namespace Dormouse
namespace PendingKills

def pendingKillMs : Int := 10000

inductive PendingKillKind where
  | surface
  | workspace
  | helper
  deriving DecidableEq

def PendingKillKind.text : PendingKillKind → JsString
  | .surface   => units "surface"
  | .workspace => units "workspace"
  | .helper    => units "helper"

structure Closed where
  kind        : PendingKillKind
  id          : JsString
  workspaceId : JsString
  surfaceId   : Option JsString
  title       : JsString
  label       : JsString
  deriving DecidableEq

structure PendingKill where
  closed      : Closed
  startedAt   : Int
  /-- Time left while held; otherwise the time left at `resumedAt`. -/
  remainingMs : Int
  /-- When the countdown last resumed, `none` while it is held. -/
  resumedAt   : Option Int
  deriving DecidableEq

structure Entry where
  kill    : PendingKill
  actions : Nat
  unheld  : Int
  deriving DecidableEq

inductive Ran where
  | restored (actions : Nat) (focus : Bool)
  | refused (actions : Nat) (focus : Bool)
  | finalized (actions : Nat) (teardown : Bool)
  deriving DecidableEq

structure Timer where
  armedAt : Int
  dueAt   : Int
  deriving DecidableEq

structure Store where
  entries  : OrdMap JsString Entry
  snapshot : List PendingKill
  timer    : Option Timer
  clock    : Int
  added    : Nat
  log      : List Ran

def start (now : Int) : Store := ⟨.empty, [], none, now, 0, []⟩

def newestFirst (entries : OrdMap JsString Entry) : List PendingKill :=
  (entries.values.map (·.kill)).mergeSort (fun a b => b.startedAt ≤ a.startedAt)

def timeLeft (kill : PendingKill) (now : Int) : Int :=
  match kill.resumedAt with
  | none           => kill.remainingMs
  | some resumedAt => kill.remainingMs - (now - resumedAt)

def running (entries : OrdMap JsString Entry) : List PendingKill :=
  (entries.values.map (·.kill)).filter (fun kill => kill.resumedAt.isSome)

def soonestTimer (entries : OrdMap JsString Entry) (now : Int) : Option Timer :=
  ((running entries).map (timeLeft · now)).min?.map (fun soonest => ⟨now, now + max 0 soonest⟩)

def arm (s : Store) (now : Int) : Store := { s with timer := soonestTimer s.entries now }

def publish (s : Store) (now : Int) : Store := arm { s with snapshot := newestFirst s.entries } now

def pendingKillKey (kind : PendingKillKind) (id : JsString) : JsString := kind.text ++ units ":" ++ id

def addPendingKill (s : Store) (now : Int) (closed : Closed) : Store :=
  publish
    { s with
      entries := s.entries.set (pendingKillKey closed.kind closed.id) ⟨⟨closed, now, pendingKillMs, some now⟩, s.added, 0⟩
      added   := s.added + 1 } now

def finalizePendingKill (s : Store) (now : Int) (key : JsString) : Store × Bool :=
  match s.entries.get key with
  | none       => (s, false)
  | some entry =>
    let s' := publish { s with entries := s.entries.delete key } now
    ({ s' with log := s'.log ++ [.finalized entry.actions false] }, true)

/-- `accepts` is what the owner's `restore` answers. -/
def restorePendingKill (s : Store) (now : Int) (key : JsString) (focus accepts : Bool) : Store × Bool :=
  match s.entries.get key with
  | none       => (s, false)
  | some entry =>
    if accepts then
      (publish { s with entries := s.entries.delete key, log := s.log ++ [.restored entry.actions focus] } now, true)
    else ({ s with log := s.log ++ [.refused entry.actions focus] }, false)

def finalizePendingKills (s : Store) (now : Int) (which : PendingKill → Bool) (teardown : Bool) : Store :=
  let due := s.entries.entries.filter (fun e => which e.2.kill)
  if due = [] then s
  else
    let s' := publish { s with entries := due.foldl (fun entries e => entries.delete e.1) s.entries } now
    { s' with log := s'.log ++ due.map (fun e => .finalized e.2.actions teardown) }

/-- The countdown stopped, or running on from `now`. -/
def PendingKill.hold (kill : PendingKill) (now : Int) (held : Bool) : PendingKill :=
  if held then { kill with remainingMs := max 0 (timeLeft kill now), resumedAt := none }
  else { kill with resumedAt := some now }

def holdPendingKill (s : Store) (now : Int) (key : JsString) (held : Bool) : Store :=
  match s.entries.get key with
  | none       => s
  | some entry =>
    if entry.kill.resumedAt.isNone = held then s
    else publish { s with entries := s.entries.set key { entry with kill := entry.kill.hold now held } } now

def overdue (entries : OrdMap JsString Entry) (now : Int) : List (JsString × Entry) :=
  entries.entries.filter (fun e => e.2.kill.resumedAt.isSome && timeLeft e.2.kill now ≤ 0)

def expire (s : Store) (now : Int) : Store :=
  let due := overdue s.entries now
  let s := { s with timer := none }
  if due = [] then arm s now else due.foldl (fun s e => (finalizePendingKill s now e.1).1) s

inductive Call where
  | add (closed : Closed)
  | hold (key : JsString) (held : Bool)
  | restore (key : JsString) (focus accepts : Bool)
  | finalize (key : JsString)
  | finalizeAll (which : PendingKill → Bool) (teardown : Bool)
  /-- The callback of the timer, if one is armed. -/
  | timer

def Entry.later (entry : Entry) (elapsed : Int) : Entry :=
  if entry.kill.resumedAt.isSome then { entry with unheld := entry.unheld + elapsed } else entry

@[simp] theorem Entry.later_kill (entry : Entry) (elapsed : Int) : (entry.later elapsed).kill = entry.kill := by
  unfold Entry.later
  split <;> rfl

@[simp] theorem Entry.later_actions (entry : Entry) (elapsed : Int) : (entry.later elapsed).actions = entry.actions := by
  unfold Entry.later
  split <;> rfl

/-- The clock reads `now`. -/
def advance (s : Store) (now : Int) : Store :=
  { s with clock := now, entries := s.entries.mapValues (·.later (now - s.clock)) }

def act (s : Store) (now : Int) : Call → Store
  | .add closed                 => addPendingKill s now closed
  | .hold key held              => holdPendingKill s now key held
  | .restore key focus accepts  => (restorePendingKill s now key focus accepts).1
  | .finalize key               => (finalizePendingKill s now key).1
  | .finalizeAll which teardown => finalizePendingKills s now which teardown
  | .timer                      => if s.timer.isSome then expire s now else s

def step (s : Store) (call : Int × Call) : Store := act (advance s call.1) call.1 call.2

end PendingKills
end Dormouse

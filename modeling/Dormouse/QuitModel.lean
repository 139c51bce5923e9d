import Mathlib.Data.List.AList
/-!
# QuitModel — the quit machine and the arrival queue

`quit_state.rs` keeps the quit flow free of the shell: each call changes the state and returns the actions its caller
performs.  Every window votes, then they are torn down one at a time, `main` last.  A request that comes while a
Workspace is in flight waits in the `ArrivalQueue`.

A `HashMap` or a `HashSet` iterates in an order of its own; a call that reads one takes that order as an `Iteration`.
-/
namespace Dormouse
namespace Quit

abbrev Label := String

def mainLabel : Label := "main"

/-- The order a table iterates in. -/
structure Iteration where
  order : List Label → List Label
  perm  : ∀ labels, (order labels).Perm labels

def Iteration.asKept : Iteration := ⟨id, fun _ => .refl _⟩

structure QuitIntent where
  restart   : Bool := false
  requester : Option String := none
  deriving DecidableEq

inductive QuitAction where
  | requestAll (requester : Option String)
  | cancelAll
  | teardown (label : Label) (last : Bool)
  | destroy (label : Label)
  | exit
  deriving DecidableEq

inductive QuitPhase where
  | idle
  | voting
  | walking (order : List Label) (index : Nat)
  deriving DecidableEq

structure WindowQuit where
  acked    : Bool := false
  voted    : Bool := false
  progress : Nat := 0
  deriving DecidableEq

/-! ## The table of windows -/

abbrev Windows := AList (fun _ : Label => WindowQuit)

/-- `windows.entry(label).or_default()`, changed. -/
def touch (windows : Windows) (label : Label) (f : WindowQuit → WindowQuit) : Windows :=
  windows.insert label (f ((windows.lookup label).getD {}))

/-- `windows.values_mut()`, each changed. -/
def mapValues (windows : Windows) (f : WindowQuit → WindowQuit) : Windows where
  entries   := windows.entries.map (fun e => ⟨e.1, f e.2⟩)
  nodupKeys := by
    have hkeys : (windows.entries.map (fun e => (⟨e.1, f e.2⟩ : Sigma fun _ : Label => WindowQuit))).keys =
        windows.entries.keys := by
      simp [List.keys, Function.comp_def]
    rw [List.NodupKeys, hkeys]
    exact windows.nodupKeys

def allVoted (windows : Windows) : Bool := windows.entries.all (fun e => e.2.voted)

/-- The table a trigger leaves: the listed windows, their acks cleared, and their votes when it comes from `Idle`. -/
def requested (idle : Bool) (windows : Windows) (labels : List Label) : Windows :=
  (labels.foldl (fun (tables : Windows × Windows) label =>
    let entry := (tables.1.lookup label).getD {}
    (tables.1.erase label,
      tables.2.insert label { entry with acked := false, voted := if idle then false else entry.voted }))
    (windows, ∅)).2

/-! ## The machine -/

structure QuitMachine where
  seq      : Nat := 0
  approved : Bool := false
  intent   : QuitIntent := {}
  phase    : QuitPhase := .idle
  windows  : Windows := ∅

/-- `main` last, the others as they come. -/
def quitOrder (labels : List Label) : List Label :=
  labels.filter (· ≠ mainLabel) ++ if mainLabel ∈ labels then [mainLabel] else []

namespace QuitMachine

def exit (m : QuitMachine) : QuitMachine × List QuitAction :=
  ({ m with phase := .idle, approved := true }, [.exit])

def startWalk (m : QuitMachine) (it : Iteration) : QuitMachine × List QuitAction :=
  let order := quitOrder (it.order m.windows.keys)
  match order with
  | []         => m.exit
  | first :: _ => ({ m with phase := .walking order 0 }, [.teardown first (order.length == 1)])

def isWalking (m : QuitMachine) : Bool :=
  match m.phase with
  | .walking _ _ => true
  | _            => false

def request (m : QuitMachine) (labels : List Label) (intent : QuitIntent) : QuitMachine × List QuitAction :=
  let idle := decide (m.phase = .idle)
  let asked : QuitMachine :=
    { m with
      seq     := m.seq + 1
      intent  := if idle && !m.approved then intent else m.intent
      windows := requested idle m.windows labels }
  if asked.windows.entries = [] then asked.exit
  else
    (if m.isWalking then asked else { asked with phase := .voting }, [.requestAll asked.intent.requester])

def ack (m : QuitMachine) (label : Label) : QuitMachine :=
  { m with windows := touch m.windows label (fun e => { e with acked := true }) }

def progress (m : QuitMachine) (label : Label) : QuitMachine :=
  { m with windows := touch m.windows label (fun e => { e with progress := e.progress + 1 }) }

def vote (m : QuitMachine) (label : Label) (it : Iteration) : QuitMachine × List QuitAction :=
  if m.phase ≠ .voting then (m, [])
  else
    let m' := { m with windows := touch m.windows label (fun e => { e with voted := true }) }
    if allVoted m'.windows = false then (m', []) else m'.startWalk it

def cancel (m : QuitMachine) : QuitMachine × List QuitAction :=
  if m.phase ≠ .voting then (m, [])
  else
    ({ m with
       seq     := m.seq + 1
       phase   := .idle
       intent  := {}
       windows := mapValues m.windows (fun e => { e with voted := false }) }, [.cancelAll])

def windowDone (m : QuitMachine) (label : Label) : QuitMachine × List QuitAction :=
  match m.phase with
  | .walking order index =>
    if order[index]? ≠ some label then (m, [])
    else
      ({ m with phase := .walking order (index + 1), windows := m.windows.erase label },
        .destroy label ::
          match order[index + 1]? with
          | some next => [.teardown next (index + 2 == order.length)]
          | none      => [.exit])
  | _ => (m, [])

def proceed (m : QuitMachine) : QuitMachine × List QuitAction := ({ m with approved := true }, [.exit])

def forgetWindow (m : QuitMachine) (label : Label) (it : Iteration) : QuitMachine × List QuitAction :=
  let m := { m with windows := m.windows.erase label }
  match m.phase with
  | .idle   => (m, [])
  | .voting =>
    if m.windows.entries = [] then m.exit
    else if allVoted m.windows then m.startWalk it
    else (m, [])
  | .walking order index =>
    match order.idxOf? label with
    | none          => (m, [])
    | some position =>
      let order := order.eraseIdx position
      if order = [] then m.exit
      else if index < position then ({ m with phase := .walking order index }, [])
      else if position < index then ({ m with phase := .walking order (index - 1) }, [])
      else
        match order[index]? with
        | some next => ({ m with phase := .walking order index }, [.teardown next (index + 1 == order.length)])
        | none      => m.exit

end QuitMachine

inductive QuitOp where
  | request (labels : List Label) (intent : QuitIntent)
  | ack (label : Label)
  | progress (label : Label)
  | vote (label : Label) (it : Iteration)
  | cancel
  | windowDone (label : Label)
  | forgetWindow (label : Label) (it : Iteration)
  | proceed

def QuitMachine.op (m : QuitMachine) : QuitOp → QuitMachine × List QuitAction
  | .request labels intent => m.request labels intent
  | .ack label             => (m.ack label, [])
  | .progress label        => (m.progress label, [])
  | .vote label it         => m.vote label it
  | .cancel                => m.cancel
  | .windowDone label      => m.windowDone label
  | .forgetWindow label it => m.forgetWindow label it
  | .proceed               => m.proceed

end Quit
end Dormouse

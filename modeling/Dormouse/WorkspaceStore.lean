import Dormouse.IdPoolMinted
import Dormouse.AlertDelivery
/-!
# WorkspaceStore — the ordered list of Workspaces

`lib/src/lib/workspace-store.ts`: the Workspaces of a Window, which one is active, and the operations on them.  The list is
kept in two groups, the unpinned before the pinned, and every operation edits it with the selection at once.  An id is
minted of the Window's `IdPool`, whose own events run between the operations.  The listeners are left out, which an
`emit` calls last, and so are the queries.
-/
namespace Dormouse
namespace Workspaces

abbrev WorkspaceId := JsString

structure WorkspaceMeta where
  alertDelivery : Option Alert.AlertDeliveryOverrides
  id            : WorkspaceId
  name          : JsString
  nameIsAuto    : Bool
  pinned        : Bool
  deriving DecidableEq

structure WorkspacesState where
  workspaces : List WorkspaceMeta
  activeId   : WorkspaceId
  deriving DecidableEq

def defaultWorkspaceId : WorkspaceId := units "workspace:1"
def defaultWorkspaceName : JsString := units "Workspace 1"

def defaultState : WorkspacesState := ⟨[⟨none, defaultWorkspaceId, defaultWorkspaceName, true, false⟩], defaultWorkspaceId⟩

def idPoolOptions : IdPool.IdPoolOptions where
  size       := 4
  low        := 3
  idFor      := fun
    | .inl n => units "workspace:" ++ units (toString n)
    | .inr u => units "workspace:" ++ u
  localStart := 1

structure Window where
  state  : WorkspacesState
  idPool : IdPool.Pool

def openWindow : Window := ⟨defaultState, IdPool.createIdPool idPoolOptions⟩

def ids (workspaces : List WorkspaceMeta) : List WorkspaceId := workspaces.map (·.id)

def getWorkspace (s : WorkspacesState) (id : WorkspaceId) : Option WorkspaceMeta :=
  s.workspaces.find? (fun workspace => workspace.id = id)

/-- The number of `/^Workspace (\d+)$/`. -/
def assignedNumber (name : JsString) : Option Nat :=
  if (units "Workspace ").isPrefixOf name then
    let digits := name.drop (units "Workspace ").length
    if digits ≠ [] ∧ digits.all (fun c => 0x30 ≤ c && c ≤ 0x39) then
      some (digits.foldl (fun n c => 10 * n + (c.toNat - 0x30)) 0)
    else none
  else none

/-- "Workspace N", one past the highest there is.  The numbers are exact here, the source's up to `2 ^ 53`. -/
def nextDefaultName (workspaces : List WorkspaceMeta) : JsString :=
  units "Workspace " ++ units (toString ((workspaces.filterMap (fun ws => assignedNumber ws.name)).foldl max 0 + 1))

def pinnedBoundary (workspaces : List WorkspaceMeta) : Nat := workspaces.findIdx (·.pinned)

def partitionPinned (workspaces : List WorkspaceMeta) : List WorkspaceMeta :=
  let pinned := workspaces.filter (·.pinned)
  if pinned = [] then workspaces else workspaces.filter (fun ws => !ws.pinned) ++ pinned

/-- `workspaces.splice(at, 0, added)`. -/
def spliceIn (workspaces : List WorkspaceMeta) (start : Nat) (added : WorkspaceMeta) : List WorkspaceMeta :=
  workspaces.take start ++ added :: workspaces.drop start

/-- What a caller sees of an operation; `spins` would be one whose minting never ends. -/
inductive Result where
  | done
  | threw (message : JsString)
  | changed (changed : Bool)
  | created (workspace : WorkspaceMeta)
  | spins
  deriving DecidableEq

def emit (w : Window) (next : WorkspacesState) : Window := { w with state := next }

/-- `generateWorkspaceId`, the ids of the list being in use. -/
def generateWorkspaceId (uuid : Nat → JsString) (w : Window) : Option WorkspaceId × Window :=
  let (id, pool) := IdPool.mint idPoolOptions uuid w.idPool (ids w.state.workspaces)
  (id, { w with idPool := pool })

def setWorkspaces (w : Window) (next : WorkspacesState) : Window × Result :=
  if ¬ (ids next.workspaces).Nodup then (w, .threw (units "Duplicate Workspace id"))
  else
    match next.workspaces with
    | []         => (emit w defaultState, .done)
    | first :: _ =>
      let activeId := if next.activeId ∈ ids next.workspaces then next.activeId else first.id
      (emit w ⟨partitionPinned next.workspaces, activeId⟩, .done)

def setActiveWorkspace (w : Window) (id : WorkspaceId) : Window :=
  if id = w.state.activeId then w
  else if id ∉ ids w.state.workspaces then w
  else emit w { w.state with activeId := id }

def activateWorkspaceAt (w : Window) (index : Int) : Window :=
  match if 0 ≤ index then w.state.workspaces[index.toNat]? else none with
  | some target => setActiveWorkspace w target.id
  | none        => w

/-- What a create may be given; `none` is an option left out. -/
structure CreateOptions where
  id            : Option WorkspaceId
  name          : Option JsString
  nameIsAuto    : Option Bool
  pinned        : Option Bool
  activate      : Option Bool
  alertDelivery : Option Json

def CreateOptions.toMeta (opts : CreateOptions) (workspaces : List WorkspaceMeta) (id : WorkspaceId) : WorkspaceMeta where
  alertDelivery := opts.alertDelivery.map (fun value => Alert.normalizeAlertDeliveryOverrides (some value))
  id            := id
  name          := opts.name.getD (nextDefaultName workspaces)
  nameIsAuto    := opts.name.isNone || opts.nameIsAuto = some true
  pinned        := opts.pinned = some true

def placeNew (w : Window) (opts : CreateOptions) (id : WorkspaceId) : Window × Result :=
  let added := opts.toMeta w.state.workspaces id
  let activeId := if opts.activate = some false then w.state.activeId else added.id
  (emit w ⟨spliceIn w.state.workspaces (pinnedBoundary w.state.workspaces) added, activeId⟩, .created added)

def createWorkspace (uuid : Nat → JsString) (w : Window) (opts : CreateOptions) : Window × Result :=
  match opts.id with
  | some id =>
    if id ∈ ids w.state.workspaces then (w, .threw (units "Duplicate Workspace id: " ++ id)) else placeNew w opts id
  | none    =>
    match generateWorkspaceId uuid w with
    | (some id, w') => placeNew w' opts id
    | (none, w')    => (w', .spins)

def replaceWorkspace (w : Window) (id : WorkspaceId) (next : WorkspaceMeta) : Window :=
  emit w { w.state with workspaces := w.state.workspaces.map (fun ws => if ws.id = id then next else ws) }

def renameWorkspace (w : Window) (id : WorkspaceId) (name : JsString) : Window :=
  match getWorkspace w.state id with
  | some current =>
    if Term.trim name = [] then w
    else replaceWorkspace w id { current with name := Term.trim name, nameIsAuto := false }
  | none         => w

def resumeAutoWorkspaceName (w : Window) (id : WorkspaceId) : Window :=
  match getWorkspace w.state id with
  | some current => if current.nameIsAuto then w else replaceWorkspace w id { current with nameIsAuto := true }
  | none         => w

def setAutoWorkspaceName (w : Window) (id : WorkspaceId) (name : JsString) : Window :=
  match getWorkspace w.state id with
  | some current =>
    if current.nameIsAuto = false ∨ current.name = name then w else replaceWorkspace w id { current with name := name }
  | none         => w

def neighbour (workspaces : List WorkspaceMeta) (index : Nat) (fallback : WorkspaceId) : WorkspaceId :=
  (workspaces[min index (workspaces.length - 1)]?.map (·.id)).getD fallback

def closeWorkspace (uuid : Nat → JsString) (w : Window) (id : WorkspaceId) : Window × Result :=
  let index := w.state.workspaces.findIdx (fun ws => ws.id = id)
  let workspaces := w.state.workspaces.filter (fun ws => ws.id ≠ id)
  let close (w : Window) (workspaces : List WorkspaceMeta) : Window × Result :=
    let activeId := if w.state.activeId = id then neighbour workspaces index w.state.activeId else w.state.activeId
    (emit w ⟨workspaces, activeId⟩, .changed true)
  if id ∉ ids w.state.workspaces then (w, .changed false)
  else if workspaces = [] then
    match generateWorkspaceId uuid w with
    | (some fresh, w') => close w' [⟨none, fresh, nextDefaultName w.state.workspaces, true, false⟩]
    | (none, w')       => (w', .spins)
  else close w workspaces

def clampIndex (workspaces : List WorkspaceMeta) (pinned : Bool) (toIndex : Int) : Int :=
  let boundary : Int := pinnedBoundary workspaces
  let (least, most) := if pinned then (boundary, (workspaces.length : Int) - 1) else (0, boundary - 1)
  max least (min most toIndex)

def moveWorkspace (w : Window) (id : WorkspaceId) (toIndex : Int) : Window × Result :=
  let start := w.state.workspaces.findIdx (fun ws => ws.id = id)
  match w.state.workspaces[start]? with
  | none       => (w, .changed false)
  | some moved =>
    let target := clampIndex w.state.workspaces moved.pinned toIndex
    if (start : Int) = target then (w, .changed false)
    else (emit w { w.state with workspaces := spliceIn (w.state.workspaces.eraseIdx start) target.toNat moved }, .changed true)

def setWorkspacePinned (w : Window) (id : WorkspaceId) (pinned : Bool) : Window × Result :=
  match getWorkspace w.state id with
  | some current =>
    if current.pinned = pinned then (w, .changed false)
    else
      let workspaces := w.state.workspaces.filter (fun ws => ws.id ≠ id)
      (emit w { w.state with
        workspaces := spliceIn workspaces (pinnedBoundary workspaces) { current with pinned := pinned } }, .changed true)
  | none         => (w, .changed false)

def resetWorkspaces (w : Window) : Window := emit w defaultState

def setWorkspaceAlertDelivery (w : Window) (id : WorkspaceId) (value : Json) : Window :=
  let alertDelivery := Alert.normalizeAlertDeliveryOverrides (some value)
  match getWorkspace w.state id with
  | some current =>
    if Alert.sameAlertDeliveryOverrides (current.alertDelivery.getD Alert.noOverrides) alertDelivery then w
    else
      let stored := if alertDelivery = Alert.noOverrides then none else some alertDelivery
      emit w { w.state with
        workspaces := w.state.workspaces.map (fun ws => if ws.id = id then { ws with alertDelivery := stored } else ws) }
  | none         => w

inductive Op where
  | setWorkspaces (next : WorkspacesState)
  | setActiveWorkspace (id : WorkspaceId)
  | activateWorkspaceAt (index : Int)
  | createWorkspace (opts : CreateOptions)
  | renameWorkspace (id : WorkspaceId) (name : JsString)
  | resumeAutoWorkspaceName (id : WorkspaceId)
  | setAutoWorkspaceName (id : WorkspaceId) (name : JsString)
  | closeWorkspace (id : WorkspaceId)
  | moveWorkspace (id : WorkspaceId) (toIndex : Int)
  | setWorkspacePinned (id : WorkspaceId) (pinned : Bool)
  | resetWorkspaces
  | setWorkspaceAlertDelivery (id : WorkspaceId) (value : Json)
  /-- The pool's own: a host is installed or answers, a burst is minted. -/
  | idPool (e : IdPool.Event)

def act (uuid : Nat → JsString) (w : Window) : Op → Window × Result
  | .setWorkspaces next                 => setWorkspaces w next
  | .setActiveWorkspace id              => (setActiveWorkspace w id, .done)
  | .activateWorkspaceAt index          => (activateWorkspaceAt w index, .done)
  | .createWorkspace opts               => createWorkspace uuid w opts
  | .renameWorkspace id name            => (renameWorkspace w id name, .done)
  | .resumeAutoWorkspaceName id         => (resumeAutoWorkspaceName w id, .done)
  | .setAutoWorkspaceName id name       => (setAutoWorkspaceName w id name, .done)
  | .closeWorkspace id                  => closeWorkspace uuid w id
  | .moveWorkspace id toIndex           => moveWorkspace w id toIndex
  | .setWorkspacePinned id pinned       => setWorkspacePinned w id pinned
  | .resetWorkspaces                    => (resetWorkspaces w, .done)
  | .setWorkspaceAlertDelivery id value => (setWorkspaceAlertDelivery w id value, .done)
  | .idPool e                           => ({ w with idPool := IdPool.step idPoolOptions uuid w.idPool e }, .done)

def step (uuid : Nat → JsString) (w : Window) (op : Op) : Window := (act uuid w op).1

end Workspaces
end Dormouse

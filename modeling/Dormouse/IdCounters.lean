import Dormouse.Steps
import Dormouse.Js
import Mathlib.Order.Fin.Basic
/-!
# IdCounters — the numbers ids are made of, over all launches

`ids.rs` of the standalone host, and of its `lib.rs` the reservations and the file they persist to: `reserve_blocks`,
`adopt_ids_file` and `seed_ids`.  A counter is the lowest number of its kind not yet handed out; it lives in memory, and
`ids.json` says where the next launch starts.

The file is what `serde_json` reads of it: an object's fields, or no object at all.  Writes are atomic: one that fails leaves
the file, and a crash leaves it or the whole new one.  What was handed out is remembered over all launches, and the labels of
the running one.
-/
namespace Dormouse
namespace Ids

/-- A Rust `u64`. -/
abbrev U64 := Fin (2 ^ 64)

def U64.last : U64 := ⟨2 ^ 64 - 1, by decide⟩

def saturatingAdd (a : U64) (k : Nat) : U64 := ⟨min (a.val + k) (2 ^ 64 - 1), by omega⟩

inductive Kind where
  | surface
  | workspace
  | window
  deriving DecidableEq

def Kind.first : Kind → U64
  | .workspace => 2
  | .surface   => 1
  | .window    => 1

structure Counters where
  surface   : U64
  workspace : U64
  window    : U64
  deriving DecidableEq

namespace Counters

def default : Counters := ⟨0, 0, 0⟩

def next (c : Counters) : Kind → U64
  | .surface   => c.surface
  | .workspace => c.workspace
  | .window    => c.window

def setNext (c : Counters) (kind : Kind) (n : U64) : Counters :=
  match kind with
  | .surface   => { c with surface := n }
  | .workspace => { c with workspace := n }
  | .window    => { c with window := n }

@[simp] theorem next_setNext_self (c : Counters) (kind : Kind) (n : U64) : (c.setNext kind n).next kind = n := by
  cases kind <;> rfl

theorem next_setNext_ne (c : Counters) {kind other : Kind} (n : U64) (h : other ≠ kind) :
    (c.setNext kind n).next other = c.next other := by
  cases kind <;> cases other <;> first | rfl | exact absurd rfl h

def seed (c : Counters) (kind : Kind) (next : U64) : Counters := c.setNext kind (max (c.next kind) next)

end Counters

/-- The numbers from `first` up to `stop`. -/
structure Block where
  first : U64
  stop  : U64
  deriving DecidableEq

def Block.empty : Block := ⟨0, 0⟩

def Block.numbers (b : Block) : List Nat := List.range' b.first.val (b.stop.val - b.first.val)

def maxBlock : Nat := 64

namespace Counters

def reserve (c : Counters) (kind : Kind) (count above : U64) : Counters × Block :=
  let first := max (max (c.next kind) kind.first) (saturatingAdd above 1)
  let stop := saturatingAdd first (max 1 (min count.val maxBlock))
  (c.setNext kind stop, ⟨first, stop⟩)

end Counters

/-! ## The file -/

/-- A JSON value as far as it is read: a number that is a `u64`, or any other. -/
inductive Scalar where
  | number (n : U64)
  | other
  deriving DecidableEq

inductive Contents where
  | object (fields : List (JsString × Scalar))
  | garbled
  deriving DecidableEq

def Scalar.asU64 : Scalar → Option U64
  | .number n => some n
  | .other    => none

def Contents.get : Contents → JsString → Option U64
  | .object fields, key => (fields.lookup key).bind Scalar.asU64
  | .garbled,       _   => none

def version : U64 := 1

inductive LoadError where
  | otherVersion (version : U64)
  | unreadable
  deriving DecidableEq

def Contents.read (contents : Contents) : Except LoadError Counters :=
  match (contents.get (units "version")).filter (· ≠ version) with
  | some other => .error (.otherVersion other)
  | none       =>
    match contents.get (units "version"), contents.get (units "surface"), contents.get (units "workspace"),
      contents.get (units "window") with
    | some v, some surface, some workspace, some window =>
      if v ≠ version then .error .unreadable else .ok ⟨surface, workspace, window⟩
    | _, _, _, _                                        => .error .unreadable

def Counters.load (c : Counters) (contents : Contents) : Except LoadError Counters :=
  match contents.read with
  | .ok file => .ok (((c.seed .surface file.surface).seed .workspace file.workspace).seed .window file.window)
  | .error e => .error e

def Counters.file (c : Counters) : Contents :=
  .object [(units "version", .number version), (units "surface", .number c.surface),
    (units "workspace", .number c.workspace), (units "window", .number c.window)]

/-! ## The running host -/

inductive IdsFile where
  | absent
  | unread
  | adopted
  | otherVersion
  deriving DecidableEq

structure Host where
  counters : Counters
  file     : IdsFile
  /-- The window labels it handed out. -/
  labels   : List Nat

/-- The file on disk, the host that runs, and every Surface and Workspace number handed out so far. -/
structure World where
  disk   : Option Contents
  host   : Option Host
  handed : List (Kind × Nat)

/-- `readable` says whether the file can be read at this moment, if there is one. -/
def adoptIdsFile (disk : Option Contents) (readable : Bool) (c : Counters) : Counters × IdsFile :=
  if readable then
    match disk with
    | none          => (c, .adopted)
    | some contents =>
      match c.load contents with
      | .ok c'                 => (c', .adopted)
      | .error (.otherVersion _) => (c, .otherVersion)
      | .error .unreadable       => (c, .adopted)
  else (c, .unread)

structure Saved where
  nextWs        : U64
  nextWorkspace : U64
  nextSurface   : U64

def seedIds (disk : Option Contents) (readable : Bool) (h : Host) (saved : Saved) : Host :=
  let seeded := ((h.counters.seed .window saved.nextWs).seed .workspace saved.nextWorkspace).seed .surface saved.nextSurface
  let (counters, file) := adoptIdsFile disk readable seeded
  { h with counters := counters, file := file }

/-- How a write ends: it lands, fails and says so, or the host dies before or after it landed. -/
inductive Write where
  | landed
  | failed
  | crashed (landed : Bool)
  deriving DecidableEq

structure Ask where
  kind  : Kind
  count : U64
  above : U64

/-- The blocks of the asks in turn; without a file to write only labels are handed out. -/
def reserveAll (adopted : Bool) : Counters → List Ask → Counters × List Block
  | c, []          => (c, [])
  | c, ask :: asks =>
    if adopted || ask.kind = .window then
      let (c', block) := c.reserve ask.kind ask.count ask.above
      ((reserveAll adopted c' asks).1, block :: (reserveAll adopted c' asks).2)
    else ((reserveAll adopted c asks).1, Block.empty :: (reserveAll adopted c asks).2)

def handOut (persisted : Bool) (asks : List Ask) (blocks : List Block) : List Block :=
  (blocks.zip asks).map (fun p => if persisted || p.2.kind = .window then p.1 else Block.empty)

def reserveBlocks (disk : Option Contents) (h : Host) (asks : List Ask) (readable : Bool) (write : Write) :
    Option Host × Option Contents × List Block :=
  let (counters, file) := if h.file = .unread then adoptIdsFile disk readable h.counters else (h.counters, h.file)
  let adopted : Bool := file = .adopted
  let (counters', blocks) := reserveAll adopted counters asks
  let kept : Host := { h with counters := counters', file := file }
  if adopted then
    match write with
    | .landed         => (some kept, some counters'.file, handOut true asks blocks)
    | .failed         => (some kept, disk, handOut false asks blocks)
    | .crashed landed => (none, if landed then some counters'.file else disk, [])
  else (some kept, disk, handOut false asks blocks)

def numbered (asks : List Ask) (blocks : List Block) : List (Kind × Nat) :=
  (asks.zip blocks).flatMap (fun p => p.2.numbers.map (fun n => (p.1.kind, n)))

inductive Event where
  | launch
  | crash
  /-- Between launches another version of the host writes its file. -/
  | otherVersion (contents : Contents)
  | seedIds (saved : Saved) (readable : Bool)
  /-- A window reports ids below `next`. -/
  | seed (kind : Kind) (next : U64)
  | reserve (asks : List Ask) (readable : Bool) (write : Write)

def ofOtherVersion (contents : Contents) : Bool :=
  match contents.read with
  | .error (.otherVersion _) => true
  | _                        => false

def step (w : World) : Event → World
  | .launch                => { w with host := some ⟨.default, .absent, []⟩ }
  | .crash                 => { w with host := none }
  | .otherVersion contents => if w.host.isNone && ofOtherVersion contents then { w with disk := some contents } else w
  | .seedIds saved readable => { w with host := w.host.map (fun h => seedIds w.disk readable h saved) }
  | .seed kind next        => { w with host := w.host.map (fun h => { h with counters := h.counters.seed kind next }) }
  | .reserve asks readable write =>
    match w.host with
    | none   => w
    | some h =>
      let (host, disk, blocks) := reserveBlocks w.disk h asks readable write
      let handed := numbered asks blocks
      let labels := (handed.filter (fun p => p.1 = .window)).map Prod.snd
      { disk   := disk
        host   := host.map (fun h => { h with labels := h.labels ++ labels })
        handed := w.handed ++ handed.filter (fun p => p.1 ≠ .window) }

end Ids
end Dormouse

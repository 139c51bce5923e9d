import Dormouse.OrdMap
import Dormouse.Worklist
import Mathlib.Data.List.Induction
/-!
# ProcessTree — the processes a terminal's ports are looked for in

From `sidecar/pty-core.js`: the walks of the process table, and `adoptMsysDescendants`, which follows Git Bash across the
MSYS execs that cut the table's parent links.  Every subtree it adopts may hold another MSYS process, so one worklist runs
inside another.  `Owns` says what both are for.
-/
namespace Dormouse
namespace PtyCore

open Relation (ReflTransGen)
open Worklist (Adds)

abbrev Pid := Nat

abbrev Children := OrdMap Pid (List Pid)

def childrenIndex (pairs : List (Pid × Pid)) : Children :=
  pairs.foldl (fun children (pid, ppid) => children.set ppid ((children.get ppid).getD [] ++ [pid])) .empty

/-- `children.get(pid) || []` -/
def childrenOf (children : Children) (pid : Pid) : List Pid := (children.get pid).getD []

def descendantsIn (children : Children) (rootPid : Pid) : List Pid :=
  (Worklist.loop (fun queue => queue.head?.map (·, queue.tail))
    (fun current w => (childrenOf children current).foldl Worklist.visit w)
    (children.values.flatten.length + 1) ⟨[rootPid], [rootPid]⟩).found

def buildDescendantSet (pairs : List (Pid × Pid)) (rootPid : Pid) : List Pid := descendantsIn (childrenIndex pairs) rootPid

structure MsysRow where
  pid : Pid
  ppid : Pid
  winpid : Pid

/-- A `Map` made of the rows: of two rows for one key, the later holds. -/
def byWinpid (msysRows : List MsysRow) (winpid : Pid) : Option Pid :=
  (msysRows.reverse.find? (·.winpid = winpid)).map MsysRow.pid

def winpidOf (msysRows : List MsysRow) (pid : Pid) : Option Pid :=
  (msysRows.reverse.find? (·.pid = pid)).map MsysRow.winpid

/-- The pairs that `msysChildren` is the index of. -/
def msysPairs (msysRows : List MsysRow) : List (Pid × Pid) := msysRows.map fun row => (row.pid, row.ppid)

/-- One child of the loop over an MSYS process' descendants. -/
def adoptChild (children : Children) (msysRows : List MsysRow) (w : Worklist Pid) (child : Pid) : Worklist Pid :=
  match winpidOf msysRows child with
  | none => w
  | some winpid => if winpid ∈ w.found then w else (descendantsIn children winpid).foldl Worklist.visit w

/-- One turn of the loop over what is pending. -/
def adoptPid (children : Children) (msysRows : List MsysRow) (pid : Pid) (w : Worklist Pid) : Worklist Pid :=
  match byWinpid msysRows pid with
  | none => w
  | some msys => (descendantsIn (childrenIndex (msysPairs msysRows)) msys).foldl (adoptChild children msysRows) w

def adopt (children : Children) (msysRows : List MsysRow) (pids : List Pid) : List Pid :=
  (Worklist.loop (fun pending => pending.getLast?.map (·, pending.dropLast)) (adoptPid children msysRows)
    (pids.length + msysRows.length + children.values.flatten.length) ⟨pids, pids⟩).found

def adoptMsysDescendants (owned : List (Pid × List Pid)) (children : Children) (msysRows : List MsysRow) :
    List (Pid × List Pid) :=
  owned.map fun (root, pids) => (root, adopt children msysRows pids)

/-- `owned` of `getOpenPortsForPids`, where the process table may not have been read. -/
def owned (roots : List Pid) (pairs : Option (List (Pid × Pid))) (msysRows : List MsysRow) : List (Pid × List Pid) :=
  let children := (pairs.map childrenIndex).getD .empty
  let owned := roots.map fun root => (root, descendantsIn children root)
  if pairs.isSome && !msysRows.isEmpty then adoptMsysDescendants owned children msysRows else owned

/-! ## What it is for -/

/-- A process and its parent, the parent first. -/
def Child (pairs : List (Pid × Pid)) (a b : Pid) : Prop := (b, a) ∈ pairs

/-- A process owns its children, and an MSYS process the Windows processes of its MSYS descendants. -/
inductive Owns (pairs : List (Pid × Pid)) (msysRows : List MsysRow) : Pid → Pid → Prop
  | child {a b} (h : Child pairs a b) : Owns pairs msysRows a b
  | exec {a b m m'} (ha : byWinpid msysRows a = some m) (h : ReflTransGen (Child (msysPairs msysRows)) m m')
    (hb : winpidOf msysRows m' = some b) : Owns pairs msysRows a b

variable {pairs : List (Pid × Pid)} {msysRows : List MsysRow} {pid root : Pid} {w : Worklist Pid}

theorem mem_childrenOf {a b : Pid} : b ∈ childrenOf (childrenIndex pairs) a ↔ Child pairs a b := by
  rw [Child]
  induction pairs using List.reverseRecOn with
  | nil => simp [childrenIndex, childrenOf]
  | append_singleton pairs p ih =>
    obtain ⟨pid, ppid⟩ := p
    rw [childrenIndex, List.foldl_concat, ← childrenIndex, childrenOf, List.mem_append, ← ih]
    by_cases ha : a = ppid
    · subst ha
      simp [childrenOf]
    · simp [OrdMap.get_set_ne _ _ ha, ha, childrenOf]

theorem child_known {a b : Pid} (h : Child pairs a b) : b ∈ (childrenIndex pairs).values.flatten := by
  have h := mem_childrenOf.2 h
  cases hget : (childrenIndex pairs).get a with
  | none => simp [childrenOf, hget] at h
  | some bs => exact List.mem_flatten.2 ⟨bs, OrdMap.mem_values.2 ⟨a, hget⟩, by simpa [childrenOf, hget] using h⟩

/-- **A process and its descendants are found, each once**, and the walk ends, whatever cycles the table has. -/
theorem buildDescendantSet_spec (pairs : List (Pid × Pid)) (root : Pid) : (buildDescendantSet pairs root).Nodup ∧
    ∀ pid, pid ∈ buildDescendantSet pairs root ↔ ReflTransGen (Child pairs) root pid := by
  have hspec : (buildDescendantSet pairs root).Nodup ∧ True ∧
      ∀ pid, pid ∈ buildDescendantSet pairs root ↔ ∃ x ∈ [root], ReflTransGen (Child pairs) x pid := by
    refine Worklist.loop_finds (I := fun _ => True) (root :: (childrenIndex pairs).values.flatten) (by simp)
      (fun l x rest h => by cases l <;> simp_all) (fun x w _ _ => ?_) (fun x hx y h => ?_)
      ⟨by simp, by simp, by simp, fun y hy => ⟨y, hy, .refl⟩, by simp, trivial⟩ (by simp)
    · obtain ⟨hadds, hall⟩ := Adds.visits (P := ReflTransGen (Child pairs) x) w
        (l := childrenOf (childrenIndex pairs) x) fun y hy => .single (mem_childrenOf.1 hy)
      exact ⟨hadds, trivial, fun y hy => hall y (mem_childrenOf.2 hy)⟩
    · obtain rfl := List.mem_singleton.1 hx
      rcases h.cases_tail with rfl | ⟨z, -, hz⟩
      · exact List.mem_cons_self
      · exact List.mem_cons_of_mem _ (child_known hz)
  simpa using hspec

theorem mem_buildDescendantSet : pid ∈ buildDescendantSet pairs root ↔ ReflTransGen (Child pairs) root pid :=
  (buildDescendantSet_spec pairs root).2 pid

theorem mem_winpids {m b : Pid} (h : winpidOf msysRows m = some b) : b ∈ msysRows.map MsysRow.winpid := by
  obtain ⟨row, hrow, rfl⟩ := Option.map_eq_some_iff.1 h
  exact List.mem_map_of_mem (List.mem_reverse.1 (List.mem_of_find?_eq_some hrow))

/-- What is found holds the children of what it holds. -/
def Whole (pairs : List (Pid × Pid)) (found : List Pid) : Prop := ∀ a ∈ found, ∀ b, Child pairs a b → b ∈ found

theorem Whole.visits (h : Whole pairs w.found) (winpid : Pid) :
    Whole pairs ((buildDescendantSet pairs winpid).foldl Worklist.visit w).found := by
  obtain ⟨⟨new, hfound, -, hnew, -⟩, hall⟩ := Adds.visits w (l := buildDescendantSet pairs winpid) fun _ hx => hx
  intro a ha b hb
  rw [hfound] at ha
  rcases List.mem_append.1 ha with ha | ha
  · exact hfound ▸ List.mem_append_left _ (h a ha b hb)
  · exact hall b (mem_buildDescendantSet.2 ((mem_buildDescendantSet.1 (hnew a ha)).tail hb))

theorem owns_descendants (h : pid ∈ buildDescendantSet pairs root) : ReflTransGen (Owns pairs msysRows) root pid :=
  ReflTransGen.mono (fun _ _ hb => Owns.child hb) _ _ (mem_buildDescendantSet.1 h)

/-- One turn of the adoption.  A subtree that is skipped was adopted whole. -/
theorem adopt_turn (hpid : pid ∈ w.found) (hw : Whole pairs w.found) :
    Adds (ReflTransGen (Owns pairs msysRows) pid) w (adoptPid (childrenIndex pairs) msysRows pid w) ∧
      Whole pairs (adoptPid (childrenIndex pairs) msysRows pid w).found ∧
      ∀ y, Owns pairs msysRows pid y → y ∈ (adoptPid (childrenIndex pairs) msysRows pid w).found := by
  rw [adoptPid]
  cases hm : byWinpid msysRows pid with
  | none =>
    refine ⟨.refl w, hw, fun y h => ?_⟩
    cases h with
    | child h => exact hw pid hpid y h
    | exec ha _ => simp [hm] at ha
  | some msys =>
    obtain ⟨hadds, hwhole, hall⟩ := Adds.foldl (I := Whole pairs) (P := ReflTransGen (Owns pairs msysRows) pid)
      (Q := fun child found => ∀ winpid, winpidOf msysRows child = some winpid → winpid ∈ found)
      (f := adoptChild (childrenIndex pairs) msysRows) (l := buildDescendantSet (msysPairs msysRows) msys) (w := w)
      (fun _ _ _ hsub h winpid hwin => hsub (h winpid hwin))
      (fun child hchild w hw => by
        unfold adoptChild
        cases hwin : winpidOf msysRows child with
        | none => exact ⟨.refl w, hw, by simp⟩
        | some winpid =>
          have howns : Owns pairs msysRows pid winpid := .exec hm (mem_buildDescendantSet.1 hchild) hwin
          simp only [Option.some.injEq, forall_eq']
          split
          · exact ⟨.refl w, hw, ‹_›⟩
          · obtain ⟨hadds, hfound⟩ := Adds.visits w (l := buildDescendantSet pairs winpid)
              fun y hy => ReflTransGen.head howns (owns_descendants hy)
            exact ⟨hadds, hw.visits winpid, hfound winpid (mem_buildDescendantSet.2 .refl)⟩)
      hw
    refine ⟨hadds, hwhole, fun y h => ?_⟩
    cases h with
    | child h => exact hadds.subset (hw pid hpid y h)
    | exec ha h hb =>
      obtain rfl := Option.some.inj (hm.symm.trans ha)
      exact hall _ (mem_buildDescendantSet.2 h) y hb

theorem adopt_spec (pairs : List (Pid × Pid)) (msysRows : List MsysRow) (root : Pid) :
    let pids := adopt (childrenIndex pairs) msysRows (buildDescendantSet pairs root)
    pids.Nodup ∧ ∀ pid, pid ∈ pids ↔ ReflTransGen (Owns pairs msysRows) root pid := by
  intro pids
  obtain ⟨hnodup, hmem⟩ := buildDescendantSet_spec pairs root
  have hspec : pids.Nodup ∧ Whole pairs pids ∧
      ∀ pid, pid ∈ pids ↔ ∃ x ∈ buildDescendantSet pairs root, ReflTransGen (Owns pairs msysRows) x pid := by
    refine Worklist.loop_finds
      (buildDescendantSet pairs root ++ (msysRows.map MsysRow.winpid ++ (childrenIndex pairs).values.flatten)) (by simp)
      (fun l x rest h => ?_) (fun x w => adopt_turn) (fun x hx y h => ?_)
      ⟨hnodup, by simp, by simp, fun y hy => ⟨y, hy, .refl⟩, fun x hx hover => absurd hx hover,
        fun a ha b hb => (hmem b).2 (((hmem a).1 ha).tail hb)⟩ (by simp; omega)
    · obtain ⟨y, hy, heq⟩ := Option.map_eq_some_iff.1 h
      obtain ⟨rfl, rfl⟩ := Prod.mk.inj heq
      have hperm := List.perm_append_singleton y l.dropLast
      rwa [List.dropLast_append_getLast? y hy] at hperm
    · rcases h.cases_tail with rfl | ⟨z, -, hz⟩
      · exact List.mem_append_left _ hx
      · refine List.mem_append_right _ (List.mem_append.2 ?_)
        cases hz with
        | child h => exact .inr (child_known h)
        | exec _ _ hb => exact .inl (mem_winpids hb)
  refine ⟨hspec.1, fun pid => (hspec.2.2 pid).trans ⟨?_, fun h => ⟨root, (hmem root).2 .refl, h⟩⟩⟩
  rintro ⟨x, hx, hxy⟩
  exact (owns_descendants hx).trans hxy

/-- **Each root owns exactly the processes `Owns` leads to, each of them once**, whatever order the table and MSYS list
them in and whatever cycles they have: what is adopted is followed across every further exec, and nothing else is adopted.
Where the table could not be read, a root owns itself alone. -/
theorem owned_exact (roots : List Pid) (table : Option (List (Pid × Pid))) (msysRows : List MsysRow) :
    (owned roots table msysRows).map Prod.fst = roots ∧ ∀ root pids, (root, pids) ∈ owned roots table msysRows →
      pids.Nodup ∧ ∀ pid, pid ∈ pids ↔ match table with
        | none => pid = root
        | some pairs => ReflTransGen (Owns pairs msysRows) root pid := by
  refine ⟨by unfold owned adoptMsysDescendants; split <;> simp [Function.comp_def], fun root pids h => ?_⟩
  cases table with
  | none =>
    obtain ⟨-, rfl⟩ : root ∈ roots ∧ buildDescendantSet [] root = pids := by
      simpa [owned, buildDescendantSet, childrenIndex] using h
    obtain ⟨hnodup, hmem⟩ := buildDescendantSet_spec [] root
    refine ⟨hnodup, fun pid => (hmem pid).trans ⟨fun h => ?_, fun h => h ▸ .refl⟩⟩
    rcases h.cases_tail with h | ⟨_, -, h⟩
    · exact h
    · cases h
  | some pairs =>
    by_cases hrows : msysRows = []
    · subst hrows
      obtain ⟨-, rfl⟩ : root ∈ roots ∧ buildDescendantSet pairs root = pids := by
        simpa [owned, buildDescendantSet] using h
      obtain ⟨hnodup, hmem⟩ := buildDescendantSet_spec pairs root
      refine ⟨hnodup, fun pid => ⟨owns_descendants, fun h => (hmem pid).2 (ReflTransGen.mono (fun a b hab => ?_) _ _ h)⟩⟩
      cases hab with
      | child h => exact h
      | exec ha _ => simp [byWinpid] at ha
    · obtain ⟨-, rfl⟩ : root ∈ roots ∧ adopt (childrenIndex pairs) msysRows (buildDescendantSet pairs root) = pids := by
        simpa [owned, adoptMsysDescendants, buildDescendantSet, hrows] using h
      exact adopt_spec pairs msysRows root

end PtyCore
end Dormouse

import Dormouse.Steps
import Dormouse.QuitModel
import Mathlib.Data.List.Perm.Basic
import Mathlib.Data.List.Flatten
/-!
# Transfers — moving a Workspace's terminals between windows

The maps of `RoutingState` (`src-tauri/src/lib.rs`) and the arrivals of `routing.rs` that a transfer moves terminals with.
An arrival takes its terminals' ownership at once, while the source still shows them.  It ends by being adopted, refused,
expired or losing its window: its record is taken out of the queue under one lock, and the maps follow under another,
later.  `Homes` says what all this is for: a terminal is its source's until the adoption, which moves every one of them,
and a transfer that fails moves none.
-/
namespace Dormouse
namespace Transfer

open Quit (Label)

abbrev PtyId := String
abbrev Instant := Nat

/-- The four maps a terminal's id is looked up in, at one id. -/
structure Slot where
  owner : Option Label := none
  awaitingReplay : Option Instant := none
  marking : Option Label := none
  transferMark : Option Nat := none

namespace Slot

variable (s : Slot)

def mint (label : Label) : Slot := { s with owner := some label, transferMark := none, awaitingReplay := none }

def beginTransfer (source target : Label) : Slot := { owner := s.owner.map (fun _ => target), marking := some source }

def markTransfer (mark : Nat) (now : Instant) : Slot :=
  if s.marking.isSome then { s with marking := none, transferMark := some mark, awaitingReplay := some now } else s

def transferring : Bool := s.marking.isSome || s.transferMark.isSome

def handBack (source : Label) (now : Instant) : Slot :=
  -- a kill drops the owner and the transfer records alike
  if !s.transferring && s.owner.isNone then { s with transferMark := none, marking := none }
  else ⟨some source, s.transferMark.map (fun _ => now), none, none⟩

/-- An exit, and the replay a suppression waits for: both only lift it. -/
def release : Slot := { s with awaitingReplay := none }

def clearSuppression : Slot := { s with awaitingReplay := none, transferMark := none, marking := none }

/-- What `drop_window` does to the terminals of an arrival it loses; their marks stay. -/
def lose : Slot := { s with owner := none, awaitingReplay := none }

/-- Where `route` sends a `pty:data` line; `none` drops it. -/
def route : Option Label := if s.awaitingReplay.isSome then none else s.marking <|> s.owner

end Slot

abbrev RoutingState := PtyId → Slot

/-- `for id in ids`, each turn of the loop at its own id. -/
def forEach (ids : List PtyId) (f : Slot → Slot) (r : RoutingState) : RoutingState :=
  ids.foldl (fun r id => Function.update r id (f (r id))) r

structure Arrival where
  workspaceId : String
  from_ : Label
  to_ : Label
  terminalIds : List PtyId
  queuedAt : Instant
  deriving DecidableEq

/-- In the queue, or taken out of it with the maps still to follow. -/
inductive Phase where
  | inFlight
  | adopted
  | failed
  deriving DecidableEq

/-- The arrivals that have not been settled, oldest first. -/
abbrev Queue := List (Arrival × Phase)

inductive Event where
  | mint (id : PtyId) (label : Label)
  | forgetPty (id : PtyId)
  | exited (id : PtyId)
  | marked (id : PtyId) (mark : Nat) (now : Instant)
  | replayed (id : PtyId)
  | sweep (now max : Instant)
  | beginArrival (arrival : Arrival)
  | adoptDone (workspaceId : String) (label : Label)
  | adoptFailed (workspaceId : String) (label : Label)
  | expire (workspaceId : String) (to_ : Label) (queuedAt : Instant)
  | dropWindow (label : Label)
  /-- The maps follow a record taken out; the source's window is open or gone. -/
  | settle (position : Nat) (sourceOpen : Bool) (now : Instant)

namespace Queue

variable (q : Queue)

def find (p : Arrival → Bool) : Option (Arrival × Phase) := List.find? (fun x => x.2 = .inFlight && p x.1) q

def hasArrival (workspaceId : String) : Bool := (find q (·.workspaceId = workspaceId)).isSome

def arrivalOf (workspaceId : String) (label : Label) : Option (Arrival × Phase) :=
  find q (fun a => a.workspaceId = workspaceId && a.to_ = label)

/-- The record, taken out of the arrivals. -/
def take (phase : Phase) : Option (Arrival × Phase) → Queue
  | none => q
  | some x => q.map (fun y => if y = x then (y.1, phase) else y)

/-- Whether `take_arrivals_to` loses the record. -/
def lost (label : Label) (x : Arrival × Phase) : Bool := x.2 = .inFlight && x.1.to_ = label

def step : Event → Queue
  | .beginArrival arrival => if hasArrival q arrival.workspaceId then q else q ++ [(arrival, .inFlight)]
  | .adoptDone workspaceId label => take q .adopted (arrivalOf q workspaceId label)
  | .adoptFailed workspaceId label => take q .failed (arrivalOf q workspaceId label)
  | .expire workspaceId to_ queuedAt =>
    take q .failed (find q (fun a => a.workspaceId = workspaceId && a.to_ = to_ && a.queuedAt = queuedAt))
  | .dropWindow label => q.map (fun x => if lost label x then (x.1, .failed) else x)
  | .settle position _ _ => if q[position]?.any (·.2 ≠ .inFlight) then q.eraseIdx position else q
  | _ => q

/-- The record that claims a terminal. -/
def claim (id : PtyId) : Option (Arrival × Phase) := List.find? (id ∈ ·.1.terminalIds) q

end Queue

/-- What an event does to the maps, beside the queue it finds. -/
def RoutingState.step (q : Queue) (r : RoutingState) : Event → RoutingState
  | .mint id label => forEach [id] (·.mint label) r
  | .forgetPty id => forEach [id] (fun _ => {}) r
  | .exited id => forEach [id] Slot.release r
  | .marked id mark now => forEach [id] (·.markTransfer mark now) r
  | .replayed id => forEach [id] Slot.release r
  | .sweep now max => fun id =>
    -- a suppression an arrival claims is lifted by its own replay
    if (r id).awaitingReplay.any (fun t => max ≤ now - t) ∧ ∀ x ∈ q, x.2 = .inFlight → id ∉ x.1.terminalIds
    then (r id).release else r id
  | .beginArrival a =>
    if q.hasArrival a.workspaceId then r else forEach a.terminalIds (·.beginTransfer a.from_ a.to_) r
  | .dropWindow label => fun id =>
    if ∃ x ∈ q, Queue.lost label x ∧ id ∈ x.1.terminalIds then (r id).lose
    else if (r id).owner = some label then { r id with owner := none } else r id
  | .settle position sourceOpen now =>
    match q[position]? with
    | some (a, .adopted) => forEach a.terminalIds Slot.clearSuppression r
    | some (a, .failed) => forEach a.terminalIds (if sourceOpen then (·.handBack a.from_ now) else fun _ => {}) r
    | _ => r
  | _ => r

structure Host where
  routing : RoutingState := fun _ => {}
  queue : Queue := []

def step (h : Host) (e : Event) : Host := ⟨RoutingState.step h.queue h.routing e, h.queue.step e⟩

/-! ## What it is for -/

/-- Each terminal's window, and the transfers under way. -/
structure Homes where
  home : PtyId → Option Label := fun _ => none
  queue : Queue := []

/-- The arrival that is moving a terminal, of the record that claims it. -/
def mover (c : Option (Arrival × Phase)) : Option Arrival := (c.filter (·.2 ≠ .adopted)).map Prod.fst

/-- Moves are whole: an adoption moves every terminal the arrival claims, and nothing else moves one. -/
def Homes.step (h : Homes) (e : Event) : Homes where
  queue := h.queue.step e
  home := fun id =>
    match e with
    | .mint i label => if id = i then some label else h.home id
    | .forgetPty i => if id = i then none else h.home id
    | .adoptDone workspaceId label =>
      if h.queue.claim id ≠ none ∧ h.queue.claim id = h.queue.arrivalOf workspaceId label
      then (h.home id).map (fun _ => label) else h.home id
    | .dropWindow label => if mover (h.queue.claim id) = none ∧ h.home id = some label then none else h.home id
    | .settle position false _ =>
      match h.queue[position]? with
      | some (a, .failed) => if id ∈ a.terminalIds then none else h.home id
      | _ => h.home id
    | _ => h.home id

/-- A terminal of an arrival under way is still its source's, unless it was killed. -/
def homeOf (c : Option (Arrival × Phase)) (s : Slot) : Option Label :=
  match mover c with
  | none => s.owner
  | some a => if s.transferring then some a.from_ else none

def Host.homes (h : Host) : Homes := ⟨fun id => homeOf (h.queue.claim id) (h.routing id), h.queue⟩

/-! ## Claims -/

variable {id : PtyId} {a : Arrival} {q : Queue} {r : RoutingState} {s : Slot} {h : Host} {x : Arrival × Phase}
variable {c : Option (Arrival × Phase)}

def claimed (q : Queue) : List PtyId := q.flatMap (·.1.terminalIds)

theorem forEach_apply {f : Slot → Slot} : ∀ {ids : List PtyId} {r : RoutingState}, ids.Nodup →
    forEach ids f r id = if id ∈ ids then f (r id) else r id
  | [], _, _ => rfl
  | i :: ids, r, hn => by
    obtain ⟨hi, hn⟩ := List.nodup_cons.1 hn
    rw [forEach, List.foldl_cons, ← forEach, forEach_apply hn]
    by_cases hid : id = i
    · subst hid
      rw [if_neg hi, Function.update_self, if_pos List.mem_cons_self]
    · simp only [Function.update_of_ne hid, List.mem_cons, hid, false_or]

theorem claim_none : q.claim id = none ↔ ∀ x ∈ q, id ∉ x.1.terminalIds := by
  simp [Queue.claim]

theorem claim_some (hn : (claimed q).Nodup) : q.claim id = some x ↔ x ∈ q ∧ id ∈ x.1.terminalIds := by
  constructor
  · exact fun h => ⟨List.mem_of_find?_eq_some h, by simpa using List.find?_some h⟩
  · rintro ⟨hx, hid⟩
    induction q with
    | nil => cases hx
    | cons y q ih =>
      obtain ⟨-, hq, hapart⟩ := List.nodup_append.1 hn
      rw [Queue.claim, List.find?_cons]
      rcases List.mem_cons.1 hx with rfl | hx
      · rw [decide_eq_true hid]
      · have hy : id ∉ y.1.terminalIds := fun hy => hapart id hy id (List.mem_flatMap.2 ⟨x, hx, hid⟩) rfl
        rw [decide_eq_false hy]
        exact ih hq hx

theorem claim_map {g : Arrival × Phase → Arrival × Phase} (hg : ∀ y, (g y).1 = y.1) :
    Queue.claim (q.map g) id = (q.claim id).map g := by
  rw [Queue.claim, List.find?_map]
  simp only [Function.comp_def, hg]
  rfl

theorem claimed_map {g : Arrival × Phase → Arrival × Phase} (hg : ∀ y, (g y).1 = y.1) : claimed (q.map g) = claimed q := by
  simp only [claimed, List.flatMap_map, hg]

theorem claimed_take (q : Queue) (phase : Phase) (o : Option (Arrival × Phase)) : claimed (q.take phase o) = claimed q := by
  cases o with
  | none => rfl
  | some x => exact claimed_map fun y => by split <;> rfl

/-- A terminal's claim goes with the record that is taken out, if that is the one that claims it. -/
theorem claim_take (q : Queue) (p : Arrival → Bool) (phase : Phase) (id : PtyId) :
    (∃ a, p a = true ∧ q.claim id = some (a, .inFlight) ∧ q.find p = some (a, .inFlight) ∧
      (q.take phase (q.find p)).claim id = some (a, phase)) ∨
    (q.take phase (q.find p)).claim id = q.claim id ∧ ¬(q.claim id ≠ none ∧ q.claim id = q.find p) := by
  cases hp : q.find p with
  | none => exact .inr ⟨rfl, fun h => h.1 h.2⟩
  | some x =>
    obtain ⟨a, phase'⟩ := x
    have ha : phase' = .inFlight ∧ p a = true := by simpa using List.find?_some hp
    obtain ⟨rfl, ha⟩ := ha
    rw [Queue.take, claim_map fun y => by split <;> rfl]
    cases hc : q.claim id with
    | none => exact .inr ⟨rfl, fun h => h.1 rfl⟩
    | some y =>
      by_cases hy : y = (a, .inFlight)
      · exact .inl ⟨a, ha, by rw [hy], rfl, by simp [hy]⟩
      · exact .inr ⟨by simp [hy], fun h => hy (Option.some.inj h.2)⟩

theorem claim_settle (hn : (claimed q).Nodup) {position : Nat} (hx : q[position]? = some x) (id : PtyId) :
    Queue.claim (q.eraseIdx position) id = if id ∈ x.1.terminalIds then none else q.claim id := by
  obtain ⟨hlt, rfl⟩ := List.getElem?_eq_some_iff.1 hx
  have hperm := List.getElem_cons_eraseIdx_perm hlt
  have hn' : (claimed (q[position] :: q.eraseIdx position)).Nodup := (hperm.symm.flatMap_right _).nodup hn
  obtain ⟨-, herase, hapart⟩ := List.nodup_append.1 hn'
  split
  · rename_i hid
    exact claim_none.2 fun y hy hiy => hapart id hid id (List.mem_flatMap.2 ⟨y, hy, hiy⟩) rfl
  · rename_i hid
    ext y
    rw [claim_some hn, claim_some herase, ← hperm.mem_iff, List.mem_cons]
    constructor
    · exact fun h => ⟨.inr h.1, h.2⟩
    · rintro ⟨rfl | hy, hiy⟩
      · exact absurd hiy hid
      · exact ⟨hy, hiy⟩

/-! ## What the maps hold at one id -/

/-- Before its mark the source reads on; after it the cut is kept.  The owner is the target, or no one once the target's
window is gone. A terminal that was killed is in no map. -/
def Slot.Moves (a : Arrival) (phase : Phase) (s : Slot) : Prop :=
  (s.transferring = true ∧ (s.owner = some a.to_ ∨ s.owner = none ∧ phase ≠ .inFlight) ∧
    (s.marking = none ∨ s.marking = some a.from_ ∧ s.transferMark = none)) ∨
  (s.transferring = false ∧ s.owner = none)

/-- A slot, beside the record that claims its id. -/
structure Sound (c : Option (Arrival × Phase)) (s : Slot) : Prop where
  free : c = none → s.transferring = false
  moves : ∀ a phase, c = some (a, phase) → phase ≠ .adopted → s.Moves a phase
  exclusive : s.marking.isSome → s.awaitingReplay = none

/-- A sound slot, of a terminal that is at home there. -/
abbrev At (c : Option (Arrival × Phase)) (s : Slot) (home : Option Label) : Prop := Sound c s ∧ homeOf c s = home

attribute [local grind] homeOf mover Slot.Moves Slot.transferring

theorem Sound.release (hs : Sound c s) : At c s.release (homeOf c s) := by
  obtain ⟨hfree, hmoves, hx⟩ := hs
  exact ⟨⟨hfree, hmoves, fun _ => rfl⟩, rfl⟩

theorem Sound.mint (hs : Sound none s) (label : Label) : At none (s.mint label) (some label) := by
  obtain ⟨hfree, hmoves, hx⟩ := hs
  refine ⟨⟨?_, ?_, fun _ => rfl⟩, rfl⟩ <;> grind [Slot.mint]

theorem sound_killed (c : Option (Arrival × Phase)) : At c {} none := by
  refine ⟨⟨fun _ => rfl, fun _ _ _ _ => .inr ⟨rfl, rfl⟩, fun _ => rfl⟩, ?_⟩
  rw [homeOf]
  cases mover c <;> rfl

theorem Sound.markTransfer (hs : Sound c s) (mark : Nat) (now : Instant) : At c (s.markTransfer mark now) (homeOf c s) := by
  obtain ⟨hfree, hmoves, hx⟩ := hs
  refine ⟨⟨?_, ?_, ?_⟩, ?_⟩ <;> grind [Slot.markTransfer]

theorem Sound.beginTransfer (ho : s.owner = some a.from_) :
    At (some (a, .inFlight)) (s.beginTransfer a.from_ a.to_) s.owner := by
  refine ⟨⟨?_, ?_, fun _ => rfl⟩, ?_⟩ <;> grind [Slot.beginTransfer]

theorem Sound.take (hs : Sound (some (a, .inFlight)) s) (phase : Phase) : At (some (a, phase)) s
    ((homeOf (some (a, .inFlight)) s).map (fun l => if phase = .adopted then a.to_ else l)) := by
  obtain ⟨hfree, hmoves, hx⟩ := hs
  refine ⟨⟨?_, ?_, hx⟩, ?_⟩ <;> grind

theorem Sound.lose (hs : Sound (some (a, .inFlight)) s) :
    At (some (a, .failed)) s.lose (homeOf (some (a, .inFlight)) s) := by
  obtain ⟨hfree, hmoves, hx⟩ := hs
  refine ⟨⟨?_, ?_, fun _ => rfl⟩, ?_⟩ <;> grind [Slot.lose]

theorem Sound.disown (hs : Sound c s) {label : Label} (hc : c.any (Queue.lost label) = false) {s' : Slot}
    (hs' : s' = if s.owner = some label then { s with owner := none } else s) :
    At c s' (if mover c = none ∧ homeOf c s = some label then none else homeOf c s) := by
  obtain ⟨hfree, hmoves, hx⟩ := hs
  split at hs'
  · rcases c with _ | ⟨a, _ | _ | _⟩ <;> refine ⟨⟨?_, ?_, ?_⟩, ?_⟩ <;> grind [Queue.lost]
  · subst hs'
    refine ⟨⟨hfree, hmoves, hx⟩, (if_neg ?_).symm⟩
    grind

theorem sound_adopted (a : Arrival) (s : Slot) :
    At none s.clearSuppression (homeOf (some (a, .adopted)) s) := by
  refine ⟨⟨?_, ?_, fun _ => rfl⟩, ?_⟩ <;> grind [Slot.clearSuppression]

theorem Sound.handBack (hs : Sound (some (a, .failed)) s) (now : Instant) :
    At none (s.handBack a.from_ now) (homeOf (some (a, .failed)) s) := by
  obtain ⟨hfree, hmoves, hx⟩ := hs
  refine ⟨⟨?_, ?_, ?_⟩, ?_⟩ <;> grind [Slot.handBack]

/-! ## Every run -/

structure Sane (h : Host) : Prop where
  claims : (claimed h.queue).Nodup
  slots : ∀ id, Sound (h.queue.claim id) (h.routing id)

/-- What the windows promise: a new terminal's id is its own, and an arrival names terminals its source holds, each once
and none that is on its way already. -/
def Promised (h : Host) : Event → Prop
  | .mint id _ => h.queue.claim id = none
  | .beginArrival a => a.terminalIds.Nodup ∧
    ∀ id ∈ a.terminalIds, (h.routing id).owner = some a.from_ ∧ h.queue.claim id = none
  | _ => True

theorem claimed_step (hs : Sane h) {e : Event} (hp : Promised h e) : (claimed (h.queue.step e)).Nodup := by
  have hn := hs.claims
  cases e with
  | beginArrival a =>
    rw [Queue.step]
    split
    · exact hn
    · rw [claimed, List.flatMap_append, List.flatMap_singleton]
      refine List.nodup_append.2 ⟨hn, hp.1, fun i hi j hj hij => ?_⟩
      obtain ⟨x, hx, hix⟩ := List.mem_flatMap.1 hi
      exact claim_none.1 (hp.2 j hj).2 x hx (hij ▸ hix)
  | dropWindow label =>
    rw [Queue.step, claimed_map fun y => by split <;> rfl]
    exact hn
  | settle position _ _ =>
    rw [Queue.step]
    split
    · exact ((List.eraseIdx_sublist h.queue position).flatMap _).nodup hn
    · exact hn
  | adoptDone _ _ => exact (claimed_take ..).symm ▸ hn
  | adoptFailed _ _ => exact (claimed_take ..).symm ▸ hn
  | expire _ _ _ => exact (claimed_take ..).symm ▸ hn
  | _ => exact hn

theorem taken_failed (hs : Sound (q.claim id) s) (p : Arrival → Bool) :
    At ((q.take .failed (q.find p)).claim id) s (homeOf (q.claim id) s) := by
  rcases claim_take q p .failed id with ⟨a, -, hc, -, hc'⟩ | ⟨hc', -⟩
  · rw [hc] at hs
    rw [hc', hc]
    exact (hs.take .failed).imp_right fun hhome => hhome.trans (by simp)
  · rw [hc']
    exact ⟨hs, rfl⟩

/-- What an event does at one id: the slot stays sound, and the terminal is where `Homes` has it. -/
abbrev Keeps (h : Host) (e : Event) (id : PtyId) : Prop :=
  At ((h.queue.step e).claim id) (RoutingState.step h.queue h.routing e id) ((h.homes.step e).home id)

theorem keeps_beginArrival (hs : Sane h) (hp : Promised h (.beginArrival a)) (id : PtyId) : Keeps h (.beginArrival a) id := by
  have hid := hs.slots id
  have hn' := claimed_step hs hp
  simp only [Queue.step] at hn'
  simp only [Keeps, RoutingState.step, Homes.step, Queue.step]
  split
  · exact ⟨hid, rfl⟩
  · rename_i hhas
    rw [if_neg hhas] at hn'
    rw [forEach_apply hp.1]
    split
    · rename_i hmem
      obtain ⟨ho, hc⟩ := hp.2 id hmem
      have hc' : Queue.claim (h.queue ++ [(a, .inFlight)]) id = some (a, .inFlight) := (claim_some hn').2 ⟨by simp, hmem⟩
      rw [hc']
      refine (Sound.beginTransfer ho).imp_right fun hhome => hhome.trans ?_
      show _ = homeOf (h.queue.claim id) _
      rw [hc]
      rfl
    · rename_i hmem
      have hc' : Queue.claim (h.queue ++ [(a, .inFlight)]) id = h.queue.claim id := by
        rw [Queue.claim, List.find?_append]
        simp [hmem, Queue.claim]
      rw [hc']
      exact ⟨hid, rfl⟩

theorem keeps_adoptDone (hs : Sane h) (ws : String) (label : Label) (id : PtyId) : Keeps h (.adoptDone ws label) id := by
  have hid := hs.slots id
  show At ((h.queue.take .adopted (h.queue.arrivalOf ws label)).claim id) (h.routing id)
    (if h.queue.claim id ≠ none ∧ h.queue.claim id = h.queue.arrivalOf ws label
      then (homeOf (h.queue.claim id) (h.routing id)).map (fun _ => label) else homeOf (h.queue.claim id) (h.routing id))
  rw [Queue.arrivalOf]
  rcases claim_take h.queue (fun a => a.workspaceId = ws && a.to_ = label) .adopted id with
    ⟨a, ha, hc, hfind, hc'⟩ | ⟨hc', hnot⟩
  · have hto : a.to_ = label := by simp_all
    rw [hc] at hid
    rw [hc', hc, hfind, if_pos ⟨by simp, rfl⟩, ← hto]
    exact hid.take .adopted
  · rw [hc', if_neg hnot]
    exact ⟨hid, rfl⟩

theorem keeps_dropWindow (hs : Sane h) (label : Label) (id : PtyId) : Keeps h (.dropWindow label) id := by
  have hid := hs.slots id
  have hlost : (∃ x ∈ h.queue, Queue.lost label x ∧ id ∈ x.1.terminalIds) ↔
      (h.queue.claim id).any (Queue.lost label) = true := by
    simp only [Option.any_eq_true, claim_some hs.claims]
    exact exists_congr fun x => by tauto
  have hc' : (h.queue.step (.dropWindow label)).claim id =
      (h.queue.claim id).map (fun x => if Queue.lost label x then (x.1, .failed) else x) :=
    claim_map fun y => by split <;> rfl
  simp only [Keeps, RoutingState.step, hlost, hc', Homes.step, Host.homes]
  by_cases hany : (h.queue.claim id).any (Queue.lost label) = true
  · obtain ⟨⟨a, phase⟩, hc, hl⟩ := (Option.any_eq_true _ _).1 hany
    obtain ⟨rfl, -⟩ : phase = .inFlight ∧ a.to_ = label := by simpa [Queue.lost] using hl
    rw [hc] at hid
    simpa [hc, hl, mover] using hid.lose
  · have hmap : (h.queue.claim id).map (fun x => if Queue.lost label x then (x.1, Phase.failed) else x) =
        h.queue.claim id := by
      cases hc : h.queue.claim id <;> simp_all
    simp only [hmap, hany]
    exact hid.disown (by simpa using hany) (by simp)

theorem keeps_settle (hs : Sane h) (position : Nat) (o : Bool) (t : Instant) (id : PtyId) :
    Keeps h (.settle position o t) id := by
  have hid := hs.slots id
  unfold Keeps At
  rcases hx : h.queue[position]? with _ | ⟨a, _ | _ | _⟩
  · cases o <;> simpa [RoutingState.step, Queue.step, Homes.step, Host.homes, hx] using hid
  · cases o <;> simpa [RoutingState.step, Queue.step, Homes.step, Host.homes, hx] using hid
  all_goals
    have hmem := List.mem_of_getElem? hx
    have hnodup : a.terminalIds.Nodup := (List.nodup_flatMap.1 hs.claims).1 _ hmem
    have hset := claim_settle hs.claims hx id
    by_cases hia : id ∈ a.terminalIds
  · have hc := (claim_some hs.claims).2 ⟨hmem, hia⟩
    cases o <;> simpa [RoutingState.step, Queue.step, Homes.step, Host.homes, hx, hset, forEach_apply hnodup, hia, hc]
      using sound_adopted a _
  · cases o <;> simpa [RoutingState.step, Queue.step, Homes.step, Host.homes, hx, hset, forEach_apply hnodup, hia] using hid
  · have hc := (claim_some hs.claims).2 ⟨hmem, hia⟩
    rw [hc] at hid
    cases o with
    | false =>
      simpa [RoutingState.step, Queue.step, Homes.step, Host.homes, hx, hset, forEach_apply hnodup, hia] using sound_killed none
    | true =>
      simpa [RoutingState.step, Queue.step, Homes.step, Host.homes, hx, hset, forEach_apply hnodup, hia, hc]
        using hid.handBack t
  · cases o <;> simpa [RoutingState.step, Queue.step, Homes.step, Host.homes, hx, hset, forEach_apply hnodup, hia] using hid

/-- **Every event keeps every id.** -/
theorem keeps_step (hs : Sane h) {e : Event} (hp : Promised h e) (id : PtyId) : Keeps h e id := by
  have hid := hs.slots id
  have hone : ∀ i f, forEach [i] f h.routing id = if id = i then f (h.routing id) else h.routing id := fun i f => by
    rw [forEach_apply (List.nodup_singleton i)]
    simp only [List.mem_singleton]
  have hsame : ∀ i f, At (h.queue.claim id) (f (h.routing id)) (homeOf (h.queue.claim id) (h.routing id)) →
      At (h.queue.claim id) (forEach [i] f h.routing id) (homeOf (h.queue.claim id) (h.routing id)) := fun i f hf => by
    rw [hone]
    split
    · exact hf
    · exact ⟨hid, rfl⟩
  cases e with
  | mint i label =>
    simp only [Keeps, RoutingState.step, hone, Homes.step, Queue.step]
    split
    · subst id
      rw [hp] at hid ⊢
      exact hid.mint label
    · exact ⟨hid, rfl⟩
  | forgetPty i =>
    simp only [Keeps, RoutingState.step, hone, Homes.step, Queue.step]
    split
    · exact sound_killed _
    · exact ⟨hid, rfl⟩
  | marked i mark now => exact hsame i (·.markTransfer mark now) (hid.markTransfer mark now)
  | exited i => exact hsame i _ hid.release
  | replayed i => exact hsame i _ hid.release
  | sweep now max =>
    simp only [Keeps, RoutingState.step]
    split
    · exact hid.release
    · exact ⟨hid, rfl⟩
  | beginArrival a => exact keeps_beginArrival hs hp id
  | adoptDone ws label => exact keeps_adoptDone hs ws label id
  | adoptFailed ws label => exact taken_failed hid _
  | expire ws to_ at_ => exact taken_failed hid _
  | dropWindow label => exact keeps_dropWindow hs label id
  | settle position o t => exact keeps_settle hs position o t id

theorem sane_step (hs : Sane h) (e : Event) (hp : Promised h e) : Sane (step h e) ∧ (step h e).homes = h.homes.step e := by
  refine ⟨⟨claimed_step hs hp, fun id => (keeps_step hs hp id).1⟩, ?_⟩
  rw [Host.homes, Homes.mk.injEq]
  exact ⟨funext fun id => (keeps_step hs hp id).2, rfl⟩

theorem sane_init : Sane {} := ⟨List.nodup_nil, fun _ => ⟨fun _ => rfl, nofun, nofun⟩⟩

theorem sane_run : ∀ (es : List Event) {h : Host}, Sane h → Steps.Along step Promised h es →
    Sane (Steps.run step h es) ∧ (Steps.run step h es).homes = Steps.run Homes.step h.homes es
  | [], _, hs, _ => ⟨hs, rfl⟩
  | e :: es, h, hs, ⟨hp, hes⟩ => by
    obtain ⟨hs', hhomes⟩ := sane_step hs e hp
    obtain ⟨hrun, heq⟩ := sane_run es hs' hes
    exact ⟨hrun, heq.trans (by rw [hhomes]; rfl)⟩

/-- A move of two terminals, one of which is killed; the target refuses it, and goes away before it is handed back. -/
def refusedMove : List Event :=
  [.mint "t1" "main", .mint "t2" "main", .beginArrival ⟨"tools", "main", "ws-2", ["t1", "t2"], 7⟩] ++
    .forgetPty "t2" :: [.marked "t1" 42 8, .adoptFailed "tools" "ws-2", .dropWindow "ws-2", .settle 0 true 9]

theorem refusedMove_promised : Steps.Along step Promised {} refusedMove :=
  ⟨rfl, rfl, ⟨by decide, by simp [step, RoutingState.step, Queue.step, forEach, Slot.mint, Queue.claim, Function.update]⟩,
    trivial, trivial, trivial, trivial, trivial, trivial⟩

def Slot.Gone (s : Slot) : Prop := s.owner = none ∧ s.transferring = false

attribute [local grind] Slot.Gone

theorem forEach_keeps {P : Slot → Prop} {f : Slot → Slot} (hf : ∀ s, P s → P (f s)) : ∀ (ids : List PtyId)
    {r : RoutingState}, P (r id) → P (forEach ids f r id)
  | [], _, h => h
  | i :: ids, r, h => forEach_keeps hf ids <| by
    by_cases hid : id = i
    · subst hid
      simpa using hf _ h
    · simpa [hid] using h

theorem gone_step {e : Event} (hp : Promised h e) (hmint : ∀ l, e ≠ .mint id l) (hg : (h.routing id).Gone) :
    ((step h e).routing id).Gone := by
  simp only [step]
  cases e with
  | mint i label =>
    have hne : id ≠ i := fun heq => hmint label (heq ▸ rfl)
    rwa [RoutingState.step, forEach_apply (List.nodup_singleton i), if_neg (by simpa using hne)]
  | forgetPty i => exact forEach_keeps (P := Slot.Gone) (f := fun _ => {}) (fun _ _ => ⟨rfl, rfl⟩) [i] hg
  | exited i => exact forEach_keeps (P := Slot.Gone) (f := Slot.release) (fun _ hs => hs) [i] hg
  | marked i mark now =>
    exact forEach_keeps (P := Slot.Gone) (f := (·.markTransfer mark now)) (fun s hs => by grind [Slot.markTransfer]) [i] hg
  | replayed i => exact forEach_keeps (P := Slot.Gone) (f := Slot.release) (fun _ hs => hs) [i] hg
  | sweep now max =>
    simp only [RoutingState.step]
    split <;> exact hg
  | beginArrival a =>
    have hnot : id ∉ a.terminalIds := fun hid => by
      have := (hp.2 id hid).1
      rw [hg.1] at this
      cases this
    simp only [RoutingState.step]
    split
    · exact hg
    · rwa [forEach_apply hp.1, if_neg hnot]
  | adoptDone ws label => exact hg
  | adoptFailed ws label => exact hg
  | expire ws to_ at_ => exact hg
  | dropWindow label =>
    simp only [RoutingState.step]
    split
    · exact ⟨rfl, hg.2⟩
    · split
      · exact ⟨rfl, hg.2⟩
      · exact hg
  | settle position o t =>
    rcases hx : h.queue[position]? with _ | ⟨a, _ | _ | _⟩ <;> simp only [RoutingState.step, hx]
    · exact hg
    · exact hg
    · exact forEach_keeps (P := Slot.Gone) (f := Slot.clearSuppression) (fun _ hs => ⟨hs.1, rfl⟩) _ hg
    · cases o
      · exact forEach_keeps (P := Slot.Gone) (f := fun _ => {}) (fun _ _ => ⟨rfl, rfl⟩) _ hg
      · exact forEach_keeps (P := Slot.Gone) (f := (·.handBack a.from_ t)) (fun s hs => by grind [Slot.handBack]) _ hg

theorem gone_run (id : PtyId) : ∀ (es : List Event) {h : Host}, Steps.Along step Promised h es → (∀ l, .mint id l ∉ es) →
    (h.routing id).Gone → ((Steps.run step h es).routing id).Gone
  | [], _, _, _, hg => hg
  | _ :: es, _, ⟨hp, hes⟩, hmint, hg =>
    gone_run id es hes (fun l hl => hmint l (List.mem_cons_of_mem _ hl))
      (gone_step hp (fun l hl => hmint l (hl ▸ List.mem_cons_self)) hg)

end Transfer
end Dormouse

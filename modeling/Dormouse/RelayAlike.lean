import Dormouse.RelayHubRun
import Dormouse.RelayRoomRun
/-!
# RelayAlike — the two relays route alike

The self-hosted relay keeps maps and tells conns apart by identity; the hosted one keeps sockets with attachments.  `Alike`
relates them: the same Clients in the same order with the same bindings (`view`), the same socket for each Burrow, and the
same kind of handlers for each socket.  One event keeps the relation and sends the same frames, so every run does.

`SelfHosted` is the hub behind the socket routes of `relay/src/app.ts`, whose handlers hold the conn a socket was given.
-/
namespace Dormouse
namespace Relay

/-- The conn a socket's handlers hold: a Burrow's names its `burrowId`, a Client's is named by the socket. -/
inductive Handlers where
  | burrow (burrowId : JsString)
  | client
  deriving DecidableEq

structure SelfHosted where
  hub   : RelayHub
  conns : OrdMap Ref Handlers

/-- What happens to either relay.  Only one of the two reads each of `first` and `sessionExpiresAt`, and the rows and the
clock. -/
inductive Event where
  | openBurrow (burrowId : JsString) (first : Option RelayPolicyFrame) (account : JsString)
      (row : Option (Option (JsString × Bool))) (checkedAt now : Int)
  | openClient (sessionExpiresAt : Int) (account session : JsString) (expiresAt : Int)
      (row : Option (Option (JsString × Bool))) (checkedAt now : Int)
  | frame (socket : Ref) (raw : JsString) (now : Int)
  | closed (socket : Ref) (code : Nat)

namespace SelfHosted

def create : SelfHosted := ⟨.create, .empty⟩

def step (D : ClientIds) (parse : JsString → Option Json) (s : SelfHosted) : Event → SelfHosted × List Out
  | .openBurrow burrowId first _ _ _ _ =>
    let r := s.hub.registerBurrow burrowId first
    (⟨r.1, s.conns.set s.hub.nextRef (.burrow burrowId)⟩, r.2)
  | .openClient sessionExpiresAt _ _ _ _ _ _ =>
    let r := RelayHub.registerClient D s.hub sessionExpiresAt
    (⟨r.1, if s.hub.clients.size ≥ maxRelayClientSockets then s.conns else s.conns.set s.hub.nextRef .client⟩, r.2)
  | .frame socket raw _ =>
    match s.conns.get socket with
    | none                   => (s, [])
    | some (.burrow burrowId) => (s, RelayHub.onBurrowFrame parse s.hub ⟨burrowId, socket⟩ raw)
    | some .client           =>
      let r := RelayHub.onClientFrame parse s.hub ⟨D.newClientId socket, socket⟩ raw
      (⟨r.1, s.conns⟩, r.2)
  | .closed socket _ =>
    match s.conns.get socket with
    | none                   => (s, [])
    | some (.burrow burrowId) =>
      let r := s.hub.unregisterBurrow ⟨burrowId, socket⟩
      (⟨r.1, s.conns⟩, r.2)
    | some .client           =>
      let r := s.hub.unregisterClient ⟨D.newClientId socket, socket⟩
      (⟨r.1, s.conns⟩, r.2)

end SelfHosted

/-- The event as the hosted relay sees it, a close event delivered as its socket leaves `OPEN`. -/
def Event.hosted : Event → RelayRoom.Input
  | .openBurrow burrowId _ account row checkedAt now => .openBurrow account burrowId row checkedAt now
  | .openClient _ account session expiresAt row checkedAt now => .openClient account session expiresAt row checkedAt now
  | .frame socket raw now => .message socket (.text raw) now
  | .closed socket code => .closed socket code

def frames (outs : List Out) : List Out :=
  outs.filter (fun o =>
    match o with
    | .toBurrow _ (.policy _) => false
    | .toBurrow _ _           => true
    | .toClient _ _           => true
    | _                       => false)

/-- **The events under which the two are compared**: an open whose row checks pass, below the Client cap; a text frame within
the size, no ping, that names no Burrow gone silent. -/
def Within (parse : JsString → Option Json) (r : RelayRoom) : Event → Prop
  | .openBurrow _ _ account row _ _ => RelayRoom.admitted account row = true
  | .openClient _ account session expiresAt row checkedAt _ => session ≠ [] ∧ expiresAt > checkedAt ∧
      RelayRoom.admitted account row = true ∧ (r.held Role.isClient).length < maxRelayClientSockets
  | .frame _ raw now => raw ≠ relayPing ∧ exceedsRelayFrameBytes raw = false ∧
      ∀ frame e, readClientFrame parse raw = .ok frame → r.burrow frame.burrowId = some e → RelayRoom.silent e.2 now = false
  | .closed _ _ => True

/-! ## What either relay knows of its Clients -/

/-- The Clients the hub knows, in the order they came, each with the Burrow it is bound to. -/
def RelayHub.view (s : RelayHub) : List (Ref × Option JsString) := s.clients.entries.map (fun p => (p.2.ref, p.2.burrowId))

def RelayRoom.glimpse (e : Ref × Socket) : Option (Ref × Option JsString) :=
  if e.2.registered && e.2.conn.role.isClient then some (e.1, e.2.conn.role.bound) else none

def RelayRoom.view (r : RelayRoom) : List (Ref × Option JsString) := r.sockets.entries.filterMap glimpse

def RelayRoom.Speaks (r : RelayRoom) (b : JsString) (σ : Ref) : Prop :=
  ∃ w, r.sockets.get σ = some w ∧ w.registered = true ∧ w.conn.role = .burrow b

def handlersOf : Role → Handlers
  | .burrow b       => .burrow b
  | .client _ _ _ _ => .client

structure Alike (D : ClientIds) (s : SelfHosted) (r : RelayRoom) : Prop where
  wellFormed : RelayHub.WellFormed D s.hub
  next       : r.nextRef = s.hub.nextRef
  view       : r.view = s.hub.view
  burrows    : ∀ b σ, s.hub.burrows.get b = some σ ↔ r.Speaks b σ
  conns      : ∀ ref, s.conns.get ref = (r.sockets.get ref).map (fun w => handlersOf w.conn.role)
  /-- A socket that has left `OPEN` is torn down. -/
  settled    : ∀ ref w, r.sockets.get ref = some w → w.conn.retired = false → w.isOpen = true
  named      : ∀ ref w id session expiresAt b, r.sockets.get ref = some w → w.conn.role = .client id session expiresAt b →
    id = D.newClientId ref
  below      : ∀ ref w, r.sockets.get ref = some w → ref < r.nextRef

namespace Role

theorem isClient_of_bound {r : Role} {b : JsString} (h : r.bound = some b) : r.isClient = true := by
  cases r with
  | burrow _ => cases h
  | client _ _ _ _ => rfl

@[simp] theorem isClient_bind (r : Role) (o : Option JsString) : (r.bind o).isClient = r.isClient := by
  cases r with
  | burrow _       => rfl
  | client _ _ _ _ => rfl

@[simp] theorem bound_bind_none (r : Role) : (r.bind none).bound = none := by
  cases r with
  | burrow _       => rfl
  | client _ _ _ _ => rfl

@[simp] theorem bind_bound (r : Role) : r.bind r.bound = r := by
  cases r with
  | burrow _       => rfl
  | client _ _ _ _ => rfl

end Role

namespace RelayRoom

theorem glimpse_eq_some {e : Ref × Socket} {x : Ref × Option JsString} :
    glimpse e = some x ↔ e.2.registered = true ∧ e.2.conn.role.isClient = true ∧ x = (e.1, e.2.conn.role.bound) := by
  unfold glimpse
  by_cases h : (e.2.registered && e.2.conn.role.isClient) = true
  · rw [if_pos h]
    rw [Bool.and_eq_true] at h
    simp [h, eq_comm]
  · rw [if_neg h]
    rw [Bool.and_eq_true] at h
    simp only [reduceCtorEq, false_iff]
    exact fun hx => h ⟨hx.1, hx.2.1⟩

theorem glimpse_of_client {e : Ref × Socket} (hreg : e.2.registered = true) (hclient : e.2.conn.role.isClient = true) :
    glimpse e = some (e.1, e.2.conn.role.bound) :=
  glimpse_eq_some.2 ⟨hreg, hclient, rfl⟩

theorem mem_view {r : RelayRoom} {x : Ref × Option JsString} : x ∈ r.view ↔ ∃ w, r.sockets.get x.1 = some w ∧
    w.registered = true ∧ w.conn.role.isClient = true ∧ x.2 = w.conn.role.bound := by
  unfold view
  rw [List.mem_filterMap]
  constructor
  · rintro ⟨e, he, hx⟩
    obtain ⟨hreg, hclient, rfl⟩ := glimpse_eq_some.1 hx
    exact ⟨e.2, OrdMap.mem_entries.1 he, hreg, hclient, rfl⟩
  · rintro ⟨w, hw, hreg, hclient, hx⟩
    exact ⟨(x.1, w), OrdMap.mem_entries.2 hw, glimpse_eq_some.2 ⟨hreg, hclient, Prod.ext rfl hx⟩⟩

theorem held_isClient (r : RelayRoom) : (r.held Role.isClient).map (fun e => (e.1, e.2.conn.role.bound)) = r.view := by
  unfold held view
  induction r.sockets.entries with
  | nil => rfl
  | cons e l ih =>
    rw [List.filterMap_cons, List.filter_cons]
    by_cases h : (e.2.registered && e.2.conn.role.isClient) = true
    · rw [if_pos h, show glimpse e = some (e.1, e.2.conn.role.bound) from if_pos h, List.map_cons, ih]
    · rw [if_neg h, show glimpse e = none from if_neg h, ih]

theorem held_bound (r : RelayRoom) (b : JsString) :
    (r.held (fun role => role.bound = some b)).map (fun e => Out.toClient e.1 .burrowGone) =
      (r.view.filter (fun x => x.2 = some b)).map (fun x => .toClient x.1 .burrowGone) := by
  unfold held view
  induction r.sockets.entries with
  | nil => rfl
  | cons e l ih =>
    rw [List.filterMap_cons, List.filter_cons]
    by_cases hreg : e.2.registered = true
    · by_cases hb : e.2.conn.role.bound = some b
      · simp [glimpse, hreg, hb, Role.isClient_of_bound hb, ih]
      · by_cases hc : e.2.conn.role.isClient = true
        · simp [glimpse, hreg, hb, hc, ih]
        · simp [glimpse, hreg, hb, hc, ih]
    · simp [glimpse, hreg, ih]

theorem modify_entries (r : RelayRoom) (ref : Ref) (f : Socket → Socket) :
    (r.modify ref f).sockets.entries = r.sockets.entries.map (fun e => if e.1 = ref then (e.1, f e.2) else e) := by
  unfold modify
  cases hw : r.sockets.get ref with
  | none =>
    refine (List.map_id' _).symm.trans (List.map_congr_left (fun e he => ?_))
    rw [if_neg]
    intro heq
    have hget := OrdMap.mem_entries.1 he
    rw [heq, hw] at hget
    cases hget
  | some w =>
    have hmem : ref ∈ r.sockets.keys := OrdMap.mem_keys.2 ⟨w, hw⟩
    show (r.sockets.set ref (f w)).entries = _
    rw [OrdMap.set_entries_of_mem _ _ hmem]
    refine List.map_congr_left (fun e he => ?_)
    by_cases heq : e.1 = ref
    · have hget := OrdMap.mem_entries.1 he
      rw [heq, hw] at hget
      rw [if_pos heq, if_pos heq, Option.some.inj hget, heq]
    · rw [if_neg heq, if_neg heq]

theorem modify_modify (r : RelayRoom) (ref : Ref) (f g : Socket → Socket) :
    (r.modify ref f).modify ref g = r.modify ref (fun w => g (f w)) := by
  have hentries : ((r.modify ref f).modify ref g).sockets.entries = (r.modify ref (fun w => g (f w))).sockets.entries := by
    rw [modify_entries, modify_entries, modify_entries, List.map_map]
    refine List.map_congr_left (fun e _ => ?_)
    by_cases heq : e.1 = ref
    · simp [heq]
    · simp [heq]
  have hnext : ((r.modify ref f).modify ref g).nextRef = (r.modify ref (fun w => g (f w))).nextRef := by
    rw [nextRef_modify, nextRef_modify, nextRef_modify]
  generalize (r.modify ref f).modify ref g = r₁ at hentries hnext
  generalize r.modify ref (fun w => g (f w)) = r₂ at hentries hnext
  obtain ⟨⟨l₁, _⟩, n₁⟩ := r₁
  obtain ⟨⟨l₂, _⟩, n₂⟩ := r₂
  obtain rfl : l₁ = l₂ := hentries
  obtain rfl : n₁ = n₂ := hnext
  rfl

theorem view_modify (r : RelayRoom) (ref : Ref) (f : Socket → Socket) : (r.modify ref f).view =
    r.sockets.entries.filterMap (fun e => glimpse (if e.1 = ref then (e.1, f e.2) else e)) := by
  unfold view
  rw [modify_entries, List.filterMap_map]
  rfl

theorem view_modify_gone (r : RelayRoom) (ref : Ref) {f : Socket → Socket} (h : ∀ w, (f w).registered = false) :
    (r.modify ref f).view = r.view.filter (fun x => x.1 ≠ ref) := by
  rw [view_modify, view, List.filter_filterMap]
  refine List.filterMap_congr (fun e _ => ?_)
  by_cases heq : e.1 = ref
  · simp only [heq, if_true, glimpse, h, Bool.false_and, Bool.false_eq_true, if_false]
    split
    · simp [Option.filter]
    · rfl
  · simp only [heq, if_false, glimpse]
    split
    · simp [Option.filter, heq]
    · rfl

theorem view_modify_same (r : RelayRoom) (ref : Ref) {f : Socket → Socket}
    (h : ∀ w, r.sockets.get ref = some w → glimpse (ref, f w) = glimpse (ref, w)) : (r.modify ref f).view = r.view := by
  rw [view_modify, view]
  refine List.filterMap_congr (fun e he => ?_)
  by_cases heq : e.1 = ref
  · have hget := OrdMap.mem_entries.1 he
    rw [if_pos heq, heq]
    rw [heq] at hget
    exact (h e.2 hget).trans (by rw [← heq])
  · rw [if_neg heq]

theorem view_bind (r : RelayRoom) (ref : Ref) (b : JsString) : (r.modify ref (·.withRole (Role.bind (some b)))).view =
    r.view.map (fun x => if x.1 = ref then (x.1, some b) else x) := by
  rw [view_modify, view, List.map_filterMap]
  refine List.filterMap_congr (fun e _ => ?_)
  by_cases heq : e.1 = ref
  · rw [if_pos heq]
    unfold glimpse
    show (if (e.2.registered && (Role.bind (some b) e.2.conn.role).isClient) = true then
        some (e.1, (Role.bind (some b) e.2.conn.role).bound) else none) = _
    rw [Role.isClient_bind]
    split
    · rename_i hboth
      rw [Bool.and_eq_true] at hboth
      cases hr : e.2.conn.role with
      | burrow _ => rw [hr] at hboth; cases hboth.2
      | client _ _ _ _ => simp [heq, Role.bind, Role.bound]
    · rfl
  · rw [if_neg heq]
    unfold glimpse
    split
    · simp [heq]
    · rfl

theorem view_dropped (r : RelayRoom) (b : JsString) : (r.dropClientsOf b).1.view =
    r.view.map (fun x => if x.2 = some b then (x.1, none) else x) := by
  unfold view dropClientsOf OrdMap.mapValues
  dsimp only
  rw [List.filterMap_map, List.map_filterMap]
  refine List.filterMap_congr (fun e _ => ?_)
  simp only [Function.comp_apply]
  by_cases hreg : e.2.registered = true
  · by_cases hb : e.2.conn.role.bound = some b
    · have hboth : (e.2.registered && decide (e.2.conn.role.bound = some b)) = true := by simp [hreg, hb]
      have hclient := Role.isClient_of_bound hb
      have hreg' : (e.2.withRole (Role.bind none)).registered = true := hreg
      have hclient' : (e.2.withRole (Role.bind none)).conn.role.isClient = true := (Role.isClient_bind _ _).trans hclient
      rw [if_pos hboth, glimpse_of_client hreg hclient, glimpse_of_client (e := (e.1, e.2.withRole (Role.bind none)))
        hreg' hclient']
      simp [hb, Socket.withRole]
    · simp only [hreg, hb, decide_false, Bool.and_false, Bool.false_eq_true, if_false, glimpse]
      split
      · simp [hb]
      · rfl
  · simp [glimpse, hreg]

theorem accept_entries {r : RelayRoom} (hfresh : r.sockets.get r.nextRef = none) (role : Role) (openedAt checkedAt : Int) :
    (r.accept role openedAt checkedAt).sockets.entries =
      r.sockets.entries ++ [(r.nextRef, ⟨⟨role, openedAt, checkedAt, false⟩, true, none⟩)] := by
  refine OrdMap.set_entries_of_not_mem _ _ (fun hmem => ?_)
  obtain ⟨w, hw⟩ := OrdMap.mem_keys.1 hmem
  rw [hfresh] at hw
  cases hw

theorem view_accept {r : RelayRoom} (hfresh : r.sockets.get r.nextRef = none) (role : Role) (openedAt checkedAt : Int) :
    (r.accept role openedAt checkedAt).view =
      r.view ++ (if role.isClient then [(r.nextRef, role.bound)] else []) := by
  unfold view
  rw [accept_entries hfresh, List.filterMap_append]
  congr 1
  cases role with
  | burrow _ => rfl
  | client _ _ _ _ => rfl

end RelayRoom

namespace RelayHub

theorem view_dropped (s : RelayHub) (b : JsString) :
    (s.dropClientsOf b).1.view = s.view.map (fun x => if x.2 = some b then (x.1, none) else x) := by
  unfold view dropClientsOf OrdMap.mapValues
  dsimp only
  rw [List.map_map, List.map_map]
  refine List.map_congr_left (fun p _ => ?_)
  by_cases hb : p.2.burrowId = some b
  · simp [hb]
  · simp [hb]

theorem outs_dropped (s : RelayHub) (b : JsString) : (s.dropClientsOf b).2 =
    (s.view.filter (fun x => x.2 = some b)).map (fun x => .toClient x.1 .burrowGone) := by
  unfold view dropClientsOf OrdMap.values
  dsimp only
  rw [List.filter_map, List.filter_map, List.map_map, List.map_map]
  rfl

variable {D : ClientIds} {s : RelayHub}

theorem WellFormed.key_iff (h : WellFormed D s) {p : JsString × ClientEntry} (hp : p ∈ s.clients.entries) (ref : Ref) :
    p.1 = D.newClientId ref ↔ p.2.ref = ref := by
  have hname := h.named p.1 p.2 (OrdMap.mem_entries.1 hp)
  constructor
  · intro heq
    exact D.fresh (hname.symm.trans heq)
  · intro heq
    rw [hname, heq]

theorem view_delete (h : WellFormed D s) (ref : Ref) :
    ({ s with clients := s.clients.delete (D.newClientId ref) } : RelayHub).view = s.view.filter (fun x => x.1 ≠ ref) := by
  unfold view OrdMap.delete
  dsimp only
  rw [List.filter_map]
  refine congrArg (List.map _) (List.filter_congr (fun p hp => ?_))
  simp [h.key_iff hp ref]

theorem view_set (h : WellFormed D s) {ref : Ref} {e : ClientEntry} (he : s.clients.get (D.newClientId ref) = some e)
    (b : JsString) :
    ({ s with clients := s.clients.set (D.newClientId ref) { e with burrowId := some b } } : RelayHub).view =
      s.view.map (fun x => if x.1 = ref then (x.1, some b) else x) := by
  unfold view
  dsimp only
  rw [OrdMap.set_entries_of_mem _ _ (OrdMap.mem_keys.2 ⟨e, he⟩), List.map_map, List.map_map]
  refine List.map_congr_left (fun p hp => ?_)
  have hkey := h.key_iff hp ref
  by_cases heq : p.2.ref = ref
  · have hget := OrdMap.mem_entries.1 hp
    rw [hkey.2 heq, he] at hget
    simp [hkey.2 heq, heq, (Option.some.inj hget : e = p.2)]
  · have hne : p.1 ≠ D.newClientId ref := fun hk => heq (hkey.1 hk)
    simp [hne, heq]

theorem view_new (h : WellFormed D s) (expiresAt : Int) :
    ({ s with
      clients := s.clients.set (D.newClientId s.nextRef) ⟨s.nextRef, expiresAt, none⟩
      nextRef := s.nextRef + 1 } : RelayHub).view = s.view ++ [(s.nextRef, none)] := by
  unfold view
  dsimp only
  rw [OrdMap.set_entries_of_not_mem, List.map_append]
  · rfl
  · intro hmem
    obtain ⟨e, he⟩ := OrdMap.mem_keys.1 hmem
    have hbelow := h.clientsBelow _ e he
    rw [← D.fresh (h.named _ e he)] at hbelow
    exact Nat.lt_irrefl _ hbelow

theorem entryOf_of_mem_view (h : WellFormed D s) {ref : Ref} {b : Option JsString} (hmem : (ref, b) ∈ s.view) :
    ∃ e, s.entryOf (conn D ref) = some e ∧ e.burrowId = b := by
  obtain ⟨p, hp, heq⟩ := List.mem_map.1 hmem
  obtain ⟨href, hb⟩ := Prod.mk.inj heq
  have hget := OrdMap.mem_entries.1 hp
  rw [(h.key_iff hp ref).2 href] at hget
  exact ⟨p.2, entryOf_eq_some.2 ⟨hget, href⟩, hb⟩

theorem mem_view_of_entryOf {ref : Ref} {e : ClientEntry} (he : s.entryOf (conn D ref) = some e) :
    (ref, e.burrowId) ∈ s.view := by
  obtain ⟨hget, href⟩ := entryOf_eq_some.1 he
  exact List.mem_map.2 ⟨(D.newClientId ref, e), OrdMap.mem_entries.2 hget, Prod.ext href rfl⟩

end RelayHub

/-! ## What the relation says -/

namespace Alike

variable {D : ClientIds} {s : SelfHosted} {r : RelayRoom}

theorem fresh (h : Alike D s r) : r.sockets.get r.nextRef = none := by
  cases hw : r.sockets.get r.nextRef with
  | none => rfl
  | some w => exact absurd (h.below _ w hw) (Nat.lt_irrefl _)

theorem burrow (h : Alike D s r) (b : JsString) : s.hub.burrows.get b = (r.burrow b).map Prod.fst := by
  cases hb : r.burrow b with
  | some e =>
    obtain ⟨hget, hreg, hrole⟩ := RelayRoom.burrow_some hb
    exact (h.burrows b e.1).2 ⟨e.2, hget, hreg, hrole⟩
  | none =>
    cases hσ : s.hub.burrows.get b with
    | none => rfl
    | some σ =>
      obtain ⟨w, hget, hreg, hrole⟩ := (h.burrows b σ).1 hσ
      have hmem : (σ, w) ∈ r.held (Role.names b) :=
        RelayRoom.mem_held.2 ⟨hget, hreg, by rw [hrole]; exact decide_eq_true rfl⟩
      rw [List.head?_eq_none_iff.1 hb] at hmem
      exact absurd hmem List.not_mem_nil

theorem tellGone (h : Alike D s r) (id : JsString) (b : Option JsString) : r.tellGone id b = s.hub.tellGone id b := by
  unfold RelayRoom.tellGone RelayHub.tellGone
  cases b with
  | none => rfl
  | some b =>
    rw [Option.bind_some, Option.bind_some, h.burrow b]
    cases r.burrow b with
    | none => rfl
    | some e => rfl

variable {ref : Ref}

theorem entry_of_client (h : Alike D s r) {w : Socket} (hw : r.sockets.get ref = some w) (hreg : w.registered = true)
    (hclient : w.conn.role.isClient = true) :
    ∃ e, s.hub.entryOf (RelayHub.conn D ref) = some e ∧ e.burrowId = w.conn.role.bound := by
  refine RelayHub.entryOf_of_mem_view h.wellFormed ?_
  rw [← h.view]
  exact RelayRoom.mem_view.2 ⟨w, hw, hreg, hclient, rfl⟩

theorem client_of_entry (h : Alike D s r) {e : ClientEntry} (he : s.hub.entryOf (RelayHub.conn D ref) = some e) :
    ∃ w, r.sockets.get ref = some w ∧ w.registered = true ∧ w.conn.role.isClient = true ∧ e.burrowId = w.conn.role.bound := by
  have hmem := RelayHub.mem_view_of_entryOf he
  rw [← h.view] at hmem
  exact RelayRoom.mem_view.1 hmem

theorem entryOf_none (h : Alike D s r) {w : Socket} (hw : r.sockets.get ref = some w) (hreg : w.registered = false) :
    s.hub.entryOf (RelayHub.conn D ref) = none := by
  cases he : s.hub.entryOf (RelayHub.conn D ref) with
  | none => rfl
  | some e =>
    obtain ⟨w', hw', hreg', -⟩ := h.client_of_entry he
    rw [hw] at hw'
    rw [Option.some.inj hw', hreg'] at hreg
    cases hreg

theorem isCurrent_iff (h : Alike D s r) {w : Socket} {b : JsString} (hw : r.sockets.get ref = some w)
    (hrole : w.conn.role = .burrow b) : s.hub.isCurrent ⟨b, ref⟩ = w.registered := by
  rw [Bool.eq_iff_iff]
  refine decide_eq_true_iff.trans ((h.burrows b ref).trans ?_)
  constructor
  · rintro ⟨w', hw', hreg, -⟩
    rw [hw] at hw'
    rw [Option.some.inj hw']
    exact hreg
  · exact fun hreg => ⟨w, hw, hreg, hrole⟩

theorem client (h : Alike D s r) (id : JsString) :
    (r.client id).map (fun e => (e.1, e.2.conn.role.bound)) = (s.hub.clients.get id).map (fun c => (c.ref, c.burrowId)) := by
  cases hc : s.hub.clients.get id with
  | none =>
    cases he : r.client id with
    | none => rfl
    | some e =>
      obtain ⟨hget, hreg, hid⟩ := RelayRoom.mem_held.1 (List.mem_of_head? he)
      cases hrole : e.2.conn.role with
      | burrow b => rw [hrole] at hid; cases hid
      | client id' session expiresAt b =>
        rw [hrole] at hid
        obtain ⟨c, hc', -⟩ := h.entry_of_client hget hreg (by rw [hrole]; rfl)
        have hget' := (RelayHub.entryOf_eq_some.1 hc').1
        rw [show (RelayHub.conn D e.1).clientId = id' from (h.named _ _ _ _ _ _ hget hrole).symm,
          of_decide_eq_true hid, hc] at hget'
        cases hget'
  | some c =>
    have hname := h.wellFormed.named id c hc
    have hentry : s.hub.entryOf (RelayHub.conn D c.ref) = some c :=
      RelayHub.entryOf_eq_some.2 ⟨by rw [show (RelayHub.conn D c.ref).clientId = id from hname.symm, hc], rfl⟩
    obtain ⟨w, hw, hreg, hclient, hb⟩ := h.client_of_entry hentry
    cases hrole : w.conn.role with
    | burrow b => rw [hrole] at hclient; cases hclient
    | client id' session expiresAt b =>
      have hid' := h.named _ _ _ _ _ _ hw hrole
      have hmem : (c.ref, w) ∈ r.held (Role.hasId id) :=
        RelayRoom.mem_held.2 ⟨hw, hreg, by rw [hrole]; exact decide_eq_true (hid'.trans hname.symm)⟩
      cases he : r.client id with
      | none =>
        rw [List.head?_eq_none_iff.1 he] at hmem
        exact absurd hmem List.not_mem_nil
      | some e =>
        obtain ⟨hget, -, hid⟩ := RelayRoom.mem_held.1 (List.mem_of_head? he)
        cases hrole' : e.2.conn.role with
        | burrow b => rw [hrole'] at hid; cases hid
        | client id'' session' expiresAt' b' =>
          rw [hrole'] at hid
          have hid'' := h.named _ _ _ _ _ _ hget hrole'
          have href : e.1 = c.ref := D.fresh (hid''.symm.trans ((of_decide_eq_true hid : id'' = id).trans hname))
          rw [href, hw] at hget
          rw [Option.map_some, Option.map_some, href, ← Option.some.inj hget, hb]

end Alike


/-! ## A Burrow's socket goes -/

def unbound (b : JsString) (w : Socket) : Socket :=
  if w.registered && w.conn.role.bound = some b then w.withRole (Role.bind none) else w

theorem unbound_cases (b : JsString) (w : Socket) : unbound b w = w ∨ unbound b w = w.withRole (Role.bind none) := by
  unfold unbound
  split
  · exact .inr rfl
  · exact .inl rfl

@[simp] theorem registered_unbound (b : JsString) (w : Socket) : (unbound b w).registered = w.registered := by
  rcases unbound_cases b w with heq | heq
  · rw [heq]
  · rw [heq]
    rfl

@[simp] theorem retired_unbound (b : JsString) (w : Socket) : (unbound b w).conn.retired = w.conn.retired := by
  rcases unbound_cases b w with heq | heq
  · rw [heq]
  · rw [heq]
    rfl

@[simp] theorem isOpen_unbound (b : JsString) (w : Socket) : (unbound b w).isOpen = w.isOpen := by
  rcases unbound_cases b w with heq | heq
  · rw [heq]
  · rw [heq]
    rfl

theorem role_unbound (b : JsString) (w : Socket) :
    (unbound b w).conn.role = w.conn.role ∨ (unbound b w).conn.role = w.conn.role.bind none := by
  rcases unbound_cases b w with heq | heq
  · exact .inl (congrArg (·.conn.role) heq)
  · exact .inr (congrArg (·.conn.role) heq)

theorem burrow_unbound {b b' : JsString} {w : Socket} : (unbound b w).conn.role = .burrow b' ↔ w.conn.role = .burrow b' := by
  constructor
  · intro h
    rcases role_unbound b w with heq | heq
    · exact heq.symm.trans h
    · exact Role.eq_burrow_of_bind (heq.symm.trans h)
  · intro h
    rcases role_unbound b w with heq | heq
    · exact heq.trans h
    · rw [heq, h]
      rfl

theorem handlersOf_bind (role : Role) (o : Option JsString) : handlersOf (role.bind o) = handlersOf role := by
  cases role with
  | burrow _ => rfl
  | client _ _ _ _ => rfl

theorem handlersOf_unbound (b : JsString) (w : Socket) : handlersOf (unbound b w).conn.role = handlersOf w.conn.role := by
  rcases role_unbound b w with heq | heq
  · rw [heq]
  · rw [heq, handlersOf_bind]

theorem client_of_bind {role : Role} {o b : Option JsString} {id session : JsString} {expiresAt : Int}
    (h : role.bind o = .client id session expiresAt b) : ∃ b', role = .client id session expiresAt b' := by
  cases role with
  | burrow _ => cases h
  | client id' session' expiresAt' b' =>
    obtain ⟨rfl, rfl, rfl, -⟩ := Role.client.inj h
    exact ⟨b', rfl⟩

structure Torn (b : JsString) (σ : Ref) (r r' : RelayRoom) : Prop where
  next  : r'.nextRef = r.nextRef
  view  : r'.view = r.view.map (fun x => if x.2 = some b then (x.1, none) else x)
  self  : ∃ w', r'.sockets.get σ = some w' ∧ w'.conn.role = .burrow b ∧ w'.conn.retired = true
  other : ∀ ref, ref ≠ σ → r'.sockets.get ref = (r.sockets.get ref).map (unbound b)

namespace RelayRoom

variable {r : RelayRoom} {σ : Ref} {w : Socket} {b : JsString}

theorem view_modify_burrow (hw : r.sockets.get σ = some w) (hrole : w.conn.role = .burrow b) {f : Socket → Socket}
    (hf : ∀ w, (f w).conn.role = w.conn.role) :
    (r.modify σ f).view = r.view := by
  refine view_modify_same r σ (fun w' hw' => ?_)
  rw [hw] at hw'
  obtain rfl := Option.some.inj hw'
  simp [glimpse, hf, hrole, Role.isClient]

theorem unregister_burrow (hw : r.sockets.get σ = some w) (hrole : w.conn.role = .burrow b) : Torn b σ r (r.unregister σ).1 ∧
      (r.unregister σ).2 = (r.view.filter (fun x => x.2 = some b)).map (fun x => .toClient x.1 .burrowGone) := by
  have hview := view_modify_burrow hw hrole (f := fun w => { w with conn := { w.conn with retired := true } }) (fun _ => rfl)
  unfold unregister
  rw [hw]
  simp only [hrole]
  refine ⟨⟨nextRef_modify _ _ _, ?_, ?_, fun ref hne => ?_⟩, ?_⟩
  · rw [view_dropped, hview]
  · refine ⟨_, by rw [get_dropped, get_modify, if_pos rfl, hw]; rfl, ?_, ?_⟩
    · exact burrow_unbound.2 hrole
    · exact retired_unbound b { w with conn := { w.conn with retired := true } }
  · rw [get_dropped, get_modify, if_neg hne]
    rfl
  · rw [← hview]
    exact held_bound _ b

theorem torn_leave {r r' : RelayRoom} (h : Torn b σ r r') :
    Torn b σ r (r'.modify σ ({ · with isOpen := false })) := by
  obtain ⟨w', hw', hrole, hret⟩ := h.self
  refine ⟨(nextRef_modify _ _ _).trans h.next, ?_, ?_, fun ref hne => ?_⟩
  · rw [view_modify_burrow hw' hrole (f := ({ · with isOpen := false })) (fun _ => rfl), h.view]
  · exact ⟨{ w' with isOpen := false }, by rw [get_modify, if_pos rfl, hw']; rfl, hrole, hret⟩
  · rw [get_modify, if_neg hne, h.other ref hne]

theorem retire_burrow (hw : r.sockets.get σ = some w) (hrole : w.conn.role = .burrow b) (code : Nat) (reason : JsString) :
    Torn b σ r (r.retire σ code reason).1 ∧
      frames (r.retire σ code reason).2 =
        frames ((r.view.filter (fun x => x.2 = some b)).map (fun x => .toClient x.1 .burrowGone)) := by
  obtain ⟨htorn, houts⟩ := unregister_burrow hw hrole
  refine ⟨torn_leave htorn, ?_⟩
  show frames ((r.unregister σ).2 ++ [.close σ code reason]) = _
  rw [houts, frames, List.filter_append]
  exact List.append_nil _

theorem close_burrow (hw : r.sockets.get σ = some w) (hrole : w.conn.role = .burrow b) (hret : w.conn.retired = false)
    (code : Nat) : Torn b σ r (r.webSocketClose σ code).1 ∧
      frames (r.webSocketClose σ code).2 =
        frames ((r.view.filter (fun x => x.2 = some b)).map (fun x => .toClient x.1 .burrowGone)) := by
  have hview := view_modify_burrow hw hrole (f := ({ · with isOpen := false })) (fun _ => rfl)
  have hw' : (r.modify σ ({ · with isOpen := false })).sockets.get σ = some { w with isOpen := false } := by
    rw [get_modify, if_pos rfl, hw]
    rfl
  obtain ⟨htorn, houts⟩ := unregister_burrow hw' hrole
  unfold webSocketClose
  rw [hw]
  simp only [hret, Bool.false_eq_true, if_false]
  refine ⟨⟨htorn.next.trans (nextRef_modify _ _ _), ?_, htorn.self, fun ref hne => ?_⟩, ?_⟩
  · rw [htorn.view, hview]
  · rw [htorn.other ref hne, get_modify, if_neg hne]
  · rw [houts, hview, frames, List.filter_append]
    exact List.append_nil _

end RelayRoom


namespace Alike

variable {D : ClientIds} {s : SelfHosted} {r : RelayRoom}

theorem torn (h : Alike D s r) {b : JsString} {σ : Ref} {r' : RelayRoom} (hs : r.Speaks b σ) (ht : Torn b σ r r') :
    Alike D ⟨(s.hub.unregisterBurrow ⟨b, σ⟩).1, s.conns⟩ r' ∧
      (s.hub.unregisterBurrow ⟨b, σ⟩).2 = (r.view.filter (fun x => x.2 = some b)).map (fun x => .toClient x.1 .burrowGone) := by
  have hcur : s.hub.isCurrent ⟨b, σ⟩ = true := decide_eq_true ((h.burrows b σ).2 hs)
  have hwell := (RelayHub.effect_unregisterBurrow h.wellFormed ⟨b, σ⟩).wellFormed
  have heq : s.hub.unregisterBurrow ⟨b, σ⟩ =
      ({ s.hub with burrows := s.hub.burrows.delete b } : RelayHub).dropClientsOf b := by
    unfold RelayHub.unregisterBurrow
    rw [hcur]
    rfl
  rw [heq] at hwell ⊢
  obtain ⟨w, hw, -, hrole⟩ := hs
  obtain ⟨w', hw', hrole', hret'⟩ := ht.self
  have hback : ∀ ref v', ref ≠ σ → r'.sockets.get ref = some v' → ∃ v, r.sockets.get ref = some v ∧ v' = unbound b v := by
    intro ref v' hne hv'
    rw [ht.other ref hne] at hv'
    obtain ⟨v, hv, rfl⟩ := Option.map_eq_some_iff.1 hv'
    exact ⟨v, hv, rfl⟩
  have hself : ∀ v', r'.sockets.get σ = some v' → v' = w' := fun v' hv' => Option.some.inj (hv'.symm.trans hw')
  refine ⟨⟨hwell, ht.next.trans h.next, ?_, fun b' τ => ?_, fun ref => ?_, fun ref v' hv' hr => ?_,
    fun ref v' id session expiresAt o hv' hr => ?_, fun ref v' hv' => ?_⟩, ?_⟩
  · rw [ht.view, RelayHub.view_dropped, h.view]
    rfl
  · show (s.hub.burrows.delete b).get b' = some τ ↔ _
    rw [OrdMap.get_delete]
    constructor
    · intro hget
      split at hget
      · cases hget
      · rename_i hne
        obtain ⟨v, hv, hreg, hr⟩ := (h.burrows b' τ).1 hget
        have hτ : τ ≠ σ := by
          rintro rfl
          rw [hw] at hv
          rw [← Option.some.inj hv, hrole] at hr
          exact hne (Role.burrow.inj hr).symm
        exact ⟨unbound b v, by rw [ht.other τ hτ, hv]; rfl, (registered_unbound b v).trans hreg, burrow_unbound.2 hr⟩
    · rintro ⟨v', hv', hreg, hr⟩
      have hτ : τ ≠ σ := by
        rintro rfl
        rw [hself v' hv'] at hreg
        simp [Socket.registered, hret'] at hreg
      obtain ⟨v, hv, rfl⟩ := hback τ v' hτ hv'
      have hspeaks : s.hub.burrows.get b' = some τ :=
        (h.burrows b' τ).2 ⟨v, hv, (registered_unbound b v).symm.trans hreg, burrow_unbound.1 hr⟩
      rw [if_neg, hspeaks]
      rintro rfl
      have hσ : s.hub.burrows.get b' = some σ := of_decide_eq_true hcur
      exact hτ (Option.some.inj (hspeaks.symm.trans hσ))
  · rw [h.conns]
    by_cases href : ref = σ
    · rw [href, hw, hw', Option.map_some, Option.map_some, hrole, hrole']
    · rw [ht.other ref href, Option.map_map]
      refine Option.map_congr (fun v _ => ?_)
      exact (handlersOf_unbound b v).symm
  · by_cases href : ref = σ
    · rw [href] at hv'
      rw [hself v' hv', hret'] at hr
      cases hr
    · obtain ⟨v, hv, rfl⟩ := hback ref v' href hv'
      rw [isOpen_unbound]
      exact h.settled ref v hv ((retired_unbound b v).symm.trans hr)
  · by_cases href : ref = σ
    · rw [href] at hv'
      rw [hself v' hv', hrole'] at hr
      cases hr
    · obtain ⟨v, hv, rfl⟩ := hback ref v' href hv'
      rcases role_unbound b v with heq | heq
      · exact h.named ref v id session expiresAt o hv (heq.symm.trans hr)
      · obtain ⟨o', ho'⟩ := client_of_bind (heq.symm.trans hr)
        exact h.named ref v id session expiresAt o' hv ho'
  · rw [ht.next]
    by_cases href : ref = σ
    · rw [href]
      exact h.below σ w hw
    · obtain ⟨v, hv, -⟩ := hback ref v' href hv'
      exact h.below ref v hv
  · rw [RelayHub.outs_dropped, h.view]
    rfl

theorem opened (h : Alike D s r) (role : Role) {hub' : RelayHub} (openedAt checkedAt : Int)
    (hwell : RelayHub.WellFormed D hub') (hnext : hub'.nextRef = s.hub.nextRef + 1)
    (hview : hub'.view = s.hub.view ++ (if role.isClient then [(s.hub.nextRef, role.bound)] else []))
    (hburrows : ∀ b σ, hub'.burrows.get b = some σ ↔
      role = .burrow b ∧ σ = s.hub.nextRef ∨ role ≠ .burrow b ∧ s.hub.burrows.get b = some σ)
    (halone : ∀ b, role = .burrow b → s.hub.burrows.get b = none)
    (hid : ∀ id session expiresAt b, role = .client id session expiresAt b → id = D.newClientId s.hub.nextRef) :
    Alike D ⟨hub', s.conns.set s.hub.nextRef (handlersOf role)⟩ (r.accept role openedAt checkedAt) := by
  have hget := RelayRoom.get_accept r role openedAt checkedAt
  have hfresh := h.fresh
  have hold : ∀ ref w, r.sockets.get ref = some w → ref ≠ r.nextRef := by
    rintro ref w hw rfl
    rw [hfresh] at hw
    cases hw
  refine ⟨hwell, (congrArg (· + 1) h.next).trans hnext.symm, ?_, fun b σ => ?_, fun ref => ?_, fun ref w hw hr => ?_,
    fun ref w id session expiresAt b hw hr => ?_, fun ref w hw => ?_⟩
  · rw [RelayRoom.view_accept hfresh, hview, h.view, h.next]
  · rw [hburrows]
    constructor
    · rintro (⟨hrole, rfl⟩ | ⟨-, hσ⟩)
      · exact ⟨⟨⟨role, openedAt, checkedAt, false⟩, true, none⟩, by rw [hget, h.next, if_pos rfl], rfl, hrole⟩
      · obtain ⟨w, hw, hreg, hr⟩ := (h.burrows b σ).1 hσ
        exact ⟨w, by rw [hget, if_neg (hold σ w hw), hw], hreg, hr⟩
    · rintro ⟨w, hw, hreg, hr⟩
      rw [hget] at hw
      split at hw
      · rename_i hσ
        obtain rfl := Option.some.inj hw
        exact .inl ⟨hr, hσ.trans h.next⟩
      · have hσ := (h.burrows b σ).2 ⟨w, hw, hreg, hr⟩
        refine .inr ⟨fun hrole => ?_, hσ⟩
        rw [halone b hrole] at hσ
        cases hσ
  · show (s.conns.set s.hub.nextRef (handlersOf role)).get ref = _
    rw [OrdMap.get_set, hget, h.next]
    by_cases href : ref = s.hub.nextRef
    · rw [if_pos href, if_pos href]
      rfl
    · rw [if_neg href, if_neg href]
      exact h.conns ref
  · rw [hget] at hw
    split at hw
    · rw [← Option.some.inj hw]
    · exact h.settled ref w hw hr
  · rw [hget] at hw
    split at hw
    · rename_i href
      rw [href, h.next]
      rw [← Option.some.inj hw] at hr
      exact hid id session expiresAt b hr
    · exact h.named ref w id session expiresAt b hw hr
  · rw [hget] at hw
    show ref < r.nextRef + 1
    split at hw
    · rename_i href
      rw [href]
      exact Nat.lt_succ_self _
    · exact Nat.lt_succ_of_lt (h.below ref w hw)

end Alike


/-! ## One event -/

def Matches (D : ClientIds) (parse : JsString → Option Json) (s : SelfHosted) (r : RelayRoom) (event : Event) : Prop :=
  frames (SelfHosted.step D parse s event).2 = frames (RelayRoom.step D parse r event.hosted).2 ∧
    Alike D (SelfHosted.step D parse s event).1 (RelayRoom.step D parse r event.hosted).1

theorem frames_append (l l' : List Out) : frames (l ++ l') = frames l ++ frames l' := List.filter_append _ _

@[simp] theorem frames_policy (ref : Ref) (first : Option RelayPolicyFrame) :
    frames (first.toList.map (fun frame => .toBurrow ref (.policy frame))) = [] := by
  cases first with
  | none       => rfl
  | some frame => rfl

@[simp] theorem frames_close (ref : Ref) (code : Nat) (reason : JsString) : frames [.close ref code reason] = [] := rfl

namespace Alike

variable {D : ClientIds} {s : SelfHosted} {r : RelayRoom} (parse : JsString → Option Json)

theorem openBurrow (h : Alike D s r) (b : JsString) (first : Option RelayPolicyFrame) (account : JsString)
    (row : Option (Option (JsString × Bool))) (checkedAt now : Int) (hin : RelayRoom.admitted account row = true) :
    Matches D parse s r (.openBurrow b first account row checkedAt now) := by
  have hburrow := h.burrow b
  have hwell := (RelayHub.effect_registerBurrow h.wellFormed b first).wellFormed
  show frames (s.hub.registerBurrow b first).2 = frames (r.openBurrow account b row checkedAt now).2 ∧
    Alike D ⟨(s.hub.registerBurrow b first).1, s.conns.set s.hub.nextRef (.burrow b)⟩
      (r.openBurrow account b row checkedAt now).1
  unfold RelayRoom.openBurrow
  rw [hin, if_neg (by decide)]
  unfold RelayHub.registerBurrow at hwell ⊢
  dsimp only at hwell ⊢
  cases hr : r.burrow b with
  | none =>
    rw [hr, Option.map_none] at hburrow
    simp only [hburrow] at hwell ⊢
    refine ⟨frames_policy _ _, h.opened (.burrow b) now checkedAt hwell rfl (List.append_nil _).symm (fun b' σ => ?_) ?_ ?_⟩
    · show (s.hub.burrows.set b s.hub.nextRef).get b' = some σ ↔ _
      rw [OrdMap.get_set]
      by_cases hb : b' = b
      · simp [hb, eq_comm]
      · simp [hb, Ne.symm hb]
    · intro b' heq
      rw [← Role.burrow.inj heq]
      exact hburrow
    · intro id session expiresAt o heq
      cases heq
  | some e =>
    rw [hr, Option.map_some] at hburrow
    simp only [hburrow] at hwell ⊢
    have hspeaks := (h.burrows b e.1).1 hburrow
    obtain ⟨hget, -, hrole⟩ := RelayRoom.burrow_some hr
    obtain ⟨htorn, houts⟩ := RelayRoom.retire_burrow hget hrole wsCloseBurrowReplaced wsCloseBurrowReplacedReason
    obtain ⟨halike, -⟩ := h.torn hspeaks htorn
    have hcur : s.hub.isCurrent ⟨b, e.1⟩ = true := decide_eq_true hburrow
    have hunreg : (s.hub.unregisterBurrow ⟨b, e.1⟩).1 =
        (({ s.hub with burrows := s.hub.burrows.delete b } : RelayHub).dropClientsOf b).1 := by
      unfold RelayHub.unregisterBurrow
      rw [hcur]
      rfl
    rw [hunreg] at halike
    refine ⟨?_, halike.opened (.burrow b) now checkedAt hwell rfl ?_ (fun b' σ => ?_) ?_ ?_⟩
    · rw [frames_append, frames_append, frames_policy, frames_close, List.append_nil, List.nil_append, RelayHub.outs_dropped]
      refine Eq.trans ?_ houts.symm
      rw [h.view]
      rfl
    · rw [RelayHub.view_dropped]
      show _ = (({ s.hub with burrows := s.hub.burrows.delete b } : RelayHub).dropClientsOf b).1.view ++ []
      rw [List.append_nil, RelayHub.view_dropped]
      rfl
    · show (s.hub.burrows.set b s.hub.nextRef).get b' = some σ ↔
        _ ∨ Role.burrow b ≠ Role.burrow b' ∧ (s.hub.burrows.delete b).get b' = some σ
      rw [OrdMap.get_set, OrdMap.get_delete]
      by_cases hb : b' = b
      · simp only [hb, if_true, Option.some.injEq, true_and, ne_eq, not_true_eq_false, false_and, or_false]
        exact eq_comm
      · simp [hb, Ne.symm hb]
    · intro b' heq
      show (s.hub.burrows.delete b).get b' = none
      rw [← Role.burrow.inj heq, OrdMap.get_delete, if_pos rfl]
    · intro id session expiresAt o heq
      cases heq

theorem openClient (h : Alike D s r) (sessionExpiresAt : Int) (account session : JsString) (expiresAt : Int)
    (row : Option (Option (JsString × Bool))) (checkedAt now : Int) (hsession : session ≠ []) (hexpires : expiresAt > checkedAt)
    (hin : RelayRoom.admitted account row = true) (hcap : (r.held Role.isClient).length < maxRelayClientSockets) :
    Matches D parse s r (.openClient sessionExpiresAt account session expiresAt row checkedAt now) := by
  have hsize : s.hub.clients.size = (r.held Role.isClient).length := by
    have hlen := congrArg List.length ((RelayRoom.held_isClient r).trans h.view)
    rw [List.length_map] at hlen
    rw [hlen]
    exact (List.length_map _).symm
  have hwell := (RelayHub.effect_registerClient h.wellFormed sessionExpiresAt).wellFormed
  have hopen : RelayRoom.openClient D r account session expiresAt row checkedAt now =
      (r.accept (.client (D.newClientId r.nextRef) session expiresAt none) now checkedAt, []) := by
    unfold RelayRoom.openClient
    rw [if_neg (by simp [hsession, hexpires])]
    cases row with
    | none => cases hin
    | some row =>
      dsimp only
      rw [hin, if_neg (by decide), if_neg (Nat.not_le.2 hcap), RelayRoom.admitClient, if_neg (Nat.not_le.2 hcap)]
  unfold Matches Event.hosted RelayRoom.step SelfHosted.step
  dsimp only
  rw [hopen]
  unfold RelayHub.registerClient at hwell ⊢
  rw [if_neg (by omega)] at hwell ⊢
  rw [if_neg (by omega)]
  refine ⟨rfl, h.opened (.client (D.newClientId r.nextRef) session expiresAt none) now checkedAt hwell rfl ?_
    (fun b σ => ?_) ?_ ?_⟩
  · exact RelayHub.view_new h.wellFormed sessionExpiresAt
  · simp
  · intro b heq
    cases heq
  · intro id session' expiresAt' b heq
    rw [← (Role.client.inj heq).1, h.next]


theorem modified (h : Alike D s r) {ref : Ref} {hub' : RelayHub} {f : Socket → Socket} (hwell : RelayHub.WellFormed D hub')
    (hnext : hub'.nextRef = s.hub.nextRef) (hview : (r.modify ref f).view = hub'.view)
    (hburrows : ∀ b, hub'.burrows.get b = s.hub.burrows.get b) (hrole : ∀ w, ∃ o, (f w).conn.role = w.conn.role.bind o)
    (hspeaks : ∀ w b, r.sockets.get ref = some w → w.conn.role = .burrow b → (f w).registered = w.registered)
    (hsettled : ∀ w, r.sockets.get ref = some w → (f w).conn.retired = false → (f w).isOpen = true) :
    Alike D ⟨hub', s.conns⟩ (r.modify ref f) := by
  have hget := RelayRoom.get_modify r ref (f := f)
  have hburrow : ∀ w b, (f w).conn.role = .burrow b ↔ w.conn.role = .burrow b := by
    intro w b
    obtain ⟨o, ho⟩ := hrole w
    rw [ho]
    constructor
    · exact Role.eq_burrow_of_bind
    · intro hb
      rw [hb]
      rfl
  have hback : ∀ ref' w', (r.modify ref f).sockets.get ref' = some w' →
      ∃ w, r.sockets.get ref' = some w ∧ (ref' = ref ∧ w' = f w ∨ ref' ≠ ref ∧ w' = w) := by
    intro ref' w' hw'
    rw [hget] at hw'
    split at hw'
    · rename_i href
      obtain ⟨w, hw, rfl⟩ := Option.map_eq_some_iff.1 hw'
      exact ⟨w, hw, .inl ⟨href, rfl⟩⟩
    · rename_i hne
      exact ⟨w', hw', .inr ⟨hne, rfl⟩⟩
  refine ⟨hwell, (RelayRoom.nextRef_modify _ _ _).trans (h.next.trans hnext.symm), hview, fun b σ => ?_, fun ref' => ?_,
    fun ref' w' hw' hr => ?_, fun ref' w' id session expiresAt b hw' hr => ?_, fun ref' w' hw' => ?_⟩
  · refine (show hub'.burrows.get b = some σ ↔ s.hub.burrows.get b = some σ by rw [hburrows b]).trans
      ((h.burrows b σ).trans ⟨?_, ?_⟩)
    · rintro ⟨w, hw, hreg, hr⟩
      by_cases href : σ = ref
      · rw [href] at hw
        exact ⟨f w, by rw [hget, if_pos href, href, hw]; rfl, (hspeaks w b hw hr).trans hreg, (hburrow w b).2 hr⟩
      · exact ⟨w, by rw [hget, if_neg href, hw], hreg, hr⟩
    · rintro ⟨w', hw', hreg, hr⟩
      obtain ⟨w, hw, ⟨rfl, rfl⟩ | ⟨-, rfl⟩⟩ := hback σ w' hw'
      · have hr := (hburrow w b).1 hr
        exact ⟨w, hw, (hspeaks w b hw hr).symm.trans hreg, hr⟩
      · exact ⟨w', hw, hreg, hr⟩
  · rw [h.conns, hget]
    by_cases href : ref' = ref
    · rw [if_pos href, Option.map_map]
      refine Option.map_congr (fun w _ => ?_)
      obtain ⟨o, ho⟩ := hrole w
      exact (handlersOf_bind w.conn.role o).symm.trans (congrArg handlersOf ho.symm)
    · rw [if_neg href]
  · obtain ⟨w, hw, ⟨rfl, rfl⟩ | ⟨-, rfl⟩⟩ := hback ref' w' hw'
    · exact hsettled w hw hr
    · exact h.settled ref' w' hw hr
  · obtain ⟨w, hw, ⟨rfl, rfl⟩ | ⟨-, rfl⟩⟩ := hback ref' w' hw'
    · obtain ⟨o, ho⟩ := hrole w
      obtain ⟨b', hb'⟩ := client_of_bind (ho.symm.trans hr)
      exact h.named ref' w id session expiresAt b' hw hb'
    · exact h.named ref' w' id session expiresAt b hw hr
  · rw [RelayRoom.nextRef_modify]
    obtain ⟨w, hw, -⟩ := hback ref' w' hw'
    exact h.below ref' w hw

theorem burrowFrame (h : Alike D s r) {ref : Ref} {w : Socket} {b raw : JsString} (hw : r.sockets.get ref = some w)
    (hreg : w.registered = true) (hrole : w.conn.role = .burrow b) (hping : raw ≠ relayPing) :
    RelayHub.onBurrowFrame parse s.hub ⟨b, ref⟩ raw = RelayRoom.onBurrowFrame parse r b raw := by
  unfold RelayHub.onBurrowFrame RelayRoom.onBurrowFrame
  rw [h.isCurrent_iff hw hrole, hreg, if_neg (by decide), if_neg hping]
  cases readBurrowFrame parse raw with
  | none => rfl
  | some frame =>
    dsimp only
    have hclient := h.client frame.clientId
    cases hc : s.hub.clients.get frame.clientId with
    | none =>
      rw [hc, Option.map_none, Option.map_eq_none_iff] at hclient
      rw [hclient]
    | some c =>
      rw [hc, Option.map_some, Option.map_eq_some_iff] at hclient
      obtain ⟨e, he, heq⟩ := hclient
      obtain ⟨href, hb⟩ := Prod.mk.inj heq
      rw [he]
      simp only [href, hb]

theorem clientFrame (h : Alike D s r) {ref : Ref} {w : Socket} {id session : JsString} {expiresAt : Int}
    {bound : Option JsString} {raw : JsString} {now : Int} (hw : r.sockets.get ref = some w) (hreg : w.registered = true)
    (hrole : w.conn.role = .client id session expiresAt bound) (hping : raw ≠ relayPing)
    (hsilent : ∀ frame e, readClientFrame parse raw = .ok frame → r.burrow frame.burrowId = some e →
      RelayRoom.silent e.2 now = false) :
    (RelayHub.onClientFrame parse s.hub (RelayHub.conn D ref) raw).2 =
    (RelayRoom.onClientFrame parse r ref id bound raw now).2 ∧
      Alike D ⟨(RelayHub.onClientFrame parse s.hub (RelayHub.conn D ref) raw).1, s.conns⟩
        (RelayRoom.onClientFrame parse r ref id bound raw now).1 := by
  obtain ⟨e, he, hbound⟩ := h.entry_of_client hw hreg (by rw [hrole]; rfl)
  rw [hrole] at hbound
  have hbound : e.burrowId = bound := hbound
  have hid : (RelayHub.conn D ref).clientId = id := (h.named _ _ _ _ _ _ hw hrole).symm
  have hwell := (RelayHub.step_tells parse h.wellFormed (.clientFrame (RelayHub.conn D ref) raw)).1
  have hwell : RelayHub.WellFormed D (RelayHub.onClientFrame parse s.hub (RelayHub.conn D ref) raw).1 := hwell
  unfold RelayHub.onClientFrame RelayRoom.onClientFrame at *
  rw [he] at hwell ⊢
  dsimp only at hwell ⊢
  rw [if_neg hping] at hwell ⊢
  cases hread : readClientFrame parse raw with
  | error frame => exact ⟨rfl, h⟩
  | ok frame =>
    rw [hread] at hwell
    dsimp only at hwell ⊢
    rw [h.burrow frame.burrowId] at hwell ⊢
    cases hb : r.burrow frame.burrowId with
    | none => exact ⟨rfl, h⟩
    | some x =>
      rw [hb, Option.map_some] at hwell
      rw [Option.map_some]
      dsimp only at hwell ⊢
      rw [hsilent frame x hread hb, if_neg Bool.false_ne_true, hid]
      by_cases hinit : frame.step = .init
      · rw [if_pos hinit, hid] at hwell
        rw [if_pos hinit, if_pos hinit]
        refine ⟨?_, h.modified hwell rfl ?_ (fun _ => rfl) (fun w => ⟨some frame.burrowId, rfl⟩) (fun _ _ _ _ => rfl)
          (fun w' hw' hr => h.settled ref w' hw' hr)⟩
        · simp only [RelayHub.bindClientToBurrow, hbound, h.tellGone]
        · rw [RelayRoom.view_bind, h.view, ← hid]
          exact (RelayHub.view_set h.wellFormed (RelayHub.entryOf_eq_some.1 he).1 frame.burrowId).symm
      · rw [if_neg hinit, if_neg hinit, hbound]
        split
        · exact ⟨rfl, h⟩
        · exact ⟨rfl, h⟩

theorem frame (h : Alike D s r) (ref : Ref) (raw : JsString) (now : Int) (hping : raw ≠ relayPing)
    (hsize : exceedsRelayFrameBytes raw = false)
    (hsilent : ∀ frame e, readClientFrame parse raw = .ok frame → r.burrow frame.burrowId = some e →
      RelayRoom.silent e.2 now = false) : Matches D parse s r (.frame ref raw now) := by
  have hconns := h.conns ref
  unfold Matches Event.hosted RelayRoom.step SelfHosted.step RelayRoom.webSocketMessage
  dsimp only
  cases hw : r.sockets.get ref with
  | none =>
    rw [hw, Option.map_none] at hconns
    rw [hconns]
    exact ⟨rfl, h⟩
  | some w =>
    rw [hw, Option.map_some] at hconns
    rw [hconns]
    dsimp only
    have hover : RelayRoom.oversized (.text raw) = false := hsize
    rw [hover, if_neg (c := false = true) Bool.false_ne_true]
    cases hreg : w.registered with
    | false =>
      cases hrole : w.conn.role with
      | burrow b =>
        refine ⟨?_, h⟩
        show frames (RelayHub.onBurrowFrame parse s.hub ⟨b, ref⟩ raw) = frames []
        unfold RelayHub.onBurrowFrame
        rw [h.isCurrent_iff hw hrole, hreg]
        rfl
      | client id session expiresAt bound =>
        have heq : RelayHub.onClientFrame parse s.hub (RelayHub.conn D ref) raw = (s.hub, []) := by
          unfold RelayHub.onClientFrame
          rw [h.entryOf_none hw hreg]
        refine ⟨congrArg (fun x => frames x.2) heq, ?_⟩
        show Alike D ⟨(RelayHub.onClientFrame parse s.hub (RelayHub.conn D ref) raw).1, s.conns⟩ r
        rw [heq]
        exact h
    | true =>
      cases hrole : w.conn.role with
      | burrow b => exact ⟨congrArg frames (h.burrowFrame parse hw hreg hrole hping), h⟩
      | client id session expiresAt bound =>
        obtain ⟨houts, halike⟩ := h.clientFrame parse hw hreg hrole hping hsilent
        exact ⟨congrArg frames houts, halike⟩


theorem closedClient (h : Alike D s r) {ref : Ref} {w : Socket} {id session : JsString} {expiresAt : Int}
    {bound : Option JsString} (hw : r.sockets.get ref = some w) (hret : w.conn.retired = false)
    (hrole : w.conn.role = .client id session expiresAt bound) (code : Nat) :
    frames (s.hub.unregisterClient (RelayHub.conn D ref)).2 = frames (r.webSocketClose ref code).2 ∧
      Alike D ⟨(s.hub.unregisterClient (RelayHub.conn D ref)).1, s.conns⟩ (r.webSocketClose ref code).1 := by
  have hreg : w.registered = true := by simp [Socket.registered, h.settled ref w hw hret, hret]
  obtain ⟨e, he, hbound⟩ := h.entry_of_client hw hreg (by rw [hrole]; rfl)
  rw [hrole] at hbound
  have hbound : e.burrowId = bound := hbound
  have hid : (RelayHub.conn D ref).clientId = id := (h.named _ _ _ _ _ _ hw hrole).symm
  have hwell := (RelayHub.leaves_unregisterClient h.wellFormed (RelayHub.conn D ref)).effect.wellFormed
  have hleave : s.hub.unregisterClient (RelayHub.conn D ref) =
      ({ s.hub with clients := s.hub.clients.delete (RelayHub.conn D ref).clientId },
        s.hub.tellGone (RelayHub.conn D ref).clientId e.burrowId) := by
    unfold RelayHub.unregisterClient
    rw [he]
  rw [hleave] at hwell ⊢
  have hclose : r.webSocketClose ref code = ((r.modify ref ({ · with isOpen := false })).modify ref
      (fun w => { w with conn := { w.conn with retired := true } }),
      ((r.modify ref ({ · with isOpen := false })).modify ref
        (fun w => { w with conn := { w.conn with retired := true } })).tellGone id bound ++
        [.close ref (RelayRoom.closeCode code) []]) := by
    unfold RelayRoom.webSocketClose RelayRoom.unregister
    rw [hw]
    simp only [hret, Bool.false_eq_true, if_false, RelayRoom.get_modify, if_true, hw, Option.map_some, hrole]
  rw [hclose]
  have hboth : (r.modify ref ({ · with isOpen := false })).modify ref
      (fun w => { w with conn := { w.conn with retired := true } }) =
        r.modify ref (fun w => { w with conn := { w.conn with retired := true }, isOpen := false }) :=
    RelayRoom.modify_modify r ref _ _
  have halike : Alike D ⟨{ s.hub with clients := s.hub.clients.delete (RelayHub.conn D ref).clientId }, s.conns⟩
      (r.modify ref (fun w => { w with conn := { w.conn with retired := true }, isOpen := false })) := by
    refine h.modified hwell rfl ?_ (fun _ => rfl) (fun w => ⟨w.conn.role.bound, ?_⟩) (fun w' b hw' hr => ?_)
      (fun _ _ hr => by cases hr)
    · rw [RelayRoom.view_modify_gone r ref (fun _ => rfl), h.view]
      exact (RelayHub.view_delete h.wellFormed ref).symm
    · exact (Role.bind_bound w.conn.role).symm
    · rw [hw] at hw'
      rw [← Option.some.inj hw', hrole] at hr
      cases hr
  rw [hboth]
  refine ⟨?_, halike⟩
  rw [frames_append, frames_close, List.append_nil, halike.tellGone, hid, hbound]
  rfl


theorem closed (h : Alike D s r) (ref : Ref) (code : Nat) : Matches D parse s r (.closed ref code) := by
  have hconns := h.conns ref
  unfold Matches Event.hosted RelayRoom.step SelfHosted.step
  dsimp only
  cases hw : r.sockets.get ref with
  | none =>
    rw [hw, Option.map_none] at hconns
    have hclose : r.webSocketClose ref code = (r, []) := by
      unfold RelayRoom.webSocketClose
      rw [hw]
    rw [hconns, hclose]
    exact ⟨rfl, h⟩
  | some w =>
    rw [hw, Option.map_some] at hconns
    rw [hconns]
    cases hret : w.conn.retired with
    | true =>
      -- a second teardown, of a socket that either relay has let go of
      have hreg : w.registered = false := by simp [Socket.registered, hret]
      have hclose : r.webSocketClose ref code =
          (r.modify ref ({ · with isOpen := false }), [.close ref (RelayRoom.closeCode code) []]) := by
        unfold RelayRoom.webSocketClose
        rw [hw]
        simp only [hret, if_true]
      have halike : Alike D s (r.modify ref ({ · with isOpen := false })) := by
        refine h.modified h.wellFormed rfl ?_ (fun _ => rfl) (fun w => ⟨w.conn.role.bound, ?_⟩) (fun w' b hw' hr => ?_)
          (fun w' hw' hr => ?_)
        · refine (RelayRoom.view_modify_same r ref (fun w' hw' => ?_)).trans h.view
          rw [hw] at hw'
          rw [← Option.some.inj hw']
          simp [RelayRoom.glimpse, Socket.registered, hret]
        · exact (Role.bind_bound w.conn.role).symm
        · rw [hw] at hw'
          rw [← Option.some.inj hw', hreg]
          rfl
        · rw [hw] at hw'
          rw [← Option.some.inj hw'] at hr
          rw [show w.conn.retired = false from hr] at hret
          cases hret
      rw [hclose]
      cases hrole : w.conn.role with
      | burrow b =>
        have heq : s.hub.unregisterBurrow ⟨b, ref⟩ = (s.hub, []) := by
          unfold RelayHub.unregisterBurrow
          rw [h.isCurrent_iff hw hrole, hreg]
          rfl
        simp only [handlersOf, heq]
        exact ⟨rfl, halike⟩
      | client id session expiresAt bound =>
        have heq : s.hub.unregisterClient (RelayHub.conn D ref) = (s.hub, []) := by
          unfold RelayHub.unregisterClient
          rw [h.entryOf_none hw hreg]
        unfold RelayHub.conn at heq
        simp only [handlersOf, heq]
        exact ⟨rfl, halike⟩
    | false =>
      cases hrole : w.conn.role with
      | burrow b =>
        have hreg : w.registered = true := by simp [Socket.registered, h.settled ref w hw hret, hret]
        obtain ⟨htorn, houts⟩ := RelayRoom.close_burrow hw hrole hret code
        obtain ⟨halike, hsent⟩ := h.torn ⟨w, hw, hreg, hrole⟩ htorn
        exact ⟨(congrArg frames hsent).trans houts.symm, halike⟩
      | client id session expiresAt bound => exact h.closedClient hw hret hrole code

/-- **One event keeps the two relays alike, and they send the same frames over it.** -/
theorem step (h : Alike D s r) (event : Event) (hin : Within parse r event) : Matches D parse s r event := by
  cases event with
  | openBurrow b first account row checkedAt now => exact h.openBurrow parse b first account row checkedAt now hin
  | openClient sessionExpiresAt account session expiresAt row checkedAt now =>
    obtain ⟨hsession, hexpires, hadmitted, hcap⟩ := hin
    exact h.openClient parse sessionExpiresAt account session expiresAt row checkedAt now hsession hexpires hadmitted hcap
  | frame ref raw now =>
    obtain ⟨hping, hsize, hsilent⟩ := hin
    exact h.frame parse ref raw now hping hsize hsilent
  | closed ref code => exact h.closed parse ref code

theorem init (D : ClientIds) : Alike D .create .create where
  wellFormed := ⟨fun _ _ h => (nomatch h), fun _ _ h => (nomatch h), fun _ _ h => (nomatch h), fun _ _ _ h => (nomatch h)⟩
  next := rfl
  view := rfl
  burrows := by
    intro b σ
    constructor
    · intro h
      cases h
    · rintro ⟨w, h, -⟩
      cases h
  conns := fun _ => rfl
  settled := fun _ _ h => nomatch h
  named := fun _ _ _ _ _ _ h => nomatch h
  below := fun _ _ h => nomatch h

end Alike


/-! ## Every run -/

def SelfHosted.after (D : ClientIds) (parse : JsString → Option Json) (events : List Event) : SelfHosted :=
  (Mealy.run (SelfHosted.step D parse) .create events).1

def RelayRoom.afterEvents (D : ClientIds) (parse : JsString → Option Json) (events : List Event) : RelayRoom :=
  RelayRoom.after D parse (events.map Event.hosted)

def Compared (D : ClientIds) (parse : JsString → Option Json) (events : List Event) : Prop :=
  ∀ earlier event later, events = earlier ++ event :: later → Within parse (RelayRoom.afterEvents D parse earlier) event

theorem SelfHosted.after_concat (D : ClientIds) (parse : JsString → Option Json) (events : List Event) (event : Event) :
    SelfHosted.after D parse (events ++ [event]) = (SelfHosted.step D parse (SelfHosted.after D parse events) event).1 := by
  unfold SelfHosted.after
  rw [Mealy.run_append, Mealy.run_one]

theorem RelayRoom.afterEvents_concat (D : ClientIds) (parse : JsString → Option Json) (events : List Event) (event : Event) :
    RelayRoom.afterEvents D parse (events ++ [event]) =
      (RelayRoom.step D parse (RelayRoom.afterEvents D parse events) event.hosted).1 := by
  unfold RelayRoom.afterEvents
  rw [List.map_append]
  exact (RelayRoom.after_concat parse _ _).1

theorem compared_concat {D : ClientIds} {parse : JsString → Option Json} {events : List Event} {event : Event} :
    Compared D parse (events ++ [event]) ↔
      Compared D parse events ∧ Within parse (RelayRoom.afterEvents D parse events) event :=
  Mealy.everywhere_concat

theorem alike_after (D : ClientIds) (parse : JsString → Option Json) (events : List Event) (h : Compared D parse events) :
    Alike D (SelfHosted.after D parse events) (RelayRoom.afterEvents D parse events) := by
  induction events using List.reverseRecOn with
  | nil => exact Alike.init D
  | append_singleton events event ih =>
    obtain ⟨hbefore, hin⟩ := compared_concat.1 h
    have hstep := (ih hbefore).step parse event hin
    rw [SelfHosted.after_concat, RelayRoom.afterEvents_concat]
    exact hstep.2

/-- **The two relays route alike**: over every run of events they are compared under, each event makes both send the same
frames to the same sockets in the same order, and leaves the same Clients bound to the same Burrows and the same sockets
speaking for them. -/
theorem relays_route_alike (D : ClientIds) (parse : JsString → Option Json) (events : List Event)
    (h : Compared D parse events) :
    (∀ earlier event later, events = earlier ++ event :: later →
      frames (SelfHosted.step D parse (SelfHosted.after D parse earlier) event).2 =
        frames (RelayRoom.step D parse (RelayRoom.afterEvents D parse earlier) event.hosted).2) ∧
    ∀ earlier later, events = earlier ++ later →
      (SelfHosted.after D parse earlier).hub.view = (RelayRoom.afterEvents D parse earlier).view ∧
      ∀ b, (SelfHosted.after D parse earlier).hub.burrows.get b =
        ((RelayRoom.afterEvents D parse earlier).burrow b).map Prod.fst := by
  have hearlier : ∀ earlier later, events = earlier ++ later → Compared D parse earlier := by
    rintro earlier later rfl before event after rfl
    exact h before event (after ++ later) (by simp)
  refine ⟨fun earlier event later heq => ?_, fun earlier later heq => ?_⟩
  · have halike := alike_after D parse earlier (hearlier earlier _ heq)
    exact (halike.step parse event (h earlier event later heq)).1
  · have halike := alike_after D parse earlier (hearlier earlier later heq)
    exact ⟨halike.view.symm, halike.burrow⟩

theorem within_frame {parse : JsString → Option Json} {r : RelayRoom} {ref : Ref} {raw : JsString} {now : Int}
    (hping : raw ≠ relayPing) (hsize : exceedsRelayFrameBytes raw = false)
    (h : ∀ e ∈ r.sockets.entries, RelayRoom.silent e.2 now = false) : Within parse r (.frame ref raw now) :=
  ⟨hping, hsize, fun _ e _ hb => h e (OrdMap.mem_entries.2 (RelayRoom.burrow_some hb).1)⟩

def sampleBurrowEvent : Event := .openBurrow RelayRoom.sampleBurrowId none (units "u") (some (some (units "u", true))) 0 0
def sampleClientEvent : Event := .openClient 0 (units "u") (units "h") 1000 (some (some (units "u", true))) 0 0
def sampleInitEvent : Event := .frame 1 (RelayRoom.sampleText "init") 0

/-- A Client binds to a Burrow, whose socket is replaced before the first one's close event. -/
def replacedRun : List Event := [sampleBurrowEvent, sampleClientEvent, sampleInitEvent, sampleBurrowEvent, .closed 0 1006]

theorem compared_replacedRun : Compared RelayRoom.sampleIds RelayRoom.sampleParse replacedRun := by
  have hnil : Compared RelayRoom.sampleIds RelayRoom.sampleParse [] := fun earlier event later h => by
    have hlen := congrArg List.length h
    simp at hlen
  have hburrow : Compared RelayRoom.sampleIds RelayRoom.sampleParse ([] ++ [sampleBurrowEvent]) :=
    compared_concat.2 ⟨hnil, rfl⟩
  have hclient : Compared RelayRoom.sampleIds RelayRoom.sampleParse ([] ++ [sampleBurrowEvent] ++ [sampleClientEvent]) :=
    compared_concat.2 ⟨hburrow, by decide, by decide, rfl, by decide +kernel⟩
  have hinit : Compared RelayRoom.sampleIds RelayRoom.sampleParse
      ([] ++ [sampleBurrowEvent] ++ [sampleClientEvent] ++ [sampleInitEvent]) :=
    compared_concat.2 ⟨hclient, within_frame (by decide +kernel) (by decide +kernel) (by decide +kernel)⟩
  have hagain : Compared RelayRoom.sampleIds RelayRoom.sampleParse
      ([] ++ [sampleBurrowEvent] ++ [sampleClientEvent] ++ [sampleInitEvent] ++ [sampleBurrowEvent]) :=
    compared_concat.2 ⟨hinit, rfl⟩
  have hclosed : Within RelayRoom.sampleParse (RelayRoom.afterEvents RelayRoom.sampleIds RelayRoom.sampleParse
      ([] ++ [sampleBurrowEvent] ++ [sampleClientEvent] ++ [sampleInitEvent] ++ [sampleBurrowEvent]))
      (.closed 0 1006) := trivial
  exact compared_concat.2 ⟨hagain, hclosed⟩

theorem relays_route_alike_replaced :
    Compared RelayRoom.sampleIds RelayRoom.sampleParse replacedRun ∧
    ∀ earlier event later, replacedRun = earlier ++ event :: later →
      frames (SelfHosted.step RelayRoom.sampleIds RelayRoom.sampleParse
        (SelfHosted.after RelayRoom.sampleIds RelayRoom.sampleParse earlier) event).2 =
        frames (RelayRoom.step RelayRoom.sampleIds RelayRoom.sampleParse
          (RelayRoom.afterEvents RelayRoom.sampleIds RelayRoom.sampleParse earlier) event.hosted).2 :=
  ⟨compared_replacedRun, (relays_route_alike _ _ replacedRun compared_replacedRun).1⟩

end Relay
end Dormouse

import Dormouse.Steps
import Dormouse.QuitModel
/-!
# QuitArrivals — the requests that wait for a transfer

A quit or a window's close that comes while a Workspace is in flight waits in the `ArrivalQueue` until `take_ready` hands
it out.  A run is kept with a ticket for each deferral it accepted, which says how that deferral ended; a ticket ends
once, and each thing handed out is the end of a ticket.
-/
namespace Dormouse
namespace Quit

/-- Of a record in flight, the ends, which are all the queue reads. -/
structure Arrival where
  from_ : Label
  to_   : Label
  deriving DecidableEq

/-- `closes` is a set: each label once. -/
structure ArrivalQueue where
  records : List Arrival := []
  quit    : Option QuitIntent := none
  closes  : List Label := []
  nodup   : closes.Nodup := by simp

namespace ArrivalQueue

def endpoint (q : ArrivalQueue) (label : Label) : Bool :=
  q.records.any (fun arrival => arrival.from_ == label || arrival.to_ == label)

def deferQuit (q : ArrivalQueue) (intent : QuitIntent) : ArrivalQueue × Option Bool :=
  if q.records = [] then (q, none)
  else
    let queued := q.quit.getD intent
    ({ q with quit := some queued, closes := [], nodup := List.nodup_nil }, some queued.restart)

def deferClose (q : ArrivalQueue) (label : Label) : ArrivalQueue × Bool :=
  if q.endpoint label = false then (q, false)
  else if q.quit = none then ({ q with closes := q.closes.insert label, nodup := q.nodup.insert }, true)
  else (q, true)

def cancelDeferred (q : ArrivalQueue) : ArrivalQueue := { q with quit := none, closes := [], nodup := List.nodup_nil }

def forgetDeferredClose (q : ArrivalQueue) (label : Label) : ArrivalQueue :=
  { q with closes := q.closes.erase label, nodup := q.nodup.erase label }

/-- `closes.retain`. -/
def retain (q : ArrivalQueue) (p : Label → Bool) : ArrivalQueue :=
  { q with closes := q.closes.filter p, nodup := q.nodup.filter p }

def takeReady (q : ArrivalQueue) (live : List Label) (it : Iteration) :
    ArrivalQueue × Option QuitIntent × List Label :=
  if q.quit = none ∧ q.closes = [] then (q, none, [])
  else
    let q := q.retain (· ∈ live)
    if q.quit ≠ none then
      if q.records = [] then ({ q with quit := none }, q.quit, []) else (q, none, [])
    else
      let ready := (it.order q.closes).filter (fun label => !q.endpoint label)
      (q.retain (· ∉ ready), none, ready)

end ArrivalQueue

inductive ArrivalOp where
  | push (arrival : Arrival)
  | settle (position : Nat)
  | deferQuit (intent : QuitIntent)
  | deferClose (label : Label)
  | cancelDeferred
  | forgetDeferredClose (label : Label)
  | takeReady (live : List Label) (it : Iteration)

/-! ## Tickets -/

inductive Deferral where
  | quit (intent : QuitIntent)
  | close (label : Label)
  deriving DecidableEq

/-- How a deferral ended: handed out by the `take_ready` of a number, or in one of the ways that retire it. -/
inductive Fate where
  | taken (take : Nat)
  | cancelled
  | forgotten
  | absorbed
  | notLive
  deriving DecidableEq

/-- An accepted deferral: how many times `take_ready` had run by then, and how it ended if it has. -/
structure Ticket where
  what  : Deferral
  since : Nat
  fate  : Option Fate
  deriving DecidableEq

def Ticket.resolve (f : Deferral → Option Fate) (t : Ticket) : Ticket :=
  if t.fate = none then { t with fate := f t.what } else t

def Ticket.waitingQuit (t : Ticket) : Option QuitIntent :=
  match t.what, t.fate with
  | .quit intent, none => some intent
  | _, _               => none

def waitingQuits (tickets : List Ticket) : List QuitIntent := tickets.filterMap Ticket.waitingQuit

/-- A queue, with its tickets and what each `take_ready` handed out. -/
structure Docket where
  queue   : ArrivalQueue
  tickets : List Ticket
  takes   : List (Option QuitIntent × List Label)

def absorbed : Deferral → Option Fate
  | .quit _  => none
  | .close _ => some .absorbed

def forgotten (label : Label) : Deferral → Option Fate
  | .quit _  => none
  | .close l => if l = label then some .forgotten else none

/-- What one `take_ready` ends: what it hands out, and the closes of windows that are not open. -/
def takenBy (n : Nat) (live : List Label) (out : Option QuitIntent × List Label) : Deferral → Option Fate
  | .quit _  => if out.1 ≠ none then some (.taken n) else none
  | .close l => if l ∈ out.2 then some (.taken n) else if l ∉ live then some .notLive else none

def Docket.step (d : Docket) : ArrivalOp → Docket
  | .push arrival              => { d with queue := { d.queue with records := d.queue.records ++ [arrival] } }
  | .settle position           => { d with queue := { d.queue with records := d.queue.records.eraseIdx position } }
  | .deferQuit intent          =>
    match d.queue.deferQuit intent with
    | (queue, none)   => { d with queue := queue }
    | (queue, some _) =>
      ⟨queue, d.tickets.map (.resolve absorbed) ++ [⟨.quit intent, d.takes.length, none⟩], d.takes⟩
  | .deferClose label          =>
    match d.queue.deferClose label with
    | (queue, false) => { d with queue := queue }
    | (queue, true)  =>
      -- a waiting quit absorbs it at once
      let fate := if waitingQuits d.tickets = [] then none else some .absorbed
      ⟨queue, d.tickets ++ [⟨.close label, d.takes.length, fate⟩], d.takes⟩
  | .cancelDeferred            =>
    ⟨d.queue.cancelDeferred, d.tickets.map (.resolve (fun _ => some .cancelled)), d.takes⟩
  | .forgetDeferredClose label =>
    ⟨d.queue.forgetDeferredClose label, d.tickets.map (.resolve (forgotten label)), d.takes⟩
  | .takeReady live it         =>
    let out := d.queue.takeReady live it
    ⟨out.1, d.tickets.map (.resolve (takenBy d.takes.length live out.2)), d.takes ++ [out.2]⟩

def Docket.fresh : Docket := ⟨{}, [], []⟩

def Docket.run (ops : List ArrivalOp) : Docket := Steps.run Docket.step .fresh ops

/-! ## What `take_ready` hands out -/

variable {label : Label}

theorem endpoint_false {q : ArrivalQueue} (h : q.endpoint label = false) :
    ∀ a ∈ q.records, a.from_ ≠ label ∧ a.to_ ≠ label := by
  intro a ha
  have := List.any_eq_false.mp h a ha
  simpa using this

variable {live : List Label}

theorem mem_ready {q : ArrivalQueue} {it : Iteration} :
    label ∈ (it.order (q.retain (· ∈ live)).closes).filter (fun label => !(q.retain (· ∈ live)).endpoint label) ↔
      label ∈ q.closes ∧ label ∈ live ∧ q.endpoint label = false := by
  rw [List.mem_filter, (it.perm _).mem_iff]
  show label ∈ q.closes.filter _ ∧ (!q.endpoint label) = true ↔ _
  rw [List.mem_filter]
  simp [and_assoc]

/-- **The cases of `take_ready`**: nothing waits, the quit goes out, the quit waits, or the closes that are ready go out. -/
inductive Takes (q : ArrivalQueue) (live : List Label) : ArrivalQueue × Option QuitIntent × List Label → Prop where
  | empty (hq : q.quit = none) (hc : q.closes = []) : Takes q live (q, none, [])
  | quits {intent} (hq : q.quit = some intent) (hr : q.records = []) :
    Takes q live ({ q.retain (· ∈ live) with quit := none }, some intent, [])
  | waits {intent} (hq : q.quit = some intent) (hr : q.records ≠ []) : Takes q live (q.retain (· ∈ live), none, [])
  | closes {ready} (hq : q.quit = none) (hn : ready.Nodup)
    (hready : ∀ l, l ∈ ready ↔ l ∈ q.closes ∧ l ∈ live ∧ q.endpoint l = false) :
    Takes q live ((q.retain (· ∈ live)).retain (· ∉ ready), none, ready)

theorem takeReady_takes (q : ArrivalQueue) (live : List Label) (it : Iteration) : Takes q live (q.takeReady live it) := by
  unfold ArrivalQueue.takeReady
  split
  · rename_i h
    exact .empty h.1 h.2
  · simp only
    split
    · rename_i hq
      obtain ⟨intent, hq⟩ := Option.ne_none_iff_exists'.mp hq
      have hq : q.quit = some intent := hq
      split
      · rename_i hr
        show Takes q live ({ q.retain (· ∈ live) with quit := none }, q.quit, [])
        rw [hq]
        exact .quits hq hr
      · rename_i hr
        exact .waits hq hr
    · rename_i hq
      have hn : (it.order (q.retain (· ∈ live)).closes).Nodup := (it.perm _).nodup_iff.mpr (q.retain (· ∈ live)).nodup
      exact .closes (not_not.mp hq) (hn.filter _) (fun l => mem_ready)

/-- **What `take_ready` does**, whichever case it is. -/
structure TakeSpec (q : ArrivalQueue) (live : List Label) (out : ArrivalQueue × Option QuitIntent × List Label) :
    Prop where
  quit   : ∀ intent, out.2.1 = some intent → q.quit = some intent ∧ q.records = []
  kept   : out.1.quit = if out.2.1 = none then q.quit else none
  nodup  : out.2.2.Nodup
  ready  : ∀ l ∈ out.2.2, l ∈ q.closes ∧ l ∈ live ∧ q.endpoint l = false
  closes : ∀ l, l ∈ out.1.closes ↔ l ∈ q.closes ∧ l ∈ live ∧ l ∉ out.2.2
  /-- Nothing that is ready is passed over. -/
  prompt : (q.quit ≠ none → q.records = [] → out.2.1 ≠ none) ∧
    (q.quit = none → ∀ l ∈ q.closes, l ∈ live → q.endpoint l = false → l ∈ out.2.2)

theorem Takes.spec {q : ArrivalQueue} {out : ArrivalQueue × Option QuitIntent × List Label} (h : Takes q live out) :
    TakeSpec q live out := by
  cases h with
  | empty hq hc => constructor <;> simp [hq, hc]
  | quits hq hr => constructor <;> simp [hq, hr, ArrivalQueue.retain]
  | waits hq hr => constructor <;> simp [hq, hr, ArrivalQueue.retain]
  | closes hq hn hready =>
    refine ⟨by simp, by simp [ArrivalQueue.retain], hn, fun l hl => (hready l).mp hl, fun l => ?_, by simp [hq], ?_⟩
    · simp only [ArrivalQueue.retain, List.mem_filter, decide_eq_true_eq, decide_not, Bool.not_eq_true',
        decide_eq_false_iff_not, and_assoc]
    · exact fun _ l hl hlive he => (hready l).mpr ⟨hl, hlive, he⟩

theorem takeReady_spec (q : ArrivalQueue) (live : List Label) (it : Iteration) : TakeSpec q live (q.takeReady live it) :=
  (takeReady_takes q live it).spec

/-! ## Tickets, resolved -/

theorem resolve_what (f : Deferral → Option Fate) (t : Ticket) : (t.resolve f).what = t.what := by
  unfold Ticket.resolve
  split <;> rfl

theorem resolve_since (f : Deferral → Option Fate) (t : Ticket) : (t.resolve f).since = t.since := by
  unfold Ticket.resolve
  split <;> rfl

theorem resolve_ended (f : Deferral → Option Fate) {t : Ticket} {fate : Fate} (h : t.fate = some fate) : t.resolve f = t := by
  unfold Ticket.resolve
  rw [if_neg (by simp [h])]

theorem resolve_waiting (f : Deferral → Option Fate) {t : Ticket} (h : t.fate = none) : (t.resolve f).fate = f t.what := by
  unfold Ticket.resolve
  rw [if_pos h]

theorem resolve_none (f : Deferral → Option Fate) (t : Ticket) :
    (t.resolve f).fate = none ↔ t.fate = none ∧ f t.what = none := by
  cases h : t.fate with
  | none => rw [resolve_waiting f h, eq_self_iff_true, true_and]
  | some fate => rw [resolve_ended f h, h]; simp

def Waits (tickets : List Ticket) (label : Label) : Prop := ∃ t ∈ tickets, t.what = .close label ∧ t.fate = none

theorem waits_resolve (f : Deferral → Option Fate) (tickets : List Ticket) (label : Label) :
    Waits (tickets.map (.resolve f)) label ↔ Waits tickets label ∧ f (.close label) = none := by
  unfold Waits
  constructor
  · rintro ⟨t', ht', hw, hf⟩
    obtain ⟨t, ht, rfl⟩ := List.mem_map.mp ht'
    rw [resolve_what] at hw
    rw [resolve_none, hw] at hf
    exact ⟨⟨t, ht, hw, hf.1⟩, hf.2⟩
  · rintro ⟨⟨t, ht, hw, hf⟩, hnone⟩
    refine ⟨t.resolve f, List.mem_map_of_mem ht, (resolve_what f t).trans hw, ?_⟩
    rw [resolve_none, hw]
    exact ⟨hf, hnone⟩

theorem waits_append (tickets : List Ticket) (t : Ticket) (label : Label) :
    Waits (tickets ++ [t]) label ↔ Waits tickets label ∨ (t.what = .close label ∧ t.fate = none) := by
  simp [Waits, or_and_right, exists_or]

theorem waitingQuits_append (tickets : List Ticket) (t : Ticket) :
    waitingQuits (tickets ++ [t]) = waitingQuits tickets ++ t.waitingQuit.toList := by
  simp only [waitingQuits, List.filterMap_append, List.filterMap_cons, List.filterMap_nil]
  cases t.waitingQuit <;> rfl

variable {f : Deferral → Option Fate}

theorem waitingQuit_resolve (hf : ∀ intent, f (.quit intent) = none) (t : Ticket) :
    (t.resolve f).waitingQuit = t.waitingQuit := by
  unfold Ticket.waitingQuit
  rw [resolve_what]
  cases hw : t.what with
  | close label => rfl
  | quit intent =>
    cases hfate : t.fate with
    | none => rw [resolve_waiting f hfate, hw, hf]
    | some fate => rw [resolve_ended f hfate, hfate]

theorem waitingQuits_spared (hf : ∀ intent, f (.quit intent) = none) (tickets : List Ticket) :
    waitingQuits (tickets.map (.resolve f)) = waitingQuits tickets := by
  unfold waitingQuits
  rw [List.filterMap_map]
  exact List.filterMap_congr (fun t _ => waitingQuit_resolve hf t)

theorem waitingQuits_ended (hf : ∀ intent, f (.quit intent) ≠ none) (tickets : List Ticket) :
    waitingQuits (tickets.map (.resolve f)) = [] := by
  unfold waitingQuits
  rw [List.filterMap_map, List.filterMap_eq_nil_iff]
  intro t _
  show (t.resolve f).waitingQuit = none
  unfold Ticket.waitingQuit
  rw [resolve_what]
  cases hw : t.what with
  | close label => rfl
  | quit intent =>
    cases hfate : (t.resolve f).fate with
    | some fate => rfl
    | none =>
      obtain ⟨-, hnone⟩ := (resolve_none f t).mp hfate
      rw [hw] at hnone
      exact absurd hnone (hf intent)

/-- What a `take_ready` handed out for a deferral. -/
def Handed (out : Option QuitIntent × List Label) : Deferral → Prop
  | .quit _  => out.1 ≠ none
  | .close l => l ∈ out.2

structure Docket.Balanced (d : Docket) : Prop where
  exclusive : d.queue.quit ≠ none → d.queue.closes = []
  /-- What waits in the queue is what waits on the tickets. -/
  closes    : ∀ label, label ∈ d.queue.closes ↔ Waits d.tickets label
  quit      : d.queue.quit = (waitingQuits d.tickets).head?
  since     : ∀ t ∈ d.tickets, t.since ≤ d.takes.length
  /-- A ticket that was handed out was so by a later `take_ready`. -/
  handed    : ∀ t ∈ d.tickets, ∀ n, t.fate = some (.taken n) →
    t.since ≤ n ∧ ∃ out, d.takes[n]? = some out ∧ Handed out t.what
  /-- What a `take_ready` handed out, it handed out once and for a ticket. -/
  taken     : ∀ n out, d.takes[n]? = some out → out.2.Nodup ∧
    (∀ label ∈ out.2, ∃ t ∈ d.tickets, t.what = .close label ∧ t.fate = some (.taken n)) ∧
    (∀ intent, out.1 = some intent → ∃ t ∈ d.tickets, t.what = .quit intent ∧ t.fate = some (.taken n))

variable {d : Docket}

/-- An operation that is no `take_ready`: tickets are retired or added, and none is handed out. -/
theorem Docket.Balanced.retire (h : d.Balanced) (queue : ArrivalQueue) (f : Deferral → Option Fate) (new : List Ticket)
    (hf : ∀ w n, f w ≠ some (.taken n)) (hnew : ∀ t ∈ new, t.since = d.takes.length ∧ ∀ n, t.fate ≠ some (.taken n))
    (hex : queue.quit ≠ none → queue.closes = [])
    (hcloses : ∀ label, label ∈ queue.closes ↔ Waits (d.tickets.map (.resolve f) ++ new) label)
    (hquit : queue.quit = (waitingQuits (d.tickets.map (.resolve f) ++ new)).head?) :
    Docket.Balanced ⟨queue, d.tickets.map (.resolve f) ++ new, d.takes⟩ := by
  refine ⟨hex, hcloses, hquit, fun t ht => ?_, fun t ht n hfate => ?_, fun n out hout => ?_⟩
  · rcases List.mem_append.mp ht with ht | ht
    · obtain ⟨t, ht', rfl⟩ := List.mem_map.mp ht
      rw [resolve_since]
      exact h.since t ht'
    · exact Nat.le_of_eq (hnew t ht).1
  · rcases List.mem_append.mp ht with ht | ht
    · obtain ⟨t, ht', rfl⟩ := List.mem_map.mp ht
      cases ho : t.fate with
      | none =>
        rw [resolve_waiting f ho] at hfate
        exact absurd hfate (hf _ _)
      | some fate =>
        rw [resolve_ended f ho] at hfate ⊢
        exact h.handed t ht' n hfate
    · exact absurd hfate ((hnew t ht).2 n)
  · obtain ⟨hn, hc, hq⟩ := h.taken n out hout
    refine ⟨hn, fun label hl => ?_, fun intent hi => ?_⟩
    · obtain ⟨t, ht, hw, hfate⟩ := hc label hl
      refine ⟨t, List.mem_append_left _ (List.mem_map.mpr ⟨t, ht, resolve_ended f hfate⟩), hw, hfate⟩
    · obtain ⟨t, ht, hw, hfate⟩ := hq intent hi
      refine ⟨t, List.mem_append_left _ (List.mem_map.mpr ⟨t, ht, resolve_ended f hfate⟩), hw, hfate⟩

theorem map_spared (tickets : List Ticket) : tickets.map (.resolve (fun _ => none)) = tickets := by
  have h : ∀ t ∈ tickets, t.resolve (fun _ => none) = t := by
    intro t _
    unfold Ticket.resolve
    split
    · rename_i hf
      cases t
      simp_all
    · rfl
  exact (List.map_congr_left h).trans (List.map_id' tickets)

theorem Docket.balanced_deferQuit (h : d.Balanced) (intent : QuitIntent) :
    (d.step (.deferQuit intent)).Balanced := by
  unfold step ArrivalQueue.deferQuit
  simp only
  by_cases hr : d.queue.records = []
  · rw [if_pos hr]
    exact h
  · rw [if_neg hr]
    refine h.retire _ absorbed [⟨.quit intent, d.takes.length, none⟩] (fun w n => ?_) (fun t ht => ?_) (fun _ => rfl)
      (fun label => ?_) ?_
    · cases w <;> simp [absorbed]
    · rw [List.mem_singleton.mp ht]
      exact ⟨rfl, fun n => by simp⟩
    · rw [waits_append, waits_resolve]
      simp [absorbed]
    · rw [waitingQuits_append, waitingQuits_spared (fun _ => rfl), h.quit]
      cases waitingQuits d.tickets <;> rfl

theorem Docket.balanced_deferClose (h : d.Balanced) (label : Label) :
    (d.step (.deferClose label)).Balanced := by
  unfold step ArrivalQueue.deferClose
  simp only
  by_cases he : d.queue.endpoint label = false
  · rw [if_pos he]
    exact h
  · rw [if_neg he]
    have hquit := h.quit
    by_cases hq : d.queue.quit = none
    · rw [if_pos hq]
      rw [hq] at hquit
      have hnone : waitingQuits d.tickets = [] := List.head?_eq_none_iff.mp hquit.symm
      simp only [if_pos hnone]
      have hb := h.retire { d.queue with closes := d.queue.closes.insert label, nodup := d.queue.nodup.insert }
        (fun _ => none) [⟨.close label, d.takes.length, none⟩]
      rw [map_spared] at hb
      refine hb (fun w n => by simp) (fun t ht => ?_) (fun hne => absurd hq hne) (fun l => ?_) ?_
      · rw [List.mem_singleton.mp ht]
        exact ⟨rfl, fun n => by simp⟩
      · rw [waits_append, ← h.closes]
        show l ∈ d.queue.closes.insert label ↔ _
        rw [List.mem_insert_iff, or_comm]
        simp [eq_comm]
      · rw [waitingQuits_append, hnone]
        exact hq
    · rw [if_neg hq]
      have hsome : waitingQuits d.tickets ≠ [] := fun hnil => hq (by rw [hquit, hnil]; rfl)
      simp only [if_neg hsome]
      have hb := h.retire d.queue (fun _ => none) [⟨.close label, d.takes.length, some .absorbed⟩]
      rw [map_spared] at hb
      refine hb (fun w n => by simp) (fun t ht => ?_) h.exclusive (fun l => ?_) ?_
      · rw [List.mem_singleton.mp ht]
        exact ⟨rfl, fun n => by simp⟩
      · rw [waits_append, ← h.closes]
        simp
      · rw [waitingQuits_append]
        show d.queue.quit = (waitingQuits d.tickets ++ []).head?
        rw [List.append_nil, hquit]

theorem Docket.balanced_cancelDeferred (h : d.Balanced) : (d.step .cancelDeferred).Balanced := by
  have hb := h.retire d.queue.cancelDeferred (fun _ => some .cancelled) []
  rw [List.append_nil] at hb
  refine hb (fun w n => by simp) (fun t ht => absurd ht List.not_mem_nil) (fun _ => rfl) (fun label => ?_) ?_
  · rw [waits_resolve]
    simp [ArrivalQueue.cancelDeferred]
  · rw [waitingQuits_ended (by simp)]
    rfl

theorem Docket.balanced_forgetDeferredClose (h : d.Balanced) (label : Label) :
    (d.step (.forgetDeferredClose label)).Balanced := by
  have hb := h.retire (d.queue.forgetDeferredClose label) (forgotten label) []
  rw [List.append_nil] at hb
  refine hb (fun w n => ?_) (fun t ht => absurd ht List.not_mem_nil) (fun hq => ?_) (fun l => ?_) ?_
  · cases w with
    | quit intent => simp [forgotten]
    | close l =>
      simp only [forgotten]
      split <;> simp
  · show d.queue.closes.erase label = []
    rw [h.exclusive hq]
    rfl
  · rw [waits_resolve, ← h.closes]
    show l ∈ d.queue.closes.erase label ↔ _
    rw [d.queue.nodup.mem_erase_iff, and_comm]
    simp [forgotten]
  · rw [waitingQuits_spared (fun _ => rfl)]
    exact h.quit

theorem mem_waitingQuits {tickets : List Ticket} {intent : QuitIntent} (h : intent ∈ waitingQuits tickets) :
    ∃ t ∈ tickets, t.what = .quit intent ∧ t.fate = none := by
  obtain ⟨t, ht, hi⟩ := List.mem_filterMap.mp h
  unfold Ticket.waitingQuit at hi
  split at hi
  · rename_i hw hf
    cases hi
    exact ⟨t, ht, hw, hf⟩
  · cases hi

variable {out : Option QuitIntent × List Label}

theorem takenBy_handed {n m : Nat} {w : Deferral} (h : takenBy n live out w = some (.taken m)) : m = n ∧ Handed out w := by
  cases w with
  | quit intent =>
    simp only [takenBy] at h
    split at h
    · rename_i hne
      cases h
      exact ⟨rfl, hne⟩
    · cases h
  | close l =>
    simp only [takenBy] at h
    split at h
    · rename_i hm
      cases h
      exact ⟨rfl, hm⟩
    · split at h <;> cases h

theorem takenBy_quit {n : Nat} (h : out.1 ≠ none) (intent : QuitIntent) :
    takenBy n live out (.quit intent) = some (.taken n) := if_pos h

theorem takenBy_close {n : Nat} (h : label ∈ out.2) : takenBy n live out (.close label) = some (.taken n) := if_pos h

theorem takenBy_close_none {n : Nat} :
    takenBy n live out (.close label) = none ↔ label ∈ live ∧ label ∉ out.2 := by
  simp only [takenBy]
  split
  · simp_all
  · split <;> simp_all

theorem Docket.balanced_takeReady (h : d.Balanced) (live : List Label) (it : Iteration) :
    (d.step (.takeReady live it)).Balanced := by
  have hspec := takeReady_spec d.queue live it
  show Docket.Balanced ⟨_, _, _⟩
  generalize d.queue.takeReady live it = out at hspec ⊢
  obtain ⟨hquit, hkept, hn, hready, hcloses, -⟩ := hspec
  have hlast : (d.takes ++ [out.2])[d.takes.length]? = some out.2 := List.getElem?_concat_length
  refine ⟨fun hq => ?_, fun label => ?_, ?_, fun t ht => ?_, fun t ht n hfate => ?_, fun n o ho => ?_⟩
  · have hq : d.queue.quit ≠ none := by
      rw [hkept] at hq
      split at hq
      · exact hq
      · exact absurd rfl hq
    refine List.eq_nil_iff_forall_not_mem.mpr (fun l hl => ?_)
    have := ((hcloses l).mp hl).1
    rw [h.exclusive hq] at this
    cases this
  · rw [waits_resolve, hcloses, h.closes, takenBy_close_none]
  · rw [hkept]
    split
    · rename_i hnone
      rw [waitingQuits_spared (fun intent => if_neg (not_not.mpr hnone)), h.quit]
    · rename_i hne
      rw [waitingQuits_ended (fun intent => by rw [takenBy_quit hne]; simp)]
      rfl
  · obtain ⟨t, ht', rfl⟩ := List.mem_map.mp ht
    rw [resolve_since, List.length_append]
    exact Nat.le_add_right_of_le (h.since t ht')
  · obtain ⟨t, ht', rfl⟩ := List.mem_map.mp ht
    cases hf : t.fate with
    | none =>
      rw [resolve_waiting _ hf] at hfate
      obtain ⟨rfl, hh⟩ := takenBy_handed hfate
      rw [resolve_since, resolve_what]
      exact ⟨h.since t ht', out.2, hlast, hh⟩
    | some fate =>
      rw [resolve_ended _ hf] at hfate ⊢
      obtain ⟨hs, o, ho, hh⟩ := h.handed t ht' n hfate
      have hlt := (List.getElem?_eq_some_iff.mp ho).1
      exact ⟨hs, o, by rw [List.getElem?_append_left hlt, ho], hh⟩
  · rcases Nat.lt_or_ge n d.takes.length with hlt | hge
    · rw [List.getElem?_append_left hlt] at ho
      obtain ⟨hn, hc, hq⟩ := h.taken n o ho
      refine ⟨hn, fun label hl => ?_, fun intent hi => ?_⟩
      · obtain ⟨t, ht, hw, hf⟩ := hc label hl
        exact ⟨t, List.mem_map.mpr ⟨t, ht, resolve_ended _ hf⟩, hw, hf⟩
      · obtain ⟨t, ht, hw, hf⟩ := hq intent hi
        exact ⟨t, List.mem_map.mpr ⟨t, ht, resolve_ended _ hf⟩, hw, hf⟩
    · have hlen := (List.getElem?_eq_some_iff.mp ho).1
      rw [List.length_append, List.length_singleton] at hlen
      obtain rfl : n = d.takes.length := by omega
      rw [hlast] at ho
      cases ho
      refine ⟨hn, fun label hl => ?_, fun intent hi => ?_⟩
      · obtain ⟨t, ht, hw, hf⟩ := (h.closes label).mp (hready label hl).1
        refine ⟨_, List.mem_map_of_mem ht, (resolve_what _ t).trans hw, ?_⟩
        rw [resolve_waiting _ hf, hw, takenBy_close hl]
      · have hhead : (waitingQuits d.tickets).head? = some intent := by rw [← h.quit, (hquit intent hi).1]
        obtain ⟨t, ht, hw, hf⟩ := mem_waitingQuits (List.mem_of_mem_head? hhead)
        refine ⟨_, List.mem_map_of_mem ht, (resolve_what _ t).trans hw, ?_⟩
        rw [resolve_waiting _ hf, hw, takenBy_quit (by rw [hi]; simp)]

theorem Docket.step_balanced (d : Docket) (op : ArrivalOp) (h : d.Balanced) : (d.step op).Balanced := by
  cases op with
  | push arrival => exact ⟨h.exclusive, h.closes, h.quit, h.since, h.handed, h.taken⟩
  | settle position => exact ⟨h.exclusive, h.closes, h.quit, h.since, h.handed, h.taken⟩
  | deferQuit intent => exact balanced_deferQuit h intent
  | deferClose label => exact balanced_deferClose h label
  | cancelDeferred => exact balanced_cancelDeferred h
  | forgetDeferredClose label => exact balanced_forgetDeferredClose h label
  | takeReady live it => exact balanced_takeReady h live it

theorem Docket.run_balanced (ops : List ArrivalOp) : (Docket.run ops).Balanced := by
  refine Steps.run_invariant (I := Docket.Balanced) (fun d op h => d.step_balanced op h) ops .fresh ?_
  refine ⟨fun _ => rfl, fun label => ?_, rfl, by simp [fresh], by simp [fresh], by simp [fresh]⟩
  simp [fresh, Waits]

structure Docket.Honest (d : Docket) : Prop where
  exclusive    : d.queue.quit ≠ none → d.queue.closes = []
  close_ready  : ∀ live it, ∀ l ∈ (d.queue.takeReady live it).2.2,
    l ∈ live ∧ ∀ a ∈ d.queue.records, a.from_ ≠ l ∧ a.to_ ≠ l
  quit_ready   : ∀ live it, (d.queue.takeReady live it).2.1 ≠ none → d.queue.records = []
  /-- The quit that is handed out is the first of those that were deferred and since then neither taken nor cancelled. -/
  first_intent : ∀ live it intent, (d.queue.takeReady live it).2.1 = some intent →
    (waitingQuits d.tickets).head? = some intent
  /-- A deferral that has not ended is handed out by a `take_ready` that finds nothing in its way. -/
  waiting      : ∀ t ∈ d.tickets, t.fate = none → ∀ live it,
    match t.what with
    | .quit _  => d.queue.records = [] → (d.queue.takeReady live it).2.1 ≠ none
    | .close l => l ∈ live → d.queue.endpoint l = false → l ∈ (d.queue.takeReady live it).2.2
  /-- One that ended as taken was handed out by that `take_ready`, after it was deferred. -/
  handed       : ∀ t ∈ d.tickets, ∀ n, t.fate = some (.taken n) →
    t.since ≤ n ∧ ∃ out, d.takes[n]? = some out ∧ Handed out t.what
  /-- And everything that was handed out is the end of a deferral. -/
  taken        : ∀ n out, d.takes[n]? = some out → out.2.Nodup ∧
    (∀ label ∈ out.2, ∃ t ∈ d.tickets, t.what = .close label ∧ t.fate = some (.taken n)) ∧
    (∀ intent, out.1 = some intent → ∃ t ∈ d.tickets, t.what = .quit intent ∧ t.fate = some (.taken n))

/-- **Every deferral is handed out once, or is retired**, in whatever order transfers settle and requests come. -/
theorem deferrals_handed_out_once (ops : List ArrivalOp) : (Docket.run ops).Honest := by
  have h := Docket.run_balanced ops
  generalize Docket.run ops = d at h ⊢
  refine ⟨h.exclusive, fun live it l hl => ?_, fun live it hne => ?_, fun live it intent hi => ?_,
    fun t ht hf live it => ?_, h.handed, h.taken⟩
  · obtain ⟨-, hlive, he⟩ := (takeReady_spec d.queue live it).ready l hl
    exact ⟨hlive, endpoint_false he⟩
  · obtain ⟨intent, hi⟩ := Option.ne_none_iff_exists'.mp hne
    exact ((takeReady_spec d.queue live it).quit intent hi).2
  · rw [← h.quit]
    exact ((takeReady_spec d.queue live it).quit intent hi).1
  · obtain ⟨hpq, hpc⟩ := (takeReady_spec d.queue live it).prompt
    cases hw : t.what with
    | quit intent =>
      have hmem : intent ∈ waitingQuits d.tickets :=
        List.mem_filterMap.mpr ⟨t, ht, by simp [Ticket.waitingQuit, hw, hf]⟩
      have hq : d.queue.quit ≠ none := by
        rw [h.quit, Ne, List.head?_eq_none_iff]
        exact List.ne_nil_of_mem hmem
      exact hpq hq
    | close l =>
      have hmem : l ∈ d.queue.closes := (h.closes l).mpr ⟨t, ht, hw, hf⟩
      have hq : d.queue.quit = none := by
        by_contra hq
        rw [h.exclusive hq] at hmem
        cases hmem
      exact hpc hq l hmem

end Quit
end Dormouse

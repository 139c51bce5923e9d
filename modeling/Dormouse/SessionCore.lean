import Dormouse.Js
import Dormouse.OrdMap
import Dormouse.Steps
/-!
# SessionCore — the requests of a Client's session (`session-core.ts`)

A `ClientSessionCore` has one session established at a time and keys its requests in flight by `requestId` alone, whatever
session they were sent on.  A response settles the request with its id; a send that fails rejects its request; `endSession`
rejects them all, and so does the owner's `rejectAll`.  `establish` disposes of the session before it, and rejects nothing.

`asked` has every request made, with its id and the session it was made on, and a promise is its place there; `settled` has
the promises settled, with what settled them.
-/
namespace Dormouse
namespace Client

/-- What becomes of `#sendApp` on an established session: every chunk went out, something threw, the Burrow is found to have
reaped the session, or a chunk was refused, which loses the Burrow and throws nothing. -/
inductive SendApp where
  | sent
  | throws
  | reaped
  | lost

/-- A message of the Burrow, as `#onMsg` reads it. -/
inductive RemoteMsg where
  | response (requestId : JsString) (ok : Bool)
  | event (subId : JsString)
  | other

inductive Cause where
  | response (session : Nat) (requestId : JsString) (ok : Bool)
  | sendFailure
  | sessionEnd (session : Option Nat)
  | rejectAll
deriving DecidableEq

/-- A subscription's handler is a number, which nothing here calls. -/
structure SessionCore where
  established : Option Nat
  sessions    : Nat
  pending     : OrdMap JsString Nat
  events      : OrdMap JsString Nat
  asked       : List (JsString × Option Nat)
  settled     : List (Nat × Cause)

inductive CoreEvent where
  | establish
  | request (requestId : JsString) (send : SendApp)
  | subscribe (subId : JsString) (onEvent : Nat) (send : SendApp)
  | unsubscribe (subId : JsString)
  /-- A message arrives on the session that is established. -/
  | message (msg : RemoteMsg)
  /-- The session's end, by the owner, by a goodbye, or by a message that does not decrypt. -/
  | endSession
  | disposeSession
  | rejectAll

namespace SessionCore

def start : SessionCore := ⟨none, 0, OrdMap.empty, OrdMap.empty, [], []⟩

def rejectPending (c : SessionCore) (cause : Cause) : SessionCore :=
  { c with pending := OrdMap.empty, settled := c.settled ++ c.pending.values.map (fun p => (p, cause)) }

def disposeSession (c : SessionCore) : SessionCore := { c with established := none }

def endSession (c : SessionCore) : SessionCore := c.disposeSession.rejectPending (.sessionEnd c.established)

def establish (c : SessionCore) : SessionCore :=
  { c.disposeSession with established := some c.sessions, sessions := c.sessions + 1 }

def settle (c : SessionCore) (requestId : JsString) (cause : Cause) : SessionCore :=
  match c.pending.get requestId with
  | none   => c
  | some p => { c with pending := c.pending.delete requestId, settled := c.settled ++ [(p, cause)] }

def ask (c : SessionCore) (requestId : JsString) : SessionCore :=
  { c with pending := c.pending.set requestId c.asked.length, asked := c.asked ++ [(requestId, c.established)] }

def request (c : SessionCore) (requestId : JsString) (send : SendApp) : SessionCore :=
  match c.established, send with
  | none, _         => (c.ask requestId).settle requestId .sendFailure
  | some _, .sent   => c.ask requestId
  | some _, .throws => (c.ask requestId).settle requestId .sendFailure
  | some _, .reaped => (c.ask requestId).endSession.settle requestId .sendFailure
  | some _, .lost   => (c.ask requestId).endSession

def onMsg (c : SessionCore) (session : Nat) : RemoteMsg → SessionCore
  | .response requestId ok => c.settle requestId (.response session requestId ok)
  | .event _               => c
  | .other                 => c

def step (c : SessionCore) : CoreEvent → SessionCore
  | .establish                    => c.establish
  | .request requestId send       => c.request requestId send
  | .subscribe subId onEvent send => { c with events := c.events.set subId onEvent }.request subId send
  | .unsubscribe subId            => { c with events := c.events.delete subId }
  | .message msg                  =>
    match c.established with
    | none         => c
    | some session => c.onMsg session msg
  | .endSession                   => c.endSession
  | .disposeSession               => c.disposeSession
  | .rejectAll                    => c.rejectPending .rejectAll

def run (events : List CoreEvent) : SessionCore := Steps.run step start events

def requestIdOf : CoreEvent → Option JsString
  | .request requestId _ => some requestId
  | .subscribe subId _ _ => some subId
  | _                    => none

/-- A request's id is not one of those in flight: callers draw them at random. -/
def FreshId (c : SessionCore) (ev : CoreEvent) : Prop := ∀ id, requestIdOf ev = some id → c.pending.get id = none

def NothingOwed (c : SessionCore) : CoreEvent → Prop
  | .establish      => c.pending.entries = []
  | .disposeSession => c.pending.entries = []
  | _               => True

/-! ## What settles a promise -/

def Asked (c : SessionCore) (p : Nat) (id : JsString) (session : Option Nat) : Prop := c.asked[p]? = some (id, session)

def SentOnCurrent (c : SessionCore) (p : Nat) : Prop := ∃ id s, c.Asked p id (some s) ∧ c.established = some s

/-- **What is to hold**: each request in flight was sent on the session established now, and each promise is settled once, by
a response with its id on its session, by a send failure or by its session's end. -/
structure NoneStranded (c : SessionCore) : Prop where
  current : ∀ id p, c.pending.get id = some p → c.SentOnCurrent p
  once : (c.settled.map Prod.fst).Nodup
  cause : ∀ p cause, (p, cause) ∈ c.settled → ∃ id session, c.Asked p id session ∧
    match cause with
    | .response s id' _ => id' = id ∧ some s = session
    | .sendFailure      => True
    | .sessionEnd s     => s = session
    | .rejectAll        => False

/-- A session is established over a request in flight; and the owner rejects what is in flight on a session that stays. -/
theorem establish_strands :
    ¬(run [.establish, .request [1] .sent, .establish]).NoneStranded ∧
      ¬(run [.establish, .request [1] .sent, .rejectAll]).NoneStranded := by
  constructor
  · intro h
    obtain ⟨id, s, hasked, hest⟩ := h.current [1] 0 rfl
    cases hasked
    cases hest
  · intro h
    obtain ⟨_, _, _, hcause⟩ := h.cause 0 .rejectAll (List.mem_singleton.2 rfl)
    exact hcause

end SessionCore

/-! ## What holds of every run -/

def Cause.FitsId (id : JsString) : Cause → Prop
  | .response _ id' _ => id' = id
  | _                 => True

/-- A cause that names the session of its request, if it names one. -/
def Cause.FitsSession (session : Option Nat) : Cause → Prop
  | .response s _ _ => some s = session
  | .sessionEnd s   => s = session
  | _               => True

namespace SessionCore

/-- Every promise is settled once, by a cause that fits its id, or in flight under its id. -/
structure Kept (c : SessionCore) : Prop where
  pending : ∀ id p, c.pending.get id = some p → (∃ s, c.Asked p id s) ∧ p ∉ c.settled.map Prod.fst
  all : ∀ p < c.asked.length, p ∈ c.settled.map Prod.fst ∨ ∃ id, c.pending.get id = some p
  once : (c.settled.map Prod.fst).Nodup
  cause : ∀ e ∈ c.settled, ∃ id s, c.Asked e.1 id s ∧ e.2.FitsId id

/-- The requests in flight are the established session's, and what settled one was its session's. -/
structure Owned (c : SessionCore) : Prop where
  current : ∀ id p, c.pending.get id = some p → c.SentOnCurrent p
  cause : ∀ e ∈ c.settled, ∃ id s, c.Asked e.1 id s ∧ e.2.FitsSession s

theorem kept_start : start.Kept := by
  constructor <;> simp [start]

theorem owned_start : start.Owned := by
  constructor <;> simp [start]

theorem Asked.unique {c : SessionCore} {p : Nat} {id id' : JsString} {s s' : Option Nat} (h : c.Asked p id s)
    (h' : c.Asked p id' s') : id = id' ∧ s = s' := by
  unfold Asked at h h'
  rw [h] at h'
  exact Prod.mk.inj (Option.some.inj h')

/-! ### One promise is settled -/

theorem Kept.settle {c : SessionCore} (h : c.Kept) {id : JsString} {cause : Cause} (hfit : cause.FitsId id) :
    (c.settle id cause).Kept := by
  unfold SessionCore.settle
  cases hget : c.pending.get id with
  | none => exact h
  | some p =>
    obtain ⟨⟨s, hasked⟩, hnew⟩ := h.pending id p hget
    dsimp only
    constructor
    · intro id' q hq
      dsimp only at hq
      rw [OrdMap.get_delete] at hq
      by_cases hid : id' = id
      · rw [if_pos hid] at hq
        cases hq
      · rw [if_neg hid] at hq
        obtain ⟨⟨s', hasked'⟩, hq'⟩ := h.pending id' q hq
        refine ⟨⟨s', hasked'⟩, fun hm => ?_⟩
        rw [List.map_append, List.map_singleton, List.mem_append, List.mem_singleton] at hm
        rcases hm with hm | rfl
        · exact hq' hm
        · exact hid (hasked'.unique hasked).1
    · intro q hq
      rw [List.map_append]
      rcases h.all q hq with hset | ⟨id', hid'⟩
      · exact .inl (List.mem_append_left _ hset)
      · by_cases hid : id' = id
        · rw [hid, hget] at hid'
          exact .inl (List.mem_append_right _ (List.mem_singleton.2 (Option.some.inj hid').symm))
        · exact .inr ⟨id', by dsimp only; rw [OrdMap.get_delete, if_neg hid]; exact hid'⟩
    · rw [List.map_append, List.map_singleton]
      refine List.nodup_append.2 ⟨h.once, List.nodup_singleton _, fun a ha b hb => ?_⟩
      rw [List.mem_singleton.1 hb]
      rintro rfl
      exact hnew ha
    · intro e he
      rcases List.mem_append.1 he with he | he
      · exact h.cause e he
      · rw [List.mem_singleton.1 he]
        exact ⟨id, s, hasked, hfit⟩

theorem Owned.settle {c : SessionCore} (h : c.Owned) {id : JsString} {cause : Cause}
    (hfit : ∀ s, c.established = some s → cause.FitsSession (some s)) : (c.settle id cause).Owned := by
  unfold SessionCore.settle
  cases hget : c.pending.get id with
  | none => exact h
  | some p =>
    refine ⟨fun id' q hq => ?_, fun e he => ?_⟩
    · dsimp only at hq
      rw [OrdMap.get_delete] at hq
      by_cases hid : id' = id
      · rw [if_pos hid] at hq
        cases hq
      · rw [if_neg hid] at hq
        exact h.current id' q hq
    · rcases List.mem_append.1 he with he | he
      · exact h.cause e he
      · obtain ⟨id', s, hasked, hest⟩ := h.current id p hget
        rw [List.mem_singleton.1 he]
        exact ⟨id', some s, hasked, hfit s hest⟩

/-! ### All of them are settled -/

theorem nodup_values {c : SessionCore} (h : c.Kept) : c.pending.values.Nodup := by
  unfold OrdMap.values
  refine List.Nodup.map_on ?_ (List.Nodup.of_map Prod.fst c.pending.nodup)
  rintro ⟨id, p⟩ he ⟨id', p'⟩ he' heq
  obtain ⟨⟨s, hasked⟩, -⟩ := h.pending id p (OrdMap.mem_entries.1 he)
  obtain ⟨⟨s', hasked'⟩, -⟩ := h.pending id' p' (OrdMap.mem_entries.1 he')
  dsimp only at heq
  subst heq
  rw [(hasked.unique hasked').1]

theorem Kept.rejectPending {c : SessionCore} (h : c.Kept) {cause : Cause} (hfit : ∀ id, cause.FitsId id) :
    (c.rejectPending cause).Kept := by
  have hmap : (c.rejectPending cause).settled.map Prod.fst = c.settled.map Prod.fst ++ c.pending.values := by
    simp [SessionCore.rejectPending, Function.comp_def]
  refine ⟨fun id p hp => by (cases hp), fun p hp => ?_, ?_, fun e he => ?_⟩
  · rw [hmap]
    rcases h.all p hp with hset | ⟨id, hid⟩
    · exact .inl (List.mem_append_left _ hset)
    · exact .inl (List.mem_append_right _ (OrdMap.mem_values.2 ⟨id, hid⟩))
  · rw [hmap]
    refine List.nodup_append.2 ⟨h.once, nodup_values h, fun a ha b hb => ?_⟩
    rintro rfl
    obtain ⟨id, hid⟩ := OrdMap.mem_values.1 hb
    exact (h.pending id a hid).2 ha
  · rcases List.mem_append.1 he with he | he
    · exact h.cause e he
    · obtain ⟨p, hp, rfl⟩ := List.mem_map.1 he
      obtain ⟨id, hid⟩ := OrdMap.mem_values.1 hp
      obtain ⟨⟨s, hasked⟩, -⟩ := h.pending id p hid
      exact ⟨id, s, hasked, hfit id⟩

theorem Owned.rejectPending {c : SessionCore} (h : c.Owned) {cause : Cause}
    (hfit : ∀ s, c.established = some s → cause.FitsSession (some s)) : (c.rejectPending cause).Owned := by
  refine ⟨fun id p hp => by (cases hp), fun e he => ?_⟩
  rcases List.mem_append.1 he with he | he
  · exact h.cause e he
  · obtain ⟨p, hp, rfl⟩ := List.mem_map.1 he
    obtain ⟨id, hid⟩ := OrdMap.mem_values.1 hp
    obtain ⟨id', s, hasked, hest⟩ := h.current id p hid
    exact ⟨id', some s, hasked, hfit s hest⟩

theorem Kept.endSession {c : SessionCore} (h : c.Kept) : c.endSession.Kept :=
  Kept.rejectPending (c := c.disposeSession) ⟨h.pending, h.all, h.once, h.cause⟩ (fun _ => trivial)

theorem Owned.endSession {c : SessionCore} (h : c.Owned) : c.endSession.Owned := by
  have hend : (c.rejectPending (.sessionEnd c.established)).Owned := h.rejectPending (fun _ hs => hs)
  exact ⟨fun id p hp => by (cases hp), hend.cause⟩

/-! ### A request is made -/

theorem Asked.ask {c : SessionCore} {p : Nat} {id : JsString} {s : Option Nat} (h : c.Asked p id s) (id' : JsString) :
    (c.ask id').Asked p id s := by
  unfold Asked SessionCore.ask
  rw [List.getElem?_append_left (List.getElem?_eq_some_iff.1 h).1]
  exact h

theorem asked_ask (c : SessionCore) (id : JsString) : (c.ask id).Asked c.asked.length id c.established := by
  simp [Asked, SessionCore.ask]

theorem Kept.ask {c : SessionCore} (h : c.Kept) {id : JsString} (hfresh : c.pending.get id = none) : (c.ask id).Kept := by
  have hbound : ∀ p ∈ c.settled.map Prod.fst, p < c.asked.length := by
    intro p hp
    obtain ⟨e, he, rfl⟩ := List.mem_map.1 hp
    obtain ⟨_, _, hasked, -⟩ := h.cause e he
    exact (List.getElem?_eq_some_iff.1 hasked).1
  refine ⟨fun id' p hp => ?_, fun p hp => ?_, h.once, fun e he => ?_⟩
  · have hp' : (c.pending.set id c.asked.length).get id' = some p := hp
    rw [OrdMap.get_set] at hp'
    by_cases hid : id' = id
    · rw [if_pos hid] at hp'
      cases hp'
      exact ⟨⟨c.established, hid ▸ asked_ask c id⟩, fun hm => Nat.lt_irrefl _ (hbound _ hm)⟩
    · rw [if_neg hid] at hp'
      obtain ⟨⟨s, hasked⟩, hnew⟩ := h.pending id' p hp'
      exact ⟨⟨s, hasked.ask id⟩, hnew⟩
  · have hp' : p < c.asked.length + 1 := by simpa [SessionCore.ask] using hp
    rcases Nat.lt_succ_iff_lt_or_eq.1 hp' with hlt | rfl
    · refine (h.all p hlt).imp (fun hset => hset) (fun ⟨id', hid'⟩ => ⟨id', ?_⟩)
      have hne : id' ≠ id := by
        rintro rfl
        rw [hfresh] at hid'
        cases hid'
      exact (OrdMap.get_set_ne _ _ hne).trans hid'
    · exact .inr ⟨id, OrdMap.get_set_self ..⟩
  · obtain ⟨id', s, hasked, hfit⟩ := h.cause e he
    exact ⟨id', s, hasked.ask id, hfit⟩

theorem Owned.ask {c : SessionCore} (h : c.Owned) {s : Nat} (hest : c.established = some s) (id : JsString) :
    (c.ask id).Owned := by
  refine ⟨fun id' p hp => ?_, fun e he => ?_⟩
  · have hp' : (c.pending.set id c.asked.length).get id' = some p := hp
    rw [OrdMap.get_set] at hp'
    by_cases hid : id' = id
    · rw [if_pos hid] at hp'
      cases hp'
      exact ⟨id, s, hest ▸ asked_ask c id, hest⟩
    · rw [if_neg hid] at hp'
      obtain ⟨i, t, hasked, ht⟩ := h.current id' p hp'
      exact ⟨i, t, hasked.ask id, ht⟩
  · obtain ⟨id', t, hasked, hfit⟩ := h.cause e he
    exact ⟨id', t, hasked.ask id, hfit⟩

theorem Kept.request {c : SessionCore} (h : c.Kept) {id : JsString} (hfresh : c.pending.get id = none) (send : SendApp) :
    (c.request id send).Kept := by
  have hask := h.ask hfresh
  have hfail : Cause.sendFailure.FitsId id := trivial
  unfold SessionCore.request
  split
  · exact hask.settle hfail
  · exact hask
  · exact hask.settle hfail
  · exact hask.endSession.settle hfail
  · exact hask.endSession

/-- A request that fails to send owes nothing; one that is sent is the established session's. -/
theorem Owned.request {c : SessionCore} (h : c.Owned) (id : JsString) (send : SendApp) : (c.request id send).Owned := by
  have hfail : ∀ s, Cause.sendFailure.FitsSession s := fun _ => trivial
  unfold SessionCore.request
  split
  · -- with no session nothing else is in flight, and this one is rejected at once
    rename_i hnone
    have hempty : ∀ id' p, c.pending.get id' ≠ some p := by
      intro id' p hp
      obtain ⟨_, s, -, hs⟩ := h.current id' p hp
      rw [hnone] at hs
      cases hs
    have hget : (c.ask id).pending.get id = some c.asked.length := OrdMap.get_set_self ..
    unfold SessionCore.settle
    rw [hget]
    refine ⟨fun id' p hp => ?_, fun e he => ?_⟩
    · have hp' : ((c.pending.set id c.asked.length).delete id).get id' = some p := hp
      rw [OrdMap.get_delete, OrdMap.get_set] at hp'
      by_cases hid : id' = id
      · rw [if_pos hid] at hp'
        cases hp'
      · rw [if_neg hid, if_neg hid] at hp'
        exact absurd hp' (hempty id' p)
    · rcases List.mem_append.1 he with he | he
      · obtain ⟨id', s, hasked, hfit⟩ := h.cause e he
        exact ⟨id', s, hasked.ask id, hfit⟩
      · rw [List.mem_singleton.1 he]
        exact ⟨id, c.established, asked_ask c id, hfail _⟩
  · rename_i s hest
    exact h.ask hest id
  · rename_i s hest
    exact (h.ask hest id).settle (fun _ _ => hfail _)
  · rename_i s hest
    exact (h.ask hest id).endSession.settle (fun _ _ => hfail _)
  · rename_i s hest
    exact (h.ask hest id).endSession

/-! ### Every run -/

theorem kept_step (c : SessionCore) (ev : CoreEvent) (hfresh : c.FreshId ev) (h : c.Kept) : (c.step ev).Kept := by
  cases ev with
  | establish => exact ⟨h.pending, h.all, h.once, h.cause⟩
  | request id send => exact h.request (hfresh id rfl) send
  | subscribe id onEvent send =>
    exact Kept.request (c := { c with events := c.events.set id onEvent }) ⟨h.pending, h.all, h.once, h.cause⟩
      (hfresh id rfl) send
  | unsubscribe id => exact ⟨h.pending, h.all, h.once, h.cause⟩
  | message msg =>
    simp only [step]
    split
    · exact h
    · cases msg with
      | response id ok => exact h.settle rfl
      | event id => exact h
      | other => exact h
  | endSession => exact h.endSession
  | disposeSession => exact ⟨h.pending, h.all, h.once, h.cause⟩
  | rejectAll => exact h.rejectPending (fun _ => trivial)

theorem owned_step (c : SessionCore) (ev : CoreEvent) (howed : c.NothingOwed ev) (h : c.Owned) : (c.step ev).Owned := by
  have hgone : c.pending.entries = [] → ∀ id p, c.pending.get id ≠ some p := by
    intro hempty id p hp
    have hmem := OrdMap.mem_entries.2 hp
    rw [hempty] at hmem
    cases hmem
  cases ev with
  | establish => exact ⟨fun id p hp => absurd hp (hgone howed id p), h.cause⟩
  | request id send => exact h.request id send
  | subscribe id onEvent send =>
    exact Owned.request (c := { c with events := c.events.set id onEvent }) ⟨h.current, h.cause⟩ id send
  | unsubscribe id => exact ⟨h.current, h.cause⟩
  | message msg =>
    simp only [step]
    split
    · exact h
    · rename_i s hest
      cases msg with
      | response id ok =>
        refine h.settle (fun t ht => ?_)
        rw [hest] at ht
        exact ht
      | event id => exact h
      | other => exact h
  | endSession => exact h.endSession
  | disposeSession => exact ⟨fun id p hp => absurd hp (hgone howed id p), h.cause⟩
  | rejectAll => exact h.rejectPending (fun _ _ => trivial)

/-- **The requests of a session core**, over every run whose ids are fresh.  A promise is settled at most once, and only by a
response with its id, a send failure, the end of a session or the owner's `rejectAll`; until then its request is in flight.
While no session gives way to another over requests in flight, those in flight were sent on the session established now,
and the response or the session's end that settles one is of the session it was sent on. -/
theorem requests_settled_once (events : List CoreEvent) (hfresh : Steps.Along step FreshId start events) :
    (((run events).settled.map Prod.fst).Nodup ∧
      (∀ p < (run events).asked.length, p ∈ (run events).settled.map Prod.fst ∨ ∃ id, (run events).pending.get id = some p) ∧
      ∀ p cause, (p, cause) ∈ (run events).settled → ∃ id s, (run events).Asked p id s ∧ cause.FitsId id) ∧
    (Steps.Along step NothingOwed start events →
      (∀ id p, (run events).pending.get id = some p → (run events).SentOnCurrent p) ∧
        ∀ p cause, (p, cause) ∈ (run events).settled → ∃ id s, (run events).Asked p id s ∧ cause.FitsSession s) := by
  have hkept : (run events).Kept := Steps.run_invariant_along (I := Kept) kept_step events start hfresh kept_start
  refine ⟨⟨hkept.once, hkept.all, fun p cause hm => hkept.cause _ hm⟩, fun howed => ?_⟩
  have howned : (run events).Owned := Steps.run_invariant_along (I := Owned) owned_step events start howed owned_start
  exact ⟨howned.current, fun p cause hm => howned.cause _ hm⟩

/-- One request is answered, and the next is cut off by the end of its session. -/
def answeredAndEnded : List CoreEvent :=
  [.establish, .request [1] .sent, .message (.response [1] true), .request [2] .sent, .endSession, .establish]

theorem requests_settled_once_answered :
    Steps.Along step FreshId start answeredAndEnded ∧ ((run answeredAndEnded).settled.map Prod.fst).Nodup ∧
      ∀ id p, (run answeredAndEnded).pending.get id = some p → (run answeredAndEnded).SentOnCurrent p := by
  have hfresh : Steps.Along step FreshId start answeredAndEnded := by
    refine ⟨?_, ?_, ?_, ?_, ?_, ?_, trivial⟩
    · simp [FreshId, requestIdOf]
    · rintro id ⟨⟩
      rfl
    · simp [FreshId, requestIdOf]
    · rintro id ⟨⟩
      rfl
    · simp [FreshId, requestIdOf]
    · simp [FreshId, requestIdOf]
  have howed : Steps.Along step NothingOwed start answeredAndEnded :=
    ⟨rfl, trivial, trivial, trivial, trivial, rfl, trivial⟩
  have h := requests_settled_once answeredAndEnded hfresh
  exact ⟨hfresh, h.1.1, (h.2 howed).1⟩

end SessionCore


end Client
end Dormouse

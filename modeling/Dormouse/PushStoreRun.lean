import Dormouse.PushCaps
/-!
# PushStoreRun — the subscriptions after any history

Whatever calls are made of a store and however their waits, failures and clock readings fall, its rows are what the calls
that returned make of them one after the other (`PromiseChain.serial`): one row for each Burrow and delivery, one endpoint
for each delivery, and after an upsert the caps.
-/
namespace Dormouse
namespace Relay
namespace PushStore

variable {Time : Type}

def removed (burrows : Option (List JsString)) (gone : StoredPushSubscription Time → Bool)
    (rows : List (StoredPushSubscription Time)) : List (StoredPushSubscription Time) :=
  let kept := (joinBurrows burrows rows).filter (fun s => !gone s)
  if kept.length = (joinBurrows burrows rows).length then rows else kept

def effect [LinearOrder Time] (burrows : Option (List JsString)) : PushOp → PushAnswer Time →
    List (StoredPushSubscription Time) →
    List (StoredPushSubscription Time)
  | .upsert _, .upserted stored _, rows    => upserted (joinBurrows burrows rows) stored
  | .removeDelivery deliveryId, _, rows    => removed burrows (fun s => s.deliveryId = deliveryId) rows
  | .removeEndpoints endpoints, _, rows    => removed burrows (fun s => s.endpoint ∈ endpoints) rows
  | .upsert _, .removed _, rows            => rows

def countsRemoved (burrows : Option (List JsString)) (gone : StoredPushSubscription Time → Bool)
    (rows : List (StoredPushSubscription Time)) (answer : PushAnswer Time) : Prop :=
  answer = .removed ((joinBurrows burrows rows).countP gone)

def answers [LinearOrder Time] (burrows : Option (List JsString)) : PushOp → List (StoredPushSubscription Time) →
    PushAnswer Time → Prop
  | .upsert record, rows, answer             => ∃ stored : StoredPushSubscription Time, stored.toPushRecord = record ∧
      answer = .upserted stored (endpointBurrowIds (upserted (joinBurrows burrows rows) stored) record)
  | .removeDelivery deliveryId, rows, answer => countsRemoved burrows (fun s => s.deliveryId = deliveryId) rows answer
  | .removeEndpoints endpoints, rows, answer => countsRemoved burrows (fun s => s.endpoint ∈ endpoints) rows answer

/-! ## Each call writes the rows only as its last act -/

section commits
variable {burrows : Option (List JsString)} {g : List (StoredPushSubscription Time)}
  {post : PushAnswer Time → List (StoredPushSubscription Time) → Prop}

theorem list_commits {next : List (StoredPushSubscription Time) × Time → PushCall Time (PushAnswer Time)}
    (h : ∀ now, (next (joinBurrows burrows g, now)).Commits PushDisk.rows g post) :
    (list burrows >>= next).Commits PushDisk.rows g post := by
  refine fun d hd => .inl ⟨hd, fun d' hd' => .inl ⟨hd', ?_⟩⟩
  subst hd
  exact h d'.now

theorem writeAtomic_commits {rows : List (StoredPushSubscription Time)} {a : PushAnswer Time} (h : post a rows) :
    (writeAtomic rows a).Commits PushDisk.rows g post :=
  fun _ hd => .inl ⟨hd, fun _ hd' => .inl ⟨hd', fun _ _ => .inr ⟨a, rfl, h⟩⟩⟩

theorem countP_gone (gone : StoredPushSubscription Time → Bool) (all : List (StoredPushSubscription Time)) :
    all.length - (all.filter (fun s => !gone s)).length = all.countP gone := by
  rw [← List.countP_eq_length_filter, List.length_eq_countP_add_countP gone]
  simp

theorem removeRows_commits (gone : StoredPushSubscription Time → Bool) :
    (removeRows burrows gone).Commits PushDisk.rows g
      (fun a rows => rows = removed burrows gone g ∧ countsRemoved burrows gone g a) := by
  refine list_commits fun now => ?_
  dsimp only
  have hcount := countP_gone gone (joinBurrows burrows g)
  unfold removed countsRemoved
  dsimp only
  by_cases heq : ((joinBurrows burrows g).filter (fun s => !gone s)).length = (joinBurrows burrows g).length
  · rw [if_pos heq, if_pos heq, ← hcount, heq, Nat.sub_self]
    exact ⟨rfl, rfl⟩
  · rw [if_neg heq, if_neg heq, ← hcount]
    exact writeAtomic_commits ⟨rfl, rfl⟩

end commits

theorem body_commits [LinearOrder Time] (burrows : Option (List JsString)) (op : PushOp)
    (g : List (StoredPushSubscription Time)) :
    (body burrows op).Commits PushDisk.rows g (fun a g' => g' = effect burrows op a g ∧ answers burrows op g a) := by
  cases op with
  | upsert record => exact list_commits fun now => writeAtomic_commits ⟨rfl, { record with subscribedAt := now }, rfl, rfl⟩
  | removeDelivery deliveryId => exact removeRows_commits _
  | removeEndpoints endpoints => exact removeRows_commits _

/-! ## One row for a Burrow and a delivery, one endpoint for a delivery -/

structure Tidy (rows : List (StoredPushSubscription Time)) : Prop where
  pairs : (rows.map (fun s => (s.burrowId, s.deliveryId))).Nodup
  endpoints : ∀ r ∈ rows, ∀ r' ∈ rows, r.deliveryId = r'.deliveryId → r.endpoint = r'.endpoint

theorem Tidy.sublist {rows rows' : List (StoredPushSubscription Time)} (h : Tidy rows) (hs : rows'.Sublist rows) :
    Tidy rows' where
  pairs := h.pairs.sublist (hs.map _)
  endpoints := fun r hr r' hr' => h.endpoints r (hs.subset hr) r' (hs.subset hr')

theorem joinBurrows_sublist (burrows : Option (List JsString)) (rows : List (StoredPushSubscription Time)) :
    (joinBurrows burrows rows).Sublist rows := by
  cases burrows with
  | none => exact List.Sublist.refl _
  | some ids => exact List.filter_sublist

theorem Tidy.notReplaced [LinearOrder Time] {all : List (StoredPushSubscription Time)} (h : Tidy all)
    (stored : StoredPushSubscription Time) :
    Tidy (notReplaced all stored.toPushRecord ++ [stored]) := by
  have hmem : ∀ r ∈ PushStore.notReplaced all stored.toPushRecord, r ∈ all ∧
      ¬(r.burrowId = stored.burrowId ∧ r.deliveryId = stored.deliveryId) ∧
      (r.deliveryId = stored.deliveryId → r.endpoint = stored.endpoint) := by
    intro r hr
    simp only [PushStore.notReplaced, List.mem_filter, decide_eq_true_eq] at hr
    refine ⟨hr.1, hr.2.1, fun hd => ?_⟩
    by_contra hne
    exact hr.2.2 (List.mem_map.2 ⟨r, by simp [hr.1, hd, hne], rfl⟩)
  have hrest : Tidy (PushStore.notReplaced all stored.toPushRecord) := h.sublist List.filter_sublist
  constructor
  · rw [List.map_append, List.map_singleton]
    refine List.nodup_append.2 ⟨hrest.pairs, List.nodup_singleton _, ?_⟩
    intro p hp q hq heq
    obtain ⟨r, hr, rfl⟩ := List.mem_map.1 hp
    rw [List.mem_singleton.1 hq] at heq
    exact (hmem r hr).2.1 ⟨congrArg Prod.fst heq, congrArg Prod.snd heq⟩
  · intro r hr r' hr' hd
    rcases List.mem_append.1 hr with hr | hr <;> rcases List.mem_append.1 hr' with hr' | hr'
    · exact hrest.endpoints r hr r' hr' hd
    · rw [List.mem_singleton.1 hr'] at hd ⊢
      exact (hmem r hr).2.2 hd
    · rw [List.mem_singleton.1 hr] at hd ⊢
      exact ((hmem r' hr').2.2 hd.symm).symm
    · rw [List.mem_singleton.1 hr, List.mem_singleton.1 hr']

theorem Tidy.removed {rows : List (StoredPushSubscription Time)} (h : Tidy rows) (burrows : Option (List JsString))
    (gone : StoredPushSubscription Time → Bool) : Tidy (removed burrows gone rows) := by
  unfold PushStore.removed
  dsimp only
  split
  · exact h
  · exact h.sublist (List.filter_sublist.trans (joinBurrows_sublist burrows rows))

theorem Tidy.effect [LinearOrder Time] {rows : List (StoredPushSubscription Time)} (h : Tidy rows)
    (burrows : Option (List JsString))
    (op : PushOp) (a : PushAnswer Time) : Tidy (effect burrows op a rows) := by
  cases op with
  | upsert record =>
    cases a with
    | upserted stored ids =>
      exact ((h.sublist (joinBurrows_sublist burrows rows)).notReplaced stored).sublist (capSubscriptions_spec _ _).sublist
    | removed n => exact h
  | removeDelivery deliveryId => exact h.removed burrows _
  | removeEndpoints endpoints => exact h.removed burrows _

theorem Tidy.outcome [LinearOrder Time] (burrows : Option (List JsString)) :
    ∀ (settled : List (PushOp × Except Unit (PushAnswer Time))) {rows : List (StoredPushSubscription Time)}, Tidy rows →
      Tidy (PromiseChain.outcome (PushStore.effect burrows) rows settled)
  | [], _, h => h
  | (op, .ok a) :: settled, _, h => Tidy.outcome burrows settled (h.effect burrows op a)
  | (_, .error _) :: settled, _, h => Tidy.outcome burrows settled h

/-! ## What a call that returned leaves behind -/

/-- What an upsert leaves of the rows it found, and what it answers. -/
structure Upserts [LinearOrder Time] (burrows : Option (List JsString)) (record : PushRecord)
    (before : List (StoredPushSubscription Time))
    (stored : StoredPushSubscription Time) (ids : List JsString) (after : List (StoredPushSubscription Time)) : Prop where
  own : stored.toPushRecord = record ∧ stored ∈ after
  total : after.length ≤ maxPushSubscriptionsTotal
  perBurrow : ∀ b, burrowCount after b ≤ maxPushSubscriptionsPerBurrow
  /-- Only the enrolled rows found, less those the record replaces, are left or evicted. -/
  sublist : after.Sublist (notReplaced (joinBurrows burrows before) record ++ [stored])
  evicted : ∀ d ∈ notReplaced (joinBurrows burrows before) record, d ∉ after → ∀ r ∈ after, r ≠ stored →
    r.burrowId = d.burrowId → d.subscribedAt ≤ r.subscribedAt
  ids : ids.Nodup ∧ ∀ b, b ∈ ids ↔
    ∃ r ∈ after, r.endpoint = record.endpoint ∧ r.vapidPublicKey = record.vapidPublicKey ∧ r.burrowId = b

/-- What removing the rows of a kind leaves of the enrolled rows it found, and what it answers. -/
structure Removes (burrows : Option (List JsString)) (gone : StoredPushSubscription Time → Bool)
    (before : List (StoredPushSubscription Time)) (answer : PushAnswer Time) (after : List (StoredPushSubscription Time)) :
    Prop where
  rows : joinBurrows burrows after = (joinBurrows burrows before).filter (fun s => !gone s)
  count : answer = .removed ((joinBurrows burrows before).countP gone)

def Leaves [LinearOrder Time] (burrows : Option (List JsString)) (before : List (StoredPushSubscription Time)) (op : PushOp)
    (answer : PushAnswer Time) (after : List (StoredPushSubscription Time)) : Prop :=
  match op with
  | .upsert record             => ∃ stored ids, answer = .upserted stored ids ∧ Upserts burrows record before stored ids after
  | .removeDelivery deliveryId => Removes burrows (fun s => s.deliveryId = deliveryId) before answer after
  | .removeEndpoints endpoints => Removes burrows (fun s => s.endpoint ∈ endpoints) before answer after

theorem nodup_eraseDups {α : Type} [BEq α] [LawfulBEq α] : ∀ l : List α, l.eraseDups.Nodup
  | [] => by simp
  | a :: l => by
    have hshort : (l.filter (fun b => !b == a)).length < (a :: l).length :=
      Nat.lt_succ_of_le (List.length_filter_le _ _)
    rw [List.eraseDups_cons, List.nodup_cons, List.mem_eraseDups]
    exact ⟨fun h => by simp at h, nodup_eraseDups (l.filter (fun b => !b == a))⟩
termination_by l => l.length
decreasing_by exact hshort

theorem upserted_upserts [LinearOrder Time] (burrows : Option (List JsString)) (before : List (StoredPushSubscription Time))
    (stored : StoredPushSubscription Time) :
    Upserts burrows stored.toPushRecord before stored
      (endpointBurrowIds (upserted (joinBurrows burrows before) stored) stored.toPushRecord)
      (upserted (joinBurrows burrows before) stored) := by
  have hcaps := capSubscriptions_spec (notReplaced (joinBurrows burrows before) stored.toPushRecord) stored
  refine ⟨⟨rfl, hcaps.stays⟩, hcaps.total, hcaps.perBurrow, hcaps.sublist, hcaps.oldest, nodup_eraseDups _, fun b => ?_⟩
  rw [endpointBurrowIds, List.mem_eraseDups, List.mem_map]
  constructor
  · rintro ⟨r, hr, rfl⟩
    obtain ⟨hr, hkey⟩ := List.mem_filter.1 hr
    obtain ⟨he, hv⟩ := of_decide_eq_true hkey
    exact ⟨r, hr, he, hv, rfl⟩
  · rintro ⟨r, hr, he, hv, rfl⟩
    exact ⟨r, List.mem_filter.2 ⟨hr, decide_eq_true ⟨he, hv⟩⟩, rfl⟩

theorem joinBurrows_idem (burrows : Option (List JsString)) (rows : List (StoredPushSubscription Time))
    (p : StoredPushSubscription Time → Bool) :
    joinBurrows burrows ((joinBurrows burrows rows).filter p) = (joinBurrows burrows rows).filter p := by
  cases burrows with
  | none => rfl
  | some ids =>
    simp only [joinBurrows, List.filter_filter]
    refine List.filter_congr fun s _ => ?_
    by_cases h : s.burrowId ∈ ids <;> simp [h]

theorem removed_removes (burrows : Option (List JsString)) (gone : StoredPushSubscription Time → Bool)
    {before : List (StoredPushSubscription Time)} {answer : PushAnswer Time} (h : countsRemoved burrows gone before answer) :
    Removes burrows gone before answer (removed burrows gone before) := by
  refine ⟨?_, h⟩
  unfold removed
  dsimp only
  by_cases heq : ((joinBurrows burrows before).filter (fun s => !gone s)).length = (joinBurrows burrows before).length
  · rw [if_pos heq]
    exact (List.filter_sublist.eq_of_length heq).symm
  · rw [if_neg heq]
    exact joinBurrows_idem burrows before _

/-- **A call leaves behind what it should**, if it answered what it should. -/
theorem leaves_effect [LinearOrder Time] {burrows : Option (List JsString)}
    {before : List (StoredPushSubscription Time)} {op : PushOp}
    {answer : PushAnswer Time} (h : answers burrows op before answer) :
    Leaves burrows before op answer (effect burrows op answer before) := by
  cases op with
  | upsert record =>
    obtain ⟨stored, rfl, rfl⟩ := h
    exact ⟨stored, _, rfl, upserted_upserts burrows before stored⟩
  | removeDelivery deliveryId => exact removed_removes burrows _ h
  | removeEndpoints endpoints => exact removed_removes burrows _ h

/-! ## Every history -/

/-- A store with no rows: its file is not there yet, or it is `[]`. -/
def noRows (present : Bool) (now : Time) : PushStore Time :=
  PromiseChain.start ⟨if present then some [] else none, now⟩

/-- **The subscriptions after any history** of calls, waits, failures and clock readings, over a fixed set of enrolled
Burrows.  There is one row for a Burrow and a delivery and one endpoint for a delivery; the rows are what the calls that
returned make of no rows, in the order they were made, and each of them leaves behind what it should of the rows it
found. -/
theorem subscriptions_after [LinearOrder Time] (burrows : Option (List JsString)) (present : Bool) (now : Time)
    (events : List (PushEvent Time)) :
    let c := Steps.run (step burrows) (noRows present now) events
    (c.shared.rows.map (fun s => (s.burrowId, s.deliveryId))).Nodup ∧
      (∀ r ∈ c.shared.rows, ∀ r' ∈ c.shared.rows, r.deliveryId = r'.deliveryId → r.endpoint = r'.endpoint) ∧
      c.settled.map Prod.fst ++ c.queue.map Prod.fst = PromiseChain.calls events ∧
      c.shared.rows = PromiseChain.outcome (effect burrows) [] c.settled ∧
      ∀ earlier op answer later, c.settled = earlier ++ (op, .ok answer) :: later →
        Leaves burrows (PromiseChain.outcome (effect burrows) [] earlier) op answer
          (PromiseChain.outcome (effect burrows) [] (earlier ++ [(op, .ok answer)])) := by
  intro c
  have hstart : (⟨if present then some [] else none, now⟩ : PushDisk Time).rows = [] := by
    cases present <;> rfl
  have hserial : PromiseChain.Serial (body burrows) PushDisk.rows (effect burrows) (answers burrows) [] c :=
    PromiseChain.serial (body_commits burrows) (show ∀ t d, PushDisk.rows (setClock t d) = d.rows from fun _ _ => rfl) hstart
      events
  have htidy : Tidy c.shared.rows := by
    rw [hserial.reading]
    exact Tidy.outcome burrows c.settled ⟨List.nodup_nil, by simp⟩
  refine ⟨htidy.pairs, htidy.endpoints, ?_, hserial.reading, ?_⟩
  · exact PromiseChain.calls_run (body burrows) setClock events (noRows present now)
  · intro earlier op answer later hsplit
    rw [PromiseChain.outcome_concat]
    exact leaves_effect (hserial.answered earlier _ later hsplit answer rfl)

end PushStore
end Relay
end Dormouse

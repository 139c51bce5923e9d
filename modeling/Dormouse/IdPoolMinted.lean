import Dormouse.IdPoolRun
/-!
# IdPoolMinted — what every run of the pool keeps

The ids handed out and made are all distinct (`Sourced`), so the places of `IdPoolRun` never hold one twice; the pool and
the bursts hold ids of their hosts (`Stocked`); and a refill asks for no more than there is room for (`Sized`).
-/
namespace Dormouse
namespace IdPool

variable {o : IdPoolOptions} {uuid : Nat → JsString}

/-! ## Every id has one source -/

/-- **The ids handed out, and those the page made, are all distinct**; the page counts by itself before the first host only. -/
structure Sourced (o : IdPoolOptions) (uuid : Nat → JsString) (s : Pool) : Prop where
  handed  : (s.handed.map Prod.snd).Nodup
  made    : s.made.Nodup
  apart   : ∀ id ∈ s.made, id ∉ s.handed.map Prod.snd
  own     : ∀ id ∈ s.made, (∃ n ≤ s.localSequence, id = o.idFor (.inl n)) ∨ ∃ k < s.uuids, id = o.idFor (.inr (uuid k))
  random  : ∀ id ∈ s.handed.map Prod.snd, ∀ k, id ≠ o.idFor (.inr (uuid k))
  alone   : s.reserveIds = none → s.handed = [] ∧ s.fills = .empty ∧ s.minters = []

namespace Sourced

theorem createIdPool : Sourced o uuid (createIdPool o) where
  handed := List.nodup_nil
  made := List.nodup_nil
  apart := fun _ h => by cases h
  own := fun _ h => by cases h
  random := fun _ h => by cases h
  alone := fun _ => ⟨rfl, rfl, rfl⟩

/-- Only what was handed out and made matters, and that the page is alone where it has no host. -/
theorem congr {s s' : Pool} (h : Sourced o uuid s) (hhanded : s'.handed = s.handed) (hmade : s'.made = s.made)
    (hlocal : s.localSequence ≤ s'.localSequence) (huuids : s'.uuids = s.uuids)
    (halone : s'.reserveIds = none → s.reserveIds = none ∧ s'.fills = s.fills ∧ s'.minters = s.minters) :
    Sourced o uuid s' where
  handed := hhanded ▸ h.handed
  made := hmade ▸ h.made
  apart := by rw [hhanded, hmade]; exact h.apart
  own := fun id hid => by
    rw [huuids]
    refine (h.own id (hmade ▸ hid)).imp ?_ (fun hk => hk)
    rintro ⟨n, hn, rfl⟩
    exact ⟨n, hn.trans hlocal, rfl⟩
  random := by rw [hhanded]; exact h.random
  alone := fun hnone => by
    obtain ⟨hnone', hfills, hminters⟩ := halone hnone
    rw [hhanded, hfills, hminters]
    exact h.alone hnone'

theorem make_local {s : Pool} (h : Sourced o uuid s) (hf : Fallbacks o uuid) (hnone : s.reserveIds = none) :
    Sourced o uuid (make { s with localSequence := s.localSequence + 1 } (o.idFor (.inl (s.localSequence + 1)))).2 := by
  have hnew : o.idFor (.inl (s.localSequence + 1)) ∉ s.made := by
    intro hmem
    rcases h.own _ hmem with ⟨n, hn, heq⟩ | ⟨k, -, heq⟩
    · have := hf.numbered heq
      omega
    · exact hf.apart _ _ heq
  constructor
  · exact h.handed
  · exact (List.nodup_append.2 ⟨h.made, List.nodup_singleton _, fun a ha b hb => by
      rw [List.mem_singleton.1 hb]; rintro rfl; exact hnew ha⟩)
  · intro id _
    rw [show (make { s with localSequence := s.localSequence + 1 } _).2.handed = [] from (h.alone hnone).1]
    simp
  · intro id hid
    rcases List.mem_append.1 hid with hid | hid
    · refine (h.own id hid).imp ?_ (fun hk => hk)
      rintro ⟨n, hn, rfl⟩
      exact ⟨n, Nat.le_succ_of_le hn, rfl⟩
    · exact .inl ⟨s.localSequence + 1, Nat.le_refl _, List.mem_singleton.1 hid⟩
  · exact h.random
  · exact h.alone

theorem make_random {s : Pool} (h : Sourced o uuid s) (hf : Fallbacks o uuid) :
    Sourced o uuid (make { s with uuids := s.uuids + 1 } (o.idFor (.inr (uuid s.uuids)))).2 := by
  have hnew : o.idFor (.inr (uuid s.uuids)) ∉ s.made := by
    intro hmem
    rcases h.own _ hmem with ⟨n, -, heq⟩ | ⟨k, hk, heq⟩
    · exact hf.apart _ _ heq.symm
    · have := hf.random heq
      omega
  constructor
  · exact h.handed
  · exact (List.nodup_append.2 ⟨h.made, List.nodup_singleton _, fun a ha b hb => by
      rw [List.mem_singleton.1 hb]; rintro rfl; exact hnew ha⟩)
  · intro id hid
    rcases List.mem_append.1 hid with hid | hid
    · exact h.apart id hid
    · intro hmem
      exact h.random id hmem s.uuids (List.mem_singleton.1 hid)
  · intro id hid
    rcases List.mem_append.1 hid with hid | hid
    · refine (h.own id hid).imp (fun hn => hn) ?_
      rintro ⟨k, hk, rfl⟩
      exact ⟨k, Nat.lt_succ_of_lt hk, rfl⟩
    · exact .inr ⟨s.uuids, Nat.lt_succ_self _, List.mem_singleton.1 hid⟩
  · exact h.random
  · exact h.alone

theorem draw {s : Pool} (h : Sourced o uuid s) (hf : Fallbacks o uuid) : Sourced o uuid (draw o uuid s).2 := by
  have hnext : Sourced o uuid (next o uuid s).2 := by
    rcases next_cases o uuid s with ⟨hnone, heq⟩ | ⟨hhost, fills, refilling, requests, ⟨id, ids, -, heq⟩ | ⟨-, heq⟩⟩
    · rw [heq]
      exact h.make_local hf hnone
    · rw [heq]
      exact h.congr rfl rfl (Nat.le_refl _) rfl (fun hnone => absurd hnone hhost)
    · rw [heq]
      have hkept : Sourced o uuid { s with ids := [], fills := fills, refilling := refilling, requests := requests } :=
        h.congr rfl rfl (Nat.le_refl _) rfl (fun hnone => absurd hnone hhost)
      exact hkept.make_random hf
  exact hnext.congr rfl rfl (Nat.le_refl _) rfl (fun hnone => ⟨hnone, rfl, rfl⟩)

theorem drawBurst {p : List Id × Pool} (h : Sourced o uuid p.2) (hf : Fallbacks o uuid) :
    Sourced o uuid (drawBurst o uuid p).2.2 := by
  obtain ⟨ids, s⟩ := p
  cases ids with
  | nil => exact h.draw hf
  | cons id rest => exact h.congr rfl rfl (Nat.le_refl _) rfl (fun hnone => ⟨hnone, rfl, rfl⟩)

theorem hand {s : Pool} (h : Sourced o uuid s) (reserve : Nat) {request : Nat} {block : Option (List Id)}
    (hhost : s.reserveIds ≠ none) (hdistinct : Distinct o uuid s (.answer request block)) : Sourced o uuid
    (hand s reserve block) := by
  cases block with
  | none => exact h.congr (by simp [IdPool.hand]) rfl (Nat.le_refl _) rfl (fun hnone => absurd hnone hhost)
  | some block =>
    have hids : ((IdPool.hand s reserve (some block)).handed.map Prod.snd) = s.handed.map Prod.snd ++ block := by
      simp [IdPool.hand, Function.comp_def]
    obtain ⟨hnodup, hnew⟩ := hdistinct
    constructor
    · rw [hids]
      exact List.nodup_append.2 ⟨h.handed, hnodup, fun a ha b hb heq => (hnew b hb).1 (heq ▸ ha)⟩
    · exact h.made
    · intro id hid
      rw [hids, List.mem_append]
      rintro (hmem | hmem)
      · exact h.apart id hid hmem
      · exact (hnew id hmem).2.1 hid
    · exact h.own
    · intro id hid
      rw [hids, List.mem_append] at hid
      rcases hid with hid | hid
      · exact h.random id hid
      · exact (hnew id hid).2.2
    · exact fun hnone => absurd hnone hhost

theorem takePooled {s : Pool} (h : Sourced o uuid s) (n : Nat) : Sourced o uuid (takePooled o n s).2 := by
  induction n generalizing s with
  | zero => exact h
  | succ n ih =>
    obtain ⟨fills, refilling, requests, htake, hfills⟩ := take_eq o s
    cases hids : s.ids with
    | nil =>
      simp only [IdPool.takePooled, htake, hids, List.head?_nil]
      exact h
    | cons id ids =>
      simp only [IdPool.takePooled, htake, hids, List.head?_cons, List.tail_cons]
      exact ih (h.congr rfl rfl (Nat.le_refl _) rfl (fun hnone => ⟨hnone, hfills hnone, rfl⟩))

theorem resolve {s : Pool} (h : Sourced o uuid s) (count : Nat) (reserved : List Id) (kept : Bool) :
    Sourced o uuid (resolve o s count reserved kept) :=
  (h.takePooled (count - reserved.length)).congr rfl rfl (Nat.le_refl _) rfl (fun hnone => ⟨hnone, rfl, rfl⟩)

theorem reserveRest {s : Pool} (h : Sourced o uuid s) (count reserve : Nat) (reserved : List Id) (kept : Bool) :
    Sourced o uuid (reserveRest o s count reserve reserved kept) := by
  unfold IdPool.reserveRest
  split
  · next hloop =>
    exact h.congr rfl rfl (Nat.le_refl _) rfl (fun hnone => by rw [hloop.1] at hnone; cases hnone)
  · exact h.resolve count reserved kept

theorem resume {s : Pool} (h : Sourced o uuid s) (m : Minter) (block : Option (List Id)) :
    Sourced o uuid (resume o s m block) := by
  unfold IdPool.resume
  cases block with
  | none => exact h.resolve _ _ _
  | some block =>
    simp only
    split
    · exact h.resolve _ _ _
    · exact h.reserveRest _ _ _ _

theorem refill {s : Pool} (h : Sourced o uuid s) : Sourced o uuid (refill o s) := by
  obtain ⟨fills, refilling, requests, heq, hfills⟩ := refill_eq o s
  rw [heq]
  exact h.congr rfl rfl (Nat.le_refl _) rfl (fun hnone => ⟨hnone, hfills hnone, rfl⟩)

theorem install {s : Pool} (h : Sourced o uuid s) (reserve : Nat) (first : Bool) :
    Sourced o uuid (install o s reserve first) := by
  have hreplaced : Sourced o uuid (replaceHost s reserve) :=
    h.congr rfl rfl (Nat.le_refl _) rfl (fun hnone => by cases hnone)
  unfold IdPool.install
  cases first with
  | true => exact hreplaced.congr rfl rfl (Nat.le_refl _) rfl (fun hnone => by cases hnone)
  | false => exact hreplaced.refill

theorem answer {s : Pool} (h : Sourced o uuid s) (request : Nat) {block : Option (List Id)}
    (hdistinct : Distinct o uuid s (.answer request block)) : Sourced o uuid (answer o s request block) := by
  unfold IdPool.answer
  cases hfill : s.fills.get request with
  | some f =>
    simp only
    split
    · exact h
    · have hhost : s.reserveIds ≠ none := fun hnone => by
        rw [(h.alone hnone).2.1] at hfill
        cases hfill
      exact (h.hand f.reserve hhost hdistinct).congr rfl rfl (Nat.le_refl _) rfl (fun hnone => absurd hnone hhost)
  | none =>
    simp only
    cases hfind : s.minters.find? (fun m => m.request = request) with
    | none => exact h
    | some m =>
      have hhost : s.reserveIds ≠ none := fun hnone => by
        rw [(h.alone hnone).2.2] at hfind
        cases hfind
      refine Sourced.resume ?_ m block
      exact (h.hand m.reserve hhost hdistinct).congr rfl rfl (Nat.le_refl _) rfl (fun hnone => absurd hnone hhost)

theorem settle {s : Pool} (h : Sourced o uuid s) (request : Nat) : Sourced o uuid (settle s request) := by
  unfold IdPool.settle
  cases hfill : s.fills.get request with
  | none => exact h
  | some f =>
    simp only
    split
    · refine h.congr rfl rfl (Nat.le_refl _) rfl (fun hnone => ?_)
      rw [(h.alone hnone).2.1] at hfill
      cases hfill
    · exact h

theorem mint {s : Pool} (h : Sourced o uuid s) (hf : Fallbacks o uuid) (inUse : List Id) :
    Sourced o uuid (mint o uuid s inUse).2 := by
  have hinv := unused_invariant (IdPool.draw o uuid) (I := Sourced o uuid) inUse (fun s' hs => hs.draw hf)
    (tries inUse s.ids) s h
  unfold IdPool.mint
  exact hinv.congr rfl rfl (Nat.le_refl _) rfl (fun hnone => ⟨hnone, rfl, rfl⟩)

theorem mintBurst {s : Pool} (h : Sourced o uuid s) (hf : Fallbacks o uuid) (b : Nat) (inUse : List Id) :
    Sourced o uuid (mintBurst o uuid s b inUse) := by
  unfold IdPool.mintBurst
  cases hburst : s.bursts[b]? with
  | none => exact h
  | some burst =>
    have hinv := unused_invariant (IdPool.drawBurst o uuid) (I := fun p => Sourced o uuid p.2) inUse
      (fun p hp => hp.drawBurst hf) (tries inUse (burst.ids ++ s.ids)) (burst.ids, s) h
    exact hinv.congr rfl rfl (Nat.le_refl _) rfl (fun hnone => ⟨hnone, rfl, rfl⟩)

/-- **Every step keeps the sources apart**, if the ids a host hands out are new. -/
theorem step {s : Pool} (h : Sourced o uuid s) (hf : Fallbacks o uuid) (e : Event) (hdistinct : Distinct o uuid s e) :
    Sourced o uuid (step o uuid s e) := by
  cases e with
  | install reserve first => exact h.install reserve first
  | mint inUse => exact h.mint hf inUse
  | seed n => exact h.congr rfl rfl (Nat.le_max_left _ _) rfl (fun hnone => ⟨hnone, rfl, rfl⟩)
  | minter count =>
    show Sourced o uuid (IdPool.minter o s count)
    unfold IdPool.minter
    split
    · exact h.resolve _ _ _
    · exact h.reserveRest _ _ _ _
  | answer request block => exact h.answer request hdistinct
  | settle request => exact h.settle request
  | mintBurst b inUse => exact h.mintBurst hf b inUse

end Sourced

def Accounted (s : Pool) : Prop := ∀ x, held s x ≤ sourced s x

theorem accounted_step {s : Pool} (h : Accounted s) (e : Event) : Accounted (step o uuid s e) := fun x => by
  have := h x
  have := step_moves o uuid s e x
  simp only [List.count_nil] at this
  omega

/-- **No id was drawn twice.** -/
theorem Sourced.drawn_nodup {s : Pool} (h : Sourced o uuid s) (ha : Accounted s) : s.drawn.Nodup := by
  rw [List.nodup_iff_count_le_one]
  intro x
  have hx := ha x
  have hhanded := List.nodup_iff_count_le_one.1 h.handed x
  have hmade := List.nodup_iff_count_le_one.1 h.made x
  have hone : sourced s x ≤ 1 := by
    unfold sourced
    by_cases hmem : x ∈ s.made
    · rw [List.count_eq_zero_of_not_mem (h.apart x hmem)]
      omega
    · rw [List.count_eq_zero_of_not_mem hmem]
      omega
  unfold held at hx
  omega

/-! ## What was returned was drawn -/

def Recorded (s : Pool) : Prop := s.returned.Sublist s.drawn

theorem takePooled_eq : ∀ (n : Nat) (s : Pool),
    (takePooled o n s).1 = s.ids.take n ∧ (takePooled o n s).2.drawn = s.drawn
  | 0, s => ⟨by simp [takePooled], rfl⟩
  | n + 1, s => by
    obtain ⟨fills, refilling, requests, htake, -⟩ := take_eq o s
    cases hids : s.ids with
    | nil =>
      simp only [takePooled, htake, hids, List.head?_nil]
      simp
    | cons id ids =>
      simp only [takePooled, htake, hids, List.head?_cons, List.tail_cons]
      obtain ⟨htaken, hdrawn⟩ := takePooled_eq n { s with
        ids := ids, fills := fills, refilling := refilling, requests := requests }
      exact ⟨by rw [htaken, List.take_succ_cons], hdrawn⟩

namespace Recorded

theorem congr {s s' : Pool} (h : Recorded s) (hreturned : s'.returned = s.returned) (hdrawn : s'.drawn = s.drawn) :
    Recorded s' := by
  unfold Recorded
  rw [hreturned, hdrawn]
  exact h

theorem resolve {s : Pool} (h : Recorded s) (count : Nat) (reserved : List Id) (kept : Bool) :
    Recorded (resolve o s count reserved kept) :=
  h.congr (takePooled_frame _ s).returned (takePooled_eq _ s).2

theorem reserveRest {s : Pool} (h : Recorded s) (count reserve : Nat) (reserved : List Id) (kept : Bool) :
    Recorded (reserveRest o s count reserve reserved kept) := by
  unfold IdPool.reserveRest
  split
  · exact h
  · exact h.resolve count reserved kept

theorem resume {s : Pool} (h : Recorded s) (m : Minter) (block : Option (List Id)) : Recorded (resume o s m block) := by
  unfold IdPool.resume
  cases block with
  | none => exact h.resolve _ _ _
  | some block =>
    simp only
    split
    · exact h.resolve _ _ _
    · exact h.reserveRest _ _ _ _

theorem answer {s : Pool} (h : Recorded s) (request : Nat) (block : Option (List Id)) :
    Recorded (answer o s request block) := by
  unfold IdPool.answer
  cases s.fills.get request with
  | some f =>
    simp only
    split
    · exact h
    · exact h
  | none =>
    simp only
    cases s.minters.find? (fun m => m.request = request) with
    | none => exact h
    | some m =>
      refine Recorded.resume ?_ m block
      exact h

theorem refill {s : Pool} (h : Recorded s) : Recorded (refill o s) := by
  obtain ⟨fills, refilling, requests, heq, -⟩ := refill_eq o s
  rw [heq]
  exact h

theorem step {s : Pool} (h : Recorded s) (e : Event) : Recorded (step o uuid s e) := by
  cases e with
  | install reserve first =>
    show Recorded (IdPool.install o s reserve first)
    have hreplaced : Recorded (replaceHost s reserve) := h
    unfold IdPool.install
    cases first with
    | true => exact h
    | false => exact hreplaced.refill
  | mint inUse =>
    obtain ⟨skipped, hdrawn, -⟩ := unused_drawn (draw o uuid) id inUse draw_drawn (tries inUse s.ids) s
    have hframe := unused_invariant (draw o uuid) (I := Frame s) inUse (fun s' h => h.trans (draw_frame s'))
      (tries inUse s.ids) s (.refl s)
    show Recorded (mint o uuid s inUse).2
    unfold mint
    generalize unused (draw o uuid) inUse (tries inUse s.ids) s = r at hdrawn hframe
    show List.Sublist (r.2.returned ++ r.1.toList) r.2.drawn
    rw [hframe.returned, show r.2.drawn = s.drawn ++ skipped ++ r.1.toList from hdrawn]
    exact (h.trans (List.sublist_append_left _ _)).append (List.Sublist.refl _)
  | seed n => exact h
  | minter count =>
    show Recorded (IdPool.minter o s count)
    unfold IdPool.minter
    split
    · exact h.resolve _ _ _
    · exact h.reserveRest _ _ _ _
  | answer request block => exact h.answer request block
  | settle request =>
    show Recorded (IdPool.settle s request)
    unfold IdPool.settle
    split
    · split
      · exact h
      · exact h
    · exact h
  | mintBurst b inUse =>
    show Recorded (IdPool.mintBurst o uuid s b inUse)
    unfold IdPool.mintBurst
    cases hburst : s.bursts[b]? with
    | none => exact h
    | some burst =>
      obtain ⟨skipped, hdrawn, -⟩ := unused_drawn (drawBurst o uuid) Prod.snd inUse drawBurst_drawn
        (tries inUse (burst.ids ++ s.ids)) (burst.ids, s)
      have hframe := unused_invariant (drawBurst o uuid) (I := fun p => Frame s p.2) inUse
        (fun p h => h.trans (drawBurst_frame p)) (tries inUse (burst.ids ++ s.ids)) (burst.ids, s) (.refl s)
      simp only
      generalize unused (drawBurst o uuid) inUse (tries inUse (burst.ids ++ s.ids)) (burst.ids, s) = r at hdrawn hframe
      show List.Sublist (r.2.2.returned ++ r.1.toList) r.2.2.drawn
      rw [hframe.returned, show r.2.2.drawn = s.drawn ++ skipped ++ r.1.toList from hdrawn]
      exact (h.trans (List.sublist_append_left _ _)).append (List.Sublist.refl _)

end Recorded

/-! ## The pool and the bursts hold ids of their hosts -/

/-- What a burst returned while no id was in use: an id at every call, and a host's at the first `count`. -/
def Served (s : Pool) (b : Burst) : Prop :=
  b.kept = true → b.idle = true → b.given.length = b.calls ∧ (∀ id ∈ b.given.take b.count, id ∈ s.handed.map Prod.snd) ∧
    (∀ id ∈ b.ids, id ∈ s.handed.map Prod.snd) ∧ b.count ≤ b.given.length + b.ids.length

/-- **The pool's ids are of the host that is there**, and those of a burst are a host's. -/
structure Stocked (s : Pool) : Prop where
  pool    : ∀ id ∈ s.ids, ∃ h, s.reserveIds = some h ∧ (h, id) ∈ s.handed
  minters : ∀ m ∈ s.minters, (∀ id ∈ m.reserved, id ∈ s.handed.map Prod.snd) ∧
    (m.kept = true → s.reserveIds = some m.reserve)
  bursts  : ∀ b ∈ s.bursts, Served s b

namespace Stocked

theorem createIdPool : Stocked (createIdPool o) where
  pool := fun _ h => by cases h
  minters := fun _ h => by cases h
  bursts := fun _ h => by cases h

theorem frame {s s' : Pool} (h : Stocked s) (hframe : Frame s s') : Stocked s' where
  pool := by
    rw [hframe.reserveIds, hframe.handed]
    exact fun id hid => h.pool id (hframe.ids.subset hid)
  minters := by
    rw [hframe.minters, hframe.handed, hframe.reserveIds]
    exact h.minters
  bursts := by
    rw [hframe.bursts]
    intro b hb
    have := h.bursts b hb
    unfold Served at this ⊢
    rwa [hframe.handed]

theorem mem_hand {s : Pool} {reserve : Nat} {block : Option (List Id)} {x : Id} :
    x ∈ (hand s reserve block).handed.map Prod.snd ↔ x ∈ s.handed.map Prod.snd ∨ x ∈ block.getD [] := by
  simp only [IdPool.hand, List.map_append, List.map_map, List.mem_append, Function.comp_def, List.map_id']

theorem hand {s : Pool} (h : Stocked s) (reserve : Nat) (block : Option (List Id)) : Stocked (hand s reserve block) where
  pool := fun id hid => by
    obtain ⟨host, hhost, hmem⟩ := h.pool id hid
    exact ⟨host, hhost, List.mem_append_left _ hmem⟩
  minters := fun m hm => ⟨fun id hid => mem_hand.2 (.inl ((h.minters m hm).1 id hid)), (h.minters m hm).2⟩
  bursts := fun b hb hkept hidle => by
    obtain ⟨hcalls, hgiven, hids, hcount⟩ := h.bursts b hb hkept hidle
    exact ⟨hcalls, fun id hid => mem_hand.2 (.inl (hgiven id hid)), fun id hid => mem_hand.2 (.inl (hids id hid)), hcount⟩

theorem resolve {s : Pool} (h : Stocked s) (count : Nat) {reserved : List Id} {kept : Bool}
    (hreserved : ∀ id ∈ reserved, id ∈ s.handed.map Prod.snd)
    (henough : kept = true → count - reserved.length ≤ s.ids.length) : Stocked (resolve o s count reserved kept) := by
  have hframe := takePooled_frame (o := o) (count - reserved.length) s
  have htaken := (takePooled_eq (o := o) (count - reserved.length) s).1
  have hkept := h.frame hframe
  refine ⟨hkept.pool, hkept.minters, fun b hb => ?_⟩
  rcases List.mem_append.1 hb with hb | hb
  · exact hkept.bursts b hb
  · rw [List.mem_singleton.1 hb]
    intro hk _
    refine ⟨rfl, by simp, fun id hid => ?_, ?_⟩
    · show id ∈ (takePooled o (count - reserved.length) s).2.handed.map Prod.snd
      rw [hframe.handed]
      rcases List.mem_append.1 hid with hid | hid
      · rw [htaken] at hid
        obtain ⟨host, -, hmem⟩ := h.pool id (List.mem_of_mem_take hid)
        exact List.mem_map.2 ⟨(host, id), hmem, rfl⟩
      · exact hreserved id hid
    · have := henough hk
      simp only [htaken, List.length_nil, List.length_append, List.length_take]
      omega

theorem reserveRest {s : Pool} (h : Stocked s) (count reserve : Nat) {reserved : List Id} {kept : Bool}
    (hreserved : ∀ id ∈ reserved, id ∈ s.handed.map Prod.snd) (hkept : kept = true → s.reserveIds = some reserve) :
    Stocked (reserveRest o s count reserve reserved kept) := by
  unfold IdPool.reserveRest
  split
  · refine ⟨h.pool, fun m hm => ?_, h.bursts⟩
    rcases List.mem_append.1 hm with hm | hm
    · exact h.minters m hm
    · rw [List.mem_singleton.1 hm]
      exact ⟨hreserved, hkept⟩
  · next hloop =>
    refine h.resolve count hreserved (fun hk => ?_)
    exact Nat.le_of_not_lt (fun hlt => hloop ⟨hkept hk, hlt⟩)

theorem resume {s : Pool} (h : Stocked s) {m : Minter} {block : Option (List Id)}
    (hreserved : ∀ id ∈ m.reserved ++ block.getD [], id ∈ s.handed.map Prod.snd)
    (hkept : m.kept = true → s.reserveIds = some m.reserve) : Stocked (resume o s m block) := by
  have hleft : ∀ id ∈ m.reserved, id ∈ s.handed.map Prod.snd := fun id hid => hreserved id (List.mem_append_left _ hid)
  unfold IdPool.resume
  cases block with
  | none => exact h.resolve _ hleft (fun hk => by cases hk)
  | some block =>
    simp only
    split
    · exact h.resolve _ hleft (fun hk => by cases hk)
    · exact h.reserveRest _ _ hreserved hkept

theorem answer {s : Pool} (h : Stocked s) (request : Nat) (block : Option (List Id)) :
    Stocked (answer o s request block) := by
  unfold IdPool.answer
  cases hfill : s.fills.get request with
  | some f =>
    simp only
    split
    · exact h
    · have hhand := h.hand f.reserve block
      refine ⟨fun id hid => ?_, hhand.minters, hhand.bursts⟩
      simp only [land] at hid
      split at hid
      · next hhost =>
        rcases List.mem_append.1 hid with hid | hid
        · exact hhand.pool id hid
        · exact ⟨f.reserve, hhost, List.mem_append_right _ (List.mem_map.2 ⟨id, hid, rfl⟩)⟩
      · exact hhand.pool id hid
  | none =>
    simp only
    cases hfind : s.minters.find? (fun m => m.request = request) with
    | none => exact h
    | some m =>
      have hhand := h.hand m.reserve block
      have hm := hhand.minters m (List.mem_of_find?_eq_some hfind)
      have hrest : ∀ m' ∈ s.minters.eraseP (fun m => m.request = request), m' ∈ (IdPool.hand s m.reserve block).minters :=
        fun m' hm' => List.mem_of_mem_eraseP hm'
      have hstocked : Stocked { IdPool.hand s m.reserve block with
          minters := s.minters.eraseP (fun m => m.request = request) } :=
        ⟨hhand.pool, fun m' hm' => hhand.minters m' (hrest m' hm'), hhand.bursts⟩
      refine hstocked.resume (fun id hid => ?_) hm.2
      rcases List.mem_append.1 hid with hid | hid
      · exact hm.1 id hid
      · exact mem_hand.2 (.inr hid)

theorem refill {s : Pool} (h : Stocked s) : Stocked (refill o s) := by
  obtain ⟨fills, refilling, requests, heq, -⟩ := refill_eq o s
  rw [heq]
  exact ⟨h.pool, h.minters, h.bursts⟩

theorem install {s : Pool} (h : Stocked s) (reserve : Nat) (first : Bool) : Stocked (install o s reserve first) := by
  have hreplaced : Stocked (replaceHost s reserve) := by
    refine ⟨fun id hid => absurd hid List.not_mem_nil, fun m hm => ?_, h.bursts⟩
    obtain ⟨m', hm', rfl⟩ := List.mem_map.1 hm
    refine ⟨(h.minters m' hm').1, fun hk => ?_⟩
    have hsame : m'.reserve = reserve := by
      simp only [Bool.and_eq_true, decide_eq_true_eq] at hk
      exact hk.2
    show some reserve = some m'.reserve
    rw [hsame]
  unfold IdPool.install
  cases first with
  | true => exact ⟨hreplaced.pool, hreplaced.minters, hreplaced.bursts⟩
  | false => exact hreplaced.refill

theorem mintBurst {s : Pool} (h : Stocked s) (b : Nat) (inUse : List Id) : Stocked (mintBurst o uuid s b inUse) := by
  unfold IdPool.mintBurst
  cases hburst : s.bursts[b]? with
  | none => exact h
  | some burst =>
    simp only
    have hframe := unused_invariant (drawBurst o uuid) (I := fun p => Frame s p.2) inUse
      (fun p h => h.trans (drawBurst_frame p)) (tries inUse (burst.ids ++ s.ids)) (burst.ids, s) (.refl s)
    have hkept := h.frame hframe
    -- With none in use the first id drawn is returned: the burst's next, or once it is used up any other.
    have hfirst : inUse = [] → unused (drawBurst o uuid) inUse (tries inUse (burst.ids ++ s.ids)) (burst.ids, s) =
        (some (drawBurst o uuid (burst.ids, s)).1, (drawBurst o uuid (burst.ids, s)).2) := by
      rintro rfl
      simp only [tries, unused, List.not_mem_nil, if_false]
    generalize unused (drawBurst o uuid) inUse (tries inUse (burst.ids ++ s.ids)) (burst.ids, s) = r at hframe hkept hfirst
    refine ⟨hkept.pool, hkept.minters, fun b' hb' => ?_⟩
    rcases List.mem_or_eq_of_mem_set hb' with hb' | rfl
    · exact hkept.bursts b' hb'
    · intro hk hidle
      obtain ⟨hold, hempty⟩ := Bool.and_eq_true_iff.1 hidle
      obtain ⟨hcalls, hgiven, hids, hcount⟩ := h.bursts burst (List.mem_of_getElem? hburst) hk hold
      have hr := hfirst (List.isEmpty_iff.1 hempty)
      show (burst.given ++ r.1.toList).length = burst.calls + 1 ∧
        (∀ id ∈ (burst.given ++ r.1.toList).take burst.count, id ∈ r.2.2.handed.map Prod.snd) ∧
        (∀ id ∈ r.2.1, id ∈ r.2.2.handed.map Prod.snd) ∧
        burst.count ≤ (burst.given ++ r.1.toList).length + r.2.1.length
      rw [hframe.handed, hr]
      cases hrest : burst.ids with
      | nil =>
        have hdone : burst.count ≤ burst.given.length := by rw [hrest] at hcount; exact hcount
        refine ⟨by simp [hcalls], ?_, by simp [drawBurst], by simp [drawBurst]; omega⟩
        rw [List.take_append_of_le_length hdone]
        exact hgiven
      | cons id rest =>
        rw [hrest] at hids hcount
        have hhanded := List.forall_mem_cons.1 hids
        refine ⟨by simp [hcalls], fun x hx => ?_, hhanded.2, ?_⟩
        · rcases List.mem_append.1 (List.mem_of_mem_take hx) with hx' | hx'
          · by_cases hle : burst.count ≤ burst.given.length
            · rw [List.take_append_of_le_length hle] at hx
              exact hgiven x hx
            · exact hgiven x (by rwa [List.take_of_length_le (Nat.le_of_not_le hle)])
          · rw [List.mem_singleton.1 hx']
            exact hhanded.1
        · simp only [drawBurst, Option.toList_some, List.length_append, List.length_cons, List.length_nil] at hcount ⊢
          omega

theorem step {s : Pool} (h : Stocked s) (e : Event) : Stocked (step o uuid s e) := by
  cases e with
  | install reserve first => exact h.install reserve first
  | mint inUse =>
    have hkept := h.frame (unused_invariant (draw o uuid) (I := Frame s) inUse
      (fun s' h => h.trans (draw_frame s')) (tries inUse s.ids) s (.refl s))
    exact ⟨hkept.pool, hkept.minters, hkept.bursts⟩
  | seed n => exact ⟨h.pool, h.minters, h.bursts⟩
  | minter count =>
    show Stocked (IdPool.minter o s count)
    unfold IdPool.minter
    split
    · exact h.resolve _ (fun _ hid => by cases hid) (fun hk => by cases hk)
    · next reserve hhost => exact h.reserveRest _ _ (fun _ hid => by cases hid) (fun _ => hhost)
  | answer request block => exact h.answer request block
  | settle request =>
    show Stocked (IdPool.settle s request)
    unfold IdPool.settle
    split
    · split
      · exact ⟨h.pool, h.minters, h.bursts⟩
      · exact h
    · exact h
  | mintBurst b inUse => exact h.mintBurst b inUse

end Stocked

/-! ## A refill asks for no more than there is room for -/

structure Sized (o : IdPoolOptions) (s : Pool) : Prop where
  room     : s.ids.length ≤ o.size
  pending  : ∀ r f, s.fills.get r = some f → f.landed = false → s.reserveIds = some f.reserve →
    s.refilling = some r ∧ s.ids.length + f.asked ≤ o.size
  numbered : ∀ r f, s.fills.get r = some f → r < s.requests
  known    : ∀ r f, s.fills.get r = some f → f.reserve ∈ s.installed
  host     : ∀ h, s.reserveIds = some h → h ∈ s.installed

namespace Sized

theorem createIdPool : Sized o (createIdPool o) where
  room := Nat.zero_le _
  pending := fun _ _ h => by cases h
  numbered := fun _ _ h => by cases h
  known := fun _ _ h => by cases h
  host := fun _ h => by cases h

theorem congr {s s' : Pool} (h : Sized o s) (hids : s'.ids.length ≤ s.ids.length) (hfills : s'.fills = s.fills)
    (hrefilling : s'.refilling = s.refilling) (hhost : s'.reserveIds = s.reserveIds) (hinstalled : s'.installed = s.installed)
    (hrequests : s.requests ≤ s'.requests) : Sized o s' where
  room := hids.trans h.room
  pending := fun r f hf hopen hcurrent => by
    rw [hfills] at hf
    rw [hhost] at hcurrent
    obtain ⟨hr, hroom⟩ := h.pending r f hf hopen hcurrent
    exact ⟨by rw [hrefilling, hr], by omega⟩
  numbered := fun r f hf => Nat.lt_of_lt_of_le (h.numbered r f (by rwa [← hfills])) hrequests
  known := fun r f hf => by
    rw [hinstalled]
    exact h.known r f (by rwa [← hfills])
  host := fun host hh => by
    rw [hinstalled]
    exact h.host host (by rwa [← hhost])

theorem fill {s : Pool} (h : Sized o s) {reserve asked : Nat} (hhost : s.reserveIds = some reserve)
    (hidle : s.refilling = none) (hroom : s.ids.length + asked ≤ o.size) : Sized o (fill s reserve asked) := by
  have hcases : ∀ r f, (s.fills.set s.requests ⟨reserve, asked, false⟩).get r = some f →
      r = s.requests ∧ f = ⟨reserve, asked, false⟩ ∨ s.fills.get r = some f := by
    intro r f hf
    by_cases hr : r = s.requests
    · rw [hr, OrdMap.get_set_self, Option.some.injEq] at hf
      exact .inl ⟨hr, hf.symm⟩
    · exact .inr (by rwa [OrdMap.get_set_ne _ _ hr] at hf)
  constructor
  · exact h.room
  · intro r f hf hopen hcurrent
    rcases hcases r f hf with ⟨rfl, rfl⟩ | hold
    · exact ⟨rfl, hroom⟩
    · have := (h.pending r f hold hopen hcurrent).1
      rw [hidle] at this
      cases this
  · intro r f hf
    rcases hcases r f hf with ⟨rfl, rfl⟩ | hold
    · exact Nat.lt_succ_self _
    · exact Nat.lt_succ_of_lt (h.numbered r f hold)
  · intro r f hf
    rcases hcases r f hf with ⟨rfl, rfl⟩ | hold
    · exact h.host reserve hhost
    · exact h.known r f hold
  · exact h.host

theorem refill {s : Pool} (h : Sized o s) (hless : s.ids.length < o.size) : Sized o (refill o s) := by
  unfold IdPool.refill
  split
  · next reserve hhost hidle => exact h.fill hhost hidle (by omega)
  · exact h

theorem take {s : Pool} (h : Sized o s) (hsize : 1 ≤ o.size) : Sized o (take o s).2 := by
  have hrest : Sized o { s with ids := s.ids.tail } :=
    h.congr (by rw [List.length_tail]; omega) rfl rfl rfl rfl (Nat.le_refl _)
  dsimp only [IdPool.take]
  split
  · refine hrest.refill ?_
    have := h.room
    simp only [List.length_tail]
    omega
  · exact hrest

theorem draw {s : Pool} (h : Sized o s) (hsize : 1 ≤ o.size) : Sized o (draw o uuid s).2 := by
  have hnext : Sized o (next o uuid s).2 := by
    unfold next
    split
    · exact h.congr (Nat.le_refl _) rfl rfl rfl rfl (Nat.le_refl _)
    · have htake := h.take hsize
      cases hfirst : IdPool.take o s with
      | mk id s' =>
        rw [hfirst] at htake
        cases id with
        | none => exact htake.congr (Nat.le_refl _) rfl rfl rfl rfl (Nat.le_refl _)
        | some _ => exact htake
  exact hnext.congr (Nat.le_refl _) rfl rfl rfl rfl (Nat.le_refl _)

theorem drawBurst {p : List Id × Pool} (h : Sized o p.2) (hsize : 1 ≤ o.size) : Sized o (drawBurst o uuid p).2.2 := by
  obtain ⟨ids, s⟩ := p
  cases ids with
  | nil => exact h.draw hsize
  | cons id rest => exact h.congr (Nat.le_refl _) rfl rfl rfl rfl (Nat.le_refl _)

theorem resolve {s : Pool} (h : Sized o s) (hsize : 1 ≤ o.size) (count : Nat) (reserved : List Id) (kept : Bool) :
    Sized o (resolve o s count reserved kept) := by
  have hpooled : ∀ n, Sized o (takePooled o n s).2 := by
    intro n
    induction n generalizing s with
    | zero => exact h
    | succ n ih =>
      have htake := h.take hsize
      unfold takePooled
      cases hfirst : IdPool.take o s with
      | mk id s' =>
        rw [hfirst] at htake
        cases id with
        | none => exact h
        | some _ => exact ih htake
  exact (hpooled (count - reserved.length)).congr (Nat.le_refl _) rfl rfl rfl rfl (Nat.le_refl _)

theorem reserveRest {s : Pool} (h : Sized o s) (hsize : 1 ≤ o.size) (count reserve : Nat) (reserved : List Id)
    (kept : Bool) : Sized o (reserveRest o s count reserve reserved kept) := by
  unfold IdPool.reserveRest
  split
  · exact h.congr (Nat.le_refl _) rfl rfl rfl rfl (Nat.le_succ _)
  · exact h.resolve hsize count reserved kept

theorem resume {s : Pool} (h : Sized o s) (hsize : 1 ≤ o.size) (m : Minter) (block : Option (List Id)) :
    Sized o (resume o s m block) := by
  unfold IdPool.resume
  cases block with
  | none => exact h.resolve hsize _ _ _
  | some block =>
    simp only
    split
    · exact h.resolve hsize _ _ _
    · exact h.reserveRest hsize _ _ _ _

theorem land {s : Pool} (h : Sized o s) {request : Nat} {f : Fill} {block : Option (List Id)}
    (hfill : s.fills.get request = some f) (hopen : f.landed = false) (hfew : (block.getD []).length ≤ f.asked) :
    Sized o (land s request f block) := by
  have hcases : ∀ r g, (s.fills.set request { f with landed := true }).get r = some g → g.landed = false →
      r ≠ request ∧ s.fills.get r = some g := by
    intro r g hg hnew
    by_cases hr : r = request
    · rw [hr, OrdMap.get_set_self, Option.some.injEq] at hg
      rw [← hg] at hnew
      cases hnew
    · exact ⟨hr, by rwa [OrdMap.get_set_ne _ _ hr] at hg⟩
  have hentry : ∀ {P : Nat → Fill → Prop}, (∀ r g, s.fills.get r = some g → P r g) → P request { f with landed := true } →
      ∀ r g, (s.fills.set request { f with landed := true }).get r = some g → P r g := by
    intro P hold hnew r g hg
    by_cases hr : r = request
    · rw [hr, OrdMap.get_set_self, Option.some.injEq] at hg
      rw [hr, ← hg]
      exact hnew
    · exact hold r g (by rwa [OrdMap.get_set_ne _ _ hr] at hg)
  constructor
  · show (if s.reserveIds = some f.reserve then s.ids ++ block.getD [] else s.ids).length ≤ o.size
    split
    · next hhost =>
      have := (h.pending request f hfill hopen hhost).2
      rw [List.length_append]
      omega
    · exact h.room
  · intro r g hg hnew hcurrent
    obtain ⟨hne, hold⟩ := hcases r g hg hnew
    obtain ⟨hr, hroom⟩ := h.pending r g hold hnew hcurrent
    refine ⟨hr, ?_⟩
    show (if s.reserveIds = some f.reserve then s.ids ++ block.getD [] else s.ids).length + g.asked ≤ o.size
    split
    · next hhost =>
      have := (h.pending request f hfill hopen hhost).1
      rw [hr, Option.some.injEq] at this
      exact absurd this hne
    · exact hroom
  · exact hentry h.numbered (h.numbered request f hfill)
  · exact hentry h.known (h.known request f hfill)
  · exact h.host

theorem answer {s : Pool} (h : Sized o s) (hsize : 1 ≤ o.size) (request : Nat) {block : Option (List Id)}
    (hwithin : Within s (.answer request block)) : Sized o (answer o s request block) := by
  have hhand : ∀ reserve, Sized o (hand s reserve block) := fun reserve =>
    h.congr (Nat.le_refl _) rfl rfl rfl rfl (Nat.le_refl _)
  unfold IdPool.answer
  cases hfill : s.fills.get request with
  | some f =>
    simp only
    split
    · exact h
    · next hopen =>
      have hopen' : f.landed = false := by simpa using hopen
      refine (hhand f.reserve).land hfill hopen' ?_
      cases block with
      | none => exact Nat.zero_le _
      | some block => exact hwithin f hfill hopen'
  | none =>
    simp only
    cases hfind : s.minters.find? (fun m => m.request = request) with
    | none => exact h
    | some m =>
      have hrest : Sized o { hand s m.reserve block with minters := s.minters.eraseP (fun m => m.request = request) } :=
        h.congr (Nat.le_refl _) rfl rfl rfl rfl (Nat.le_refl _)
      exact hrest.resume hsize m block

theorem settle {s : Pool} (h : Sized o s) (request : Nat) : Sized o (settle s request) := by
  unfold IdPool.settle
  cases hfill : s.fills.get request with
  | none => exact h
  | some f =>
    simp only
    split
    · have hold : ∀ {r g}, (s.fills.delete request).get r = some g → r ≠ request ∧ s.fills.get r = some g := by
        intro r g hg
        by_cases hr : r = request
        · rw [hr, OrdMap.get_delete_self] at hg
          cases hg
        · exact ⟨hr, by rwa [OrdMap.get_delete_ne _ hr] at hg⟩
      refine ⟨h.room, fun r g hg hopen hcurrent => ?_, fun r g hg => h.numbered r g (hold hg).2,
        fun r g hg => h.known r g (hold hg).2, h.host⟩
      obtain ⟨hne, hg'⟩ := hold hg
      obtain ⟨hr, hroom⟩ := h.pending r g hg' hopen hcurrent
      refine ⟨?_, hroom⟩
      simp only [hr, Option.some.injEq, hne, if_false]
    · exact h

theorem install {s : Pool} (h : Sized o s) (hsize : 1 ≤ o.size) {reserve : Nat} (hnew : reserve ∉ s.installed)
    (first : Bool) : Sized o (install o s reserve first) := by
  have hreplaced : Sized o (replaceHost s reserve) := by
    refine ⟨Nat.zero_le _, fun r f hf _ hcurrent => ?_, h.numbered, fun r f hf => ?_, fun host hh => ?_⟩
    · obtain rfl : reserve = f.reserve := Option.some.inj hcurrent
      exact absurd (h.known r f hf) hnew
    · exact List.mem_append_left _ (h.known r f hf)
    · rw [← Option.some.inj hh]
      exact List.mem_append_right _ (List.mem_singleton.2 rfl)
  unfold IdPool.install
  cases first with
  | true => exact hreplaced.fill rfl rfl (by simp [replaceHost])
  | false => exact hreplaced.refill (by simp [replaceHost]; omega)

theorem step {s : Pool} (h : Sized o s) (hsize : 1 ≤ o.size) (e : Event) (hwithin : Within s e) :
    Sized o (step o uuid s e) := by
  cases e with
  | install reserve first => exact h.install hsize hwithin first
  | mint inUse =>
    have hinv := unused_invariant (IdPool.draw o uuid) (I := Sized o) inUse (fun s' hs => hs.draw hsize)
      (tries inUse s.ids) s h
    exact hinv.congr (Nat.le_refl _) rfl rfl rfl rfl (Nat.le_refl _)
  | seed n => exact h.congr (Nat.le_refl _) rfl rfl rfl rfl (Nat.le_refl _)
  | minter count =>
    show Sized o (IdPool.minter o s count)
    unfold IdPool.minter
    split
    · exact h.resolve hsize _ _ _
    · exact h.reserveRest hsize _ _ _ _
  | answer request block => exact h.answer hsize request hwithin
  | settle request => exact h.settle request
  | mintBurst b inUse =>
    show Sized o (IdPool.mintBurst o uuid s b inUse)
    unfold IdPool.mintBurst
    cases hburst : s.bursts[b]? with
    | none => exact h
    | some burst =>
      have hinv := unused_invariant (IdPool.drawBurst o uuid) (I := fun p => Sized o p.2) inUse
        (fun p hp => hp.drawBurst hsize) (tries inUse (burst.ids ++ s.ids)) (burst.ids, s) h
      exact hinv.congr (Nat.le_refl _) rfl rfl rfl rfl (Nat.le_refl _)

end Sized

/-! ## Every run -/

theorem run_sourced (hf : Fallbacks o uuid) {events : List Event}
    (hdistinct : Steps.Along (step o uuid) (Distinct o uuid) (createIdPool o) events) :
    Sourced o uuid (Steps.run (step o uuid) (createIdPool o) events) ∧
      Accounted (Steps.run (step o uuid) (createIdPool o) events) :=
  ⟨Steps.run_invariant_along (I := Sourced o uuid) (fun _ e hd hs => Sourced.step hs hf e hd)
    events _ hdistinct Sourced.createIdPool,
    Steps.run_invariant (I := Accounted) (fun _ e hs => accounted_step hs e) events _ (fun _ => Nat.zero_le _)⟩

/-- **A mint returns an id**, one that is not in use: it would have to draw an id twice to try more often than it may. -/
theorem mint_returns (hf : Fallbacks o uuid) {s : Pool} (h : Sourced o uuid s) (ha : Accounted s) (inUse : List Id) :
    ∃ id, (mint o uuid s inUse).1 = some id ∧ id ∉ inUse := by
  obtain ⟨skipped, hdrawn, hused, hout, hnone⟩ :=
    unused_drawn (draw o uuid) id inUse draw_drawn (tries inUse s.ids) s
  cases hid : (unused (draw o uuid) inUse (tries inUse s.ids) s).1 with
  | some id => exact ⟨id, hid, hout id hid⟩
  | none =>
    have hs' : Sourced o uuid (unused (draw o uuid) inUse (tries inUse s.ids) s).2 :=
      unused_invariant (draw o uuid) (I := Sourced o uuid) inUse (fun s' hs => hs.draw hf) _ s h
    have hmoves := unused_invariant (draw o uuid) (I := fun s' => Moves s [] s' []) inUse
      (fun s' h => h.trans (draw_moves s')) (tries inUse s.ids) s (.refl s [])
    have ha' : Accounted (unused (draw o uuid) inUse (tries inUse s.ids) s).2 := fun x => by
      have := ha x
      have := hmoves x
      simp only [List.count_nil] at this
      omega
    have hnodup : skipped.Nodup := by
      have hall := hs'.drawn_nodup ha'
      rw [show (unused (draw o uuid) inUse (tries inUse s.ids) s).2.drawn = _ from hdrawn] at hall
      exact (List.nodup_append.1 (List.nodup_append.1 hall).1).2.1
    have hle : skipped.length ≤ inUse.length := (hnodup.subperm hused).length_le
    have := hnone hid
    unfold tries at this
    omega

/-- **No id is minted twice, and a burst never falls back**: whatever hosts are installed and however their answers come.
The pool's ids are of the host that is there, and are no more than its size. -/
theorem ids_minted_once (hf : Fallbacks o uuid) {events : List Event}
    (hdistinct : Steps.Along (step o uuid) (Distinct o uuid) (createIdPool o) events) :
    let s := Steps.run (step o uuid) (createIdPool o) events
    s.returned.Nodup ∧
    (∀ id ∈ s.ids, ∃ h, s.reserveIds = some h ∧ (h, id) ∈ s.handed) ∧
    (1 ≤ o.size → Steps.Along (step o uuid) Within (createIdPool o) events → s.ids.length ≤ o.size) ∧
    ∀ b ∈ s.bursts, b.kept = true → b.idle = true →
      b.given.length = b.calls ∧ ∀ id ∈ b.given.take b.count, id ∈ s.handed.map Prod.snd := by
  intro s
  obtain ⟨hsourced, haccounted⟩ := run_sourced hf hdistinct
  have hrecorded : Recorded s :=
    Steps.run_invariant (I := Recorded) (fun _ e hs => Recorded.step hs e) events _ (List.Sublist.refl _)
  have hstocked : Stocked s :=
    Steps.run_invariant (I := Stocked) (fun _ e hs => hs.step e) events _ Stocked.createIdPool
  refine ⟨hrecorded.nodup (hsourced.drawn_nodup haccounted), hstocked.pool, fun hsize hwithin => ?_,
    fun b hb hkept hidle => ?_⟩
  · exact (Steps.run_invariant_along (I := Sized o) (fun _ e hw hs => hs.step hsize e hw) events _ hwithin
      Sized.createIdPool).room
  · obtain ⟨hcalls, hgiven, -, -⟩ := hstocked.bursts b hb hkept hidle
    exact ⟨hcalls, hgiven⟩

def unary (size : Nat) : IdPoolOptions where
  size       := size
  low        := 2
  idFor      := fun
    | .inl n => List.replicate n 0x31
    | .inr u => 0x2d :: u
  localStart := 0

def unaryUuid (k : Nat) : JsString := List.replicate k 0x61

theorem unary_fallbacks (size : Nat) : Fallbacks (unary size) unaryUuid where
  numbered := fun h => by simpa [unary] using congrArg List.length h
  random := fun h => by simpa [unary, unaryUuid] using congrArg List.length h
  apart := fun n k h => by
    cases n with
    | zero => cases h
    | succ n =>
      simp only [unary, List.replicate_succ, List.cons.injEq] at h
      exact absurd h.1 (by decide)

/-- A host is installed, its first block lands, a mint and a burst of two follow, and the burst's minter is called twice. -/
def bursting : List Event :=
  [.install 0 true, .answer 0 (some [[1], [2]]), .settle 0, .mint [], .minter 2, .answer 2 (some [[3]]),
    .mintBurst 0 [], .mintBurst 0 []]

theorem ids_minted_once_bursting :
    Steps.Along (step (unary 2) unaryUuid) (Distinct (unary 2) unaryUuid) (createIdPool (unary 2)) bursting ∧
    (Steps.run (step (unary 2) unaryUuid) (createIdPool (unary 2)) bursting).returned = [[1], [2], [3]] ∧
    (Steps.run (step (unary 2) unaryUuid) (createIdPool (unary 2)) bursting).returned.Nodup := by
  have hd : Steps.Along (step (unary 2) unaryUuid) (Distinct (unary 2) unaryUuid) (createIdPool (unary 2)) bursting := by
    refine ⟨trivial, ⟨by decide, ?_⟩, trivial, trivial, trivial, ⟨by decide, ?_⟩, trivial, trivial, trivial⟩
    · intro id hid
      simp only [List.mem_cons, List.not_mem_nil, or_false] at hid
      rcases hid with rfl | rfl
      · exact ⟨by decide, by decide, fun k h => by simp [unary] at h⟩
      · exact ⟨by decide, by decide, fun k h => by simp [unary] at h⟩
    · intro id hid
      rw [List.mem_singleton.1 hid]
      exact ⟨by decide, by decide, fun k h => by simp [unary] at h⟩
  exact ⟨hd, by decide, (ids_minted_once (unary_fallbacks 2) hd).1⟩

/-- Hosts' ids differ from one another and from the uuids', but not from those the page counted. -/
def HostsDistinct (o : IdPoolOptions) (uuid : Nat → JsString) (s : Pool) : Event → Prop
  | .answer _ (some block) => block.Nodup ∧ ∀ id ∈ block, id ∉ s.handed.map Prod.snd ∧ ∀ k, id ≠ o.idFor (.inr (uuid k))
  | _                      => True

/-- A pool of no ids asks for one all the same, and a host that hands out a number the page counted repeats it. -/
theorem pool_overfull_or_repeated :
    (¬ ∀ (o : IdPoolOptions) (uuid : Nat → JsString) (events : List Event), Fallbacks o uuid →
      Steps.Along (step o uuid) (Distinct o uuid) (createIdPool o) events →
      Steps.Along (step o uuid) Within (createIdPool o) events →
        (Steps.run (step o uuid) (createIdPool o) events).ids.length ≤ o.size) ∧
    ¬ ∀ (o : IdPoolOptions) (uuid : Nat → JsString) (events : List Event), Fallbacks o uuid →
      Steps.Along (step o uuid) (HostsDistinct o uuid) (createIdPool o) events →
        (Steps.run (step o uuid) (createIdPool o) events).returned.Nodup := by
  constructor
  · intro h
    have hfull := h (unary 0) unaryUuid [.install 0 false, .answer 0 (some [[1]])] (unary_fallbacks 0)
      ⟨trivial, ⟨by decide, fun id hid => by
        rw [List.mem_singleton.1 hid]; exact ⟨by decide, by decide, fun k h => by simp [unary] at h⟩⟩, trivial⟩
      ⟨List.not_mem_nil, fun f hf _ => by
        obtain rfl : (⟨0, 1, false⟩ : Fill) = f := Option.some.inj hf
        decide, trivial⟩
    exact absurd hfull (by decide)
  · intro h
    have honce := h (unary 2) unaryUuid [.mint [], .install 0 true, .answer 0 (some [[0x31]]), .mint []] (unary_fallbacks 2)
      ⟨trivial, trivial, ⟨by decide, fun id hid => by
        rw [List.mem_singleton.1 hid]; exact ⟨by decide, fun k h => by simp [unary] at h⟩⟩, trivial, trivial⟩
    exact absurd honce (by decide)

end IdPool
end Dormouse

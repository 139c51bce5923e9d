import Dormouse.Mealy
import Dormouse.Resumption
import Dormouse.Steps
/-!
# PromiseChain — calls that run one after the other

Calls chained on one tail: the first of the queue runs, wait by wait, and the next starts when it has settled, whether it
returned or threw.  Between two waits the rest of the world moves.  A call that writes a reading of the state only as its
last act (`Resumption.Commits`), in a world that leaves that reading alone, takes effect at once: the reading is what the
calls that returned make of it, one after the other in the order they were made (`serial`).
-/

namespace Resumption

variable {σ ε α β γ : Type}

/-- From a reading `g` of the state, which nobody else writes, a call throws with the reading as it was, or returns with
`post`, and writes the reading at most in the act that ends it. -/
def Commits (read : σ → γ) (g : γ) (post : α → γ → Prop) : Resumption σ ε α → Prop
  | ret a            => post a g
  | throw _          => True
  | await write next => ∀ s, read s = g →
      (read (write s) = g ∧ (next s).Commits read g post) ∨ ∃ a, next s = ret a ∧ post a (read (write s))

theorem commits_act {read : σ → γ} {g : γ} {post : α → γ → Prop} {f : σ → Except ε (σ × α)}
    (h : ∀ s, read s = g → ∀ r, f s = .ok r → post r.2 (read r.1)) : (act f).Commits read g post := by
  intro s hs
  dsimp only
  cases hf : f s with
  | ok r => exact .inr ⟨r.2, rfl, h s hs r hf⟩
  | error e => exact .inl ⟨hs, trivial⟩

theorem commits_last {read : σ → γ} {g : γ} {post : β → γ → Prop} {f : σ → Except ε (σ × α)} {h : α → β}
    (hf : ∀ s, read s = g → ∀ r, f s = .ok r → post (h r.2) (read r.1)) :
    (act f >>= fun x => (pure (h x) : Resumption σ ε β)).Commits read g post := by
  intro s hs
  dsimp only
  cases hr : f s with
  | ok r => exact .inr ⟨h r.2, rfl, hf s hs r hr⟩
  | error e => exact .inl ⟨hs, trivial⟩

theorem Commits.bind {read : σ → γ} {g : γ} {mid : α → Prop} {post : β → γ → Prop} {f : α → Resumption σ ε β}
    (hf : ∀ a, mid a → (f a).Commits read g post) :
    ∀ {r : Resumption σ ε α}, r.Commits read g (fun a g' => g' = g ∧ mid a) → (r >>= f).Commits read g post
  | ret a, h => hf a h.2
  | throw _, _ => trivial
  | await write next, h => fun s hs => by
    rcases h s hs with ⟨hkeep, hnext⟩ | ⟨a, hnext, hkeep, hmid⟩
    · exact .inl ⟨hkeep, hnext.bind hf⟩
    · refine .inl ⟨hkeep, ?_⟩
      show ((next s).bind f).Commits read g post
      rw [hnext]
      exact hf a hmid

end Resumption

/-- Calls `κ` on one tail.  The first of `queue` is running; `settled` has those that have settled, in that order. -/
structure PromiseChain (σ ε κ α : Type) where
  shared  : σ
  queue   : List (κ × Resumption σ ε α)
  settled : List (κ × Except ε α)

namespace PromiseChain

variable {σ ε κ α ι γ : Type}

/-- A call is made, the running call is resumed, what it waits for fails, or the world moves. -/
inductive Event (ε κ ι : Type) where
  | call (k : κ)
  | resume
  | fail (e : ε)
  | outside (i : ι)

/-- Where the running call `k` has come to: it leaves the queue as it settles. -/
def continued (c : PromiseChain σ ε κ α) (k : κ) (rest : List (κ × Resumption σ ε α)) (s : σ) :
    Resumption σ ε α → PromiseChain σ ε κ α
  | .ret a   => ⟨s, rest, c.settled ++ [(k, .ok a)]⟩
  | .throw e => ⟨s, rest, c.settled ++ [(k, .error e)]⟩
  | r        => ⟨s, (k, r) :: rest, c.settled⟩

def step (body : κ → Resumption σ ε α) (env : ι → σ → σ) (c : PromiseChain σ ε κ α) : Event ε κ ι → PromiseChain σ ε κ α
  | .call k    => { c with queue := c.queue ++ [(k, body k)] }
  | .resume    =>
    match c.queue with
    | []                             => c
    | (k, .await write next) :: rest => c.continued k rest (write c.shared) (next c.shared)
    | (k, r) :: rest                 => c.continued k rest c.shared r
  | .fail e    =>
    match c.queue with
    | (k, .await _ _) :: rest => c.continued k rest c.shared (.throw e)
    | _                       => c
  | .outside i => { c with shared := env i c.shared }

def start (s : σ) : PromiseChain σ ε κ α := ⟨s, [], []⟩

def outcome (effect : κ → α → γ → γ) (g : γ) (settled : List (κ × Except ε α)) : γ :=
  settled.foldl (fun g e => match e.2 with | .ok a => effect e.1 a g | .error _ => g) g

def calls (events : List (Event ε κ ι)) : List κ :=
  events.filterMap fun
    | .call k => some k
    | _       => none

theorem outcome_concat (effect : κ → α → γ → γ) (g : γ) (l : List (κ × Except ε α)) (e : κ × Except ε α) :
    outcome effect g (l ++ [e]) = match e.2 with
      | .ok a => effect e.1 a (outcome effect g l)
      | .error _ => outcome effect g l := by
  unfold outcome
  rw [List.foldl_append]
  rfl

/-- What is between a chain and the calls made one after the other. -/
structure Serial (body : κ → Resumption σ ε α) (read : σ → γ) (effect : κ → α → γ → γ) (answers : κ → γ → α → Prop)
    (g : γ) (c : PromiseChain σ ε κ α) : Prop where
  /-- The reading is what the calls that returned make of it. -/
  reading : read c.shared = outcome effect g c.settled
  /-- Each call answered what it should from the reading it found. -/
  answered : ∀ earlier e later, c.settled = earlier ++ e :: later →
    ∀ a, e.2 = .ok a → answers e.1 (outcome effect g earlier) a
  /-- The running call has not written the reading; the others have not started. -/
  running : ∀ k r rest, c.queue = (k, r) :: rest →
    r.Commits read (outcome effect g c.settled) (fun a g' => g' = effect k a (outcome effect g c.settled) ∧
      answers k (outcome effect g c.settled) a) ∧ ∀ e ∈ rest, e.2 = body e.1

section serial
variable {body : κ → Resumption σ ε α} {env : ι → σ → σ} {read : σ → γ} {effect : κ → α → γ → γ}
  {answers : κ → γ → α → Prop} {g : γ}

variable {s : σ}

theorem serial_start (h : read s = g) :
    Serial body read effect answers g (start s : PromiseChain σ ε κ α) where
  reading := h
  answered := fun earlier _ _ he => by cases earlier <;> cases he
  running := fun _ _ _ hq => by cases hq

variable (hbody : ∀ k g, (body k).Commits read g (fun a g' => g' = effect k a g ∧ answers k g a))

include hbody

variable {rest : List (κ × Resumption σ ε α)}

theorem running_rest (hrest : ∀ e ∈ rest, e.2 = body e.1) (g' : γ) :
    ∀ k r rest', rest = (k, r) :: rest' →
      r.Commits read g' (fun a g'' => g'' = effect k a g' ∧ answers k g' a) ∧ ∀ e ∈ rest', e.2 = body e.1 := by
  rintro k r rest' rfl
  have hr : r = body k := hrest (k, r) List.mem_cons_self
  exact ⟨hr ▸ hbody k g', fun e he => hrest e (List.mem_cons_of_mem _ he)⟩

variable {c : PromiseChain σ ε κ α}

theorem serial_throw {k : κ} {e : ε} (hc : Serial body read effect answers g c) (hrest : ∀ e ∈ rest, e.2 = body e.1)
    (hs : read s = outcome effect g c.settled) :
    Serial body read effect answers g (c.continued k rest s (.throw e)) := by
  have hout : outcome effect g (c.settled ++ [(k, .error e)]) = outcome effect g c.settled := outcome_concat ..
  refine ⟨?_, ?_, ?_⟩
  · exact hs.trans hout.symm
  · show ∀ earlier x later, c.settled ++ [(k, .error e)] = earlier ++ x :: later → _
    exact Mealy.everywhere_concat.2 ⟨hc.answered, fun a ha => by cases ha⟩
  · exact running_rest hbody hrest _

theorem serial_ret {k : κ} {a : α} (hc : Serial body read effect answers g c) (hrest : ∀ e ∈ rest, e.2 = body e.1)
    (hs : read s = effect k a (outcome effect g c.settled)) (ha : answers k (outcome effect g c.settled) a) :
    Serial body read effect answers g (c.continued k rest s (.ret a)) := by
  have hout : outcome effect g (c.settled ++ [(k, .ok a)]) = effect k a (outcome effect g c.settled) :=
    outcome_concat ..
  refine ⟨?_, ?_, ?_⟩
  · exact hs.trans hout.symm
  · show ∀ earlier x later, c.settled ++ [(k, .ok a)] = earlier ++ x :: later → _
    refine Mealy.everywhere_concat.2 ⟨hc.answered, fun b hb => ?_⟩
    cases hb
    exact ha
  · exact running_rest hbody hrest _

theorem serial_continued {k : κ} {r : Resumption σ ε α} (hc : Serial body read effect answers g c)
    (hrest : ∀ e ∈ rest, e.2 = body e.1) (hs : read s = outcome effect g c.settled)
    (hr : r.Commits read (outcome effect g c.settled) (fun a g' => g' = effect k a (outcome effect g c.settled) ∧ answers k (outcome effect g c.settled) a)) :
    
    Serial body read effect answers g (c.continued k rest s r) := by
  cases r with
  | ret a => exact serial_ret hbody hc hrest (hs.trans hr.1) hr.2
  | throw e => exact serial_throw hbody hc hrest hs
  | await write next =>
    refine ⟨hs, hc.answered, ?_⟩
    rintro k' r' rest' hq
    cases hq
    exact ⟨hr, hrest⟩

theorem serial_step (henv : ∀ i s, read (env i s) = read s) (ev : Event ε κ ι) (hc : Serial body read effect answers g c) :
    Serial body read effect answers g (step body env c ev) := by
  cases ev with
  | call k =>
    refine ⟨hc.reading, hc.answered, ?_⟩
    rintro k' r' rest' hq
    cases hqueue : c.queue with
    | nil =>
      have hq' : [(k, body k)] = (k', r') :: rest' := by simpa [step, hqueue] using hq
      cases hq'
      exact ⟨hbody k _, fun e he => absurd he List.not_mem_nil⟩
    | cons p rest =>
      have hq' : p :: (rest ++ [(k, body k)]) = (k', r') :: rest' := by simpa [step, hqueue] using hq
      cases hq'
      obtain ⟨hr, hrest⟩ := hc.running k' r' rest hqueue
      refine ⟨hr, fun e he => ?_⟩
      rcases List.mem_append.1 he with he | he
      · exact hrest e he
      · rw [List.mem_singleton.1 he]
  | resume =>
    cases hqueue : c.queue with
    | nil => simpa [step, hqueue] using hc
    | cons p rest =>
      obtain ⟨k, r⟩ := p
      obtain ⟨hr, hrest⟩ := hc.running k r rest hqueue
      cases r with
      | ret a =>
        have hst : step body env c (.resume : Event ε κ ι) = c.continued k rest c.shared (.ret a) := by simp [step, hqueue]
        rw [hst]
        exact serial_continued hbody hc hrest hc.reading hr
      | throw e =>
        have hst : step body env c (.resume : Event ε κ ι) = c.continued k rest c.shared (.throw e) := by
          simp [step, hqueue]
        rw [hst]
        exact serial_throw hbody hc hrest hc.reading
      | await write next =>
        have hst : step body env c (.resume : Event ε κ ι) = c.continued k rest (write c.shared) (next c.shared) := by
          simp [step, hqueue]
        rw [hst]
        rcases hr c.shared hc.reading with ⟨hkeep, hnext⟩ | ⟨a, hnext, heffect, ha⟩
        · exact serial_continued hbody hc hrest hkeep hnext
        · rw [hnext]
          exact serial_ret hbody hc hrest heffect ha
  | fail e =>
    cases hqueue : c.queue with
    | nil => simpa [step, hqueue] using hc
    | cons p rest =>
      obtain ⟨k, r⟩ := p
      cases r with
      | ret a => simpa [step, hqueue] using hc
      | throw e' => simpa [step, hqueue] using hc
      | await write next =>
        have hst : step body env c (.fail e : Event ε κ ι) = c.continued k rest c.shared (.throw e) := by
          simp [step, hqueue]
        rw [hst]
        exact serial_throw hbody hc (hc.running k _ rest hqueue).2 hc.reading
  | outside i => exact ⟨(henv i c.shared).trans hc.reading, hc.answered, hc.running⟩

/-- **Calls on one tail take effect one after the other**, whatever the order of the waits: no effect is lost, and every
answer is the one from the state its call found. -/
theorem serial (henv : ∀ i s, read (env i s) = read s) (hs : read s = g) (events : List (Event ε κ ι)) :
    Serial body read effect answers g (Steps.run (step body env) (start s) events) :=
  Steps.run_invariant (fun _ ev h => serial_step hbody henv ev h) events (start s) (serial_start hs)

end serial

/-! ## Every call, once and in order -/

theorem calls_continued (c : PromiseChain σ ε κ α) (k : κ) (rest : List (κ × Resumption σ ε α)) (s : σ)
    (r : Resumption σ ε α) :
    (c.continued k rest s r).settled.map Prod.fst ++ (c.continued k rest s r).queue.map Prod.fst =
      c.settled.map Prod.fst ++ k :: rest.map Prod.fst := by
  cases r <;> simp [continued]

theorem calls_step (body : κ → Resumption σ ε α) (env : ι → σ → σ) (c : PromiseChain σ ε κ α) (ev : Event ε κ ι) :
    (step body env c ev).settled.map Prod.fst ++ (step body env c ev).queue.map Prod.fst =
      c.settled.map Prod.fst ++ c.queue.map Prod.fst ++ calls [ev] := by
  obtain ⟨s, queue, settled⟩ := c
  cases ev with
  | call k => simp [step, calls]
  | resume =>
    cases queue with
    | nil => simp [step, calls]
    | cons p rest =>
      obtain ⟨k, r⟩ := p
      cases r <;> simp [step, calls, calls_continued]
  | fail e =>
    cases queue with
    | nil => simp [step, calls]
    | cons p rest =>
      obtain ⟨k, r⟩ := p
      cases r <;> simp [step, calls, calls_continued]
  | outside i => simp [step, calls]

/-- **The calls that settled and those that wait are the calls made, in their order.** -/
theorem calls_run (body : κ → Resumption σ ε α) (env : ι → σ → σ) :
    ∀ (events : List (Event ε κ ι)) (c : PromiseChain σ ε κ α),
      (Steps.run (step body env) c events).settled.map Prod.fst ++ (Steps.run (step body env) c events).queue.map Prod.fst =
        c.settled.map Prod.fst ++ c.queue.map Prod.fst ++ calls events
  | [], c => by simp [calls]
  | ev :: events, c => by
    have hcalls : calls (ev :: events) = calls [ev] ++ calls events := by
      unfold calls
      rw [← List.filterMap_append, List.singleton_append]
    rw [Steps.run_cons, calls_run body env events, calls_step, hcalls, List.append_assoc]

end PromiseChain

import Dormouse.PromiseChain
/-!
# Interference — pre- and postconditions of calls while the world moves

`r.Meets rely I Q P`: from a state with `P`, a call keeps the invariant `I` at every wait, and ends with `Q` of what it
returns or throws and of the state it leaves, if between its waits the world moves only as `rely` allows.  What is true at
a wait has to be stable under such moves.  The rules follow the program: `meets_act` for one wait, `Meets.bind` for one
part after another, `Meets.weaken`.  Calls on one tail keep the invariant throughout, and settle with their postcondition
(`PromiseChain.owes_step`).
-/

def Stable {σ : Type} (rely : σ → σ → Prop) (J : σ → Prop) : Prop := ∀ s s', rely s s' → J s → J s'

namespace Resumption

variable {σ ε α β : Type} {rely : σ → σ → Prop} {I : σ → Prop}

def Meets (rely : σ → σ → Prop) (I : σ → Prop) (Q : Except ε α → σ → Prop) : Resumption σ ε α → (σ → Prop) → Prop
  | ret a, P            => ∀ s, P s → Q (.ok a) s
  | throw e, P          => ∀ s, P s → Q (.error e) s
  | await write next, P => ∃ J : σ → Prop, (∀ s, P s → J s) ∧ Stable rely J ∧ (∀ s, J s → I s) ∧
      ∀ s, J s → (next s).Meets rely I Q (fun s' => s' = write s)

theorem Meets.weaken {Q Q' : Except ε α → σ → Prop} (hQ : ∀ res s, Q res s → Q' res s) :
    ∀ {r : Resumption σ ε α} {P P' : σ → Prop}, r.Meets rely I Q P → (∀ s, P' s → P s) → r.Meets rely I Q' P'
  | ret _, _, _, h, hP => fun s hs => hQ _ s (h s (hP s hs))
  | throw _, _, _, h, hP => fun s hs => hQ _ s (h s (hP s hs))
  | await _ _, _, _, ⟨J, hJ, hst, hI, hnext⟩, hP =>
    ⟨J, fun s hs => hJ s (hP s hs), hst, hI, fun s hs => (hnext s hs).weaken hQ (fun _ h => h)⟩

variable {Q : Except ε α → σ → Prop} {r : Resumption σ ε α}

theorem Meets.pre {P P' : σ → Prop} (h : r.Meets rely I Q P) (hP : ∀ s, P' s → P s) :
    r.Meets rely I Q P' := h.weaken (fun _ _ h => h) hP

theorem Meets.any {χ : Sort _} {P : χ → σ → Prop} :
    ∀ {r : Resumption σ ε α}, (∀ x, r.Meets rely I Q (P x)) → r.Meets rely I Q (fun s => ∃ x, P x s)
  | ret _, h => fun s ⟨x, hx⟩ => h x s hx
  | throw _, h => fun s ⟨x, hx⟩ => h x s hx
  | await write next, h => by
    choose J hJ hst hI hnext using h
    refine ⟨fun s => ∃ x, J x s, fun s ⟨x, hx⟩ => ⟨x, hJ x s hx⟩, fun s s' hr ⟨x, hx⟩ => ⟨x, hst x s s' hr hx⟩,
      fun s ⟨x, hx⟩ => hI x s hx, ?_⟩
    rintro s ⟨x, hx⟩
    exact hnext x s hx

theorem Meets.when {φ : Prop} {P : σ → Prop} (h : φ → r.Meets rely I Q P) : r.Meets rely I Q (fun s => P s ∧ φ) := by
  have hany : r.Meets rely I Q (fun s => ∃ _ : PLift φ, P s) := Meets.any (fun hφ => h hφ.down)
  exact hany.pre (fun s hs => ⟨⟨hs.2⟩, hs.1⟩)

theorem Meets.bind {Q : Except ε β → σ → Prop} {mid : Except ε α → σ → Prop} {f : α → Resumption σ ε β}
    (hf : ∀ a, (f a).Meets rely I Q (mid (.ok a))) (he : ∀ e s, mid (.error e) s → Q (.error e) s) :
    ∀ {r : Resumption σ ε α} {P : σ → Prop}, r.Meets rely I mid P → (r >>= f).Meets rely I Q P
  | ret a, _, h => (hf a).pre h
  | throw e, _, h => fun s hs => he e s (h s hs)
  | await _ _, _, ⟨J, hJ, hst, hI, hnext⟩ => ⟨J, hJ, hst, hI, fun s hs => Meets.bind hf he (hnext s hs)⟩

def Returns (A : α → σ → Prop) : Except ε α → σ → Prop
  | .ok a, s    => A a s
  | .error _, _ => False

theorem Meets.seq {A : α → σ → Prop} {Q : Except ε β → σ → Prop} {P : σ → Prop} {f : α → Resumption σ ε β}
    (hr : r.Meets rely I (Returns A) P) (hf : ∀ a, (f a).Meets rely I Q (A a)) :
    (r >>= f).Meets rely I Q P :=
  Meets.bind hf (fun _ _ h => h.elim) hr

/-- One wait: what is true of the state at it is stable, and what it does gives the postcondition. -/
theorem meets_act {f : σ → Except ε (σ × α)} {P : σ → Prop} (hst : Stable rely P) (hI : ∀ s, P s → I s)
    (h : ∀ s, P s → match f s with | .ok r => Q (.ok r.2) r.1 | .error e => Q (.error e) s) :
    (act f).Meets rely I Q P := by
  refine ⟨P, fun _ hs => hs, hst, hI, fun s hs => ?_⟩
  have h := h s hs
  dsimp only
  cases hf : f s with
  | ok r =>
    rw [hf] at h
    show ∀ s', s' = r.1 → Q (.ok r.2) s'
    rintro s' rfl
    exact h
  | error e =>
    rw [hf] at h
    show ∀ s', s' = s → Q (.error e) s'
    rintro s' rfl
    exact h

end Resumption

namespace PromiseChain

open Resumption

variable {σ ε κ α ι : Type}

section settles
variable (body : κ → Resumption σ ε α) (rely : σ → σ → Prop) (I : σ → Prop) (Q : κ → Except ε α → σ → Prop)

/-- The invariant holds, and the running call is on its way to its postcondition; the others have not started. -/
def Owes (c : PromiseChain σ ε κ α) : Prop :=
  I c.shared ∧ match c.queue with
  | []             => True
  | (k, r) :: rest => (∃ J, J c.shared ∧ Stable rely J ∧ (∀ s, J s → I s) ∧ r.Meets rely I (fun res s => I s ∧ Q k res s) J) ∧
      ∀ e ∈ rest, e.2 = body e.1

variable {body rely I Q} (hI : Stable rely I) (hbody : ∀ k, (body k).Meets rely I (fun res s => I s ∧ Q k res s) I)

include hI hbody

theorem owes_rest {s : σ} {rest : List (κ × Resumption σ ε α)} {settled : List (κ × Except ε α)} (hs : I s)
    (hrest : ∀ e ∈ rest, e.2 = body e.1) : Owes body rely I Q ⟨s, rest, settled⟩ := by
  refine ⟨hs, ?_⟩
  cases rest with
  | nil => trivial
  | cons e rest =>
    obtain ⟨k, r⟩ := e
    have hr : r = body k := hrest (k, r) List.mem_cons_self
    exact ⟨⟨I, hs, hI, fun _ h => h, hr ▸ hbody k⟩, fun e he => hrest e (List.mem_cons_of_mem _ he)⟩

/-- Where the running call has come to, the chain owes what it owed; if it settles there, it has its postcondition. -/
theorem owes_continued {c : PromiseChain σ ε κ α} {k : κ} {rest : List (κ × Resumption σ ε α)} {s : σ}
    {r : Resumption σ ε α} (hr : r.Meets rely I (fun res s => I s ∧ Q k res s) (fun s' => s' = s))
    (hrest : ∀ e ∈ rest, e.2 = body e.1) :
    Owes body rely I Q (c.continued k rest s r) ∧
      ((c.continued k rest s r).settled = c.settled ∨ ∃ res, (c.continued k rest s r).settled = c.settled ++ [(k, res)] ∧
        I (c.continued k rest s r).shared ∧ Q k res (c.continued k rest s r).shared) := by
  cases r with
  | ret a =>
    obtain ⟨hs, hq⟩ := hr s rfl
    exact ⟨owes_rest hI hbody hs hrest, .inr ⟨_, rfl, hs, hq⟩⟩
  | throw e =>
    obtain ⟨hs, hq⟩ := hr s rfl
    exact ⟨owes_rest hI hbody hs hrest, .inr ⟨_, rfl, hs, hq⟩⟩
  | await write next =>
    obtain ⟨J, hJ, hst, hJI, hnext⟩ := hr
    exact ⟨⟨hJI s (hJ s rfl), ⟨J, hJ s rfl, hst, hJI, J, fun _ h => h, hst, hJI, hnext⟩, hrest⟩, .inl rfl⟩

/-- **One step of calls on one tail**, where nothing a call waits for fails from outside. -/
theorem owes_step {env : ι → σ → σ} {c : PromiseChain σ ε κ α} {ev : Event ε κ ι} (hfail : ∀ e, ev ≠ .fail e)
    (henv : ∀ i, ev = .outside i → rely c.shared (env i c.shared)) (hc : Owes body rely I Q c) :
    Owes body rely I Q (step body env c ev) ∧
      ((step body env c ev).settled = c.settled ∨ ∃ k res, (step body env c ev).settled = c.settled ++ [(k, res)] ∧
        I (step body env c ev).shared ∧ Q k res (step body env c ev).shared) := by
  obtain ⟨s, queue, settled⟩ := c
  cases ev with
  | call k =>
    refine ⟨?_, .inl rfl⟩
    cases queue with
    | nil => exact owes_rest hI hbody hc.1 (by simp)
    | cons e rest =>
      refine ⟨hc.1, hc.2.1, fun e he => ?_⟩
      rcases List.mem_append.1 he with he | he
      · exact hc.2.2 e he
      · rw [List.mem_singleton.1 he]
  | resume =>
    cases queue with
    | nil => exact ⟨hc, .inl rfl⟩
    | cons e rest =>
      obtain ⟨k, r⟩ := e
      obtain ⟨-, ⟨J, hJ, hst, -, hr⟩, hrest⟩ := hc
      have hstep : ∀ {s' r'}, Meets rely I (fun res s => I s ∧ Q k res s) r' (fun x => x = s') → _ := fun h =>
        owes_continued (c := ⟨s, (k, r) :: rest, settled⟩) hI hbody h hrest
      cases r with
      | ret a =>
        obtain ⟨ho, hset | ⟨res, hset⟩⟩ := hstep (hr.pre (fun x hx => hx ▸ hJ))
        · exact ⟨ho, .inl hset⟩
        · exact ⟨ho, .inr ⟨k, res, hset⟩⟩
      | throw e =>
        obtain ⟨ho, hset | ⟨res, hset⟩⟩ := hstep (hr.pre (fun x hx => hx ▸ hJ))
        · exact ⟨ho, .inl hset⟩
        · exact ⟨ho, .inr ⟨k, res, hset⟩⟩
      | await write next =>
        obtain ⟨J', hJ', -, -, hnext⟩ := hr
        obtain ⟨ho, hset | ⟨res, hset⟩⟩ := hstep (hnext s (hJ' s hJ))
        · exact ⟨ho, .inl hset⟩
        · exact ⟨ho, .inr ⟨k, res, hset⟩⟩
  | fail e => exact absurd rfl (hfail e)
  | outside i =>
    refine ⟨?_, .inl rfl⟩
    have hrely : rely s (env i s) := henv i rfl
    refine ⟨hI s _ hrely hc.1, ?_⟩
    cases queue with
    | nil => trivial
    | cons e rest =>
      obtain ⟨k, r⟩ := e
      obtain ⟨-, ⟨J, hJ, hst, hJI, hr⟩, hrest⟩ := hc
      exact ⟨⟨J, hst s _ hrely hJ, hst, hJI, hr⟩, hrest⟩

end settles

end PromiseChain

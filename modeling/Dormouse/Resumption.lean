import Mathlib.Data.List.Basic
/-!
# Resumption — asynchronous calls over a shared state

An asynchronous call is a resumption: it has returned, it has thrown, or it waits, and when it is resumed it reads and
writes the state it shares with other calls and goes on.  `exec` runs one to its end undisturbed.  What every resumption
of a call leaves alone is `Keeps`; a call that writes something only as its last act is `SetsLast`.
-/

/-- A call over a state `σ`.  `await write next`: on resumption in state `s` the state becomes `write s`, and the call goes
on as `next s`. -/
inductive Resumption (σ ε α : Type) : Type where
  | ret (a : α)
  | throw (e : ε)
  | await (write : σ → σ) (next : σ → Resumption σ ε α)

namespace Resumption

variable {σ ε α β γ : Type}

def bind : Resumption σ ε α → (α → Resumption σ ε β) → Resumption σ ε β
  | ret a, f            => f a
  | throw e, _          => throw e
  | await write next, f => await write (fun s => (next s).bind f)

instance : Monad (Resumption σ ε) where
  pure := ret
  bind := bind

def act (f : σ → Except ε (σ × α)) : Resumption σ ε α :=
  await (fun s => match f s with | .ok r => r.1 | .error _ => s)
    (fun s => match f s with | .ok r => ret r.2 | .error e => throw e)

def exec : Resumption σ ε α → σ → σ × Except ε α
  | ret a, s            => (s, .ok a)
  | throw e, s          => (s, .error e)
  | await write next, s => (next s).exec (write s)

@[simp] theorem exec_pure (a : α) (s : σ) : exec (pure a : Resumption σ ε α) s = (s, .ok a) := rfl

@[simp] theorem exec_ret (a : α) (s : σ) : exec (ret a : Resumption σ ε α) s = (s, .ok a) := rfl

@[simp] theorem exec_throw (e : ε) (s : σ) : exec (throw e : Resumption σ ε α) s = (s, .error e) := rfl

theorem exec_bind : ∀ (r : Resumption σ ε α) (f : α → Resumption σ ε β) (s : σ),
    exec (r >>= f) s = match exec r s with
      | (s', .ok a) => exec (f a) s'
      | (s', .error e) => (s', .error e)
  | ret _, _, _ => rfl
  | throw _, _, _ => rfl
  | await write next, f, s => exec_bind (next s) f (write s)

theorem exec_bind_ok {r : Resumption σ ε α} {f : α → Resumption σ ε β} {s s' : σ} {a : α}
    (h : exec r s = (s', .ok a)) : exec (r >>= f) s = exec (f a) s' := by
  rw [exec_bind, h]

theorem exec_bind_error {r : Resumption σ ε α} {f : α → Resumption σ ε β} {s s' : σ} {e : ε}
    (h : exec r s = (s', .error e)) : exec (r >>= f) s = (s', .error e) := by
  rw [exec_bind, h]

variable {f : σ → Except ε (σ × α)}

theorem exec_act_ok {s s' : σ} {a : α} (h : f s = .ok (s', a)) :
    exec (act f) s = (s', .ok a) := by
  show exec (match f s with | .ok r => ret r.2 | .error e => throw e) (match f s with | .ok r => r.1 | .error _ => s) = _
  rw [h]
  rfl

theorem exec_act_error {s : σ} {e : ε} (h : f s = .error e) :
    exec (act f) s = (s, .error e) := by
  show exec (match f s with | .ok r => ret r.2 | .error e => throw e) (match f s with | .ok r => r.1 | .error _ => s) = _
  rw [h]
  rfl

/-! ## What a call leaves alone -/

/-- Every resumption of a call leaves a reading of the state as it was. -/
def Keeps (read : σ → γ) : Resumption σ ε α → Prop
  | ret _            => True
  | throw _          => True
  | await write next => ∀ s, read (write s) = read s ∧ (next s).Keeps read

/-- Every resumption of a call leaves a reading of the state as it was, but one that ends it. -/
def SetsLast (read : σ → γ) : Resumption σ ε α → Prop
  | ret _            => True
  | throw _          => True
  | await write next => ∀ s, (read (write s) = read s ∧ (next s).SetsLast read) ∨ ∃ a, next s = ret a

theorem Keeps.bind {read : σ → γ} : ∀ {r : Resumption σ ε α} {f : α → Resumption σ ε β}, r.Keeps read →
    (∀ a, (f a).Keeps read) → (r >>= f).Keeps read
  | ret a, _, _, hf => hf a
  | throw _, _, _, _ => trivial
  | await _ _, _, hr, hf => fun s => ⟨(hr s).1, Keeps.bind (hr s).2 hf⟩

theorem Keeps.bind_setsLast {read : σ → γ} : ∀ {r : Resumption σ ε α} {f : α → Resumption σ ε β}, r.Keeps read →
    (∀ a, (f a).SetsLast read) → (r >>= f).SetsLast read
  | ret a, _, _, hf => hf a
  | throw _, _, _, _ => trivial
  | await _ _, _, hr, hf => fun s => .inl ⟨(hr s).1, Keeps.bind_setsLast (hr s).2 hf⟩

theorem keeps_act {read : σ → γ} (h : ∀ s r, f s = .ok r → read r.1 = read s) :
    (act f).Keeps read := by
  intro s
  dsimp only
  cases hf : f s with
  | error e => exact ⟨rfl, trivial⟩
  | ok r => exact ⟨h s r hf, trivial⟩

theorem setsLast_act (read : σ → γ) (f : σ → Except ε (σ × α)) : (act f).SetsLast read := by
  intro s
  dsimp only
  cases hf : f s with
  | error e => exact .inl ⟨rfl, trivial⟩
  | ok r => exact .inr ⟨r.2, rfl⟩

end Resumption

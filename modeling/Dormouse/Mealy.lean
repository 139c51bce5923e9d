import Mathlib.Data.List.Basic
/-!
# Mealy — machines that read a stream in chunks

A Mealy machine reads one symbol at a time and writes what it has decided.  A processor is handed whole chunks and
keeps a state between them; `feed` is what it returns for a partition of a stream, chunk by chunk.  A processor that is
a machine's run on every chunk cannot tell one partition of a stream from another (`feed_run`).
-/
namespace Mealy

variable {σ α β γ ω : Type}

def run (step : σ → α → σ × List β) : σ → List α → σ × List β
  | s, []     => (s, [])
  | s, a :: l => ((run step (step s a).1 l).1, (step s a).2 ++ (run step (step s a).1 l).2)

variable {step : σ → α → σ × List β}

@[simp] theorem run_nil (s : σ) : run step s [] = (s, []) := rfl

theorem run_cons (s : σ) (a : α) (l : List α) :
    run step s (a :: l) = ((run step (step s a).1 l).1, (step s a).2 ++ (run step (step s a).1 l).2) := rfl

@[simp] theorem run_one (s : σ) (a : α) : run step s [a] = step s a := by
  simp [run]

theorem run_append : ∀ (s : σ) (l m : List α),
    run step s (l ++ m) = ((run step (run step s l).1 m).1, (run step s l).2 ++ (run step (run step s l).1 m).2)
  | _, [], _ => rfl
  | s, a :: l, m => by
    rw [List.cons_append, run_cons, run_append (step s a).1 l m, run_cons, List.append_assoc]

theorem everywhere_concat {P : List α → α → Prop} {l : List α} {a : α} :
    (∀ earlier x later, l ++ [a] = earlier ++ x :: later → P earlier x) ↔
      (∀ earlier x later, l = earlier ++ x :: later → P earlier x) ∧ P l a := by
  constructor
  · intro h
    refine ⟨fun earlier x later heq => ?_, h l a [] rfl⟩
    exact h earlier x (later ++ [a]) (by rw [heq, List.append_assoc, List.cons_append])
  · rintro ⟨h, ha⟩ earlier x later heq
    rcases List.eq_nil_or_concat later with rfl | ⟨later, y, rfl⟩
    · obtain ⟨rfl, hx⟩ := List.append_inj' heq rfl
      obtain ⟨rfl, -⟩ := List.cons.inj hx
      exact ha
    · rw [List.concat_eq_append, ← List.cons_append, ← List.append_assoc] at heq
      obtain ⟨hl, -⟩ := List.append_inj' heq rfl
      exact h earlier x later hl

/-- The state after the chunks of a list, and what each of them returned. -/
def feed (process : σ → γ → σ × ω) : σ → List γ → σ × List ω
  | s, []          => (s, [])
  | s, c :: chunks => ((feed process (process s c).1 chunks).1, (process s c).2 :: (feed process (process s c).1 chunks).2)

@[simp] theorem feed_nil (process : σ → γ → σ × ω) (s : σ) : feed process s [] = (s, []) := rfl

theorem feed_cons (process : σ → γ → σ × ω) (s : σ) (c : γ) (chunks : List γ) :
    feed process s (c :: chunks) =
      ((feed process (process s c).1 chunks).1, (process s c).2 :: (feed process (process s c).1 chunks).2) := rfl

/-- **A processor that runs a machine does not see where its chunks end.** -/
theorem feed_run {process : σ → List α → σ × List β} (h : ∀ s l, process s l = run step s l) :
    ∀ (chunks : List (List α)) (s : σ),
      ((feed process s chunks).1, (feed process s chunks).2.flatten) = run step s chunks.flatten
  | [], _ => rfl
  | c :: chunks, s => by
    have ih := feed_run h chunks (process s c).1
    rw [feed_cons, List.flatten_cons, List.flatten_cons, run_append, ← h s c, ← ih]

/-- **What every chunk keeps, the chunks of a stream keep.** -/
theorem feed_invariant {process : σ → γ → σ × ω} {I : σ → Prop} (h : ∀ s c, I s → I (process s c).1) :
    ∀ (chunks : List γ) (s : σ), I s → I (feed process s chunks).1
  | [], _, hs => hs
  | c :: chunks, s, hs => feed_invariant h chunks (process s c).1 (h s c hs)

end Mealy

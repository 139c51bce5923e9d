import Mathlib.Data.List.Basic
/-!
# Steps — runs of a step function, and the links of a system

A system here is a state and a total step function, with whatever a caller or the environment chooses as the step's
argument.  A run is the fold of the step over the choices; an invariant is proved for one step and holds in every state
of every run (`run_invariant`).  A reliable ordered link between two parties is a `Fifo`.
-/
namespace Steps

variable {σ α : Type}

def run (step : σ → α → σ) (s : σ) (choices : List α) : σ := choices.foldl step s

@[simp] theorem run_nil (step : σ → α → σ) (s : σ) : run step s [] = s := rfl

@[simp] theorem run_cons (step : σ → α → σ) (s : σ) (a : α) (l : List α) :
    run step s (a :: l) = run step (step s a) l := rfl

theorem run_append (step : σ → α → σ) (s : σ) (l m : List α) : run step s (l ++ m) = run step (run step s l) m :=
  List.foldl_append

/-- **What one step keeps, every run keeps.** -/
theorem run_invariant {step : σ → α → σ} {I : σ → Prop} (h : ∀ s a, I s → I (step s a)) :
    ∀ (l : List α) (s : σ), I s → I (run step s l)
  | [], _, hs => hs
  | a :: l, s, hs => run_invariant h l (step s a) (h s a hs)

/-- A condition holds at every step of a run, in the state before it. -/
def Along (step : σ → α → σ) (C : σ → α → Prop) : σ → List α → Prop
  | _, []     => True
  | s, a :: l => C s a ∧ Along step C (step s a) l

theorem along_append {step : σ → α → σ} {C : σ → α → Prop} : ∀ (l m : List α) (s : σ),
    Along step C s (l ++ m) ↔ Along step C s l ∧ Along step C (run step s l) m
  | [], m, s => by simp [Along]
  | a :: l, m, s => by
    show C s a ∧ Along step C (step s a) (l ++ m) ↔ (C s a ∧ Along step C (step s a) l) ∧ _
    rw [along_append l m (step s a), and_assoc, run_cons]

/-- **What a step that meets a condition keeps, a run whose steps all meet it keeps.** -/
theorem run_invariant_along {step : σ → α → σ} {C : σ → α → Prop} {I : σ → Prop}
    (h : ∀ s a, C s a → I s → I (step s a)) : ∀ (l : List α) (s : σ), Along step C s l → I s → I (run step s l)
  | [], _, _, hs => hs
  | a :: l, s, ⟨hc, hl⟩, hs => run_invariant_along h l (step s a) hl (h s a hc hs)

/-- Two conditions that agree where an invariant holds, agree on every run, if the one keeps the invariant. -/
theorem along_iff {step : σ → α → σ} {C D : σ → α → Prop} {I : σ → Prop} (hi : ∀ s a, I s → (C s a ↔ D s a))
    (hk : ∀ s a, I s → C s a → I (step s a)) : ∀ (l : List α) (s : σ), I s → (Along step C s l ↔ Along step D s l)
  | [], _, _ => Iff.rfl
  | a :: l, s, hs => by
    show C s a ∧ _ ↔ D s a ∧ _
    rw [← hi s a hs]
    exact and_congr_right (fun hc => along_iff hi hk l (step s a) (hk s a hs hc))

/-- **A step keeps an invariant exactly when it meets a condition, so every state of a run has it exactly when every step
of the run meets the condition.** -/
theorem states_iff_along {step : σ → α → σ} {C : σ → α → Prop} {I : σ → Prop}
    (h : ∀ s a, I s → (I (step s a) ↔ C s a)) :
    ∀ (l : List α) (s : σ), I s → ((∀ k, I (run step s (l.take k))) ↔ Along step C s l)
  | [], s, hs => ⟨fun _ => trivial, fun _ k => by rw [List.take_nil]; exact hs⟩
  | a :: l, s, hs => by
    constructor
    · intro hall
      have ha : I (step s a) := by
        have := hall 1
        rwa [List.take_succ_cons, List.take_zero] at this
      exact ⟨(h s a hs).mp ha, (states_iff_along h l (step s a) ha).mp (fun k => hall (k + 1))⟩
    · rintro ⟨hc, hl⟩ k
      have ha := (h s a hs).mpr hc
      cases k with
      | zero => exact hs
      | succ k => exact (states_iff_along h l (step s a) ha).mpr hl k

/-- A reliable ordered link: what has come out of it, and what is under way. -/
structure Fifo (α : Type) where
  done  : List α
  queue : List α

namespace Fifo

def empty : Fifo α := ⟨[], []⟩

def log (l : Fifo α) : List α := l.done ++ l.queue

def send (l : Fifo α) (x : α) : Fifo α := { l with queue := l.queue ++ [x] }

def deliver (l : Fifo α) : Option (α × Fifo α) :=
  match l.queue with
  | []      => none
  | x :: xs => some (x, ⟨l.done ++ [x], xs⟩)

@[simp] theorem log_empty : (empty : Fifo α).log = [] := rfl

@[simp] theorem log_send (l : Fifo α) (x : α) : (l.send x).log = l.log ++ [x] := (List.append_assoc ..).symm

theorem deliver_spec {l l' : Fifo α} {x : α} (h : l.deliver = some (x, l')) : l'.log = l.log ∧ l'.done = l.done ++ [x] := by
  obtain ⟨done, queue⟩ := l
  cases queue with
  | nil => cases h
  | cons y ys =>
    cases h
    exact ⟨by simp [log], rfl⟩

theorem done_prefix (l : Fifo α) : l.done <+: l.log := List.prefix_append _ _

end Fifo

end Steps

import Dormouse.Steps
import Dormouse.QuitModel
/-!
# QuitClose — one window's close, and its watchdogs

The `CloseMachine` of `quit_state.rs`, over the lookups of its map, and the test of the watchdog that `request_window_close`
arms with the number its request was given.  A watchdog may wake at any time and closes its window only if nothing was
heard of the window since.
-/
namespace Dormouse
namespace Quit

structure CloseEntry where
  active : Bool := false
  seq : Nat := 0
  acked : Bool := false

structure CloseMachine where
  pending : Label → Option CloseEntry := fun _ => none

namespace CloseMachine

def request (m : CloseMachine) (label : Label) : CloseMachine × Nat :=
  let seq := ((m.pending label).getD {}).seq + 1
  (⟨Function.update m.pending label (some ⟨true, seq, false⟩)⟩, seq)

def ack (m : CloseMachine) (label : Label) : CloseMachine :=
  ⟨Function.update m.pending label ((m.pending label).map ({ · with acked := true }))⟩

/-- The number is counted on and never given out again, so that a watchdog that sleeps stays stale. -/
def clear (m : CloseMachine) (label : Label) : CloseMachine :=
  ⟨Function.update m.pending label ((m.pending label).map (fun entry => ⟨false, entry.seq + 1, false⟩))⟩

def stale (m : CloseMachine) (label : Label) (seq : Nat) : Bool := (m.pending label).map CloseEntry.seq ≠ some seq

def acked (m : CloseMachine) (label : Label) : Bool := (m.pending label).any CloseEntry.acked

/-- Whether the watchdog of a request closes the window, if it wakes now. -/
def fires (m : CloseMachine) (label : Label) (seq : Nat) : Bool := !(m.stale label seq || m.acked label)

end CloseMachine

inductive CloseOp where
  | request (label : Label)
  | ack (label : Label)
  | clear (label : Label)

def CloseOp.label : CloseOp → Label
  | .request label => label
  | .ack label => label
  | .clear label => label

namespace CloseMachine

def step (m : CloseMachine) : CloseOp → CloseMachine
  | .request label => (m.request label).1
  | .ack label => m.ack label
  | .clear label => m.clear label

variable {label : Label}

theorem pending_other (m : CloseMachine) {op : CloseOp} (h : op.label ≠ label) : (m.step op).pending label = m.pending label := by
  cases op <;> exact Function.update_of_ne (Ne.symm h) ..

/-- What a window's own operation leaves: a later number, or an answer. -/
theorem pending_own (m : CloseMachine) {entry : CloseEntry} (h : m.pending label = some entry) {op : CloseOp}
    (hop : op.label = label) : ∃ entry', (m.step op).pending label = some entry' ∧
      (entry.seq < entry'.seq ∨ entry'.seq = entry.seq ∧ entry'.acked = true) := by
  subst hop
  cases op with
  | request label => exact ⟨_, Function.update_self .., .inl (by simp [show m.pending label = _ from h])⟩
  | ack label =>
    exact ⟨{ entry with acked := true }, (Function.update_self ..).trans (by rw [show m.pending label = _ from h]; rfl),
      .inr ⟨rfl, rfl⟩⟩
  | clear label =>
    exact ⟨_, (Function.update_self ..).trans (by rw [show m.pending label = _ from h]; rfl), .inl (Nat.lt_succ_self _)⟩

/-- A number that was overtaken stays so, and one that was answered stays answered until it is overtaken. -/
theorem unanswered_run (seq : Nat) : ∀ (ops : List CloseOp) {m : CloseMachine} {entry : CloseEntry}, m.pending label = some entry →
    seq ≤ entry.seq → ∃ entry', (Steps.run step m ops).pending label = some entry' ∧ seq ≤ entry'.seq ∧
      (entry'.seq = seq ∧ entry'.acked = false ↔
        (entry.seq = seq ∧ entry.acked = false) ∧ ∀ op ∈ ops, op.label ≠ label)
  | [], _, entry, h, hle => ⟨entry, h, hle, by simp⟩
  | op :: ops, m, entry, h, hle => by
    rw [Steps.run_cons]
    by_cases hop : op.label = label
    · obtain ⟨entry₁, h₁, hnext⟩ := m.pending_own h hop
      obtain ⟨entry', h', hle', hiff⟩ := unanswered_run seq ops h₁ (by omega)
      refine ⟨entry', h', hle', hiff.trans ⟨fun hall => ?_, fun hall => absurd hop (hall.2 op List.mem_cons_self)⟩⟩
      obtain ⟨⟨hseq, hacked⟩, -⟩ := hall
      rcases hnext with hlt | ⟨-, hack⟩
      · omega
      · rw [hack] at hacked
        cases hacked
    · obtain ⟨entry', h', hle', hiff⟩ := unanswered_run seq ops ((m.pending_other hop).trans h) hle
      refine ⟨entry', h', hle', hiff.trans (and_congr_right fun _ => ?_)⟩
      simp only [List.forall_mem_cons, ne_eq, hop, not_false_eq_true, true_and]

/-- **A watchdog closes its window exactly when nothing was heard of the window since its request**: no answer, no
retirement and no newer request, whatever happens to other windows. So of a window's watchdogs only the newest may. -/
theorem watchdog_fires_iff (before after : List CloseOp) (label : Label) :
    let m := Steps.run step {} before
    (Steps.run step {} (before ++ .request label :: after)).fires label (m.request label).2 = true ↔
      ∀ op ∈ after, op.label ≠ label := by
  intro m
  have hstart : (m.step (.request label)).pending label = some ⟨true, (m.request label).2, false⟩ := Function.update_self ..
  obtain ⟨entry, h, -, hiff⟩ := unanswered_run (m.request label).2 after hstart (Nat.le_refl _)
  rw [Steps.run_append, Steps.run_cons, fires, stale, acked, h]
  simpa using hiff

end CloseMachine
end Quit
end Dormouse

import Mathlib.Data.List.Perm.Subperm
/-!
# Worklist — what is found from what is pending

A loop that takes an element out of what is pending, from either end, and adds what it leads to and is new both to what is
found and to what is pending.  Where it leads stays within finitely many elements, so it ends; then it has found what can be
reached, and nothing else (`loop_finds`).
-/
structure Worklist (α : Type) where
  found : List α
  pending : List α

namespace Worklist

open Relation (ReflTransGen)

variable {α β : Type} {P : α → Prop} {w w' w'' : Worklist α}

section
variable [DecidableEq α]

def visit (w : Worklist α) (x : α) : Worklist α := if x ∈ w.found then w else ⟨w.found ++ [x], w.pending ++ [x]⟩

end

/-- So many turns at most; `pick` takes the next element out of those pending. -/
def loop (pick : List α → Option (α × List α)) (turn : α → Worklist α → Worklist α) : Nat → Worklist α → Worklist α
  | 0, w => w
  | n + 1, w =>
    match pick w.pending with
    | none => w
    | some (x, rest) => loop pick turn n (turn x { w with pending := rest })

/-- Elements of a kind were added, each to both and none that was found before. -/
def Adds (P : α → Prop) (w w' : Worklist α) : Prop :=
  ∃ new, w'.found = w.found ++ new ∧ w'.pending = w.pending ++ new ∧ (∀ x ∈ new, P x) ∧ (w.found.Nodup → w'.found.Nodup)

namespace Adds

theorem refl (w : Worklist α) : Adds P w w := ⟨[], by simp, by simp, by simp, id⟩

theorem trans (h : Adds P w w') (h' : Adds P w' w'') : Adds P w w'' := by
  obtain ⟨new, hfound, hpending, hnew, hnodup⟩ := h
  obtain ⟨new', hfound', hpending', hnew', hnodup'⟩ := h'
  exact ⟨new ++ new', by simp [hfound', hfound], by simp [hpending', hpending],
    fun x hx => (List.mem_append.1 hx).elim (hnew x) (hnew' x), fun h => hnodup' (hnodup h)⟩

theorem subset (h : Adds P w w') : w.found ⊆ w'.found := by
  obtain ⟨new, hfound, -⟩ := h
  exact hfound ▸ List.subset_append_left ..

theorem visit [DecidableEq α] (w : Worklist α) {x : α} (hx : P x) : Adds P w (w.visit x) := by
  unfold Worklist.visit
  split
  · exact .refl w
  · rename_i hnew
    exact ⟨[x], rfl, rfl, by simpa using hx, fun h => by simpa [List.nodup_append] using ⟨h, fun y hy heq => hnew (heq ▸ hy)⟩⟩

/-- What one step of a loop adds, and `Q` says it found, under what it keeps. -/
theorem foldl {I : List α → Prop} {Q : β → List α → Prop} {f : Worklist α → β → Worklist α}
    (hQ : ∀ b l l', l ⊆ l' → Q b l → Q b l') : ∀ {l : List β} {w : Worklist α},
    (∀ b ∈ l, ∀ w, I w.found → Adds P w (f w b) ∧ I (f w b).found ∧ Q b (f w b).found) → I w.found →
    Adds P w (l.foldl f w) ∧ I (l.foldl f w).found ∧ ∀ b ∈ l, Q b (l.foldl f w).found
  | [], w, _, hI => ⟨.refl w, hI, by simp⟩
  | b :: l, w, h, hI => by
    obtain ⟨hadds, hI', hb⟩ := h b List.mem_cons_self w hI
    obtain ⟨hrest, hI'', hall⟩ := foldl hQ (fun b hb => h b (List.mem_cons_of_mem _ hb)) hI'
    exact ⟨hadds.trans hrest, hI'', List.forall_mem_cons.2 ⟨hQ b _ _ hrest.subset hb, hall⟩⟩

theorem visits [DecidableEq α] (w : Worklist α) {l : List α} (hl : ∀ x ∈ l, P x) :
    Adds P w (l.foldl Worklist.visit w) ∧ ∀ x ∈ l, x ∈ (l.foldl Worklist.visit w).found := by
  obtain ⟨hadds, -, hfound⟩ := foldl (I := fun _ => True) (Q := fun (x : α) found => x ∈ found) (f := Worklist.visit)
    (fun _ _ _ hsub hx => hsub hx) (l := l) (w := w)
    (fun x hx w _ => ⟨.visit w (hl x hx), trivial, by unfold Worklist.visit; split <;> simp_all⟩) trivial
  exact ⟨hadds, hfound⟩

end Adds

/-- A loop under way from `start`, along a relation. -/
structure Searching (R : α → α → Prop) (start : List α) (I : List α → Prop) (w : Worklist α) : Prop where
  nodup : w.found.Nodup
  pending : w.pending ⊆ w.found
  begun : start ⊆ w.found
  reached : ∀ y ∈ w.found, ∃ x ∈ start, ReflTransGen R x y
  done : ∀ x ∈ w.found, x ∉ w.pending → ∀ y, R x y → y ∈ w.found
  kept : I w.found

/-- **A loop ends, and has found what its start reaches and nothing else**, if one turn finds what its element leads to,
and adds nothing that the element does not reach. -/
theorem loop_finds {R : α → α → Prop} {I : List α → Prop} {pick : List α → Option (α × List α)}
    {turn : α → Worklist α → Worklist α} {start : List α} (places : List α)
    (hnone : ∀ l, pick l = none → l = []) (hsome : ∀ l x rest, pick l = some (x, rest) → l.Perm (x :: rest))
    (hturn : ∀ x w, x ∈ w.found → I w.found →
      Adds (ReflTransGen R x) w (turn x w) ∧ I (turn x w).found ∧ ∀ y, R x y → y ∈ (turn x w).found)
    (hwithin : ∀ x ∈ start, ∀ y, ReflTransGen R x y → y ∈ places) {n : Nat} {w : Worklist α}
    (hw : Searching R start I w) (hn : places.length + w.pending.length ≤ n + w.found.length) :
    (loop pick turn n w).found.Nodup ∧ I (loop pick turn n w).found ∧
      ∀ y, y ∈ (loop pick turn n w).found ↔ ∃ x ∈ start, ReflTransGen R x y := by
  have hover : ∀ {w}, Searching R start I w → w.pending = [] →
      w.found.Nodup ∧ I w.found ∧ ∀ y, y ∈ w.found ↔ ∃ x ∈ start, ReflTransGen R x y := by
    refine fun hw hend => ⟨hw.nodup, hw.kept, fun y => ⟨hw.reached y, ?_⟩⟩
    rintro ⟨x, hx, hxy⟩
    induction hxy with
    | refl => exact hw.begun hx
    | tail _ hyz ih => exact hw.done _ ih (by simp [hend]) _ hyz
  induction n generalizing w with
  | zero =>
    have hle : w.found.length ≤ places.length := (hw.nodup.subperm fun y hy => by
      obtain ⟨x, hx, hxy⟩ := hw.reached y hy
      exact hwithin x hx y hxy).length_le
    have hend : w.pending.length = 0 := by omega
    exact hover hw (List.length_eq_zero_iff.1 hend)
  | succ n ih =>
    rw [loop]
    cases hpick : pick w.pending with
    | none => exact hover hw (hnone _ hpick)
    | some p =>
      obtain ⟨x, rest⟩ := p
      have hperm := hsome _ _ _ hpick
      have hx : x ∈ w.found := hw.pending (hperm.mem_iff.2 List.mem_cons_self)
      obtain ⟨hadds, hI, hR⟩ := hturn x { w with pending := rest } hx hw.kept
      have hsub := hadds.subset
      obtain ⟨new, hfound, hpending, hreached, hnodup⟩ := hadds
      refine ih ⟨hnodup hw.nodup, ?_, fun y hy => hsub (hw.begun hy), ?_, ?_, hI⟩ ?_
      · intro y hy
        rw [hpending] at hy
        rw [hfound]
        rcases List.mem_append.1 hy with hy | hy
        · exact List.mem_append_left _ (hw.pending (hperm.mem_iff.2 (List.mem_cons_of_mem _ hy)))
        · exact List.mem_append_right _ hy
      · intro y hy
        rw [hfound] at hy
        rcases List.mem_append.1 hy with hy | hy
        · exact hw.reached y hy
        · obtain ⟨z, hz, hzx⟩ := hw.reached x hx
          exact ⟨z, hz, hzx.trans (hreached y hy)⟩
      · intro y hy hover y' hyy'
        by_cases hyx : y = x
        · exact hR y' (hyx ▸ hyy')
        · rw [hfound] at hy
          rw [hpending, List.mem_append, not_or] at hover
          have hy : y ∈ w.found := (List.mem_append.1 hy).resolve_right hover.2
          exact hsub (hw.done y hy (by simp [hperm.mem_iff, hyx, hover.1]) y' hyy')
      · have := hperm.length_eq
        simp_all
        omega

end Worklist

import Mathlib.Data.List.Chain
/-!
# Bulletin — announcements under keys, none twice in a row

A publisher announces values under keys and remembers the last one of each key.  Readers tell two values apart by what
they see of them.  `Carries` says what a list of announcements does to the memory, and that no announcement repeats the
one before it under its key.  Lists compose (`Carries.trans`), so a publisher is described one announcement at a time.
-/
namespace Bulletin

variable {κ ν γ : Type} [DecidableEq κ] {seen : ν → γ}

def own (k : κ) (l : List (κ × ν)) : List ν := (l.filter (fun a => a.1 = k)).map (·.2)

@[simp] theorem own_nil (k : κ) : own k ([] : List (κ × ν)) = [] := rfl

@[simp] theorem own_append (k : κ) (l l' : List (κ × ν)) : own k (l ++ l') = own k l ++ own k l' := by
  simp [own]

@[simp] theorem own_self (k : κ) (v : ν) : own k [(k, v)] = [v] := by
  simp [own]

theorem own_ne {k k' : κ} (h : k' ≠ k) (v : ν) : own k' [(k, v)] = [] := by
  simp [own, Ne.symm h]

/-- The announcements `l` lead from one memory to the other, each news to the readers of its key. -/
structure Carries (seen : ν → γ) (last last' : κ → Option ν) (l : List (κ × ν)) : Prop where
  remembered : ∀ k, last' k = ((last k).toList ++ own k l).getLast?
  fresh      : ∀ k, List.IsChain (fun a b => seen a ≠ seen b) ((last k).toList ++ own k l)

theorem getLast?_toList (o : Option ν) : o.toList.getLast? = o := by
  cases o with
  | none => rfl
  | some v => rfl

theorem getLast?_resume (l l' : List ν) : (l.getLast?.toList ++ l').getLast? = (l ++ l').getLast? := by
  rw [List.getLast?_append, List.getLast?_append, getLast?_toList]

namespace Carries

variable {last last' last'' : κ → Option ν} {l l' : List (κ × ν)}

theorem refl (last : κ → Option ν) : Carries seen last last [] := by
  refine ⟨fun k => ?_, fun k => ?_⟩
  · rw [own_nil, List.append_nil, getLast?_toList]
  · rw [own_nil, List.append_nil]
    cases last k with
    | none => exact .nil
    | some v => exact .singleton v

/-- **Announcements compose.** -/
theorem trans (h : Carries seen last last' l) (h' : Carries seen last' last'' l') :
    Carries seen last last'' (l ++ l') := by
  refine ⟨fun k => ?_, fun k => ?_⟩
  · rw [h'.remembered k, h.remembered k, getLast?_resume, own_append, List.append_assoc]
  · have hf := h'.fresh k
    rw [h.remembered k] at hf
    rw [own_append, ← List.append_assoc]
    obtain ⟨-, hr, hj⟩ := List.isChain_append.mp hf
    refine (h.fresh k).append hr (fun a ha b hb => hj a ?_ b hb)
    rw [getLast?_toList]
    exact ha

theorem single {k : κ} {v : ν} (hk : last' k = some v) (ho : ∀ k', k' ≠ k → last' k' = last k')
    (hn : ∀ w, last k = some w → seen w ≠ seen v) : Carries seen last last' [(k, v)] := by
  refine ⟨fun k' => ?_, fun k' => ?_⟩
  · by_cases h : k' = k
    · subst h
      rw [own_self, List.getLast?_concat, hk]
    · rw [own_ne h, List.append_nil, getLast?_toList, ho k' h]
  · by_cases h : k' = k
    · subst h
      rw [own_self]
      cases hl : last k' with
      | none => exact .singleton v
      | some w => exact List.isChain_cons_cons.mpr ⟨hn w hl, .singleton v⟩
    · rw [own_ne h]
      exact (refl last : Carries seen last last []).fresh k'

theorem last_own (h : Carries seen last last' l) {k : κ} {v : ν} (hv : (own k l).getLast? = some v) :
    last' k = some v := by
  rw [h.remembered k, List.getLast?_append, hv]
  rfl

theorem last_silent (h : Carries seen last last' l) {k : κ} (hn : own k l = []) : last' k = last k := by
  rw [h.remembered k, hn, List.append_nil, getLast?_toList]

end Carries

end Bulletin

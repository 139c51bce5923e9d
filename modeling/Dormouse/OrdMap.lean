import Mathlib.Data.List.Nodup
import Mathlib.Data.List.Perm.Subperm
/-!
# OrdMap — a finite map that keeps the order of insertion

The map of a language whose maps iterate in the order their keys were first set: setting a key that is there keeps its
place, deleting it and setting it again puts it last.  The keys are distinct by construction.  A map is read through
`get` alone, but for what depends on its order, which is read off `entries`; `mem_entries` says the two agree.
-/

structure OrdMap (κ α : Type) where
  entries : List (κ × α)
  nodup   : (entries.map Prod.fst).Nodup

namespace OrdMap

variable {κ α : Type} [DecidableEq κ]

instance [DecidableEq α] : DecidableEq (OrdMap κ α) := fun a b =>
  decidable_of_iff (a.entries = b.entries) ⟨fun h => by cases a; cases b; cases h; rfl, fun h => by rw [h]⟩

def empty : OrdMap κ α := ⟨[], List.nodup_nil⟩

def keys (m : OrdMap κ α) : List κ := m.entries.map Prod.fst

def get (m : OrdMap κ α) (k : κ) : Option α := (m.entries.find? (fun e => e.1 = k)).map Prod.snd

def delete (m : OrdMap κ α) (k : κ) : OrdMap κ α where
  entries := m.entries.filter (fun e => e.1 ≠ k)
  nodup   := m.nodup.sublist (List.filter_sublist.map Prod.fst)

theorem map_fst_replace (l : List (κ × α)) (k : κ) (v : α) :
    (l.map (fun e => if e.1 = k then (k, v) else e)).map Prod.fst = l.map Prod.fst := by
  rw [List.map_map]
  refine List.map_congr_left fun e _ => ?_
  by_cases h : e.1 = k
  · simp [h]
  · simp [h]

def set (m : OrdMap κ α) (k : κ) (v : α) : OrdMap κ α :=
  if h : k ∈ m.keys then
    ⟨m.entries.map (fun e => if e.1 = k then (k, v) else e), by rw [map_fst_replace]; exact m.nodup⟩
  else
    ⟨m.entries ++ [(k, v)], by
      rw [List.map_append, List.map_singleton]
      exact List.nodup_append.2 ⟨m.nodup, List.nodup_singleton k, fun a ha b hb => by
        rw [List.mem_singleton.1 hb]; rintro rfl; exact h ha⟩⟩

omit [DecidableEq κ] in
theorem map_fst_mapValues (l : List (κ × α)) (f : α → α) :
    (l.map (fun e => (e.1, f e.2))).map Prod.fst = l.map Prod.fst := by
  rw [List.map_map]
  rfl

def mapValues (m : OrdMap κ α) (f : α → α) : OrdMap κ α where
  entries := m.entries.map (fun e => (e.1, f e.2))
  nodup   := by rw [map_fst_mapValues]; exact m.nodup

def values (m : OrdMap κ α) : List α := m.entries.map Prod.snd

def size (m : OrdMap κ α) : Nat := m.entries.length

def count (m : OrdMap κ α) (p : α → Bool) : Nat := m.entries.countP (fun e => p e.2)

/-! ## What a key holds -/

variable {k : κ}

theorem find?_fst {l : List (κ × α)} (hl : (l.map Prod.fst).Nodup) {v : α} (h : (k, v) ∈ l) :
    l.find? (fun e => e.1 = k) = some (k, v) := by
  induction l with
  | nil => exact absurd h List.not_mem_nil
  | cons e l ih =>
    rw [List.map_cons, List.nodup_cons] at hl
    rcases List.mem_cons.1 h with rfl | h
    · simp
    · have hne : e.1 ≠ k := fun he => hl.1 (he ▸ List.mem_map_of_mem (f := Prod.fst) h)
      rw [List.find?_cons_of_neg (by simpa using hne)]
      exact ih hl.2 h

variable {m : OrdMap κ α}

/-- **An entry is what its key holds.** -/
theorem mem_entries {v : α} : (k, v) ∈ m.entries ↔ m.get k = some v := by
  unfold get
  constructor
  · intro h
    rw [find?_fst m.nodup h]
    rfl
  · intro h
    obtain ⟨e, he, rfl⟩ := Option.map_eq_some_iff.1 h
    have hk : e.1 = k := by simpa using List.find?_some he
    rw [← hk]
    exact List.mem_of_find?_eq_some he

theorem mem_keys : k ∈ m.keys ↔ ∃ v, m.get k = some v := by
  unfold keys
  rw [List.mem_map]
  constructor
  · rintro ⟨⟨a, v⟩, he, rfl⟩
    exact ⟨v, mem_entries.1 he⟩
  · rintro ⟨v, hv⟩
    exact ⟨(k, v), mem_entries.2 hv, rfl⟩

theorem mem_values {v : α} : v ∈ m.values ↔ ∃ k, m.get k = some v := by
  unfold values
  rw [List.mem_map]
  constructor
  · rintro ⟨⟨k, w⟩, he, rfl⟩
    exact ⟨k, mem_entries.1 he⟩
  · rintro ⟨k, hk⟩
    exact ⟨(k, v), mem_entries.2 hk, rfl⟩

@[simp] theorem get_empty (k : κ) : (empty : OrdMap κ α).get k = none := rfl

@[simp] theorem get_delete_self (m : OrdMap κ α) (k : κ) : (m.delete k).get k = none := by
  cases h : (m.delete k).get k with
  | none   => rfl
  | some v =>
    have hm := (List.mem_filter.1 (mem_entries.2 h)).2
    simp at hm

theorem get_delete_ne (m : OrdMap κ α) {k k' : κ} (h : k' ≠ k) : (m.delete k).get k' = m.get k' := by
  refine Option.ext fun v => ?_
  rw [← mem_entries, ← mem_entries]
  simp only [delete, List.mem_filter, decide_eq_true_eq]
  exact ⟨And.left, fun hm => ⟨hm, h⟩⟩

theorem set_entries_of_mem (m : OrdMap κ α) (v : α) (h : k ∈ m.keys) :
    (m.set k v).entries = m.entries.map (fun e => if e.1 = k then (k, v) else e) := by
  unfold set
  rw [dif_pos h]

theorem set_entries_of_not_mem (m : OrdMap κ α) (v : α) (h : k ∉ m.keys) :
    (m.set k v).entries = m.entries ++ [(k, v)] := by
  unfold set
  rw [dif_neg h]

@[simp] theorem get_set_self (m : OrdMap κ α) (k : κ) (v : α) : (m.set k v).get k = some v := by
  rw [← mem_entries]
  by_cases h : k ∈ m.keys
  · rw [set_entries_of_mem m v h]
    obtain ⟨w, hw⟩ := mem_keys.1 h
    exact List.mem_map.2 ⟨(k, w), mem_entries.2 hw, by simp⟩
  · rw [set_entries_of_not_mem m v h]
    exact List.mem_append_right _ (List.mem_singleton.2 rfl)

theorem get_set_ne (m : OrdMap κ α) {k k' : κ} (v : α) (h : k' ≠ k) : (m.set k v).get k' = m.get k' := by
  refine Option.ext fun w => ?_
  rw [← mem_entries, ← mem_entries]
  by_cases hk : k ∈ m.keys
  · rw [set_entries_of_mem m v hk, List.mem_map]
    constructor
    · rintro ⟨e, he, heq⟩
      by_cases hek : e.1 = k
      · rw [if_pos hek] at heq
        exact (h (Prod.mk.inj heq).1.symm).elim
      · rw [if_neg hek] at heq
        exact heq ▸ he
    · intro hm
      exact ⟨(k', w), hm, if_neg h⟩
  · rw [set_entries_of_not_mem m v hk, List.mem_append, List.mem_singleton]
    constructor
    · rintro (hm | hm)
      · exact hm
      · exact (h (Prod.mk.inj hm).1).elim
    · exact .inl

theorem get_set (m : OrdMap κ α) (k k' : κ) (v : α) :
    (m.set k v).get k' = if k' = k then some v else m.get k' := by
  by_cases h : k' = k
  · rw [if_pos h, h, get_set_self]
  · rw [if_neg h, get_set_ne m v h]

theorem get_delete (m : OrdMap κ α) (k k' : κ) : (m.delete k).get k' = if k' = k then none else m.get k' := by
  by_cases h : k' = k
  · rw [if_pos h, h, get_delete_self]
  · rw [if_neg h, get_delete_ne m h]

theorem get_mapValues (m : OrdMap κ α) (f : α → α) (k : κ) : (m.mapValues f).get k = (m.get k).map f := by
  refine Option.ext fun w => ?_
  rw [← mem_entries, Option.map_eq_some_iff]
  simp only [mapValues, List.mem_map, Prod.mk.injEq]
  constructor
  · rintro ⟨⟨k', v⟩, he, rfl, rfl⟩
    exact ⟨v, mem_entries.1 he, rfl⟩
  · rintro ⟨v, hv, rfl⟩
    exact ⟨(k, v), mem_entries.2 hv, rfl, rfl⟩

/-- Where the kind is held under one key only, the values of the kind are what that key holds. -/
theorem filter_values_of_key (m : OrdMap κ α) (k : κ) {q : α → Bool}
    (h : ∀ k' v, m.get k' = some v → q v = true → k' = k) : m.values.filter q = ((m.get k).filter q).toList := by
  have hall : ∀ l : List (κ × α), (l.map Prod.fst).Nodup → (∀ e ∈ l, q e.2 = true → e.1 = k) →
      (l.map Prod.snd).filter q = (((l.find? (fun e => e.1 = k)).map Prod.snd).filter q).toList := by
    intro l
    induction l with
    | nil => exact fun _ _ => rfl
    | cons e l ih =>
      intro hl hq
      rw [List.map_cons, List.nodup_cons] at hl
      by_cases hk : e.1 = k
      · have hrest : (l.map Prod.snd).filter q = [] := by
          refine List.filter_eq_nil_iff.2 (fun v hv hqv => ?_)
          obtain ⟨e', he', rfl⟩ := List.mem_map.1 hv
          have hk' := hq e' (List.mem_cons_of_mem _ he') hqv
          exact hl.1 (hk.trans hk'.symm ▸ List.mem_map_of_mem (f := Prod.fst) he')
        rw [List.map_cons, List.find?_cons_of_pos (by simpa using hk), List.filter_cons, hrest]
        by_cases hqe : q e.2 = true
        · simp [Option.filter, hqe]
        · simp [Option.filter, hqe]
      · have hqe : ¬ q e.2 = true := fun hqe => hk (hq e List.mem_cons_self hqe)
        rw [List.map_cons, List.filter_cons_of_neg hqe, List.find?_cons_of_neg (by simpa using hk)]
        exact ih hl.2 (fun e' he' => hq e' (List.mem_cons_of_mem _ he'))
  exact hall m.entries m.nodup (fun e he hqe => h e.1 e.2 (mem_entries.1 he) hqe)

/-! ## Counting -/

def holders (m : OrdMap κ α) (p : α → Bool) : List κ := (m.entries.filter (fun e => p e.2)).map Prod.fst

omit [DecidableEq κ] in
theorem count_eq_holders (m : OrdMap κ α) (p : α → Bool) : m.count p = (m.holders p).length := by
  rw [count, holders, List.length_map, List.countP_eq_length_filter]

variable {p : α → Bool}

theorem mem_holders :
    k ∈ m.holders p ↔ ∃ v, m.get k = some v ∧ p v = true := by
  unfold holders
  rw [List.mem_map]
  constructor
  · rintro ⟨⟨a, v⟩, he, rfl⟩
    obtain ⟨he, hp⟩ := List.mem_filter.1 he
    exact ⟨v, mem_entries.1 he, hp⟩
  · rintro ⟨v, hv, hp⟩
    exact ⟨(k, v), List.mem_filter.2 ⟨mem_entries.2 hv, hp⟩, rfl⟩

omit [DecidableEq κ] in
theorem nodup_holders (m : OrdMap κ α) (p : α → Bool) : (m.holders p).Nodup :=
  m.nodup.sublist (List.filter_sublist.map Prod.fst)

variable {m m' : OrdMap κ α}

/-- **A map that holds the kind only under keys that held it before holds it no more often.** -/
theorem count_le (h : ∀ k v, m'.get k = some v → p v = true → ∃ w, m.get k = some w ∧ p w = true) :
    m'.count p ≤ m.count p := by
  rw [count_eq_holders, count_eq_holders]
  refine (nodup_holders m' p).subperm (fun k hk => ?_) |>.length_le
  obtain ⟨v, hv, hp⟩ := mem_holders.1 hk
  exact mem_holders.2 (h k v hv hp)

theorem count_le_succ (k₀ : κ) (h : ∀ k v, k ≠ k₀ → m'.get k = some v → p v = true → ∃ w, m.get k = some w ∧ p w = true) :
    m'.count p ≤ m.count p + 1 := by
  rw [count_eq_holders, count_eq_holders, ← List.length_cons (a := k₀)]
  refine (nodup_holders m' p).subperm (fun k hk => ?_) |>.length_le
  obtain ⟨v, hv, hp⟩ := mem_holders.1 hk
  by_cases hk₀ : k = k₀
  · exact hk₀ ▸ List.mem_cons_self ..
  · exact List.mem_cons_of_mem _ (mem_holders.2 (h k v hk₀ hv hp))

/-- A key that held the kind and holds it no more, with no other key gaining it, leaves one less. -/
theorem count_lt {k₀ : κ} {w : α} (h₀ : m.get k₀ = some w) (hw : p w = true)
    (h : ∀ k v, m'.get k = some v → p v = true → k ≠ k₀ ∧ ∃ w, m.get k = some w ∧ p w = true) :
    m'.count p < m.count p := by
  rw [count_eq_holders, count_eq_holders]
  have hmem : k₀ ∈ m.holders p := mem_holders.2 ⟨w, h₀, hw⟩
  have hle : (m'.holders p).length ≤ ((m.holders p).erase k₀).length := by
    refine (nodup_holders m' p).subperm (fun k hk => ?_) |>.length_le
    obtain ⟨v, hv, hp⟩ := mem_holders.1 hk
    obtain ⟨hne, hold⟩ := h k v hv hp
    exact (List.mem_erase_of_ne hne).2 (mem_holders.2 hold)
  have hpos : 0 < (m.holders p).length := List.length_pos_of_mem hmem
  rw [List.length_erase_of_mem hmem] at hle
  omega

/-! ## Loops over a map -/

/-- What a loop over `m` sets in `out`: at each key what `f` gives for its entry, if anything. -/
def setFrom {β : Type} (out : OrdMap κ β) (m : OrdMap κ α) (f : κ → α → Option β) : OrdMap κ β :=
  m.entries.foldl (fun out e => (f e.1 e.2).elim out (out.set e.1)) out

theorem get_setFrom {β : Type} (out : OrdMap κ β) (m : OrdMap κ α) (f : κ → α → Option β) (k : κ) :
    (out.setFrom m f).get k = ((m.get k).bind (f k)).or (out.get k) := by
  have hloop : ∀ (l : List (κ × α)) (out : OrdMap κ β), (l.map Prod.fst).Nodup →
      (l.foldl (fun out e => (f e.1 e.2).elim out (out.set e.1)) out).get k =
        (((l.find? (fun e => e.1 = k)).map Prod.snd).bind (f k)).or (out.get k) := by
    intro l
    induction l with
    | nil => exact fun out _ => rfl
    | cons e l ih =>
      intro out hl
      rw [List.map_cons, List.nodup_cons] at hl
      rw [List.foldl_cons, ih _ hl.2]
      by_cases hk : e.1 = k
      · have hrest : l.find? (fun e => e.1 = k) = none := by
          refine List.find?_eq_none.2 (fun x hx hxk => hl.1 ?_)
          rw [hk, ← of_decide_eq_true hxk]
          exact List.mem_map_of_mem hx
        rw [List.find?_cons_of_pos (by simpa using hk), hrest, Option.map_some, Option.bind_some, ← hk]
        cases f e.1 e.2 with
        | none => rfl
        | some v => exact get_set_self out e.1 v
      · rw [List.find?_cons_of_neg (by simpa using hk)]
        cases f e.1 e.2 with
        | none => rfl
        | some v =>
          rw [Option.elim_some, get_set_ne out v (fun h => hk h.symm)]
  exact hloop m.entries out m.nodup

theorem setFrom_congr {β : Type} (out : OrdMap κ β) {f g : κ → α → Option β} (h : ∀ k v, m.get k = some v → f k v = g k v) :
    out.setFrom m f = out.setFrom m g :=
  List.foldl_ext _ _ out (fun out e he => by rw [h e.1 e.2 (mem_entries.1 he)])

def filterKeys (m : OrdMap κ α) (p : κ → Bool) : OrdMap κ α where
  entries := m.entries.filter (fun e => p e.1)
  nodup   := m.nodup.sublist (List.filter_sublist.map Prod.fst)

theorem get_filterKeys (m : OrdMap κ α) (p : κ → Bool) (k : κ) : (m.filterKeys p).get k = if p k = true then
    m.get k else none := by
  refine Option.ext fun v => ?_
  rw [← mem_entries, filterKeys, List.mem_filter, mem_entries]
  by_cases h : p k = true
  · rw [if_pos h]
    exact and_iff_left h
  · rw [if_neg h]
    exact ⟨fun hm => absurd hm.2 h, nofun⟩

end OrdMap

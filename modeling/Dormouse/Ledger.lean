import Mathlib.Data.List.Basic
/-!
# Ledger — what became of every symbol of a stream

A ledger gives each symbol of a text a fate.  One fate, `held`, is provisional: the symbols that are held are read again,
before what comes next, and a ledger of that reading settles them (`settle`).  A fate that no held symbol precedes keeps
its word in order through every settlement (`word_settle`).
-/
namespace Ledger

variable {α φ : Type}

def all (f : φ) (text : List α) : List (α × φ) := text.map (fun a => (a, f))

@[simp] theorem map_fst_all (f : φ) (text : List α) : (all f text).map Prod.fst = text := by
  simp [all, Function.comp_def]

theorem mem_all {f : φ} {text : List α} {e : α × φ} (h : e ∈ all f text) : e.2 = f := by
  obtain ⟨a, -, rfl⟩ := List.mem_map.mp h
  rfl

def Late (held f : φ) (l : List (α × φ)) : Prop := l.Pairwise (fun x y => x.2 = held → y.2 ≠ f)

theorem late_all {held f : φ} (h : held ≠ f) (g : φ) (text : List α) : Late held f (all g text) := by
  rw [Late, all, List.pairwise_map]
  refine List.pairwise_of_forall (fun _ _ hg => ?_)
  show g ≠ f
  rw [show g = held from hg]
  exact h

variable [DecidableEq φ]

def word (f : φ) (l : List (α × φ)) : List α := (l.filter (fun e => e.2 = f)).map Prod.fst

@[simp] theorem word_nil (f : φ) : word f ([] : List (α × φ)) = [] := rfl

theorem word_append (f : φ) (l m : List (α × φ)) : word f (l ++ m) = word f l ++ word f m := by
  simp [word]

theorem word_cons (f : φ) (e : α × φ) (l : List (α × φ)) :
    word f (e :: l) = (if e.2 = f then [e.1] else []) ++ word f l := by
  by_cases h : e.2 = f <;> simp [word, h]

theorem word_eq_nil {f : φ} {l : List (α × φ)} : word f l = [] ↔ ∀ e ∈ l, e.2 ≠ f := by
  simp [word, List.filter_eq_nil_iff]

theorem word_all (f g : φ) (text : List α) : word f (all g text) = if g = f then text else [] := by
  split
  · rename_i h
    subst h
    induction text with
    | nil => rfl
    | cons a text ih => rw [all, List.map_cons, word_cons, if_pos rfl, ← all, ih]; rfl
  · rename_i h
    exact word_eq_nil.mpr (fun _ he => by rw [mem_all he]; exact h)

theorem Late.append {held f : φ} {l m : List (α × φ)} (hl : word held l = []) (hm : Late held f m) :
    Late held f (l ++ m) := by
  have hall := word_eq_nil.mp hl
  induction l with
  | nil => exact hm
  | cons e l ih =>
    have hne : e.2 ≠ held := hall e (by simp)
    refine List.pairwise_cons.mpr ⟨fun _ _ h => absurd h hne, ih ?_ (fun x hx => hall x (by simp [hx]))⟩
    rw [word_cons, if_neg hne] at hl
    exact hl

/-- A ledger with its held symbols settled by the ledger of a later reading, which goes on past them. -/
def settle (held : φ) : List (α × φ) → List (α × φ) → List (α × φ)
  | [],     later => later
  | e :: l, later =>
    if e.2 = held then
      match later with
      | []         => e :: settle held l []
      | e' :: rest => e' :: settle held l rest
    else e :: settle held l later

variable {held : φ}

theorem settle_cons_held {e : α × φ} (h : e.2 = held) (l : List (α × φ)) (e' : α × φ) (rest : List (α × φ)) :
    settle held (e :: l) (e' :: rest) = e' :: settle held l rest := by
  rw [settle, if_pos h]

theorem settle_cons_ne {e : α × φ} (h : e.2 ≠ held) (l later : List (α × φ)) :
    settle held (e :: l) later = e :: settle held l later := by
  cases later <;> rw [settle, if_neg h]

/-- **A settled ledger is a ledger of the text and of what came next.** -/
theorem map_fst_settle : ∀ {l later : List (α × φ)} {data : List α}, later.map Prod.fst = word held l ++ data →
    (settle held l later).map Prod.fst = l.map Prod.fst ++ data
  | [], later, data, h => by simpa [settle] using h
  | e :: l, later, data, h => by
    rw [word_cons] at h
    by_cases he : e.2 = held
    · rw [if_pos he] at h
      cases later with
      | nil => cases h
      | cons e' rest =>
        obtain ⟨h1, h2⟩ := List.cons.inj h
        rw [settle_cons_held he, List.map_cons, map_fst_settle h2, h1]
        rfl
    · rw [if_neg he] at h
      rw [settle_cons_ne he, List.map_cons, map_fst_settle h]
      rfl

theorem mem_settle : ∀ {l later : List (α × φ)} {data : List α} {e : α × φ},
    later.map Prod.fst = word held l ++ data → e ∈ settle held l later → (e ∈ l ∧ e.2 ≠ held) ∨ e ∈ later
  | [], later, data, e, _, he => .inr he
  | a :: l, later, data, e, h, he => by
    rw [word_cons] at h
    by_cases ha : a.2 = held
    · rw [if_pos ha] at h
      cases later with
      | nil => cases h
      | cons b rest =>
        rw [settle_cons_held ha] at he
        rcases List.mem_cons.mp he with rfl | he
        · exact .inr (by simp)
        · rcases mem_settle (List.cons.inj h).2 he with ⟨h1, h2⟩ | h1
          · exact .inl ⟨by simp [h1], h2⟩
          · exact .inr (by simp [h1])
    · rw [if_neg ha] at h
      rw [settle_cons_ne ha] at he
      rcases List.mem_cons.mp he with rfl | he
      · exact .inl ⟨by simp, ha⟩
      · rcases mem_settle h he with ⟨h1, h2⟩ | h1
        · exact .inl ⟨by simp [h1], h2⟩
        · exact .inr h1

theorem word_held_settle : ∀ {l later : List (α × φ)} {data : List α}, later.map Prod.fst = word held l ++ data →
    word held (settle held l later) = word held later
  | [], later, data, _ => rfl
  | e :: l, later, data, h => by
    rw [word_cons] at h
    by_cases he : e.2 = held
    · rw [if_pos he] at h
      cases later with
      | nil => cases h
      | cons e' rest =>
        rw [settle_cons_held he, word_cons, word_held_settle (List.cons.inj h).2, ← word_cons]
    · rw [if_neg he] at h
      rw [settle_cons_ne he, word_cons, if_neg he, word_held_settle h]
      rfl

/-- **A fate that follows no held symbol keeps its word in order.** -/
theorem word_settle {f : φ} : ∀ {l later : List (α × φ)} {data : List α},
    later.map Prod.fst = word held l ++ data → f ≠ held → Late held f l →
      word f (settle held l later) = word f l ++ word f later
  | [], later, data, _, _, _ => rfl
  | e :: l, later, data, h, hf, hl => by
    obtain ⟨h1, h2⟩ := List.pairwise_cons.mp hl
    rw [word_cons] at h
    by_cases he : e.2 = held
    · rw [if_pos he] at h
      cases later with
      | nil => cases h
      | cons e' rest =>
        have hnone : word f l = [] := word_eq_nil.mpr (fun x hx => h1 x hx he)
        have hef : e.2 ≠ f := by
          rw [he]
          exact hf.symm
        rw [settle_cons_held he, word_cons, word_settle (List.cons.inj h).2 hf h2, hnone, word_cons f e, if_neg hef,
          hnone, word_cons f e']
        rfl
    · rw [if_neg he] at h
      rw [settle_cons_ne he, word_cons, word_settle h hf h2, word_cons f e, List.append_assoc]

theorem late_settle {f : φ} : ∀ {l later : List (α × φ)} {data : List α},
    later.map Prod.fst = word held l ++ data → Late held f l → Late held f later → Late held f (settle held l later)
  | [], later, data, _, _, hlater => hlater
  | e :: l, later, data, h, hl, hlater => by
    obtain ⟨h1, h2⟩ := List.pairwise_cons.mp hl
    rw [word_cons] at h
    by_cases he : e.2 = held
    · rw [if_pos he] at h
      cases later with
      | nil => cases h
      | cons e' rest =>
        obtain ⟨h3, h4⟩ := List.pairwise_cons.mp hlater
        have hrest := (List.cons.inj h).2
        rw [settle_cons_held he]
        refine List.pairwise_cons.mpr ⟨fun x hx hh => ?_, late_settle hrest h2 h4⟩
        rcases mem_settle hrest hx with ⟨hx, -⟩ | hx
        · exact h1 x hx he
        · exact h3 x hx hh
    · rw [if_neg he] at h
      rw [settle_cons_ne he]
      exact List.pairwise_cons.mpr ⟨fun _ _ hh => absurd hh he, late_settle h h2 hlater⟩

end Ledger

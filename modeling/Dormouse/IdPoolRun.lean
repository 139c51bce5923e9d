import Dormouse.IdPool
/-!
# IdPoolRun — no id is minted twice

Every id is in one place: drawn for a caller, in the pool, in the hands of a burst that waits or of one that is there to
mint; and what is in a place was handed out by a host or made by the page, once.
-/
namespace Dormouse
namespace IdPool

/-- The page's own ids differ from one another: its count's, and those of the uuids. -/
structure Fallbacks (o : IdPoolOptions) (uuid : Nat → JsString) : Prop where
  numbered : ∀ {m n}, o.idFor (.inl m) = o.idFor (.inl n) → m = n
  random   : ∀ {j k}, o.idFor (.inr (uuid j)) = o.idFor (.inr (uuid k)) → j = k
  apart    : ∀ n k, o.idFor (.inl n) ≠ o.idFor (.inr (uuid k))

/-- The ids of an answer differ from one another, from every id a host handed out before, and from the page's own: those it
made, and those of the uuids. -/
def Distinct (o : IdPoolOptions) (uuid : Nat → JsString) (s : Pool) : Event → Prop
  | .answer _ (some block) => block.Nodup ∧ ∀ id ∈ block,
      id ∉ s.handed.map Prod.snd ∧ id ∉ s.made ∧ ∀ k, id ≠ o.idFor (.inr (uuid k))
  | _                      => True

/-- An install names a new host, and a host gives no more than a refill asked for. -/
def Within (s : Pool) : Event → Prop
  | .install reserve _     => reserve ∉ s.installed
  | .answer r (some block) => ∀ f, s.fills.get r = some f → f.landed = false → block.length ≤ f.asked
  | _                      => True

variable {o : IdPoolOptions} {uuid : Nat → JsString}

/-! ## What each operation touches -/

theorem refill_eq (o : IdPoolOptions) (s : Pool) : ∃ fills refilling requests,
    refill o s = { s with fills := fills, refilling := refilling, requests := requests } ∧
      (s.reserveIds = none → fills = s.fills) := by
  unfold refill
  split
  · next hhost _ => exact ⟨_, _, _, rfl, fun hnone => by rw [hnone] at hhost; cases hhost⟩
  · exact ⟨s.fills, s.refilling, s.requests, rfl, fun _ => rfl⟩

theorem take_eq (o : IdPoolOptions) (s : Pool) : ∃ fills refilling requests, take o s =
    (s.ids.head?, { s with ids := s.ids.tail, fills := fills, refilling := refilling, requests := requests }) ∧
      (s.reserveIds = none → fills = s.fills) := by
  dsimp only [take]
  split
  · obtain ⟨fills, refilling, requests, h, hnone⟩ := refill_eq o { s with ids := s.ids.tail }
    exact ⟨fills, refilling, requests, by rw [h], hnone⟩
  · exact ⟨s.fills, s.refilling, s.requests, rfl, fun _ => rfl⟩

/-- **What drawing an id does**: the page's count, an id in hand, or a uuid. -/
theorem next_cases (o : IdPoolOptions) (uuid : Nat → JsString) (s : Pool) :
    (s.reserveIds = none ∧ next o uuid s =
      make { s with localSequence := s.localSequence + 1 } (o.idFor (.inl (s.localSequence + 1)))) ∨
    (s.reserveIds ≠ none ∧ ∃ fills refilling requests,
      (∃ id ids, s.ids = id :: ids ∧ next o uuid s =
        (id, { s with ids := ids, fills := fills, refilling := refilling, requests := requests })) ∨
      (s.ids = [] ∧ next o uuid s = make { s with
        ids := [], fills := fills, refilling := refilling, requests := requests, uuids := s.uuids + 1 }
        (o.idFor (.inr (uuid s.uuids))))) := by
  unfold next
  by_cases hhost : s.reserveIds = none
  · exact .inl ⟨hhost, if_pos hhost⟩
  · rw [if_neg hhost]
    obtain ⟨fills, refilling, requests, htake, -⟩ := take_eq o s
    refine .inr ⟨hhost, fills, refilling, requests, ?_⟩
    cases hids : s.ids with
    | nil => exact .inr ⟨rfl, by simp only [htake, hids, List.head?_nil, List.tail_nil]⟩
    | cons id rest => exact .inl ⟨id, rest, rfl, by simp only [htake, hids, List.head?_cons, List.tail_cons]⟩

/-! ## Where the ids are -/

def held (s : Pool) (x : Id) : Nat :=
  s.drawn.count x + s.ids.count x + (s.minters.map (fun m => m.reserved.count x)).sum +
    (s.bursts.map (fun b => b.ids.count x)).sum

def sourced (s : Pool) (x : Id) : Nat := (s.handed.map Prod.snd).count x + s.made.count x

/-- What is held more was sourced more, counting what is in the caller's hand. -/
def Moves (s : Pool) (hand : List Id) (s' : Pool) (hand' : List Id) : Prop :=
  ∀ x, held s' x + hand'.count x + sourced s x ≤ held s x + hand.count x + sourced s' x

namespace Moves

theorem refl (s : Pool) (hand : List Id) : Moves s hand s hand := fun _ => Nat.le_refl _

theorem trans {s₁ s₂ s₃ : Pool} {l₁ l₂ l₃ : List Id} (h : Moves s₁ l₁ s₂ l₂) (h' : Moves s₂ l₂ s₃ l₃) :
    Moves s₁ l₁ s₃ l₃ := fun x => by
  have := h x
  have := h' x
  omega

theorem frame {s s' : Pool} {l l' : List Id} (h : Moves s l s' l') (m : List Id) : Moves s (l ++ m) s' (l' ++ m) :=
  fun x => by
    have := h x
    rw [List.count_append, List.count_append]
    omega

end Moves

theorem next_moves (o : IdPoolOptions) (uuid : Nat → JsString) (s : Pool) :
    Moves s [] (next o uuid s).2 [(next o uuid s).1] := by
  intro x
  rcases next_cases o uuid s with ⟨-, h⟩ | ⟨-, fills, refilling, requests, ⟨id, ids, hids, h⟩ | ⟨hids, h⟩⟩
  · simp only [h, make, held, sourced, List.count_append, List.count_nil]
    omega
  · simp only [h, held, sourced, hids, List.count_cons, List.count_nil]
    omega
  · simp only [h, make, held, sourced, List.count_append, List.count_nil]
    omega

theorem draw_moves (s : Pool) : Moves s [] (draw o uuid s).2 [] := by
  intro x
  have h := next_moves o uuid s x
  simp only [draw, held, sourced, List.count_append, List.count_nil] at h ⊢
  omega

theorem drawBurst_moves (ids : List Id) (s : Pool) :
    Moves s ids (drawBurst o uuid (ids, s)).2.2 (drawBurst o uuid (ids, s)).2.1 := by
  cases ids with
  | nil => exact draw_moves s
  | cons id rest =>
    intro x
    simp only [drawBurst, held, sourced, List.count_append, List.count_cons, List.count_nil]
    omega

theorem unused_invariant {σ : Type} (source : σ → Id × σ) {I : σ → Prop} (inUse : List Id)
    (h : ∀ s, I s → I (source s).2) : ∀ (n : Nat) (s : σ), I s → I (unused source inUse n s).2
  | 0, _, hs => hs
  | n + 1, s, hs => by
    simp only [unused]
    split
    · exact unused_invariant source inUse h n _ (h s hs)
    · exact h s hs

theorem takePooled_moves : ∀ (n : Nat) (s : Pool), Moves s [] (takePooled o n s).2 (takePooled o n s).1
  | 0, s => .refl s []
  | n + 1, s => by
    obtain ⟨fills, refilling, requests, htake, -⟩ := take_eq o s
    cases hids : s.ids with
    | nil =>
      simp only [takePooled, htake, hids, List.head?_nil]
      exact .refl s []
    | cons id ids =>
      simp only [takePooled, htake, hids, List.head?_cons, List.tail_cons]
      have hrest := (takePooled_moves n { s with
        ids := ids, fills := fills, refilling := refilling, requests := requests }).frame [id]
      intro x
      have := hrest x
      simp only [held, sourced, hids, List.nil_append, List.count_append, List.count_cons, List.count_nil] at this ⊢
      omega

structure Frame (s s' : Pool) : Prop where
  reserveIds : s'.reserveIds = s.reserveIds
  minters    : s'.minters = s.minters
  bursts     : s'.bursts = s.bursts
  installed  : s'.installed = s.installed
  handed     : s'.handed = s.handed
  returned   : s'.returned = s.returned
  ids        : s'.ids <:+ s.ids

namespace Frame

theorem refl (s : Pool) : Frame s s := ⟨rfl, rfl, rfl, rfl, rfl, rfl, List.suffix_rfl⟩

theorem trans {s₁ s₂ s₃ : Pool} (h : Frame s₁ s₂) (h' : Frame s₂ s₃) : Frame s₁ s₃ :=
  ⟨h'.reserveIds.trans h.reserveIds, h'.minters.trans h.minters, h'.bursts.trans h.bursts, h'.installed.trans h.installed,
    h'.handed.trans h.handed, h'.returned.trans h.returned, h'.ids.trans h.ids⟩

end Frame

theorem draw_frame (s : Pool) : Frame s (draw o uuid s).2 := by
  rcases next_cases o uuid s with ⟨-, h⟩ | ⟨-, fills, refilling, requests, ⟨id, ids, hids, h⟩ | ⟨hids, h⟩⟩
  · simp only [draw, h, make]
    exact ⟨rfl, rfl, rfl, rfl, rfl, rfl, List.suffix_rfl⟩
  · simp only [draw, h]
    exact ⟨rfl, rfl, rfl, rfl, rfl, rfl, by rw [hids]; exact List.suffix_cons id ids⟩
  · simp only [draw, h, make]
    exact ⟨rfl, rfl, rfl, rfl, rfl, rfl, List.nil_suffix⟩

theorem drawBurst_frame (p : List Id × Pool) : Frame p.2 (drawBurst o uuid p).2.2 := by
  obtain ⟨ids, s⟩ := p
  cases ids with
  | nil => exact draw_frame s
  | cons id rest => exact ⟨rfl, rfl, rfl, rfl, rfl, rfl, List.suffix_rfl⟩

theorem takePooled_frame : ∀ (n : Nat) (s : Pool), Frame s (takePooled o n s).2
  | 0, s => .refl s
  | n + 1, s => by
    obtain ⟨fills, refilling, requests, htake, -⟩ := take_eq o s
    cases hids : s.ids with
    | nil =>
      simp only [takePooled, htake, hids, List.head?_nil]
      exact .refl s
    | cons id ids =>
      simp only [takePooled, htake, hids, List.head?_cons, List.tail_cons]
      refine Frame.trans ?_ (takePooled_frame n _)
      exact ⟨rfl, rfl, rfl, rfl, rfl, rfl, by rw [hids]; exact List.suffix_cons id ids⟩

/-- **What a search for an unused id draws**: ids in use, and last the one it returns. -/
theorem unused_drawn {σ : Type} (source : σ → Id × σ) (pool : σ → Pool) (inUse : List Id)
    (h : ∀ s, (pool (source s).2).drawn = (pool s).drawn ++ [(source s).1]) : ∀ (n : Nat) (s : σ),
    ∃ skipped, (pool (unused source inUse n s).2).drawn =
        (pool s).drawn ++ skipped ++ (unused source inUse n s).1.toList ∧
      (∀ x ∈ skipped, x ∈ inUse) ∧ (∀ id ∈ (unused source inUse n s).1, id ∉ inUse) ∧
      ((unused source inUse n s).1 = none → skipped.length = n)
  | 0, s => ⟨[], by simp [unused], by simp, by simp [unused], fun _ => rfl⟩
  | n + 1, s => by
    simp only [unused]
    by_cases hused : (source s).1 ∈ inUse
    · rw [if_pos hused]
      obtain ⟨skipped, hdrawn, hskipped, hout, hnone⟩ := unused_drawn source pool inUse h n (source s).2
      refine ⟨(source s).1 :: skipped, ?_, ?_, hout, fun hn => by rw [List.length_cons, hnone hn]⟩
      · rw [hdrawn, h s]
        simp
      · exact List.forall_mem_cons.2 ⟨hused, hskipped⟩
    · rw [if_neg hused]
      refine ⟨[], by simpa using h s, by simp, fun id hid => ?_, fun hn => by cases hn⟩
      rw [Option.mem_def, Option.some.injEq] at hid
      rwa [← hid]

theorem draw_drawn (s : Pool) : (draw o uuid s).2.drawn = s.drawn ++ [(draw o uuid s).1] := by
  rcases next_cases o uuid s with ⟨-, h⟩ | ⟨-, fills, refilling, requests, ⟨id, ids, hids, h⟩ | ⟨hids, h⟩⟩
  · simp only [draw, h, make]
  · simp only [draw, h]
  · simp only [draw, h, make]

theorem drawBurst_drawn (p : List Id × Pool) :
    (drawBurst o uuid p).2.2.drawn = p.2.drawn ++ [(drawBurst o uuid p).1] := by
  obtain ⟨ids, s⟩ := p
  cases ids with
  | nil => exact draw_drawn s
  | cons id rest => rfl

/-! ## One step moves ids -/

theorem sum_set {α : Type} (f : α → Nat) : ∀ (l : List α) (i : Nat) (a b : α), l[i]? = some a →
    ((l.set i b).map f).sum + f a = (l.map f).sum + f b
  | [], _, _, _, h => by simp at h
  | c :: l, 0, a, b, h => by
    rw [List.getElem?_cons_zero, Option.some.injEq] at h
    subst h
    simp only [List.set_cons_zero, List.map_cons, List.sum_cons]
    omega
  | c :: l, i + 1, a, b, h => by
    have := sum_set f l i a b (by simpa using h)
    simp only [List.set_cons_succ, List.map_cons, List.sum_cons]
    omega

theorem sum_eraseP {α : Type} (f : α → Nat) (p : α → Bool) : ∀ (l : List α) (a : α), l.find? p = some a →
    ((l.eraseP p).map f).sum + f a = (l.map f).sum
  | [], _, h => by simp at h
  | c :: l, a, h => by
    by_cases hc : p c = true
    · rw [List.find?_cons_of_pos hc, Option.some.injEq] at h
      rw [List.eraseP_cons_of_pos hc, h]
      simp only [List.map_cons, List.sum_cons]
      omega
    · rw [List.find?_cons_of_neg hc] at h
      have := sum_eraseP f p l a h
      rw [List.eraseP_cons_of_neg hc]
      simp only [List.map_cons, List.sum_cons]
      omega

theorem resolve_moves (s : Pool) (count : Nat) (reserved : List Id) (kept : Bool) :
    Moves s reserved (resolve o s count reserved kept) [] := by
  have h := (takePooled_moves (o := o) (count - reserved.length) s).frame reserved
  intro x
  have := h x
  simp only [resolve, held, sourced, List.map_append, List.sum_append, List.map_cons, List.map_nil, List.sum_cons,
    List.sum_nil, List.count_append, List.count_nil, List.nil_append] at this ⊢
  omega

theorem reserveRest_moves (s : Pool) (count reserve : Nat) (reserved : List Id) (kept : Bool) :
    Moves s reserved (reserveRest o s count reserve reserved kept) [] := by
  unfold reserveRest
  split
  · intro x
    simp only [held, sourced, List.map_append, List.sum_append, List.map_cons, List.map_nil, List.sum_cons, List.sum_nil,
      List.count_nil]
    omega
  · exact resolve_moves s count reserved kept

theorem refill_moves (s : Pool) : Moves s [] (refill o s) [] := by
  obtain ⟨fills, refilling, requests, h, -⟩ := refill_eq o s
  rw [h]
  exact fun _ => Nat.le_refl _

theorem install_moves (s : Pool) (reserve : Nat) (first : Bool) : Moves s [] (install o s reserve first) [] := by
  have hbegin : Moves s [] (replaceHost s reserve) [] := by
    intro x
    simp only [replaceHost, held, sourced, List.map_map, List.count_nil, Function.comp_def]
    omega
  unfold install
  cases first with
  | true => exact hbegin
  | false => exact hbegin.trans (refill_moves _)

theorem resume_moves (s : Pool) (m : Minter) (block : Option (List Id)) :
    Moves s (m.reserved ++ block.getD []) (resume o s m block) [] := by
  have hdrop : Moves s (m.reserved ++ block.getD []) s m.reserved := by
    intro x
    rw [List.count_append]
    omega
  unfold resume
  cases block with
  | none => exact hdrop.trans (resolve_moves s m.count m.reserved false)
  | some block =>
    simp only
    split
    · exact hdrop.trans (resolve_moves s m.count m.reserved false)
    · exact reserveRest_moves s m.count m.reserve _ m.kept

theorem count_handed (s : Pool) (reserve : Nat) (block : Option (List Id)) (x : Id) :
    ((hand s reserve block).handed.map Prod.snd).count x = (s.handed.map Prod.snd).count x + (block.getD []).count x := by
  simp only [hand, List.map_append, List.map_map, List.count_append, Function.comp_def, List.map_id']

theorem answer_moves (s : Pool) (request : Nat) (block : Option (List Id)) :
    Moves s [] (answer o s request block) [] := by
  unfold answer
  cases hfill : s.fills.get request with
  | some f =>
    simp only
    split
    · exact .refl s []
    · intro x
      have hhand := count_handed s f.reserve block x
      simp only [land, held, sourced]
      rw [hhand]
      split
      · simp only [hand, List.count_append, List.count_nil]
        omega
      · simp only [hand, List.count_nil]
        omega
  | none =>
    simp only
    cases hfind : s.minters.find? (fun m => m.request = request) with
    | none => exact .refl s []
    | some m =>
      refine Moves.trans ?_ (resume_moves _ m block)
      intro x
      have hhand := count_handed s m.reserve block x
      have hsum := sum_eraseP (fun m => m.reserved.count x) _ s.minters m hfind
      simp only [held, sourced, List.count_append, List.count_nil]
      rw [hhand]
      simp only [hand] at hsum ⊢
      omega

theorem mintBurst_moves (s : Pool) (b : Nat) (inUse : List Id) : Moves s [] (mintBurst o uuid s b inUse) [] := by
  unfold mintBurst
  cases hburst : s.bursts[b]? with
  | none => exact .refl s []
  | some burst =>
    simp only
    have hinv := unused_invariant (drawBurst o uuid) (I := fun p => Frame s p.2 ∧ Moves s burst.ids p.2 p.1) inUse
      (fun p h => ⟨h.1.trans (drawBurst_frame p), h.2.trans (drawBurst_moves p.1 p.2)⟩)
      (tries inUse (burst.ids ++ s.ids)) (burst.ids, s) ⟨.refl s, .refl s burst.ids⟩
    generalize unused (drawBurst o uuid) inUse (tries inUse (burst.ids ++ s.ids)) (burst.ids, s) = r at hinv
    obtain ⟨id, ids, s'⟩ := r
    obtain ⟨hframe, hmoves⟩ := hinv
    intro x
    have hx := hmoves x
    have hsum := sum_set (fun b => b.ids.count x) s'.bursts b burst
      { burst with
        ids := ids, given := burst.given ++ id.toList, calls := burst.calls + 1, idle := burst.idle && inUse.isEmpty }
      (by rw [hframe.bursts]; exact hburst)
    simp only [give, held, sourced, List.count_nil] at hx hsum ⊢
    omega

theorem mint_moves (s : Pool) (inUse : List Id) : Moves s [] (mint o uuid s inUse).2 [] := by
  have hinv := unused_invariant (draw o uuid) (I := fun s' => Moves s [] s' []) inUse
    (fun s' h => h.trans (draw_moves s')) (tries inUse s.ids) s (.refl s [])
  unfold mint
  exact fun x => hinv x

/-- **A step holds no more ids than it finds.** -/
theorem step_moves (o : IdPoolOptions) (uuid : Nat → JsString) (s : Pool) (e : Event) : Moves s [] (step o uuid s e) [] := by
  cases e with
  | install reserve first => exact install_moves s reserve first
  | mint inUse => exact mint_moves s inUse
  | seed n => exact fun _ => Nat.le_refl _
  | minter count =>
    show Moves s [] (minter o s count) []
    unfold minter
    split
    · exact resolve_moves s count [] false
    · exact reserveRest_moves s count _ [] true
  | answer request block => exact answer_moves s request block
  | settle request =>
    show Moves s [] (settle s request) []
    unfold settle
    split
    · split
      · exact fun _ => Nat.le_refl _
      · exact .refl s []
    · exact .refl s []
  | mintBurst b inUse => exact mintBurst_moves s b inUse

end IdPool
end Dormouse

import Dormouse.ImagePieces
/-!
# ImageHistoryRun — undo and redo restore every pixel

The steps that can be undone are a trail of revisions back from the current one, and those that can be redo one forth.  Along a
trail each step's tiles, put on the raster, give the next revision's pixels; a step walked one way is, its pixels traded, a
step to walk the other way.
-/
namespace Dormouse
namespace Image

open Pieces (Apart Covers Intact)

/-! ## A step and its other side -/

def Fitting (rasters : Rasters) (s : Step) : Prop := ∀ p, s.patch = some p →
  s.target.raster = s.source.raster ∧ (∀ t ∈ p.tiles, Covers (rasters s.source.raster) t) ∧ p.tiles.Pairwise Apart

theorem swap_ends (rasters : Rasters) (s : Step) : (swap rasters s).2.source = s.source ∧
    (swap rasters s).2.target = s.target ∧ (swap rasters s).2.bytes = s.bytes := by
  unfold swap
  cases s.patch with
  | none => exact ⟨rfl, rfl, rfl⟩
  | some p => exact ⟨rfl, rfl, rfl⟩

theorem swap_ne (rasters : Rasters) (s : Step) {i : Nat} (h : i ≠ s.source.raster) : (swap rasters s).1 i = rasters i := by
  unfold swap
  cases s.patch with
  | none => rfl
  | some p => exact Function.update_of_ne h _ _

/-- **A step swapped twice** is as it was, and so are the rasters. -/
theorem swap_swap {rasters : Rasters} {s : Step} (h : Fitting rasters s) :
    swap (swap rasters s).1 (swap rasters s).2 = (rasters, s) ∧ Fitting (swap rasters s).1 (swap rasters s).2 := by
  obtain ⟨source, target, patch, bytes⟩ := s
  cases patch with
  | none => exact ⟨rfl, h⟩
  | some p =>
    obtain ⟨hsame, hcovers, hapart⟩ := h p rfl
    obtain ⟨hback, hcovers', hapart'⟩ := swapTiles_swapTiles hcovers hapart
    simp only [swap, Function.update_self]
    constructor
    · rw [hback]
      simp only [Function.update_idem, Function.update_eq_self]
    · rintro _ ⟨⟩
      refine ⟨hsame, ?_, hapart'⟩
      simp only [Function.update_self]
      exact hcovers'

/-! ## Trails -/

/-- The steps lead from a revision on, each from its near end to its far one, and each revision on the way has the pixels it
was committed with. -/
def Trail (committed : Nat → Raster) (near far : Step → Doc) : Rasters → Doc → List Step → Prop
  | rasters, d, []         => rasters d.raster = committed d.id
  | rasters, d, s :: steps => rasters d.raster = committed d.id ∧ near s = d ∧ Fitting rasters s ∧
      Trail committed near far (swap rasters s).1 (far s) steps

section

variable {committed : Nat → Raster} {near far : Step → Doc} {rasters : Rasters} {d : Doc} {steps : List Step}

theorem Trail.head (h : Trail committed near far rasters d steps) : rasters d.raster = committed d.id := by
  cases steps with
  | nil => exact h
  | cons s ss => exact h.1

theorem Trail.take : ∀ {steps : List Step} {rasters : Rasters} {d : Doc}, Trail committed near far rasters d steps →
    ∀ n, Trail committed near far rasters d (steps.take n)
  | [], _, _, h, n => by rw [List.take_nil]; exact h
  | _ :: _, _, _, h, 0 => h.1
  | _ :: _, _, _, h, n + 1 => ⟨h.1, h.2.1, h.2.2.1, h.2.2.2.take n⟩

/-- **A step taken** along one trail begins the other. -/
theorem Trail.walk {s : Step} {other : List Step} (hnear : ∀ f s, near (swap f s).2 = near s)
    (hfar : ∀ f s, far (swap f s).2 = far s) (h : Trail committed near far rasters d (s :: steps))
    (ho : Trail committed far near rasters d other) :
    Trail committed near far (swap rasters s).1 (far s) steps ∧
      Trail committed far near (swap rasters s).1 (far s) ((swap rasters s).2 :: other) := by
  obtain ⟨-, hd, hfits, hrest⟩ := h
  obtain ⟨hback, hfits'⟩ := swap_swap hfits
  refine ⟨hrest, hrest.head, hfar rasters s, hfits', ?_⟩
  rw [hback, hnear, hd]
  exact ho

/-- The revisions of a step, each with a raster and an identity that were given out. -/
def Known (fresh revision : Nat) (s : Step) : Prop :=
  (s.source.raster < fresh ∧ s.source.id < revision) ∧ s.target.raster < fresh ∧ s.target.id < revision

theorem Trail.congr {fresh revision : Nat} {committed' : Nat → Raster} (hc : ∀ i < revision, committed' i = committed i) :
    ∀ {steps : List Step} {rasters rasters' : Rasters} {d : Doc}, (∀ i < fresh, rasters' i = rasters i) →
    d.raster < fresh → d.id < revision → (∀ s ∈ steps, Known fresh revision s) →
    (∀ s ∈ steps, far s = s.source ∨ far s = s.target) →
    Trail committed near far rasters d steps → Trail committed' near far rasters' d steps
  | [], rasters, rasters', d, hf, hr, hi, _, _, h => by
    rw [Trail, hf _ hr, hc _ hi]
    exact h
  | s :: steps, rasters, rasters', d, hf, hr, hi, hk, hfar, ⟨hd, hnear, hfits, hrest⟩ => by
    obtain ⟨hsource, htarget⟩ := hk s List.mem_cons_self
    have hfits' : Fitting rasters' s := by
      intro p hp
      obtain ⟨hsame, hcovers, hapart⟩ := hfits p hp
      refine ⟨hsame, ?_, hapart⟩
      rw [hf _ hsource.1]
      exact hcovers
    have hswap : ∀ i < fresh, (swap rasters' s).1 i = (swap rasters s).1 i := by
      intro i hlt
      by_cases hne : i = s.source.raster
      · subst hne
        unfold swap
        cases s.patch with
        | none => exact hf _ hlt
        | some p =>
          simp only [Function.update_self]
          rw [hf _ hlt]
      · rw [swap_ne rasters' s hne, swap_ne rasters s hne, hf i hlt]
    have hfar' : (far s).raster < fresh ∧ (far s).id < revision := by
      rcases hfar s List.mem_cons_self with heq | heq <;> rw [heq]
      · exact hsource
      · exact htarget
    refine ⟨by rw [hf _ hr, hc _ hi]; exact hd, hnear, hfits', ?_⟩
    exact hrest.congr hc hswap hfar'.1 hfar'.2 (fun t ht => hk t (List.mem_cons_of_mem s ht))
      (fun t ht => hfar t (List.mem_cons_of_mem s ht))

end

/-! ## The bytes -/

theorem evict_spec (limit : Nat) : ∀ (past : List Step) (bytes : Int), bytes = ((past.map Step.bytes).sum : Nat) →
    ∃ k, (History.evict limit past bytes).1 = past.drop k ∧
      (History.evict limit past bytes).2 = (((past.drop k).map Step.bytes).sum : Nat) ∧
      (History.evict limit past bytes).2 ≤ limit
  | [], bytes, h => by
    refine ⟨0, rfl, h, ?_⟩
    rw [History.evict, h]
    simp
  | s :: past, bytes, h => by
    rw [History.evict]
    split
    · have hrest : bytes - s.bytes = ((past.map Step.bytes).sum : Nat) := by
        rw [h, List.map_cons, List.sum_cons]
        omega
      obtain ⟨k, hpast, hbytes, hlimit⟩ := evict_spec limit past _ hrest
      exact ⟨k + 1, hpast, hbytes, hlimit⟩
    · exact ⟨0, rfl, h, by simp only; omega⟩

/-- **A commit**: a step more, without the oldest ones, and none to redo. -/
theorem commit_spec (rasters : Rasters) {h : History} (hbytes : h.bytes = ((h.past.map Step.bytes).sum : Nat)) {doc : Doc}
    (hne : doc ≠ h.current) (patch : Option Patch) : ∃ bytes k, h.commit rasters doc patch =
      { past := (h.past ++ [Step.mk h.current doc patch bytes]).drop k
        future := []
        bytes := ((((h.past ++ [Step.mk h.current doc patch bytes]).drop k).map Step.bytes).sum : Nat)
        current := doc
        limit := h.limit } ∧
      (((h.past ++ [Step.mk h.current doc patch bytes]).drop k).map Step.bytes).sum ≤ h.limit := by
  have hsum : h.bytes + (History.charge rasters h.current doc patch : Int) =
      (((h.past ++ [Step.mk h.current doc patch (History.charge rasters h.current doc patch)]).map Step.bytes).sum : Nat) := by
    rw [hbytes]
    simp
  rw [History.commit, if_neg hne]
  obtain ⟨k, hpast, hleft, hlimit⟩ := evict_spec h.limit _ _ hsum
  refine ⟨History.charge rasters h.current doc patch, k, ?_, ?_⟩
  · simp only [hpast, hleft]
  · rw [hleft] at hlimit
    exact_mod_cast hlimit

/-! ## Sessions -/

/-- The steps lead back and forth from the current revision, and the bytes are those of the steps that can be undone. -/
structure Sound (limit : Nat) (s : Session) : Prop where
  back    : Trail s.committed Step.target Step.source s.rasters s.history.current s.history.past.reverse
  forth   : Trail s.committed Step.source Step.target s.rasters s.history.current s.history.future.reverse
  current : s.history.current.raster < s.fresh ∧ s.history.current.id < s.revision
  known   : ∀ t ∈ s.history.past ++ s.history.future, Known s.fresh s.revision t
  bytes   : s.history.bytes = ((s.history.past.map Step.bytes).sum : Nat)
  total   : ((s.history.past ++ s.history.future).map Step.bytes).sum ≤ limit
  limited : s.history.limit = limit

theorem sound_create (raster : Raster) (limit : Nat) : Sound limit (.create raster limit) :=
  ⟨rfl, rfl, ⟨Nat.one_pos, Nat.one_pos⟩, fun _ h => absurd h List.not_mem_nil, rfl, Nat.zero_le _, rfl⟩

variable {limit : Nat} {s : Session}

/-- **A new revision**, where undoing its step gives the rasters as they were, so far as they were given out. -/
theorem sound_commit (h : Sound limit s) (rasters : Rasters) {fresh raster : Nat} {patch : Option Patch}
    (hfresh : s.fresh ≤ fresh) (hraster : raster < fresh)
    (hfits : ∀ bytes, Fitting rasters ⟨s.history.current, ⟨s.revision, raster⟩, patch, bytes⟩)
    (hundo : ∀ bytes, ∀ i < s.fresh, (swap rasters ⟨s.history.current, ⟨s.revision, raster⟩, patch, bytes⟩).1 i = s.rasters i) :
    
    Sound limit ({ s with rasters := rasters, fresh := fresh }.commit raster patch) := by
  obtain ⟨hback, -, hcurrent, hknown, hbytes, -, hlimited⟩ := h
  have hne : (⟨s.revision, raster⟩ : Doc) ≠ s.history.current := by
    intro heq
    rw [← heq] at hcurrent
    exact absurd hcurrent.2 (Nat.lt_irrefl _)
  obtain ⟨b, k, hcommit, hlimit⟩ := commit_spec rasters hbytes hne patch
  rw [Session.commit]
  dsimp only
  rw [hcommit]
  refine ⟨?_, ?_, ⟨hraster, Nat.lt_succ_self _⟩, ?_, rfl, ?_, hlimited⟩
  · dsimp only
    rw [List.reverse_drop, List.reverse_append, List.reverse_singleton, List.singleton_append]
    refine Trail.take ?_ _
    refine ⟨?_, rfl, hfits b, ?_⟩
    · exact (Function.update_self s.revision (rasters raster) s.committed).symm
    · refine hback.congr (fun i hi => Function.update_of_ne (by omega) _ _) (hundo b) hcurrent.1 hcurrent.2
        (fun t ht => hknown t (List.mem_append_left _ (List.mem_reverse.1 ht))) (fun t _ => .inl rfl)
  · exact (Function.update_self s.revision (rasters raster) s.committed).symm
  · intro t ht
    rw [List.append_nil] at ht
    rcases List.mem_append.1 (List.mem_of_mem_drop ht) with ht | ht
    · obtain ⟨⟨h₁, h₂⟩, h₃, h₄⟩ := hknown t (List.mem_append_left _ ht)
      exact ⟨⟨h₁.trans_le hfresh, Nat.lt_succ_of_lt h₂⟩, h₃.trans_le hfresh, Nat.lt_succ_of_lt h₄⟩
    · obtain rfl := List.mem_singleton.1 ht
      exact ⟨⟨hcurrent.1.trans_le hfresh, Nat.lt_succ_of_lt hcurrent.2⟩, hraster, Nat.lt_succ_self _⟩
  · dsimp only
    rw [List.append_nil, ← hlimited]
    exact hlimit

theorem swapTiles_intact {size : Nat} (hsize : 0 < size) {r0 r : Raster} {kept : Kept} (h : Intact size r0 r kept) :
    (swapTiles r kept.values).1 = r0 := by
  have hcovers : ∀ t ∈ kept.values, Covers r t := fun t ht => (h.covers hsize ht).of_dims h.width h.height
  obtain ⟨hw, hh, htraded, hout⟩ := swapTiles_spec kept.values r hcovers (h.apart hsize)
  refine Raster.ext_channel (hw.trans h.width) (hh.trans h.height) (fun x y k hx hy hk => ?_)
  rw [hw] at hx
  rw [hh] at hy
  by_cases hin : ∃ t ∈ kept.values, t.rect.contains x y
  · obtain ⟨t, ht, hin⟩ := hin
    obtain ⟨i, hi⟩ := OrdMap.mem_values.1 ht
    obtain ⟨tx, ty, htx, hty, -, heq⟩ := h.tiles i t hi
    have hput : ∀ t' ∈ kept.values, t'.rect.contains x y → (swapTiles r kept.values).1.channel x y k =
        t'.pixels.channel (x - t'.rect.x) (y - t'.rect.y) k := by
      intro t' ht' hin'
      obtain ⟨t'', -, -, hchannel⟩ := forall₂_mem htraded ht'
      exact (hchannel x y k hin' hk).2
    rw [hput t ht hin, heq]
    exact Pieces.channel_tileOf hsize htx hty (heq ▸ hin) hk
  · rw [hout x y k hx hy hk (fun t ht hin' => hin ⟨t, ht, hin'⟩)]
    refine h.outside x y k (by rw [← h.width]; exact hx) (by rw [← h.height]; exact hy) hk ?_
    by_contra hhas
    obtain ⟨t, ht⟩ := Option.ne_none_iff_exists'.1 hhas
    obtain ⟨tx, ty, htx, hty, hidx, rfl⟩ := h.tiles _ t ht
    have hxr : x < r0.width := h.width ▸ hx
    have hyr : y < r0.height := h.height ▸ hy
    obtain ⟨hdx, hdy⟩ := Pieces.index_inj hsize ((Nat.div_mul_le_self x size).trans_lt hxr) htx hidx
    exact hin ⟨_, OrdMap.mem_values.2 ⟨_, ht⟩, (Pieces.contains_square hsize hxr hyr).2 ⟨hdx, hdy⟩⟩

theorem pop_append (steps : List Step) (s : Step) : History.pop (steps ++ [s]) = some (steps, s) := by
  rw [History.pop, List.getLast?_append]
  simp

theorem pop_nil : History.pop [] = none := rfl

theorem undo_eq {past : List Step} {t : Step} (h : s.history.past = past ++ [t]) : s.undo = { s with
    rasters := (swap s.rasters t).1
    history := { s.history with
      past := past, future := s.history.future ++ [(swap s.rasters t).2], bytes := s.history.bytes - t.bytes,
      current := t.source } } := by
  rw [Session.undo, History.undo, h, pop_append]

theorem redo_eq {future : List Step} {t : Step} (h : s.history.future = future ++ [t]) : s.redo = { s with
    rasters := (swap s.rasters t).1
    history := { s.history with
      past := s.history.past ++ [(swap s.rasters t).2], future := future, bytes := s.history.bytes + t.bytes,
      current := t.target } } := by
  rw [Session.redo, History.redo, h, pop_append]

theorem known_swap {fresh revision : Nat} {rasters : Rasters} {t : Step} (h : Known fresh revision t) :
    Known fresh revision (swap rasters t).2 := by
  obtain ⟨hsource, htarget, -⟩ := swap_ends rasters t
  rw [Known, hsource, htarget]
  exact h

theorem sound_undo (h : Sound limit s) : Sound limit s.undo := by
  rcases List.eq_nil_or_concat s.history.past with hnil | ⟨past, t, hpast⟩
  · have hsame : s.undo = s := by rw [Session.undo, History.undo, hnil, pop_nil]
    rw [hsame]
    exact h
  · rw [List.concat_eq_append] at hpast
    obtain ⟨hback, hforth, hcurrent, hknown, hbytes, htotal, hlimited⟩ := h
    rw [hpast] at hback hknown hbytes htotal
    rw [List.reverse_append, List.reverse_singleton, List.singleton_append] at hback
    obtain ⟨hback', hforth'⟩ := Trail.walk (fun f s => (swap_ends f s).2.1) (fun f s => (swap_ends f s).1) hback hforth
    rw [undo_eq hpast]
    have ht := hknown t (by simp)
    refine ⟨hback', ?_, ht.1, ?_, ?_, ?_, hlimited⟩
    · simpa using hforth'
    · intro t' ht'
      simp only [List.mem_append, List.mem_singleton] at ht'
      rcases ht' with ht' | ht' | rfl
      · exact hknown t' (by simp [ht'])
      · exact hknown t' (by simp [ht'])
      · exact known_swap ht
    · simp only [hbytes]
      simp
    · have hswapped := (swap_ends s.rasters t).2.2
      simp only [List.map_append, List.sum_append, List.map_cons, List.map_nil, List.sum_cons,
        List.sum_nil, hswapped] at htotal ⊢
      omega

theorem sound_redo (h : Sound limit s) : Sound limit s.redo := by
  rcases List.eq_nil_or_concat s.history.future with hnil | ⟨future, t, hfuture⟩
  · have hsame : s.redo = s := by rw [Session.redo, History.redo, hnil, pop_nil]
    rw [hsame]
    exact h
  · rw [List.concat_eq_append] at hfuture
    obtain ⟨hback, hforth, hcurrent, hknown, hbytes, htotal, hlimited⟩ := h
    rw [hfuture] at hforth hknown htotal
    rw [List.reverse_append, List.reverse_singleton, List.singleton_append] at hforth
    obtain ⟨hforth', hback'⟩ := Trail.walk (fun f s => (swap_ends f s).1) (fun f s => (swap_ends f s).2.1) hforth hback
    rw [redo_eq hfuture]
    have ht := hknown t (by simp)
    have hswapped := (swap_ends s.rasters t).2.2
    refine ⟨?_, hforth', ht.2, ?_, ?_, ?_, hlimited⟩
    · simpa using hback'
    · intro t' ht'
      simp only [List.mem_append, List.mem_singleton] at ht'
      rcases ht' with (ht' | rfl) | ht'
      · exact hknown t' (by simp [ht'])
      · exact known_swap ht
      · exact hknown t' (by simp [ht'])
    · simp only [hbytes]
      simp [hswapped]
    · simp only [List.map_append, List.sum_append, List.map_cons, List.map_nil, List.sum_cons,
        List.sum_nil, hswapped] at htotal ⊢
      omega

theorem sound_step {size : Nat} (hsize : 0 < size) (s : Session) (e : Event) (h : Sound limit s) :
    Sound limit (step size s e) := by
  cases e with
  | edit dirty l =>
    have hintact := Pieces.strokes_intact hsize (s.rasters s.history.current.raster) l
    refine sound_commit h (Function.update s.rasters s.history.current.raster
      (strokes size (s.rasters s.history.current.raster) l).1) le_rfl h.current.1 ?_ ?_
    · rintro bytes _ ⟨⟩
      refine ⟨rfl, fun t ht => ?_, hintact.apart hsize⟩
      simp only [Function.update_self]
      exact (hintact.covers hsize ht).of_dims hintact.width hintact.height
    · -- undone, the edit leaves the raster it found
      intro bytes i _
      simp only [swap, Function.update_self, Function.update_idem]
      show Function.update s.rasters s.history.current.raster (swapTiles (strokes size (s.rasters s.history.current.raster) l).1
        (strokes size (s.rasters s.history.current.raster) l).2.values).1 i = _
      rw [swapTiles_intact hsize hintact, Function.update_eq_self]
  | replace raster =>
    refine sound_commit h (Function.update s.rasters s.fresh raster) (Nat.le_succ _) (Nat.lt_succ_self _) ?_ ?_
    · rintro bytes _ ⟨⟩
    · intro bytes i hi
      exact Function.update_of_ne (Nat.ne_of_lt hi) _ _
  | objects =>
    refine sound_commit h s.rasters le_rfl h.current.1 ?_ (fun _ _ _ => rfl)
    rintro bytes _ ⟨⟩
  | undo => exact sound_undo h
  | redo => exact sound_redo h

/-- **A step undone is redone**: the session is as it was. -/
theorem redo_undo (h : Sound limit s) (hpast : s.history.past ≠ []) : s.undo.redo = s := by
  obtain ⟨past, t, heq⟩ := (List.eq_nil_or_concat s.history.past).resolve_left hpast
  rw [List.concat_eq_append] at heq
  have hback := h.back
  rw [heq, List.reverse_append, List.reverse_singleton, List.singleton_append] at hback
  obtain ⟨-, hcurrent, hfits, -⟩ := hback
  obtain ⟨-, htarget, hbytes⟩ := swap_ends s.rasters t
  rw [undo_eq heq, redo_eq rfl]
  simp only [(swap_swap hfits).1, htarget, hbytes, hcurrent, Int.sub_add_cancel, ← heq]

theorem undo_redo (h : Sound limit s) (hfuture : s.history.future ≠ []) : s.redo.undo = s := by
  obtain ⟨future, t, heq⟩ := (List.eq_nil_or_concat s.history.future).resolve_left hfuture
  rw [List.concat_eq_append] at heq
  have hforth := h.forth
  rw [heq, List.reverse_append, List.reverse_singleton, List.singleton_append] at hforth
  obtain ⟨-, hcurrent, hfits, -⟩ := hforth
  obtain ⟨hsource, -, hbytes⟩ := swap_ends s.rasters t
  rw [redo_eq heq, undo_eq rfl]
  simp only [(swap_swap hfits).1, hsource, hbytes, hcurrent, Int.add_sub_cancel, ← heq]

theorem undos_spec {limit : Nat} {s : Session} (h : Sound limit s) : ∀ n ≤ s.history.past.length,
    Sound limit (Session.undo^[n] s) ∧ (Session.undo^[n] s).history.past.length = s.history.past.length - n ∧
      Session.redo^[n] (Session.undo^[n] s) = s
  | 0, _ => ⟨h, rfl, rfl⟩
  | n + 1, hn => by
    obtain ⟨hsound, hlen, hback⟩ := undos_spec h n (by omega)
    have hpast : (Session.undo^[n] s).history.past ≠ [] := by
      rw [← List.length_pos_iff, hlen]
      omega
    obtain ⟨past, t, heq⟩ := (List.eq_nil_or_concat _).resolve_left hpast
    rw [List.concat_eq_append] at heq
    rw [Function.iterate_succ_apply', Function.iterate_succ_apply, redo_undo hsound hpast]
    refine ⟨sound_undo hsound, ?_, hback⟩
    rw [heq, List.length_append, List.length_singleton] at hlen
    rw [undo_eq heq]
    simp only
    omega

theorem redos_spec {limit : Nat} {s : Session} (h : Sound limit s) : ∀ n ≤ s.history.future.length,
    Sound limit (Session.redo^[n] s) ∧ (Session.redo^[n] s).history.future.length = s.history.future.length - n ∧
      Session.undo^[n] (Session.redo^[n] s) = s
  | 0, _ => ⟨h, rfl, rfl⟩
  | n + 1, hn => by
    obtain ⟨hsound, hlen, hback⟩ := redos_spec h n (by omega)
    have hfuture : (Session.redo^[n] s).history.future ≠ [] := by
      rw [← List.length_pos_iff, hlen]
      omega
    obtain ⟨future, t, heq⟩ := (List.eq_nil_or_concat _).resolve_left hfuture
    rw [List.concat_eq_append] at heq
    rw [Function.iterate_succ_apply', Function.iterate_succ_apply, undo_redo hsound hfuture]
    refine ⟨sound_redo hsound, ?_, hback⟩
    rw [heq, List.length_append, List.length_singleton] at hlen
    rw [redo_eq heq]
    simp only
    omega

def session (tile : ℕ+) (raster : Raster) (limit : Nat) (events : List Event) : Session :=
  Steps.run (step tile) (.create raster limit) events

theorem session_sound (tile : ℕ+) (raster : Raster) (limit : Nat) (events : List Event) :
    Sound limit (session tile raster limit events) :=
  Steps.run_invariant (sound_step tile.pos) events _ (sound_create raster limit)

/-- **Undo keeps every pixel.**  After any run the current revision's raster holds what it held when it was committed, the
bytes are those of the steps that can be undone and within the limit, and steps undone and redone, or redone and undone, leave
everything as it was.  The tiles an edit keeps are disjoint, and put back they restore the raster it found. -/
theorem history_keeps_pixels (tile : ℕ+) (raster : Raster) (limit : Nat) (events : List Event) :
    ((session tile raster limit events).rasters (session tile raster limit events).history.current.raster =
      (session tile raster limit events).committed (session tile raster limit events).history.current.id) ∧
    ((session tile raster limit events).history.bytes =
        (((session tile raster limit events).history.past.map Step.bytes).sum : Nat) ∧
      (session tile raster limit events).history.bytes ≤ limit) ∧
    (∀ n ≤ (session tile raster limit events).history.past.length,
      Session.redo^[n] (Session.undo^[n] (session tile raster limit events)) = session tile raster limit events) ∧
    (∀ n ≤ (session tile raster limit events).history.future.length,
      Session.undo^[n] (Session.redo^[n] (session tile raster limit events)) = session tile raster limit events) ∧
    ∀ (r : Raster) (l : List Stroke), (strokes tile r l).2.values.Pairwise Apart ∧
      Pieces.restore (strokes tile r l).1 (strokes tile r l).2 = r := by
  have h := session_sound tile raster limit events
  refine ⟨h.back.head, ⟨h.bytes, ?_⟩, fun n hn => (undos_spec h n hn).2.2, fun n hn => (redos_spec h n hn).2.2, fun r l => ?_⟩
  · have htotal := h.total
    rw [List.map_append, List.sum_append] at htotal
    rw [h.bytes]
    omega
  · have hintact := Pieces.strokes_intact tile.pos r l
    exact ⟨hintact.apart tile.pos, Pieces.restore_intact tile.pos hintact⟩

end Image
end Dormouse

import Dormouse.PushStore
/-!
# PushCaps — what the caps leave of the subscriptions

The loop of `capSubscriptions` drops the oldest rows while a cap is exceeded, but never the row it is told to keep.  Its
counts are those of the rows it has not dropped, and a row it has passed over shows that both caps already held for its
Burrow (`Capped`).
-/
namespace Dormouse
namespace Relay

variable {Time : Type} [LinearOrder Time]

theorem oldestFirst_perm (rows : List (StoredPushSubscription Time × Nat)) : (oldestFirst rows).Perm rows :=
  List.mergeSort_perm _ _

theorem oldestFirst_sorted (rows : List (StoredPushSubscription Time × Nat)) :
    (oldestFirst rows).Pairwise (fun a b => a.1.subscribedAt ≤ b.1.subscribedAt) := by
  have h : (oldestFirst rows).Pairwise (fun a b => decide (a.1.subscribedAt ≤ b.1.subscribedAt) = true) := by
    refine List.pairwise_mergeSort (fun a b c hab hbc => ?_) (fun a b => ?_) rows
    · rw [decide_eq_true_eq] at hab hbc ⊢
      exact hab.trans hbc
    · simpa using le_total a.1.subscribedAt b.1.subscribedAt
  exact h.imp (fun hab => of_decide_eq_true hab)

def burrowCount (rows : List (StoredPushSubscription Time)) (b : JsString) : Nat := rows.countP (·.burrowId = b)

theorem forBurrow_set (m : OrdMap JsString Int) (k b : JsString) (v : Int) :
    forBurrow (m.set k v) b = if b = k then v else forBurrow m b := by
  unfold forBurrow
  by_cases h : b = k
  · subst h
    simp
  · rw [if_neg h, OrdMap.get_set_ne m v h]

omit [LinearOrder Time] in
theorem forBurrow_countRows : ∀ (rows : List (StoredPushSubscription Time)) (m : OrdMap JsString Int) (b : JsString),
    forBurrow (rows.foldl countRow m) b = forBurrow m b + burrowCount rows b
  | [], _, _ => by simp [burrowCount]
  | row :: rows, m, b => by
    rw [List.foldl_cons, forBurrow_countRows rows, countRow, forBurrow_set, burrowCount, burrowCount, List.countP_cons]
    by_cases h : b = row.burrowId
    · subst h
      simp
      omega
    · simp [h, Ne.symm h]

/-- Where the loop is, once it has come past `seen`. -/
structure Capped (all : List (StoredPushSubscription Time × Nat)) (keep : StoredPushSubscription Time × Nat)
    (seen : List (StoredPushSubscription Time × Nat)) (st : CapState Time) : Prop where
  total : st.total = ((all.filter (· ∉ st.dropped)).length : Int)
  perBurrow : ∀ b, forBurrow st.perBurrow b = (((all.filter (· ∉ st.dropped)).countP (·.1.burrowId = b) : Nat) : Int)
  dropped : ∀ d ∈ st.dropped, d ∈ seen ∧ d ≠ keep
  /-- A row passed over shows that both caps hold. -/
  passed : ∀ r ∈ seen, r ≠ keep → r ∉ st.dropped →
    st.total ≤ maxPushSubscriptionsTotal ∧ forBurrow st.perBurrow r.1.burrowId ≤ maxPushSubscriptionsPerBurrow
  /-- Within a Burrow the dropped rows are no newer than those passed over. -/
  oldest : ∀ d ∈ st.dropped, ∀ r ∈ seen, r ≠ keep → r ∉ st.dropped → r.1.burrowId = d.1.burrowId →
    d.1.subscribedAt ≤ r.1.subscribedAt

theorem filter_dropped {all dropped : List (StoredPushSubscription Time × Nat)} {row : StoredPushSubscription Time × Nat}
    (hnd : all.Nodup) (hrow : row ∈ all) (hnew : row ∉ dropped) :
    (all.filter (· ∉ dropped)).Perm (row :: all.filter (· ∉ row :: dropped)) := by
  have hmem : row ∈ all.filter (· ∉ dropped) := List.mem_filter.2 ⟨hrow, by simpa using hnew⟩
  refine (List.perm_cons_erase hmem).trans (List.Perm.cons row ?_)
  rw [(hnd.filter _).erase_eq_filter, List.filter_filter]
  refine List.Perm.of_eq (List.filter_congr fun x _ => ?_)
  by_cases hx : x = row <;> simp [hx]

/-- **One row of the loop.** -/
theorem capped_row {all seen : List (StoredPushSubscription Time × Nat)} {keep row : StoredPushSubscription Time × Nat}
    {st : CapState Time} (hnd : all.Nodup) (hrow : row ∈ all) (hnew : row ∉ seen)
    (hsorted : ∀ d ∈ seen, d.1.subscribedAt ≤ row.1.subscribedAt) (h : Capped all keep seen st) :
    Capped all keep (seen ++ [row]) (capRow keep st row) := by
  have hnd' : row ∉ st.dropped := fun hd => hnew (h.dropped row hd).1
  -- a row that stays keeps the state, so only what was asked of rows seen is asked of it too
  have hstay : (row ≠ keep → st.total ≤ maxPushSubscriptionsTotal ∧
      forBurrow st.perBurrow row.1.burrowId ≤ maxPushSubscriptionsPerBurrow) → Capped all keep (seen ++ [row]) st := by
    intro hcaps
    refine ⟨h.total, h.perBurrow, fun d hd => ⟨List.mem_append_left _ (h.dropped d hd).1, (h.dropped d hd).2⟩, ?_, ?_⟩
    · intro r hr hk hrd
      rcases List.mem_append.1 hr with hr | hr
      · exact h.passed r hr hk hrd
      · rw [List.mem_singleton.1 hr] at hk ⊢
        exact hcaps hk
    · intro d hd r hr hk hrd hb
      rcases List.mem_append.1 hr with hr | hr
      · exact h.oldest d hd r hr hk hrd hb
      · rw [List.mem_singleton.1 hr]
        exact hsorted d (h.dropped d hd).1
  unfold capRow
  by_cases hk : row = keep
  · rw [if_pos hk]
    exact hstay (fun hne => absurd hk hne)
  rw [if_neg hk]
  by_cases hcap : st.total ≤ maxPushSubscriptionsTotal ∧
      forBurrow st.perBurrow row.1.burrowId ≤ maxPushSubscriptionsPerBurrow
  · rw [if_pos hcap]
    exact hstay (fun _ => hcap)
  rw [if_neg hcap]
  have hperm := filter_dropped hnd hrow hnd'
  -- nothing of this Burrow has been passed over, for both caps would hold
  have hnone : ∀ r ∈ seen, r ≠ keep → r ∉ st.dropped → r.1.burrowId ≠ row.1.burrowId := by
    intro r hr hrk hrd hb
    exact hcap (hb ▸ h.passed r hr hrk hrd)
  have hrest : ∀ r ∈ seen ++ [row], r ∉ row :: st.dropped → r ∈ seen ∧ r ∉ st.dropped := by
    intro r hr hrd
    rw [List.mem_cons, not_or] at hrd
    rcases List.mem_append.1 hr with hr | hr
    · exact ⟨hr, hrd.2⟩
    · exact absurd (List.mem_singleton.1 hr) hrd.1
  refine ⟨?_, ?_, ?_, ?_, ?_⟩
  · have hlen := hperm.length_eq
    rw [List.length_cons] at hlen
    show st.total - 1 = _
    rw [h.total, hlen]
    push_cast
    omega
  · intro b
    have hcount := hperm.countP_eq (fun r => r.1.burrowId = b)
    rw [List.countP_cons] at hcount
    show forBurrow (st.perBurrow.set _ _) b = _
    rw [forBurrow_set, h.perBurrow, h.perBurrow, hcount]
    by_cases hb : b = row.1.burrowId
    · subst hb
      have hown := hperm.countP_eq (fun r => r.1.burrowId = row.1.burrowId)
      rw [List.countP_cons] at hown
      rw [if_pos rfl, hown]
      simp
    · rw [if_neg hb]
      simp [Ne.symm hb]
  · intro d hd
    rcases List.mem_cons.1 hd with rfl | hd
    · exact ⟨List.mem_append_right _ (List.mem_singleton.2 rfl), hk⟩
    · exact ⟨List.mem_append_left _ (h.dropped d hd).1, (h.dropped d hd).2⟩
  · intro r hr hrk hrd
    obtain ⟨hseen, hold⟩ := hrest r hr hrd
    obtain ⟨ht, hb⟩ := h.passed r hseen hrk hold
    refine ⟨?_, ?_⟩
    · show st.total - 1 ≤ _
      omega
    · show forBurrow (st.perBurrow.set _ _) _ ≤ _
      rw [forBurrow_set, if_neg (hnone r hseen hrk hold)]
      exact hb
  · intro d hd r hr hrk hrd hb
    obtain ⟨hseen, hold⟩ := hrest r hr hrd
    rcases List.mem_cons.1 hd with rfl | hd
    · exact absurd hb (hnone r hseen hrk hold)
    · exact h.oldest d hd r hseen hrk hold hb

/-- **The loop.** -/
theorem capped_rows {all : List (StoredPushSubscription Time × Nat)} {keep : StoredPushSubscription Time × Nat}
    (hnd : all.Nodup) : ∀ (todo seen : List (StoredPushSubscription Time × Nat)) (st : CapState Time),
      (∀ r ∈ todo, r ∈ all) → (seen ++ todo).Nodup →
      (seen ++ todo).Pairwise (fun a b => a.1.subscribedAt ≤ b.1.subscribedAt) → Capped all keep seen st →
      Capped all keep (seen ++ todo) (todo.foldl (capRow keep) st)
  | [], seen, st, _, _, _, h => by simpa using h
  | row :: todo, seen, st, hall, hdis, hsorted, h => by
    have hsplit : seen ++ row :: todo = (seen ++ [row]) ++ todo := by simp
    have hnew : row ∉ seen := fun hr => List.disjoint_of_nodup_append hdis hr List.mem_cons_self
    have hold : ∀ d ∈ seen, d.1.subscribedAt ≤ row.1.subscribedAt := fun d hd =>
      (List.pairwise_append.1 hsorted).2.2 d hd row List.mem_cons_self
    rw [hsplit] at hdis hsorted ⊢
    exact capped_rows hnd todo (seen ++ [row]) _ (fun r hr => hall r (List.mem_cons_of_mem _ hr)) hdis hsorted
      (capped_row hnd (hall row List.mem_cons_self) hnew hold h)

theorem nodup_zipIdx {α : Type} (l : List α) : l.zipIdx.Nodup := by
  refine List.Nodup.of_map Prod.snd ?_
  rw [List.zipIdx_map_snd]
  exact List.nodup_range'

/-- What the caps leave: a sublist with both caps, the kept row in it, and nothing newer of a Burrow dropped. -/
structure CapsHold (rows : List (StoredPushSubscription Time)) (keep : StoredPushSubscription Time)
    (kept : List (StoredPushSubscription Time)) : Prop where
  sublist : kept.Sublist (rows ++ [keep])
  total : kept.length ≤ maxPushSubscriptionsTotal
  perBurrow : ∀ b, burrowCount kept b ≤ maxPushSubscriptionsPerBurrow
  stays : keep ∈ kept
  /-- Every row is kept, or no newer than every other row kept of its Burrow. -/
  oldest : ∀ d ∈ rows, d ∉ kept → ∀ r ∈ kept, r ≠ keep → r.burrowId = d.burrowId → d.subscribedAt ≤ r.subscribedAt

theorem length_le_one {α : Type} {l : List α} {a : α} (hnd : l.Nodup) (h : ∀ x ∈ l, x = a) : l.length ≤ 1 := by
  match l, hnd, h with
  | [], _, _ => exact Nat.zero_le 1
  | [x], _, _ => exact Nat.le_refl 1
  | x :: y :: l, hnd, h =>
    have hx := h x List.mem_cons_self
    have hy := h y (List.mem_cons_of_mem _ List.mem_cons_self)
    exact absurd (hx.trans hy.symm ▸ List.mem_cons_self) (List.nodup_cons.1 hnd).1

theorem capped_nil (rows : List (StoredPushSubscription Time)) (keep : StoredPushSubscription Time × Nat) :
    Capped rows.zipIdx keep [] ⟨rows.foldl countRow OrdMap.empty, rows.length, []⟩ := by
  refine ⟨by simp, fun b => ?_, by simp, by simp, by simp⟩
  have hrows : rows.zipIdx.countP (fun r => decide (r.1.burrowId = b)) = burrowCount rows b := by
    have hfst : rows.zipIdx.map Prod.fst = rows := by simp
    rw [burrowCount, ← hfst, List.countP_map, hfst]
    rfl
  rw [forBurrow_countRows]
  simp [forBurrow, hrows]

/-- **`capSubscriptions` keeps the row it is told to, and of the others the newest the caps allow.** -/
theorem capSubscriptions_spec (rows : List (StoredPushSubscription Time)) (keep : StoredPushSubscription Time) :
    CapsHold rows keep (capSubscriptions rows keep) := by
  unfold capSubscriptions
  dsimp only
  by_cases hfew : (rows ++ [keep]).length ≤ maxPushSubscriptionsPerBurrow
  · rw [if_pos hfew]
    refine ⟨List.Sublist.refl _, hfew.trans (by decide), fun b => List.countP_le_length.trans hfew, ?_, ?_⟩
    · exact List.mem_append_right _ (List.mem_singleton.2 rfl)
    · exact fun d hd hgone => absurd (List.mem_append_left _ hd) hgone
  rw [if_neg hfew]
  generalize hall : (rows ++ [keep]).zipIdx = all
  have hnd : all.Nodup := hall ▸ nodup_zipIdx _
  have hkeep : (keep, rows.length) ∈ all := by
    rw [← hall, List.mem_zipIdx_iff_getElem?]
    simp
  have hloop := capped_rows hnd (oldestFirst all) [] _ (fun r hr => (oldestFirst_perm all).mem_iff.1 hr)
    ((oldestFirst_perm all).nodup_iff.2 hnd) (oldestFirst_sorted all) (hall ▸ capped_nil (rows ++ [keep]) (keep, rows.length))
  rw [List.nil_append] at hloop
  generalize (oldestFirst all).foldl _ _ = st at hloop ⊢
  have hseen : ∀ r ∈ all, r ∈ oldestFirst all := fun r hr => (oldestFirst_perm all).mem_iff.2 hr
  generalize hkept : all.filter (fun row => decide (row ∉ st.dropped)) = kept
  have hnd' : kept.Nodup := hkept ▸ hnd.filter _
  have hmem : ∀ r ∈ kept, r ∈ all ∧ r ∉ st.dropped := by
    intro r hr
    rw [← hkept, List.mem_filter, decide_eq_true_eq] at hr
    exact hr
  have htotal := hloop.total
  have hper := hloop.perBurrow
  rw [hkept] at htotal hper
  refine ⟨?_, ?_, fun b => ?_, ?_, ?_⟩
  · have hfst : (rows ++ [keep]).zipIdx.map Prod.fst = rows ++ [keep] := by simp
    rw [← hkept, ← hfst, hall]
    exact List.filter_sublist.map Prod.fst
  · -- either only the kept row is left, or a row was passed over
    rw [List.length_map]
    by_cases hone : ∀ r ∈ kept, r = (keep, rows.length)
    · exact (length_le_one hnd' hone).trans (by decide)
    · simp only [not_forall] at hone
      obtain ⟨r, hr, hne⟩ := hone
      have := (hloop.passed r (hseen r (hmem r hr).1) hne (hmem r hr).2).1
      omega
  · show List.countP _ (kept.map Prod.fst) ≤ _
    rw [List.countP_map]
    by_cases hone : ∀ r ∈ kept.filter (fun r => decide (r.1.burrowId = b)), r = (keep, rows.length)
    · have := length_le_one (hnd'.filter _) hone
      rw [← List.countP_eq_length_filter] at this
      exact this.trans (by decide)
    · simp only [not_forall] at hone
      obtain ⟨r, hr, hne⟩ := hone
      obtain ⟨hr, hb⟩ := List.mem_filter.1 hr
      have hb := of_decide_eq_true hb
      have := (hloop.passed r (hseen r (hmem r hr).1) hne (hmem r hr).2).2
      rw [hper, hb] at this
      exact Int.ofNat_le.1 this
  · refine List.mem_map.2 ⟨(keep, rows.length), ?_, rfl⟩
    rw [← hkept, List.mem_filter, decide_eq_true_eq]
    exact ⟨hkeep, fun hd => (hloop.dropped _ hd).2 rfl⟩
  · intro d hd hgone r hr hrk hb
    obtain ⟨i, hi⟩ := List.mem_iff_getElem?.1 (List.mem_append_left [keep] hd)
    obtain ⟨⟨r', j⟩, hrj, rfl⟩ := List.mem_map.1 hr
    have hdi : (d, i) ∈ all := by
      rw [← hall, List.mem_zipIdx_iff_getElem?]
      exact hi
    have hdrop : (d, i) ∈ st.dropped := by
      by_contra hstay
      refine hgone (List.mem_map.2 ⟨(d, i), ?_, rfl⟩)
      rw [← hkept, List.mem_filter, decide_eq_true_eq]
      exact ⟨hdi, hstay⟩
    refine hloop.oldest (d, i) hdrop (r', j) (hseen _ (hmem _ hrj).1) ?_ (hmem _ hrj).2 hb
    rintro heq
    exact hrk (congrArg Prod.fst heq)


end Relay
end Dormouse

import Dormouse.PendingKills
/-!
# PendingKillsRun — every pending kill settles one way

Over any run of calls at times that do not run backwards: each kill ever added is live under one key or was finalized or
restored, once (`Settled`); what the timer finalizes ran down for the whole countdown (`Counted`); and the snapshot and the
timer are those of the live kills (`Shown`).
-/
namespace Dormouse
namespace PendingKills

def Ran.settles : Ran → Option Nat
  | .restored actions _  => some actions
  | .refused _ _         => none
  | .finalized actions _ => some actions

def settled (s : Store) : List Nat := s.log.filterMap Ran.settles

/-- **Each kill ever added is in one place**: under a key, or settled. -/
structure Settled (s : Store) : Prop where
  once    : (settled s).Nodup
  known   : ∀ n ∈ settled s, n < s.added
  live    : ∀ {k e}, s.entries.get k = some e → e.actions < s.added ∧ e.actions ∉ settled s
  single  : ∀ {k k' e e'}, s.entries.get k = some e → s.entries.get k' = some e' → e.actions = e'.actions → k = k'
  covered : ∀ n < s.added, n ∈ settled s ∨ ∃ k e, s.entries.get k = some e ∧ e.actions = n

def Counted (s : Store) : Prop := ∀ k e, s.entries.get k = some e → pendingKillMs ≤ e.unheld + timeLeft e.kill s.clock

structure Shown (s : Store) : Prop where
  snapshot : s.snapshot = newestFirst s.entries
  armed    : ∃ now ≤ s.clock, s.timer = soonestTimer s.entries now

/-! ## Taking entries out -/

theorem get_foldl_delete : ∀ (due : List (JsString × Entry)) (entries : OrdMap JsString Entry) (k : JsString),
    (due.foldl (fun entries e => entries.delete e.1) entries).get k = if k ∈ due.map Prod.fst then none else entries.get k
  | [], _, _ => by simp
  | e :: due, entries, k => by
    rw [List.foldl_cons, get_foldl_delete due (entries.delete e.1) k, List.map_cons]
    by_cases hm : k ∈ due.map Prod.fst
    · rw [if_pos hm, if_pos (List.mem_cons_of_mem _ hm)]
    · by_cases hk : k = e.1
      · subst hk
        rw [if_neg hm, if_pos List.mem_cons_self, OrdMap.get_delete_self]
      · rw [if_neg hm, if_neg (by simp [hk, hm]), OrdMap.get_delete_ne _ hk]

theorem settled_append (s : Store) (ran : List Ran) :
    settled { s with log := s.log ++ ran } = settled s ++ ran.filterMap Ran.settles := List.filterMap_append ..

namespace Settled

variable {s : Store}

theorem congr {s' : Store} (h : Settled s) (hentries : s'.entries = s.entries) (hadded : s'.added = s.added)
    (hlog : s'.log = s.log) : Settled s' := by
  have hsettled : settled s' = settled s := by unfold settled; rw [hlog]
  constructor
  · rw [hsettled]; exact h.once
  · rw [hsettled, hadded]; exact h.known
  · intro k e he
    rw [hentries] at he
    rw [hadded, hsettled]
    exact h.live he
  · rw [hentries]; exact h.single
  · rw [hentries, hadded, hsettled]; exact h.covered

/-- **Entries that leave settle, each in its own way**: `ran` says how, one by one. -/
theorem leave (h : Settled s) (due : List (JsString × Entry)) (hdue : ∀ e ∈ due, s.entries.get e.1 = some e.2)
    (hkeys : (due.map Prod.fst).Nodup) (ran : List Ran)
    (hran : ran.filterMap Ran.settles = due.map (fun e => e.2.actions)) :
    Settled { s with
      entries := due.foldl (fun entries e => entries.delete e.1) s.entries
      log := s.log ++ ran } := by
  have hsettled : settled { s with
      entries := due.foldl (fun entries e => entries.delete e.1) s.entries
      log := s.log ++ ran } = settled s ++ due.map (fun e => e.2.actions) := by
    rw [← hran]
    exact List.filterMap_append ..
  have hold : ∀ {k e}, (due.foldl (fun entries e => entries.delete e.1) s.entries).get k = some e →
      k ∉ due.map Prod.fst ∧ s.entries.get k = some e := by
    intro k e he
    rw [get_foldl_delete] at he
    split at he
    · cases he
    · next hk => exact ⟨hk, he⟩
  have hactions : ∀ n, n ∈ due.map (fun e => e.2.actions) → ∃ e ∈ due, e.2.actions = n := fun n hn => List.mem_map.1 hn
  constructor
  · rw [hsettled, List.nodup_append]
    refine ⟨h.once, ?_, ?_⟩
    · have hinj : ∀ a ∈ due, ∀ b ∈ due, a.2.actions = b.2.actions → a.1 = b.1 :=
        fun a ha b hb hab => h.single (hdue a ha) (hdue b hb) hab
      refine (List.Nodup.of_map Prod.fst hkeys).map_on (fun a ha b hb hab => ?_)
      have hfst := hinj a ha b hb hab
      have hsnd : some a.2 = some b.2 := by rw [← hdue a ha, ← hdue b hb, hfst]
      exact Prod.ext hfst (Option.some.inj hsnd)
    · intro n hn m hm hnm
      obtain ⟨e, he, rfl⟩ := hactions m hm
      exact (h.live (hdue e he)).2 (hnm ▸ hn)
  · intro n hn
    rw [hsettled, List.mem_append] at hn
    rcases hn with hn | hn
    · exact h.known n hn
    · obtain ⟨e, he, rfl⟩ := hactions n hn
      exact (h.live (hdue e he)).1
  · intro k e he
    obtain ⟨hk, he'⟩ := hold he
    refine ⟨(h.live he').1, ?_⟩
    rw [hsettled, List.mem_append]
    rintro (hmem | hmem)
    · exact (h.live he').2 hmem
    · obtain ⟨d, hd, hd'⟩ := hactions _ hmem
      exact hk (h.single he' (hdue d hd) hd'.symm ▸ List.mem_map_of_mem hd)
  · exact fun ha hb => h.single (hold ha).2 (hold hb).2
  · intro n hn
    rw [hsettled, List.mem_append]
    rcases h.covered n hn with hmem | ⟨k, e, he, rfl⟩
    · exact .inl (.inl hmem)
    · by_cases hk : k ∈ due.map Prod.fst
      · obtain ⟨d, hd, rfl⟩ := List.mem_map.1 hk
        have : d.2 = e := Option.some.inj ((hdue d hd).symm.trans he)
        exact .inl (.inr (this ▸ List.mem_map_of_mem (f := fun e => e.2.actions) hd))
      · exact .inr ⟨k, e, by rw [get_foldl_delete, if_neg hk]; exact he, rfl⟩

theorem set_same (h : Settled s) {key : JsString} {entry : Entry} (hget : s.entries.get key = some entry) (next : Entry)
    (hactions : next.actions = entry.actions) : Settled { s with entries := s.entries.set key next } := by
  have hold : ∀ {k e}, (s.entries.set key next).get k = some e → ∃ e', s.entries.get k = some e' ∧ e.actions = e'.actions := by
    intro k e he
    rw [OrdMap.get_set] at he
    split at he
    · next hk => exact ⟨entry, hk ▸ hget, by rw [← Option.some.inj he, hactions]⟩
    · exact ⟨e, he, rfl⟩
  constructor
  · exact h.once
  · exact h.known
  · intro k e he
    obtain ⟨e', he', hsame⟩ := hold he
    rw [hsame]
    exact h.live he'
  · intro k k' e e' he he' hsame
    obtain ⟨d, hd, hd'⟩ := hold he
    obtain ⟨c, hc, hc'⟩ := hold he'
    exact h.single hd hc (hd'.symm.trans (hsame.trans hc'))
  · intro n hn
    refine (h.covered n hn).imp (fun hm => hm) ?_
    rintro ⟨k, e, he, rfl⟩
    by_cases hk : k = key
    · subst hk
      obtain rfl : entry = e := Option.some.inj (hget.symm.trans he)
      exact ⟨k, next, OrdMap.get_set_self .., hactions⟩
    · exact ⟨k, e, by rw [OrdMap.get_set_ne _ _ hk]; exact he, rfl⟩

theorem add (h : Settled s) {key : JsString} (hfree : s.entries.get key = none) {entry : Entry}
    (hactions : entry.actions = s.added) :
    Settled { s with entries := s.entries.set key entry, added := s.added + 1 } := by
  have hold : ∀ {k e}, (s.entries.set key entry).get k = some e → k = key ∧ e = entry ∨ k ≠ key ∧ s.entries.get k = some e := by
    intro k e he
    rw [OrdMap.get_set] at he
    split at he
    · next hk => exact .inl ⟨hk, (Option.some.inj he).symm⟩
    · next hk => exact .inr ⟨hk, he⟩
  have hnew : s.added ∉ settled s := fun hmem => Nat.lt_irrefl _ (h.known _ hmem)
  constructor
  · exact h.once
  · exact fun n hn => Nat.lt_succ_of_lt (h.known n hn)
  · intro k e he
    rcases hold he with ⟨-, rfl⟩ | ⟨-, he⟩
    · exact ⟨by rw [hactions]; exact Nat.lt_succ_self _, by rw [hactions]; exact hnew⟩
    · exact ⟨Nat.lt_succ_of_lt (h.live he).1, (h.live he).2⟩
  · intro k k' e e' he he' hsame
    rcases hold he with ⟨rfl, rfl⟩ | ⟨-, he⟩ <;> rcases hold he' with ⟨hk, hd⟩ | ⟨-, he'⟩
    · exact hk.symm
    · have := (h.live he').1
      omega
    · rw [hd] at hsame
      have := (h.live he).1
      omega
    · exact h.single he he' hsame
  · intro n hn
    rcases Nat.lt_succ_iff_lt_or_eq.1 hn with hlt | rfl
    · refine (h.covered n hlt).imp (fun hm => hm) ?_
      rintro ⟨k, e, he, rfl⟩
      have hk : k ≠ key := fun hk => by rw [hk, hfree] at he; cases he
      exact ⟨k, e, by rw [OrdMap.get_set_ne _ _ hk]; exact he, rfl⟩
    · exact .inr ⟨key, entry, OrdMap.get_set_self .., hactions⟩

end Settled

/-! ## The clock -/

theorem advance_get (s : Store) (now : Int) (k : JsString) :
    (advance s now).entries.get k = (s.entries.get k).map (·.later (now - s.clock)) :=
  OrdMap.get_mapValues ..

theorem advance_kills (s : Store) (now : Int) :
    (advance s now).entries.entries.map (fun e => (e.1, e.2.kill, e.2.actions)) =
      s.entries.entries.map (fun e => (e.1, e.2.kill, e.2.actions)) := by
  show (s.entries.entries.map _).map _ = _
  rw [List.map_map]
  exact List.map_congr_left (fun e _ => by simp)

theorem advance_values (s : Store) (now : Int) :
    (advance s now).entries.values.map (·.kill) = s.entries.values.map (·.kill) := by
  have h := congrArg (List.map (fun t => t.2.1)) (advance_kills s now)
  simpa [OrdMap.values, List.map_map, Function.comp_def] using h

variable {s : Store}

theorem advance_settled (h : Settled s) (now : Int) : Settled (advance s now) := by
  have hold : ∀ {k e}, (advance s now).entries.get k = some e → ∃ e', s.entries.get k = some e' ∧ e.actions = e'.actions := by
    intro k e he
    rw [advance_get] at he
    obtain ⟨e', he', rfl⟩ := Option.map_eq_some_iff.1 he
    exact ⟨e', he', by simp⟩
  constructor
  · exact h.once
  · exact h.known
  · intro k e he
    obtain ⟨e', he', hsame⟩ := hold he
    rw [hsame]
    exact h.live he'
  · intro k k' e e' he he' hsame
    obtain ⟨d, hd, hd'⟩ := hold he
    obtain ⟨c, hc, hc'⟩ := hold he'
    exact h.single hd hc (hd'.symm.trans (hsame.trans hc'))
  · intro n hn
    refine (h.covered n hn).imp (fun hm => hm) ?_
    rintro ⟨k, e, he, rfl⟩
    exact ⟨k, e.later (now - s.clock), by rw [advance_get, he]; rfl, by simp⟩

theorem advance_counted (h : Counted s) (now : Int) : Counted (advance s now) := by
  intro k e he
  rw [advance_get] at he
  obtain ⟨e', he', rfl⟩ := Option.map_eq_some_iff.1 he
  have hold := h k e' he'
  cases hresumed : e'.kill.resumedAt with
  | none =>
    simp only [timeLeft, hresumed, Entry.later, Option.isSome_none, Bool.false_eq_true, if_false] at hold ⊢
    exact hold
  | some resumedAt =>
    simp only [timeLeft, hresumed, Entry.later, Option.isSome_some, if_true, advance] at hold ⊢
    omega

variable {now : Int}

theorem advance_shown (h : Shown s) (hnow : s.clock ≤ now) : Shown (advance s now) := by
  obtain ⟨hsnapshot, at', hat, harmed⟩ := h
  refine ⟨?_, at', hat.trans hnow, ?_⟩
  · unfold newestFirst
    rw [advance_values]
    exact hsnapshot
  · unfold soonestTimer running
    rw [advance_values]
    exact harmed

theorem publish_shown (hclock : s.clock = now) : Shown (publish s now) :=
  ⟨rfl, now, Int.le_of_eq hclock.symm, rfl⟩

/-! ## Every call -/

theorem counted_of_subset {s s' : Store} (h : Counted s) (hclock : s'.clock = s.clock)
    (hsub : ∀ k e, s'.entries.get k = some e → s.entries.get k = some e) : Counted s' := fun k e he => by
  rw [hclock]
  exact h k e (hsub k e he)

theorem addPendingKill_kept (hclock : s.clock = now) (h : Settled s) (hc : Counted s) {closed : Closed}
    (hfree : s.entries.get (pendingKillKey closed.kind closed.id) = none) :
    Settled (addPendingKill s now closed) ∧ Counted (addPendingKill s now closed) ∧ Shown (addPendingKill s now closed) := by
  refine ⟨(h.add hfree rfl).congr rfl rfl rfl, fun k e he => ?_, publish_shown hclock⟩
  have he' : (s.entries.set (pendingKillKey closed.kind closed.id)
      ⟨⟨closed, now, pendingKillMs, some now⟩, s.added, 0⟩).get k = some e := he
  rw [OrdMap.get_set] at he'
  split at he'
  · rw [← Option.some.inj he']
    show pendingKillMs ≤ 0 + (pendingKillMs - (s.clock - now))
    omega
  · exact hc k e he'

theorem leave_counted {s s' : Store} (h : Counted s) (hclock : s'.clock = s.clock) (due : List (JsString × Entry))
    (hentries : s'.entries = due.foldl (fun entries e => entries.delete e.1) s.entries) : Counted s' :=
  counted_of_subset h hclock (fun k e he => by
    rw [hentries, get_foldl_delete] at he
    split at he
    · cases he
    · exact he)

structure Kept (s : Store) : Prop where
  settled : Settled s
  counted : Counted s
  shown   : Shown s

theorem finalizePendingKill_kept (hclock : s.clock = now) (h : Kept s) (key : JsString) :
    Kept (finalizePendingKill s now key).1 := by
  unfold finalizePendingKill
  cases hget : s.entries.get key with
  | none => exact h
  | some entry =>
    have hleft := h.settled.leave [(key, entry)] (fun e he => by rw [List.mem_singleton.1 he]; exact hget)
      (List.nodup_singleton key) [.finalized entry.actions false] rfl
    refine ⟨hleft.congr rfl rfl rfl, leave_counted h.counted rfl [(key, entry)] rfl, ?_⟩
    have hshown : Shown (publish { s with entries := s.entries.delete key } now) := publish_shown hclock
    exact ⟨hshown.snapshot, hshown.armed⟩

theorem finalizePendingKills_kept (hclock : s.clock = now) (h : Kept s) (which : PendingKill → Bool) (teardown : Bool) :
    Kept (finalizePendingKills s now which teardown) := by
  unfold finalizePendingKills
  simp only
  split
  · exact h
  · have hleft := h.settled.leave (s.entries.entries.filter (fun e => which e.2.kill))
      (fun e he => OrdMap.mem_entries.1 (List.mem_filter.1 he).1) (s.entries.nodup.sublist (List.filter_sublist.map _))
      ((s.entries.entries.filter (fun e => which e.2.kill)).map (fun e => .finalized e.2.actions teardown))
      (by rw [List.filterMap_map]; exact congrFun List.filterMap_eq_map _)
    refine ⟨hleft.congr rfl rfl rfl, leave_counted h.counted rfl (s.entries.entries.filter (fun e => which e.2.kill)) rfl, ?_⟩
    have hshown : Shown (publish { s with
      entries := (s.entries.entries.filter (fun e => which e.2.kill)).foldl (fun entries e => entries.delete e.1) s.entries }
      now) := publish_shown hclock
    exact ⟨hshown.snapshot, hshown.armed⟩

theorem restorePendingKill_kept (hclock : s.clock = now) (h : Kept s) (key : JsString) (focus accepts : Bool) :
    Kept (restorePendingKill s now key focus accepts).1 := by
  unfold restorePendingKill
  cases hget : s.entries.get key with
  | none => exact h
  | some entry =>
    cases accepts with
    | false =>
      have hsettled : PendingKills.settled { s with log := s.log ++ [.refused entry.actions focus] } =
          PendingKills.settled s := by
        rw [settled_append]
        simp [Ran.settles]
      obtain ⟨honce, hknown, hlive, hsingle, hcovered⟩ := h.settled
      refine ⟨⟨hsettled ▸ honce, fun n hn => hknown n (hsettled ▸ hn), fun he => ?_, hsingle, fun n hn => ?_⟩,
        h.counted, ⟨h.shown.snapshot, h.shown.armed⟩⟩
      · exact ⟨(hlive he).1, fun hmem => (hlive he).2 (hsettled ▸ hmem)⟩
      · exact (hcovered n hn).imp (fun hm => hsettled.symm ▸ hm) (fun he => he)
    | true =>
      have hleft := h.settled.leave [(key, entry)] (fun e he => by rw [List.mem_singleton.1 he]; exact hget)
        (List.nodup_singleton key) [.restored entry.actions focus] rfl
      exact ⟨hleft.congr rfl rfl rfl, leave_counted h.counted rfl [(key, entry)] rfl, publish_shown hclock⟩

theorem holdPendingKill_kept (hclock : s.clock = now) (h : Kept s) (key : JsString) (held : Bool) :
    Kept (holdPendingKill s now key held) := by
  unfold holdPendingKill
  cases hget : s.entries.get key with
  | none => exact h
  | some entry =>
    simp only
    split
    · exact h
    · next hchange =>
      have hset := h.settled.set_same hget { entry with kill := entry.kill.hold now held } rfl
      refine ⟨hset.congr rfl rfl rfl, fun k e he => ?_, publish_shown hclock⟩
      have hold := h.counted key entry hget
      have he' : (s.entries.set key { entry with kill := entry.kill.hold now held }).get k = some e := he
      rw [OrdMap.get_set] at he'
      split at he'
      · rw [← Option.some.inj he']
        show pendingKillMs ≤ entry.unheld + timeLeft (entry.kill.hold now held) s.clock
        unfold PendingKill.hold
        cases held with
        | true =>
          have hle := Int.le_max_right 0 (timeLeft entry.kill now)
          rw [hclock] at hold
          show pendingKillMs ≤ entry.unheld + max 0 (timeLeft entry.kill now)
          omega
        | false =>
          cases hresumed : entry.kill.resumedAt with
          | none =>
            simp only [timeLeft, hresumed] at hold
            simp only [Bool.false_eq_true, if_false, timeLeft]
            omega
          | some t => simp [hresumed] at hchange
      · exact h.counted k e he'

/-! ## The timer -/

/-- **What a run of finalizations does**: the entries leave, each finalized in its turn. -/
theorem foldl_finalize (now : Int) : ∀ (due : List (JsString × Entry)) (s : Store),
    (∀ e ∈ due, s.entries.get e.1 = some e.2) → (due.map Prod.fst).Nodup → s.clock = now →
    let s' := due.foldl (fun s e => (finalizePendingKill s now e.1).1) s
    s'.entries = due.foldl (fun entries e => entries.delete e.1) s.entries ∧ s'.added = s.added ∧ s'.clock = s.clock ∧
      s'.log = s.log ++ due.map (fun e => .finalized e.2.actions false) ∧ (due ≠ [] → Shown s')
  | [], s, _, _, _ => ⟨rfl, rfl, rfl, by simp, fun h => absurd rfl h⟩
  | e :: due, s, hdue, hkeys, hclock => by
    have hget := hdue e List.mem_cons_self
    obtain ⟨hnew, hkeys⟩ := List.nodup_cons.1 hkeys
    have hstep : (finalizePendingKill s now e.1).1 =
        { publish { s with entries := s.entries.delete e.1 } now with log := s.log ++ [.finalized e.2.actions false] } := by
      unfold finalizePendingKill
      rw [hget]
      rfl
    have hrest : ∀ d ∈ due, (s.entries.delete e.1).get d.1 = some d.2 := by
      intro d hd
      have hne : d.1 ≠ e.1 := fun heq => hnew (heq ▸ List.mem_map_of_mem (f := Prod.fst) hd)
      rw [OrdMap.get_delete_ne _ hne]
      exact hdue d (List.mem_cons_of_mem _ hd)
    obtain ⟨hentries, hadded, hclock', hlog, hshown⟩ := foldl_finalize now due (finalizePendingKill s now e.1).1
      (by rw [hstep]; exact hrest) hkeys (by rw [hstep]; exact hclock)
    simp only [List.foldl_cons]
    refine ⟨?_, ?_, ?_, ?_, fun _ => ?_⟩
    · rw [hentries, hstep]; rfl
    · rw [hadded, hstep]; rfl
    · rw [hclock', hstep]; rfl
    · rw [hlog, hstep, List.map_cons, List.append_assoc]; rfl
    · by_cases hnil : due = []
      · subst hnil
        rw [List.foldl_nil, hstep]
        have hpublished : Shown (publish { s with entries := s.entries.delete e.1 } now) := publish_shown hclock
        exact ⟨hpublished.snapshot, hpublished.armed⟩
      · exact hshown hnil

theorem overdue_spec (entries : OrdMap JsString Entry) (now : Int) :
    (∀ e ∈ overdue entries now, entries.get e.1 = some e.2) ∧ ((overdue entries now).map Prod.fst).Nodup :=
  ⟨fun _ he => OrdMap.mem_entries.1 (List.mem_filter.1 he).1, entries.nodup.sublist (List.filter_sublist.map _)⟩

theorem expire_kept (hclock : s.clock = now) (h : Kept s) : Kept (expire s now) := by
  unfold expire
  simp only
  obtain ⟨hdue, hkeys⟩ := overdue_spec s.entries now
  split
  · exact ⟨h.settled.congr rfl rfl rfl, h.counted, ⟨h.shown.snapshot, now, Int.le_of_eq hclock.symm, rfl⟩⟩
  · next hsome =>
    obtain ⟨hentries, hadded, hclock', hlog, hshown⟩ :=
      foldl_finalize now (overdue s.entries now) { s with timer := none } hdue hkeys hclock
    have hleft := h.settled.leave (overdue s.entries now) hdue hkeys
      ((overdue s.entries now).map (fun e => .finalized e.2.actions false))
      (by rw [List.filterMap_map]; exact congrFun List.filterMap_eq_map _)
    exact ⟨hleft.congr hentries hadded hlog, leave_counted h.counted hclock' _ hentries, hshown hsome⟩

/-! ## Every run -/

/-- The clock does not run backwards, and a kill is added under a key that holds none. -/
def InOrder (s : Store) (call : Int × Call) : Prop :=
  s.clock ≤ call.1 ∧ ∀ closed, call.2 = .add closed → s.entries.get (pendingKillKey closed.kind closed.id) = none

theorem step_kept {call : Int × Call} (h : Kept s) (hcall : InOrder s call) : Kept (step s call) := by
  obtain ⟨now, call⟩ := call
  obtain ⟨hnow, hfree⟩ := hcall
  have hadvanced : Kept (advance s now) :=
    ⟨advance_settled h.settled now, advance_counted h.counted now, advance_shown h.shown hnow⟩
  cases call with
  | add closed =>
    obtain ⟨hsettled, hcounted, hshown⟩ := addPendingKill_kept rfl hadvanced.settled hadvanced.counted
      (by rw [advance_get, hfree closed rfl]; rfl)
    exact ⟨hsettled, hcounted, hshown⟩
  | hold key held => exact holdPendingKill_kept rfl hadvanced key held
  | restore key focus accepts => exact restorePendingKill_kept rfl hadvanced key focus accepts
  | finalize key => exact finalizePendingKill_kept rfl hadvanced key
  | finalizeAll which teardown => exact finalizePendingKills_kept rfl hadvanced which teardown
  | timer =>
    simp only [step, act]
    split
    · exact expire_kept rfl hadvanced
    · exact hadvanced

theorem start_kept (now : Int) : Kept (start now) where
  settled :=
    { once := List.nodup_nil
      known := fun _ h => by cases h
      live := fun h => by cases h
      single := fun h => by cases h
      covered := fun n h => absurd h (Nat.not_lt_zero n) }
  counted := fun _ _ h => by cases h
  shown := ⟨by simp [start, newestFirst, OrdMap.empty, OrdMap.values], now, Int.le_refl _, rfl⟩

theorem run_kept {calls : List (Int × Call)} (h : Steps.Along step InOrder (start now) calls) :
    Kept (Steps.run step (start now) calls) :=
  Steps.run_invariant_along (I := Kept) (fun _ _ hc hk => step_kept hk hc) calls _ h (start_kept now)

theorem mem_running {entries : OrdMap JsString Entry} {kill : PendingKill} :
    kill ∈ running entries ↔ (∃ k e, entries.get k = some e ∧ e.kill = kill) ∧ kill.resumedAt.isSome := by
  unfold running
  rw [List.mem_filter, List.mem_map]
  constructor
  · rintro ⟨⟨e, he, rfl⟩, hrun⟩
    obtain ⟨k, hk⟩ := OrdMap.mem_values.1 he
    exact ⟨⟨k, e, hk, rfl⟩, hrun⟩
  · rintro ⟨⟨k, e, hk, rfl⟩, hrun⟩
    exact ⟨⟨e, OrdMap.mem_values.2 ⟨k, hk⟩, rfl⟩, hrun⟩

theorem timeLeft_shift {kill : PendingKill} (h : kill.resumedAt.isSome) (t now : Int) :
    timeLeft kill t = timeLeft kill now + (now - t) := by
  obtain ⟨r, hr⟩ := Option.isSome_iff_exists.1 h
  simp only [timeLeft, hr]
  omega

/-- **The timer is no later than any countdown's end**, or it was armed once that was past, without delay. -/
theorem Shown.due (h : Shown s) {k : JsString} {e : Entry} (he : s.entries.get k = some e) {r : Int}
    (hr : e.kill.resumedAt = some r) :
    ∃ t, s.timer = some t ∧ t.armedAt ≤ s.clock ∧ t.dueAt ≤ max (r + e.kill.remainingMs) t.armedAt := by
  obtain ⟨now, hnow, harmed⟩ := h.armed
  have hmem : timeLeft e.kill now ∈ (running s.entries).map (timeLeft · now) :=
    List.mem_map_of_mem (f := (timeLeft · now)) (mem_running.2 ⟨⟨k, e, he, rfl⟩, by rw [hr]; rfl⟩)
  obtain ⟨soonest, hmin⟩ : ∃ m, ((running s.entries).map (timeLeft · now)).min? = some m := by
    cases hnone : ((running s.entries).map (timeLeft · now)).min? with
    | some m => exact ⟨m, rfl⟩
    | none => rw [List.min?_eq_none_iff.1 hnone] at hmem; cases hmem
  have hle := (List.min?_eq_some_iff.1 hmin).2 _ hmem
  refine ⟨⟨now, now + max 0 soonest⟩, by rw [harmed, soonestTimer, hmin]; rfl, hnow, ?_⟩
  simp only [timeLeft, hr] at hle
  show now + max 0 soonest ≤ max (r + e.kill.remainingMs) now
  omega

theorem overdue_nil_iff (entries : OrdMap JsString Entry) (now : Int) :
    overdue entries now = [] ↔ ∀ kill ∈ running entries, 0 < timeLeft kill now := by
  unfold overdue
  rw [List.filter_eq_nil_iff]
  constructor
  · intro h kill hkill
    obtain ⟨⟨k, e, he, rfl⟩, hrun⟩ := mem_running.1 hkill
    have := h (k, e) (OrdMap.mem_entries.2 he)
    simp only [hrun, Bool.true_and, decide_eq_true_eq] at this
    omega
  · rintro h ⟨k, e⟩ he hdue
    simp only [Bool.and_eq_true, decide_eq_true_eq] at hdue
    have := h e.kill (mem_running.2 ⟨⟨k, e, OrdMap.mem_entries.1 he, rfl⟩, hdue.1⟩)
    omega

theorem soonestTimer_dueAt {entries : OrdMap JsString Entry} {t now : Int} (ht : t ≤ now)
    (hearly : overdue entries now = []) :
    (soonestTimer entries now).map (·.dueAt) = (soonestTimer entries t).map (·.dueAt) := by
  have hpos := (overdue_nil_iff entries now).1 hearly
  unfold soonestTimer
  cases hmin : ((running entries).map (timeLeft · now)).min? with
  | none =>
    have hnil : running entries = [] := List.map_eq_nil_iff.1 (List.min?_eq_none_iff.1 hmin)
    simp [hnil]
  | some m =>
    obtain ⟨hmem, hle⟩ := List.min?_eq_some_iff.1 hmin
    obtain ⟨kill, hkill, rfl⟩ := List.mem_map.1 hmem
    have hshift : ((running entries).map (timeLeft · t)).min? = some (timeLeft kill now + (now - t)) := by
      refine List.min?_eq_some_iff.2 ⟨?_, fun b hb => ?_⟩
      · rw [← timeLeft_shift (mem_running.1 hkill).2]
        exact List.mem_map_of_mem (f := (timeLeft · t)) hkill
      · obtain ⟨other, hother, rfl⟩ := List.mem_map.1 hb
        have := hle _ (List.mem_map_of_mem (f := (timeLeft · now)) hother)
        rw [timeLeft_shift (mem_running.1 hother).2 t now]
        omega
    have := hpos kill hkill
    simp only [hshift, Option.map_some, Option.some.injEq]
    omega

theorem advance_soonestTimer (s : Store) (now t : Int) :
    soonestTimer (advance s now).entries t = soonestTimer s.entries t := by
  unfold soonestTimer running
  rw [advance_values]

def kills (s : Store) : List (JsString × PendingKill × Nat) := s.entries.entries.map (fun e => (e.1, e.2.kill, e.2.actions))

theorem restore_refused (s : Store) (now : Int) (key : JsString) (focus : Bool) :
    let s' := step s (now, .restore key focus false)
    kills s' = kills s ∧ s'.snapshot = s.snapshot ∧ s'.timer = s.timer ∧ settled s' = settled s := by
  simp only [step, act, restorePendingKill]
  cases (advance s now).entries.get key with
  | none => exact ⟨advance_kills s now, rfl, rfl, rfl⟩
  | some entry =>
    refine ⟨advance_kills s now, rfl, rfl, ?_⟩
    simp only [Bool.false_eq_true, if_false]
    exact (settled_append (advance s now) [.refused entry.actions focus]).trans (List.append_nil (settled s))

/-- **What the timer does**: the countdowns that are over are finalized, and where there are none nothing changes. -/
theorem timer_finalizes (h : Kept s) (hnow : s.clock ≤ now) :
    let due := overdue (advance s now).entries now
    let s' := step s (now, .timer)
    s'.log = s.log ++ due.map (fun e => .finalized e.2.actions false) ∧
    (∀ e ∈ due, pendingKillMs ≤ e.2.unheld) ∧
    (due = [] → kills s' = kills s ∧ s'.snapshot = s.snapshot ∧ s'.timer.map (·.dueAt) = s.timer.map (·.dueAt)) := by
  have hcounted : Counted (advance s now) := advance_counted h.counted now
  obtain ⟨hdue, hkeys⟩ := overdue_spec (advance s now).entries now
  obtain ⟨t, ht, harmed⟩ := h.shown.armed
  refine ⟨?_, fun e he => ?_, fun hearly => ?_⟩
  · simp only [step, act]
    split
    · unfold expire
      simp only
      split
      · next hnil => rw [hnil]; simp [arm, advance]
      · exact (foldl_finalize now _ { advance s now with timer := none } hdue hkeys rfl).2.2.2.1
    · next hnone =>
      have hrunning : running (advance s now).entries = [] := by
        have hnone' : soonestTimer (advance s now).entries t = none := by
          rw [advance_soonestTimer, ← harmed]
          simpa [advance] using hnone
        unfold soonestTimer at hnone'
        rw [Option.map_eq_none_iff, List.min?_eq_none_iff, List.map_eq_nil_iff] at hnone'
        exact hnone'
      rw [(overdue_nil_iff _ now).2 (by rw [hrunning]; simp)]
      simp [advance]
  · have hc := hcounted e.1 e.2 (hdue e he)
    have hover := (List.mem_filter.1 he).2
    simp only [Bool.and_eq_true, decide_eq_true_eq] at hover
    have : timeLeft e.2.kill now ≤ 0 := hover.2
    have hc' : pendingKillMs ≤ e.2.unheld + timeLeft e.2.kill now := hc
    omega
  · simp only [step, act]
    split
    · unfold expire
      simp only [if_pos hearly]
      refine ⟨advance_kills s now, rfl, ?_⟩
      show (soonestTimer (advance s now).entries now).map (·.dueAt) = _
      rw [soonestTimer_dueAt (ht.trans hnow) hearly, advance_soonestTimer, harmed]
    · exact ⟨advance_kills s now, rfl, rfl⟩

theorem newestFirst_perm (entries : OrdMap JsString Entry) : (newestFirst entries).Perm (entries.values.map (·.kill)) :=
  List.mergeSort_perm ..

theorem newestFirst_sorted (entries : OrdMap JsString Entry) :
    (newestFirst entries).Pairwise (fun a b => b.startedAt ≤ a.startedAt) := by
  have hsorted : (newestFirst entries).Pairwise (fun a b => decide (b.startedAt ≤ a.startedAt) = true) := by
    refine List.pairwise_mergeSort (fun a b c hab hbc => ?_) (fun a b => ?_) (entries.values.map (·.kill))
    · simp only [decide_eq_true_eq] at hab hbc ⊢
      omega
    · simp only [Bool.or_eq_true, decide_eq_true_eq]
      omega
  exact hsorted.imp (fun hab => by simpa using hab)

/-- **Pending kills settle exactly one way**: each is finalized or restored once at most and is live until then; the timer
finalizes what ran down for the whole countdown; a refused restore and an early timer change nothing; the timer is armed for
no later than the earliest end, or at once where that is past; and the snapshot lists the live kills, newest first. -/
theorem kills_settle_once {start₀ : Int} {calls : List (Int × Call)}
    (h : Steps.Along step InOrder (start start₀) calls) :
    let s := Steps.run step (start start₀) calls
    ((settled s).Nodup ∧ ∀ n < s.added, (n ∈ settled s ↔ ¬ ∃ k e, s.entries.get k = some e ∧ e.actions = n)) ∧
    (∀ now, s.clock ≤ now →
      (step s (now, .timer)).log = s.log ++
        (overdue (advance s now).entries now).map (fun e => .finalized e.2.actions false) ∧
      ∀ e ∈ overdue (advance s now).entries now, pendingKillMs ≤ e.2.unheld) ∧
    (∀ now key focus, let s' := step s (now, .restore key focus false)
      kills s' = kills s ∧ s'.snapshot = s.snapshot ∧ s'.timer = s.timer ∧ settled s' = settled s) ∧
    (∀ now, s.clock ≤ now → overdue (advance s now).entries now = [] → let s' := step s (now, .timer)
      kills s' = kills s ∧ s'.snapshot = s.snapshot ∧ s'.log = s.log ∧ s'.timer.map (·.dueAt) = s.timer.map (·.dueAt)) ∧
    (∀ k e r, s.entries.get k = some e → e.kill.resumedAt = some r →
      ∃ t, s.timer = some t ∧ t.armedAt ≤ s.clock ∧ t.dueAt ≤ max (r + e.kill.remainingMs) t.armedAt) ∧
    s.snapshot.Perm (s.entries.values.map (·.kill)) ∧ s.snapshot.Pairwise (fun a b => b.startedAt ≤ a.startedAt) := by
  intro s
  have hs : Kept s := run_kept h
  refine ⟨⟨hs.settled.once, fun n hn => ⟨?_, fun hlive => (hs.settled.covered n hn).resolve_right hlive⟩⟩,
    fun now hnow => ?_, restore_refused s, fun now hnow hearly => ?_, fun k e r he hr => hs.shown.due he hr, ?_, ?_⟩
  · rintro hmem ⟨k, e, he, rfl⟩
    exact (hs.settled.live he).2 hmem
  · obtain ⟨hlog, hunheld, -⟩ := timer_finalizes hs hnow
    exact ⟨hlog, hunheld⟩
  · obtain ⟨hlog, -, hsame⟩ := timer_finalizes hs hnow
    obtain ⟨hkills, hsnapshot, hdue⟩ := hsame hearly
    rw [hearly, List.map_nil, List.append_nil] at hlog
    exact ⟨hkills, hsnapshot, hlog, hdue⟩
  · rw [hs.shown.snapshot]
    exact newestFirst_perm s.entries
  · rw [hs.shown.snapshot]
    exact newestFirst_sorted s.entries

def closedSurface (id : String) : Closed := ⟨.surface, units id, units "workspace:1", none, units id, units "Terminal"⟩

def twoKills : List (Int × Call) :=
  [(0, .add (closedSurface "a")), (4000, .hold (pendingKillKey .surface (units "a")) true), (5000, .add (closedSurface "b")),
    (15000, .timer), (64000, .hold (pendingKillKey .surface (units "a")) false), (70000, .timer)]

theorem kills_settle_once_two :
    Steps.Along step InOrder (start 0) twoKills ∧
    (Steps.run step (start 0) twoKills).log = [.finalized 1 false, .finalized 0 false] ∧
    (settled (Steps.run step (start 0) twoKills)).Nodup := by
  have horder : Steps.Along step InOrder (start 0) twoKills := by
    refine ⟨⟨by decide, fun c hc => ?_⟩, ⟨by decide, fun c hc => by cases hc⟩, ⟨by decide +kernel, fun c hc => ?_⟩,
      ⟨by decide +kernel, fun c hc => by cases hc⟩, ⟨by decide +kernel, fun c hc => by cases hc⟩,
      ⟨by decide +kernel, fun c hc => by cases hc⟩, trivial⟩
    · rfl
    · cases hc
      decide +kernel
  exact ⟨horder, by decide +kernel, (kills_settle_once horder).1.1⟩

theorem timer_after_due :
    ¬ ∀ (start₀ : Int) (calls : List (Int × Call)), Steps.Along step InOrder (start start₀) calls →
      ∀ k e r, (Steps.run step (start start₀) calls).entries.get k = some e → e.kill.resumedAt = some r →
        ∃ t, (Steps.run step (start start₀) calls).timer = some t ∧ t.dueAt ≤ r + e.kill.remainingMs := by
  intro h
  have horder : Steps.Along step InOrder (start 0) [(0, .add (closedSurface "a")), (12000, .add (closedSurface "b"))] := by
    refine ⟨⟨by decide, fun c hc => rfl⟩, ⟨by decide +kernel, fun c hc => ?_⟩, trivial⟩
    cases hc
    decide +kernel
  obtain ⟨t, ht, hle⟩ := h 0 _ horder (pendingKillKey .surface (units "a"))
    ⟨⟨closedSurface "a", 0, pendingKillMs, some 0⟩, 0, 12000⟩ 0 (by decide +kernel) rfl
  have ht' : (Steps.run step (start 0) [(0, .add (closedSurface "a")), (12000, .add (closedSurface "b"))]).timer =
      some ⟨12000, 12000⟩ := by decide +kernel
  rw [ht', Option.some.injEq] at ht
  rw [← ht] at hle
  exact absurd hle (by decide)

end PendingKills
end Dormouse

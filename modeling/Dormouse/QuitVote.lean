import Dormouse.QuitWalk
/-!
# QuitVote — what holds a vote open

A vote should end once every window that was asked has voted or has left.  It does, unless an `ack` or a `progress` of a
window the machine no longer tracks comes in meanwhile: both create the entry they do not find, and an entry that never
votes holds the quit in `Voting`.
-/
namespace Dormouse
namespace Quit

/-! ## The table -/

theorem allVoted_iff (windows : Windows) :
    allVoted windows = true ↔ ∀ l e, windows.lookup l = some e → e.voted = true := by
  unfold allVoted
  rw [List.all_eq_true]
  constructor
  · intro h l e he
    exact h ⟨l, e⟩ (AList.mem_lookup_iff.mp he)
  · rintro h ⟨l, e⟩ he
    exact h l e (AList.mem_lookup_iff.mpr he)

theorem exists_unvoted {windows : Windows} (h : allVoted windows = false) :
    ∃ l e, windows.lookup l = some e ∧ e.voted = false := by
  by_contra hnone
  push Not at hnone
  have : allVoted windows = true := (allVoted_iff windows).mpr (fun l e he => by simpa using hnone l e he)
  rw [h] at this
  cases this

theorem touch_lookup (windows : Windows) (label : Label) (f : WindowQuit → WindowQuit) (l : Label) :
    (touch windows label f).lookup l =
      if l = label then some (f ((windows.lookup label).getD {})) else windows.lookup l := by
  unfold touch
  split
  · rename_i h
    subst h
    rw [AList.lookup_insert]
  · rename_i h
    rw [AList.lookup_insert_ne h]

theorem erase_lookup (windows : Windows) (label l : Label) :
    (windows.erase label).lookup l = if l = label then none else windows.lookup l := by
  split
  · rename_i h
    subst h
    rw [AList.lookup_erase]
  · rename_i h
    rw [AList.lookup_erase_ne h]

def reask (idle : Bool) (windows : Windows) (l : Label) : WindowQuit :=
  { (windows.lookup l).getD {} with acked := false, voted := if idle then false else ((windows.lookup l).getD {}).voted }

theorem requested_fold (idle : Bool) (l : Label) : ∀ (labels : List Label) (windows next : Windows), labels.Nodup →
    (labels.foldl (fun (tables : Windows × Windows) label =>
      let entry := (tables.1.lookup label).getD {}
      (tables.1.erase label,
        tables.2.insert label { entry with acked := false, voted := if idle then false else entry.voted }))
      (windows, next)).2.lookup l = if l ∈ labels then some (reask idle windows l) else next.lookup l
  | [], _, _, _ => rfl
  | label :: labels, windows, next, hn => by
    obtain ⟨hl, hn⟩ := List.nodup_cons.mp hn
    rw [List.foldl_cons, requested_fold idle l labels _ _ hn]
    by_cases hm : l ∈ labels
    · have hne : l ≠ label := fun he => hl (he ▸ hm)
      rw [if_pos hm, if_pos (List.mem_cons_of_mem _ hm), reask, reask, AList.lookup_erase_ne hne]
    · rw [if_neg hm]
      by_cases he : l = label
      · subst he
        rw [if_pos List.mem_cons_self, AList.lookup_insert]
        rfl
      · have hnot : l ∉ label :: labels := by simp [he, hm]
        rw [if_neg hnot]
        exact AList.lookup_insert_ne he

theorem requested_lookup (idle : Bool) (windows : Windows) {labels : List Label} (hn : labels.Nodup) (l : Label) :
    (requested idle windows labels).lookup l = if l ∈ labels then some (reask idle windows l) else none :=
  requested_fold idle l labels windows ∅ hn

/-! ## A poll -/

/-- A machine, with the windows its quit has asked, those of them whose vote stands, and those that were forgotten since
they were last asked. -/
structure Polled where
  machine : QuitMachine
  asked   : List Label
  voted   : List Label
  gone    : List Label

/-- A trigger from `Idle` starts a poll, and a cancel withdraws its votes.  A repeat trigger asks the windows it lists as
well: a vote stands for a window that is still listed, and a window that is listed is not gone. -/
def Polled.step (p : Polled) (op : QuitOp) : Polled :=
  let machine := (p.machine.op op).1
  match op with
  | .request labels _     =>
    if p.machine.phase = .idle then ⟨machine, labels, [], []⟩
    else ⟨machine, p.asked ++ labels, p.voted.filter (· ∈ labels), p.gone.filter (· ∉ labels)⟩
  | .vote label _         => if p.machine.phase = .voting then ⟨machine, p.asked, label :: p.voted, p.gone⟩ else p
  | .forgetWindow label _ => ⟨machine, p.asked, p.voted.filter (· ≠ label), label :: p.gone⟩
  | .cancel               => ⟨machine, p.asked, [], p.gone⟩
  | _                     => { p with machine := machine }

def Polled.fresh : Polled := ⟨{}, [], [], []⟩

def Polled.run (ops : List QuitOp) : Polled := Steps.run Polled.step .fresh ops

def Polled.Answered (p : Polled) : Prop := ∀ l ∈ p.asked, l ∈ p.voted ∨ l ∈ p.gone

instance (p : Polled) : Decidable p.Answered := inferInstanceAs (Decidable (∀ l ∈ p.asked, _))

/-- A trigger lists each window once, and while a vote is on, `ack` and `progress` come from windows that are tracked. -/
def OnlyTracked (p : Polled) : QuitOp → Prop
  | .request labels _ => labels.Nodup
  | .ack label        => p.machine.phase = .voting → label ∈ p.machine.windows
  | .progress label   => p.machine.phase = .voting → label ∈ p.machine.windows
  | _                 => True

/-- An entry that has not voted is a window that was asked and is still owed an answer; and as long as the vote is on,
there is a window that is. -/
structure Polled.Sound (p : Polled) : Prop where
  owed    : ∃ l ∈ p.asked, l ∉ p.voted ∧ l ∉ p.gone
  unvoted : ∀ l e, p.machine.windows.lookup l = some e → e.voted = false → l ∈ p.asked ∧ l ∉ p.voted ∧ l ∉ p.gone
  stands  : ∀ l ∈ p.voted, ∃ e, p.machine.windows.lookup l = some e ∧ e.voted = true

def Polled.Good (p : Polled) : Prop := p.machine.phase = .voting → p.Sound

variable {p : Polled}

theorem Polled.Sound.of_unvoted (h : ∃ l e, p.machine.windows.lookup l = some e ∧ e.voted = false)
    (hu : ∀ l e, p.machine.windows.lookup l = some e → e.voted = false → l ∈ p.asked ∧ l ∉ p.voted ∧ l ∉ p.gone)
    (hs : ∀ l ∈ p.voted, ∃ e, p.machine.windows.lookup l = some e ∧ e.voted = true) : p.Sound := by
  obtain ⟨l, e, hl, he⟩ := h
  exact ⟨⟨l, hu l e hl he⟩, hu, hs⟩

variable {label : Label}

theorem Polled.Sound.touched {f : WindowQuit → WindowQuit} (h : p.Sound) (hl : label ∈ p.machine.windows)
    (hf : ∀ e, (f e).voted = e.voted) :
    Polled.Sound { p with machine := { p.machine with windows := touch p.machine.windows label f } } := by
  obtain ⟨e₀, he₀⟩ := Option.isSome_iff_exists.mp (AList.lookup_isSome.mpr hl)
  refine ⟨h.owed, fun l e he hv => ?_, fun l hm => ?_⟩
  · rw [touch_lookup] at he
    split at he
    · rename_i hll
      subst hll
      rw [he₀] at he
      cases he
      rw [Option.getD_some, hf] at hv
      exact h.unvoted l e₀ he₀ hv
    · exact h.unvoted l e he hv
  · obtain ⟨e, he, hv⟩ := h.stands l hm
    simp only [touch_lookup]
    split
    · rename_i hll
      subst hll
      rw [he]
      exact ⟨_, rfl, by rw [Option.getD_some, hf, hv]⟩
    · exact ⟨e, he, hv⟩

theorem Polled.good_ack (h : p.Good) (hc : OnlyTracked p (.ack label)) :
    (p.step (.ack label)).Good := fun hv => (h hv).touched (hc hv) (fun _ => rfl)

theorem Polled.good_progress (h : p.Good) (hc : OnlyTracked p (.progress label)) :
    (p.step (.progress label)).Good := fun hv => (h hv).touched (hc hv) (fun _ => rfl)

theorem startWalk_phase (m : QuitMachine) (it : Iteration) : (m.startWalk it).1.phase ≠ .voting := by
  unfold QuitMachine.startWalk
  simp only
  split <;> simp [QuitMachine.exit]

theorem Polled.good_vote {it : Iteration} (h : p.Good) : (p.step (.vote label it)).Good := by
  unfold step
  simp only
  split
  · rename_i hv
    have hs := h hv
    intro hopen
    have hopen : (p.machine.vote label it).1.phase = .voting := hopen
    show Polled.Sound ⟨(p.machine.vote label it).1, p.asked, label :: p.voted, p.gone⟩
    unfold QuitMachine.vote at hopen ⊢
    rw [if_neg (not_not.mpr hv)] at hopen ⊢
    simp only at hopen ⊢
    split at hopen
    · rename_i hall
      rw [if_pos hall]
      refine .of_unvoted (exists_unvoted hall) (fun l e he hev => ?_) (fun l hl => ?_)
      · simp only [touch_lookup] at he
        split at he
        · cases he
          cases hev
        · rename_i hne
          obtain ⟨h1, h2, h3⟩ := hs.unvoted l e he hev
          exact ⟨h1, by simp [hne, h2], h3⟩
      · simp only [touch_lookup]
        split
        · exact ⟨_, rfl, rfl⟩
        · rename_i hne
          exact hs.stands l ((List.mem_cons.mp hl).resolve_left hne)
    · exact absurd hopen (startWalk_phase _ it)
  · exact h

theorem voting_of_forget {m : QuitMachine} {it : Iteration} (h : (m.forgetWindow label it).1.phase = .voting) :
    m.phase = .voting := by
  have hmoves := forgetWindow_moves m label it
  generalize m.forgetWindow label it = r at hmoves h
  cases hmoves with
  | stays hp ha => exact hp.symm.trans h
  | exits hp ha => cases hp.symm.trans h
  | begins hv _ _ _ _ => exact hv
  | loses _ _ _ hp _ => cases hp.symm.trans h
  | replaces _ _ _ hp _ => cases hp.symm.trans h

theorem Polled.good_forget {it : Iteration} (h : p.Good) :
    (p.step (.forgetWindow label it)).Good := by
  intro hopen
  have hopen : (p.machine.forgetWindow label it).1.phase = .voting := hopen
  show Polled.Sound ⟨(p.machine.forgetWindow label it).1, p.asked, p.voted.filter (· ≠ label), label :: p.gone⟩
  have hp : p.machine.phase = .voting := voting_of_forget hopen
  have hs := h hp
  unfold QuitMachine.forgetWindow at hopen ⊢
  simp only [hp] at hopen ⊢
  split at hopen
  · cases hopen
  · rename_i hne
    rw [if_neg hne]
    split at hopen
    · exact absurd hopen (startWalk_phase _ it)
    · rename_i hall
      rw [if_neg hall]
      refine .of_unvoted (exists_unvoted (by simpa using hall)) (fun l e he hev => ?_) (fun l hl => ?_)
      · simp only [erase_lookup] at he
        split at he
        · cases he
        · rename_i hl
          obtain ⟨h1, h2, h3⟩ := hs.unvoted l e he hev
          exact ⟨h1, fun hm => h2 (List.mem_filter.mp hm).1, by simp [hl, h3]⟩
      · obtain ⟨hl, hne⟩ := List.mem_filter.mp hl
        simp only [erase_lookup]
        rw [if_neg (by simpa using hne)]
        exact hs.stands l hl

/-- A trigger: from `Idle` nobody has voted; a repeat keeps the votes of the windows it lists. -/
theorem Polled.good_request {labels : List Label} {intent : QuitIntent} (h : p.Good) (hn : labels.Nodup) :
    (p.step (.request labels intent)).Good := by
  intro hopen
  have hphase : (p.machine.request labels intent).1.phase = .voting := by
    rw [← hopen]
    unfold step
    simp only
    split <;> rfl
  have hwindows : (p.machine.request labels intent).1.windows =
      requested (decide (p.machine.phase = .idle)) p.machine.windows labels := by
    unfold QuitMachine.request
    simp only
    split
    · rfl
    · split <;> rfl
  have hentry : ∀ l e, (p.machine.request labels intent).1.windows.lookup l = some e →
      l ∈ labels ∧ e = reask (decide (p.machine.phase = .idle)) p.machine.windows l := by
    intro l e he
    rw [hwindows, requested_lookup _ _ hn] at he
    split at he
    · rename_i hm
      exact ⟨hm, (Option.some.inj he).symm⟩
    · cases he
  have hsome : ∃ l ∈ labels, True := by
    unfold QuitMachine.request at hphase
    simp only at hphase
    split at hphase
    · cases hphase
    · rename_i hne
      cases labels with
      | nil => exact absurd rfl hne
      | cons l labels => exact ⟨l, List.mem_cons_self, trivial⟩
  unfold step
  simp only
  split
  · rename_i hidle
    obtain ⟨l, hl, -⟩ := hsome
    exact ⟨⟨l, hl, by simp, by simp⟩, fun l e he _ => ⟨(hentry l e he).1, by simp, by simp⟩, by simp⟩
  · rename_i hidle
    have hvoting : p.machine.phase = .voting := by
      unfold QuitMachine.request at hphase
      simp only at hphase
      split at hphase
      · cases hphase
      · rw [apply_ite QuitMachine.phase] at hphase
        cases hp : p.machine.phase with
        | idle => exact absurd hp hidle
        | voting => rfl
        | walking order index => simp [QuitMachine.isWalking, hp] at hphase
    have hs := h hvoting
    obtain ⟨l₀, h1, h2, h3⟩ := hs.owed
    refine ⟨⟨l₀, by simp [h1], by simp [h2], by simp [h3]⟩, fun l e he hev => ?_, fun l hl => ?_⟩
    · obtain ⟨hm, rfl⟩ := hentry l e he
      refine ⟨by simp [hm], fun hv => ?_, by simp [hm]⟩
      obtain ⟨e₁, he₁, hv₁⟩ := hs.stands l (List.mem_filter.mp hv).1
      simp [reask, hidle, he₁, hv₁] at hev
    · obtain ⟨hl, hm⟩ := List.mem_filter.mp hl
      obtain ⟨e₁, he₁, hv₁⟩ := hs.stands l hl
      refine ⟨reask (decide (p.machine.phase = .idle)) p.machine.windows l, ?_, by simp [reask, hidle, he₁, hv₁]⟩
      show (p.machine.request labels intent).1.windows.lookup l = _
      rw [hwindows, requested_lookup _ _ hn, if_pos (by simpa using hm)]

theorem Polled.step_good (p : Polled) (op : QuitOp) (hc : OnlyTracked p op) (h : p.Good) : (p.step op).Good := by
  cases op with
  | request labels intent => exact good_request h hc
  | ack label => exact good_ack h hc
  | progress label => exact good_progress h hc
  | vote label it => exact good_vote h
  | forgetWindow label it => exact good_forget h
  | cancel =>
    intro hopen
    have hopen : p.machine.cancel.1.phase = .voting := hopen
    unfold QuitMachine.cancel at hopen
    split at hopen
    · rename_i hv
      exact absurd hopen hv
    · cases hopen
  | windowDone label =>
    intro hopen
    have hopen : (p.machine.windowDone label).1.phase = .voting := hopen
    have hm : (p.machine.windowDone label).1 = p.machine := by
      unfold QuitMachine.windowDone at hopen ⊢
      split
      · rename_i order index hw
        simp only [hw] at hopen ⊢
        split at hopen
        · cases hw.symm.trans hopen
        · cases hopen
      · rfl
    show Polled.Sound ⟨(p.machine.windowDone label).1, p.asked, p.voted, p.gone⟩
    rw [hm] at hopen ⊢
    exact h hopen
  | proceed => exact fun hopen => ⟨(h hopen).owed, (h hopen).unvoted, (h hopen).stands⟩

/-- **A vote whose windows have all voted or left is over**, in every state of a run in which no `ack` and no `progress`
of an untracked window comes in while it is on. -/
theorem answered_vote_is_over (ops : List QuitOp) (hops : Steps.Along Polled.step OnlyTracked .fresh ops)
    (ha : (Polled.run ops).Answered) : (Polled.run ops).machine.phase ≠ .voting := by
  intro hv
  have hgood : (Polled.run ops).Good :=
    Steps.run_invariant_along (I := Polled.Good) (fun p op hc h => p.step_good op hc h) ops .fresh hops
      (fun hp => by cases hp)
  obtain ⟨l, hl, h1, h2⟩ := (hgood hv).owed
  rcases ha l hl with h | h
  · exact h1 h
  · exact h2 h

/-- A window leaves, its late vote comes in, and the other one votes: the walk begins. -/
theorem answered_vote_is_over_sample :
    (Polled.run [.request ["main", "ws-2"] {}, .ack "ws-2", .forgetWindow "ws-2" .asKept, .vote "ws-2" .asKept,
      .vote "main" .asKept]).Answered ∧
    (Polled.run [.request ["main", "ws-2"] {}, .ack "ws-2", .forgetWindow "ws-2" .asKept, .vote "ws-2" .asKept,
      .vote "main" .asKept]).machine.phase ≠ .voting := by
  have ha : (Polled.run [.request ["main", "ws-2"] {}, .ack "ws-2", .forgetWindow "ws-2" .asKept,
      .vote "ws-2" .asKept, .vote "main" .asKept]).Answered := by decide
  refine ⟨ha, answered_vote_is_over _ ⟨?_, fun _ => ?_, trivial, trivial, trivial, trivial⟩ ha⟩
  · show ["main", "ws-2"].Nodup
    decide
  · decide

/-- A window leaves, its late `ack` comes in, and the other one votes: the quit waits for the window that left. -/
theorem late_ack_holds_vote_open :
    ¬ ((Polled.run [.request ["main", "ws-2"] {}, .forgetWindow "ws-2" .asKept, .ack "ws-2",
        .vote "main" .asKept]).Answered →
      (Polled.run [.request ["main", "ws-2"] {}, .forgetWindow "ws-2" .asKept, .ack "ws-2",
        .vote "main" .asKept]).machine.phase ≠ .voting) := by
  decide

end Quit
end Dormouse

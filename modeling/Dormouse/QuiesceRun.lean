import Dormouse.Mealy
import Dormouse.Quiesce
import Dormouse.Steps
import Mathlib.Data.List.DropRight
/-!
# QuiesceRun — when the detector settles

Runs of a detector: output, `expectWork`, `reset` and timers, each at a time that never goes back, a timer at any time from when it
is due.  What happened is listed as marks.  In each state only that state's own timer runs, and when it is due says how long ago
the output was that it waits for (`Phase`); so a settle has behind it all that a busy run is (`settled_after`).
-/
namespace Dormouse
namespace Alert

/-! ## Runs -/

inductive Mark where
  | counted (t : Int)
  | expected (t : Int)
  | reset (t : Int)
  | busy (t : Int)
  | settled (t : Int)
  deriving DecidableEq

namespace Mark

def counted? : Mark → Option Int
  | .counted t => some t
  | _          => none

def busy? : Mark → Option Int
  | .busy t => some t
  | _       => none

def isEnd : Mark → Bool
  | .reset _   => true
  | .settled _ => true
  | _          => false

end Mark

inductive DetectorInput where
  | output
  | expectWork
  | reset
  | timer (kind : DetectorTimer)

structure Watch where
  detector : QuiesceDetector
  log      : List Mark

def Watch.create : Watch := ⟨.create, []⟩

def Watch.step (w : Watch) (input : Int × DetectorInput) : Watch :=
  let now := input.1
  match input.2 with
  | .output     =>
    let r := w.detector.onData now
    let entered := r.1.detector.status = .busy ∧ w.detector.status ≠ .busy
    ⟨r.1.detector, w.log ++ (if r.2 then [.counted now] else []) ++ (if entered then [.busy now] else [])⟩
  | .expectWork => ⟨w.detector.expectWork now, w.log ++ [.expected now]⟩
  | .reset      => ⟨w.detector.reset, w.log ++ [.reset now]⟩
  | .timer kind =>
    match w.detector.timers.lookup kind with
    | none     => w
    | some due =>
      if due ≤ now then
        let r := w.detector.fire kind now
        ⟨r.1.detector, w.log ++ (if r.2 then [.settled now] else [])⟩
      else w

def stretch (log : List Mark) : List Mark := log.rtakeWhile (fun m => !m.isEnd)

def outputs (log : List Mark) : List Int := (stretch log).filterMap Mark.counted?

def busies (log : List Mark) : List Int := (stretch log).filterMap Mark.busy?

def Asked (log : List Mark) (f : Int) : Prop := ∃ e, .expected e ∈ log ∧ e ≤ f ∧ f ≤ e + workStartWindow

structure Settles (log : List Mark) (t : Int) : Prop where
  silent  : ∀ u, .counted u ∈ log → u + (mightNeedAttentionGap + needsAttentionConfirm) ≤ t
  enough  : 3 ≤ (outputs log).length
  entered : busies log ≠ []
  begun   : ∃ f, (outputs log).head? = some f ∧ Asked log f ∧ ∀ b ∈ busies log, f + busyCandidateGap ≤ b

/-! ## The stretch -/

section

variable (log : List Mark) (t : Int)
variable {m : Mark}

theorem stretch_concat (h : m.isEnd = false) : stretch (log ++ [m]) = stretch log ++ [m] :=
  List.rtakeWhile_concat_pos _ _ _ (by rw [h]; rfl)

theorem stretch_end (h : m.isEnd = true) : stretch (log ++ [m]) = [] :=
  List.rtakeWhile_concat_neg _ _ _ (by rw [h]; simp)

@[simp] theorem outputs_counted : outputs (log ++ [.counted t]) = outputs log ++ [t] := by
  rw [outputs, stretch_concat log rfl, List.filterMap_append]
  rfl

@[simp] theorem busies_counted : busies (log ++ [.counted t]) = busies log := by
  rw [busies, stretch_concat log rfl, List.filterMap_append]
  exact List.append_nil _

@[simp] theorem outputs_busy : outputs (log ++ [.busy t]) = outputs log := by
  rw [outputs, stretch_concat log rfl, List.filterMap_append]
  exact List.append_nil _

@[simp] theorem busies_busy : busies (log ++ [.busy t]) = busies log ++ [t] := by
  rw [busies, stretch_concat log rfl, List.filterMap_append]
  rfl

@[simp] theorem outputs_expected : outputs (log ++ [.expected t]) = outputs log := by
  rw [outputs, stretch_concat log rfl, List.filterMap_append]
  exact List.append_nil _

@[simp] theorem busies_expected : busies (log ++ [.expected t]) = busies log := by
  rw [busies, stretch_concat log rfl, List.filterMap_append]
  exact List.append_nil _

theorem outputs_end (h : m.isEnd = true) : outputs (log ++ [m]) = [] := by rw [outputs, stretch_end log h]; rfl

theorem busies_end (h : m.isEnd = true) : busies (log ++ [m]) = [] := by rw [busies, stretch_end log h]; rfl

variable {log t}

theorem mem_of_outputs (h : t ∈ outputs log) : .counted t ∈ log := by
  obtain ⟨m, hm, ht⟩ := List.mem_filterMap.1 h
  have hin := (List.rtakeWhile_suffix _ _).subset hm
  cases m with
  | counted u =>
    obtain rfl := Option.some.inj ht
    exact hin
  | _ => cases ht

theorem head?_outputs_counted {f : Int} (h : (outputs log).head? = some f) (now : Int) :
    (outputs (log ++ [.counted now])).head? = some f := by
  rw [outputs_counted, List.head?_append, h]
  rfl

end

theorem stretch_suffix {before between : List Mark} {m : Mark} (hm : m.isEnd = true) :
    stretch (before ++ m :: between) <:+ between := by
  have hnot : m ∉ stretch (before ++ m :: between) := by
    intro hin
    have := List.mem_rtakeWhile_imp hin
    rw [hm] at this
    cases this
  rcases List.suffix_or_suffix_of_suffix (List.rtakeWhile_suffix _ _) (List.suffix_append before (m :: between)) with h | h
  · rcases List.suffix_cons_iff.1 h with heq | h
    · exact absurd (by rw [stretch, heq]; exact List.mem_cons_self) hnot
    · exact h
  · exact absurd (h.subset List.mem_cons_self) hnot

/-! ## The detector's operations -/

namespace Stirred

variable (s : Stirred) (now : Int)

theorem setStatus_detector (status : QuiesceStatus) : (s.setStatus status).detector = { s.detector with status := status } := by
  rw [setStatus]
  split
  · rename_i h
    rw [← h]
  · rfl

theorem enterMightBeBusy_detector : (s.enterMightBeBusy now).detector =
    { s.detector with status := .mightBeBusy, timers := (∅ : AList _).insert .busyConfirm (now + busyConfirmGap) } := by
  show QuiesceDetector.schedule (setStatus _ _).detector _ _ _ = _
  rw [setStatus_detector]
  rfl

theorem enterBusy_detector : (s.enterBusy now).detector =
    { s.detector with
      status := .busy, timers := (∅ : AList _).insert .mightNeedAttention (now + mightNeedAttentionGap),
      firstOutputAt := none, lastOutputAt := none, outputCountSinceReset := 0 } := by
  show QuiesceDetector.schedule (setStatus _ _).detector _ _ _ = _
  rw [setStatus_detector]
  rfl

theorem expireHistory_busy (d : QuiesceDetector) : (d.expireHistory now).detector.status = .busy ↔ d.status = .busy := by
  rw [QuiesceDetector.expireHistory]
  split
  · split
    · rename_i hgone
      rw [setStatus_detector]
      refine iff_of_false nofun (fun hbusy => ?_)
      rw [QuiesceDetector.isConfirmedBusy, hbusy] at hgone
      exact absurd hgone.1 (by decide)
    · rfl
  · rfl

theorem handleNothingToShowOutput_busy (h : s.detector.status = .nothingToShow) :
    (s.handleNothingToShowOutput now).detector.status ≠ .busy := by
  rw [handleNothingToShowOutput]
  split
  · rw [startBusyCandidateTimer]
    split
    · exact fun hbusy => nomatch h.symm.trans hbusy
    · exact fun hbusy => nomatch h.symm.trans hbusy
  · dsimp only
    split
    · rw [enterMightBeBusy_detector]
      exact nofun
    · exact fun hbusy => nomatch h.symm.trans hbusy

theorem seedFromLatestOutput_detector {last : Int} (hlast : s.detector.lastOutputAt = some last)
    (hnot : .busyCandidate ∉ s.detector.timers) : (s.seedFromLatestOutput now).detector =
      { s.detector with
        firstOutputAt := some last, outputCountSinceReset := 1,
        timers := s.detector.timers.insert .busyCandidate (now + busyCandidateGap) } := by
  rw [seedFromLatestOutput]
  split
  · rename_i hnone
    cases hlast.symm.trans hnone
  · rename_i x hx
    cases hlast.symm.trans hx
    rw [startBusyCandidateTimer]
    exact (congrArg detector (if_neg hnot)).trans rfl

end Stirred

/-! ## What holds of a run -/

def Only (timers : AList (fun _ : DetectorTimer => Int)) (kind : DetectorTimer) (P : Int → Prop) : Prop :=
  ∀ k due, timers.lookup k = some due → k = kind ∧ P due

namespace Only

variable {timers : AList (fun _ : DetectorTimer => Int)} {kind : DetectorTimer} {P Q : Int → Prop}

theorem empty : Only ∅ kind P := fun k due h => by
  rw [AList.lookup_empty] at h
  cases h

theorem mono (h : Only timers kind P) (hPQ : ∀ due, P due → Q due) : Only timers kind Q :=
  fun k due hk => (h k due hk).imp_right (hPQ due)

theorem insert (h : Only timers kind P) {due : Int} (hdue : Q due) : Only (timers.insert kind due) kind Q := by
  intro k due' hk
  by_cases heq : k = kind
  · subst heq
    rw [AList.lookup_insert] at hk
    obtain rfl := Option.some.inj hk
    exact ⟨rfl, hdue⟩
  · rw [AList.lookup_insert_ne heq] at hk
    exact absurd (h k due' hk).1 heq

theorem single {due : Int} (hdue : Q due) : Only ((∅ : AList _).insert kind due) kind Q :=
  (empty : Only ∅ kind (fun _ => False)).insert hdue

theorem erased (h : Only timers kind P) (kind' : DetectorTimer) : Only (timers.erase kind) kind' Q := by
  intro k due hk
  by_cases heq : k = kind
  · subst heq
    rw [AList.lookup_erase] at hk
    cases hk
  · rw [AList.lookup_erase_ne heq] at hk
    exact absurd (h k due hk).1 heq

end Only

def Since (log : List Mark) (x : Int) : Prop := ∃ f, (outputs log).head? = some f ∧ f ≤ x

theorem Since.mono {log : List Mark} {x y : Int} (h : Since log x) (hxy : x ≤ y) : Since log y :=
  h.imp (fun _ => And.imp_right (fun hf => Int.le_trans hf hxy))

theorem Since.pos {log : List Mark} {x : Int} (h : Since log x) : 1 ≤ (outputs log).length := by
  obtain ⟨f, hf, -⟩ := h
  refine List.length_pos_iff.2 (fun hnil => ?_)
  rw [hnil] at hf
  cases hf

theorem Since.counted {log : List Mark} {x : Int} (h : Since log x) (now : Int) : Since (log ++ [.counted now]) x :=
  h.imp (fun _ => And.imp_left (fun hf => head?_outputs_counted hf now))

theorem Since.busy {log : List Mark} {x : Int} (h : Since log x) (now : Int) : Since (log ++ [.busy now]) x := by
  rw [Since, outputs_busy]
  exact h

structure Confirmed (log : List Mark) : Prop where
  enough  : 3 ≤ (outputs log).length
  entered : busies log ≠ []
  late    : ∀ b ∈ busies log, Since log (b - busyCandidateGap)

theorem Confirmed.counted {log : List Mark} (h : Confirmed log) (now : Int) : Confirmed (log ++ [.counted now]) where
  enough := by
    have := h.enough
    rw [outputs_counted, List.length_append]
    omega
  entered := by rw [busies_counted]; exact h.entered
  late := fun b hb => by
    rw [busies_counted] at hb
    exact (h.late b hb).counted now

theorem confirmed_turning {log : List Mark} {now : Int} (enough : 2 ≤ (outputs log).length)
    (since : Since log (now - busyCandidateGap)) (late : ∀ b ∈ busies log, Since log (b - busyCandidateGap)) :
    Confirmed (log ++ [.counted now] ++ [.busy now]) where
  enough := by
    rw [outputs_busy, outputs_counted, List.length_append]
    exact Nat.succ_le_succ enough
  entered := by
    rw [busies_busy]
    exact List.concat_ne_nil _ _
  late := fun b hb => by
    rw [busies_busy, busies_counted] at hb
    rcases List.mem_append.1 hb with hb | hb
    · exact ((late b hb).counted now).busy now
    · rw [List.mem_singleton.1 hb]
      exact (since.counted now).busy now

/-- What a state says of the stretch so far, and of the one timer that runs. -/
inductive Phase (log : List Mark) (d : QuiesceDetector) (now : Int) : Prop where
  | quiet (status : d.status = .nothingToShow) (none : busies log = []) (count : d.outputCountSinceReset ≤ (outputs log).length)
      (timers : Only d.timers .busyCandidate (fun due => Since log (due - busyCandidateGap)))
  | candidate (status : d.status = .mightBeBusy) (none : busies log = []) (count : 2 ≤ (outputs log).length)
      (since : Since log (now - busyCandidateGap)) (timers : Only d.timers .busyConfirm (fun _ => True))
  | busy (status : d.status = .busy) (confirmed : Confirmed log)
      (timers : Only d.timers .mightNeedAttention (fun due => ∀ u, .counted u ∈ log → u + mightNeedAttentionGap ≤ due))
  | settling (status : d.status = .mightNeedAttention) (confirmed : Confirmed log)
      (timers : Only d.timers .settledConfirm
        (fun due => ∀ u, .counted u ∈ log → u + (mightNeedAttentionGap + needsAttentionConfirm) ≤ due))

structure History (log : List Mark) (d : QuiesceDetector) (now : Int) : Prop where
  past   : ∀ u, .counted u ∈ log → u ≤ now
  asked  : ∀ e, d.lastWorkExpectedAt = some e → .expected e ∈ log ∧ e ≤ now
  gated  : ∀ f, (outputs log).head? = some f → Asked log f
  first  : ∀ x, d.firstOutputAt = some x → Since log x
  last   : ∀ x, d.lastOutputAt = some x → Since log x
  turned : ∀ b ∈ busies log, b ≤ now

/-- What holds of a detector, the marks behind it and the clock. -/
structure Sound (log : List Mark) (d : QuiesceDetector) (now : Int) : Prop extends History log d now where
  phase : Phase log d now

theorem sound_quiet (now : Int) : Sound [] .create now where
  past := nofun
  asked := nofun
  gated := nofun
  first := nofun
  last := nofun
  turned := nofun
  phase := .quiet rfl rfl (le_refl _) .empty

section

variable {log : List Mark} {d d' : QuiesceDetector} {now : Int}

theorem Asked.append {f : Int} (h : Asked log f) (ms : List Mark) : Asked (log ++ ms) f :=
  h.imp (fun _ => And.imp_left (fun he => List.mem_append_left _ he))

namespace History

theorem mono (h : History log d now) {later : Int} (hle : now ≤ later) : History log d later where
  past := fun u hu => Int.le_trans (h.past u hu) hle
  asked := fun e he => (h.asked e he).imp_right (fun hnow => Int.le_trans hnow hle)
  gated := h.gated
  first := h.first
  last := h.last
  turned := fun b hb => Int.le_trans (h.turned b hb) hle

theorem since_now (h : History log d now) : Since (log ++ [.counted now]) now := by
  rcases hhead : (outputs log).head? with _ | f
  · rw [List.head?_eq_none_iff] at hhead
    exact ⟨now, by rw [outputs_counted, hhead]; rfl, Int.le_refl _⟩
  · exact ⟨f, head?_outputs_counted hhead now, h.past f (mem_of_outputs (List.mem_of_head? hhead))⟩

theorem counted (h : History log d now) (d' : QuiesceDetector) (hbegun : outputs log = [] → Asked log now)
    (hwork : d'.lastWorkExpectedAt = d.lastWorkExpectedAt) (hfirst : d'.firstOutputAt = d.firstOutputAt ∨ d'.firstOutputAt = some now ∨
      d'.firstOutputAt = none) (hlast : d'.lastOutputAt = some now ∨ d'.lastOutputAt = none) :
    History (log ++ [.counted now]) d' now where
  past := fun u hu => by
    rcases List.mem_append.1 hu with hu | hu
    · exact h.past u hu
    · cases List.mem_singleton.1 hu
      exact Int.le_refl _
  asked := fun e he => (h.asked e (hwork ▸ he)).imp_left (fun hin => List.mem_append_left _ hin)
  gated := fun f hf => by
    rcases hhead : (outputs log).head? with _ | f'
    · rw [List.head?_eq_none_iff] at hhead
      rw [outputs_counted, hhead] at hf
      cases hf
      exact (hbegun hhead).append _
    · rw [head?_outputs_counted hhead now] at hf
      cases hf
      exact (h.gated _ hhead).append _
  first := fun x hx => by
    rcases hfirst with heq | heq | heq
    · exact (h.first x (heq ▸ hx)).counted now
    · cases heq.symm.trans hx
      exact h.since_now
    · cases heq.symm.trans hx
  last := fun x hx => by
    rcases hlast with heq | heq
    · cases heq.symm.trans hx
      exact h.since_now
    · cases heq.symm.trans hx
  turned := by
    rw [busies_counted]
    exact h.turned

theorem busy (h : History log d now) : History (log ++ [.busy now]) d now where
  past := fun u hu => (List.mem_append.1 hu).elim (h.past u) (fun hu => by cases List.mem_singleton.1 hu)
  asked := fun e he => (h.asked e he).imp_left (fun hin => List.mem_append_left _ hin)
  gated := fun f hf => (h.gated f (by rwa [outputs_busy] at hf)).append _
  first := fun x hx => by
    rw [Since, outputs_busy]
    exact h.first x hx
  last := fun x hx => by
    rw [Since, outputs_busy]
    exact h.last x hx
  turned := fun b hb => by
    rw [busies_busy] at hb
    rcases List.mem_append.1 hb with hb | hb
    · exact h.turned b hb
    · exact Int.le_of_eq (List.mem_singleton.1 hb)

theorem ended (h : History log d now) {m : Mark} (hm : m.isEnd = true) (hcounts : ∀ u, m ≠ .counted u)
    (hwork : d'.lastWorkExpectedAt = d.lastWorkExpectedAt) (hstatus : d'.status = .nothingToShow) (hfirst : d'.firstOutputAt = none)
    (hlast : d'.lastOutputAt = none) (hcount : d'.outputCountSinceReset = 0)
    (htimers : Only d'.timers .busyCandidate (fun _ => False)) : Sound (log ++ [m]) d' now where
  past := fun u hu => (List.mem_append.1 hu).elim (h.past u) (fun hu => absurd (List.mem_singleton.1 hu).symm (hcounts u))
  asked := fun e he => (h.asked e (hwork ▸ he)).imp_left (fun hin => List.mem_append_left _ hin)
  gated := by
    rw [outputs_end log hm]
    exact nofun
  first := by
    rw [hfirst]
    exact nofun
  last := by
    rw [hlast]
    exact nofun
  turned := by
    rw [busies_end log hm]
    exact nofun
  phase := .quiet hstatus (busies_end log hm) (by rw [hcount]; exact Nat.zero_le _) (htimers.mono (fun _ => False.elim))

end History

namespace Sound

theorem mono (h : Sound log d now) {later : Int} (hle : now ≤ later) : Sound log d later := by
  refine ⟨h.toHistory.mono hle, ?_⟩
  cases h.phase with
  | quiet status none count timers => exact .quiet status none count timers
  | candidate status none count since timers => exact .candidate status none count (since.mono (by omega)) timers
  | busy status confirmed timers => exact .busy status confirmed timers
  | settling status confirmed timers => exact .settling status confirmed timers

/-! ### Output -/

theorem expireHistory (h : Sound log d now) : Sound log (d.expireHistory now).detector now := by
  rw [QuiesceDetector.expireHistory]
  split
  · split
    · rename_i hgone
      have hnone : busies log = [] := by
        cases h.phase with
        | quiet _ none _ _ => exact none
        | candidate _ none _ _ _ => exact none
        | busy status _ _ => exact absurd hgone.1 (by simp [QuiesceDetector.isConfirmedBusy, status])
        | settling status _ _ => exact absurd hgone.1 (by simp [QuiesceDetector.isConfirmedBusy, status])
      rw [Stirred.setStatus_detector]
      exact ⟨⟨h.past, h.asked, h.gated, nofun, nofun, h.turned⟩, .quiet rfl hnone (Nat.zero_le _) .empty⟩
    · exact h
  · exact h

theorem begun (h : Sound log d now) (hasked : d.unasked now = false) (hnone : outputs log = []) : Asked log now := by
  have hstatus : d.status = .nothingToShow := by
    cases h.phase with
    | quiet status _ _ _ => exact status
    | candidate _ _ count _ _ => exact absurd count (by rw [hnone]; decide)
    | busy _ confirmed _ => exact absurd confirmed.enough (by rw [hnone]; decide)
    | settling _ confirmed _ => exact absurd confirmed.enough (by rw [hnone]; decide)
  have hfirst : d.firstOutputAt = none := by
    rcases hfirst : d.firstOutputAt with _ | x
    · rfl
    · exact absurd (h.first x hfirst).pos (by rw [hnone]; decide)
  rcases hwork : d.lastWorkExpectedAt with _ | e
  · rw [QuiesceDetector.unasked, hstatus, hfirst, hwork] at hasked
    cases hasked
  · rw [QuiesceDetector.unasked, hstatus, hfirst, hwork] at hasked
    obtain ⟨hin, hle⟩ := h.asked e hwork
    have hwindow : ¬ now - e > workStartWindow := by simpa using hasked
    exact ⟨e, hin, hle, by omega⟩

variable {s : Stirred}

theorem counted_first (h : Sound log d now) (hasked : d.unasked now = false) (hstatus : d.status = .nothingToShow)
    (hfirst : d.firstOutputAt = none) (hs : s.detector = { d with lastOutputAt := some now }) :
    Sound (log ++ [.counted now]) (s.handleNothingToShowOutput now).detector now := by
  have hd : (s.handleNothingToShowOutput now).detector =
      { d with
        lastOutputAt := some now, firstOutputAt := some now, outputCountSinceReset := 1,
        timers := if .busyCandidate ∈ d.timers then d.timers else d.timers.insert .busyCandidate (now + busyCandidateGap) } := by
    rw [Stirred.handleNothingToShowOutput]
    simp only [hs, hfirst, Stirred.startBusyCandidateTimer, Stirred.map]
    split
    · rfl
    · rfl
  rw [hd]
  refine ⟨h.toHistory.counted _ (h.begun hasked) rfl (.inr (.inl rfl)) (.inl rfl), ?_⟩
  cases h.phase with
  | quiet _ none count timers =>
    have htimers : Only d.timers .busyCandidate (fun due => Since (log ++ [.counted now]) (due - busyCandidateGap)) :=
      timers.mono (fun _ hdue => hdue.counted now)
    refine .quiet hstatus (by rw [busies_counted, none]) (by simp) ?_
    dsimp only
    split
    · exact htimers
    · exact htimers.insert (h.toHistory.since_now.mono (by omega))
  | candidate status _ _ _ _ => exact absurd (hstatus.symm.trans status) nofun
  | busy status _ _ => exact absurd (hstatus.symm.trans status) nofun
  | settling status _ _ => exact absurd (hstatus.symm.trans status) nofun

theorem counted_further (h : Sound log d now) (hasked : d.unasked now = false) (hstatus : d.status = .nothingToShow)
    {x : Int} (hfirst : d.firstOutputAt = some x) (hs : s.detector = { d with lastOutputAt := some now }) :
    Sound (log ++ [.counted now]) (s.handleNothingToShowOutput now).detector now := by
  have hsince := h.first x hfirst
  have hpos := hsince.pos
  cases h.phase with
  | quiet _ none count timers =>
    rw [Stirred.handleNothingToShowOutput]
    simp only [hs, hfirst, Stirred.map]
    split
    · rename_i hgap
      rw [Stirred.enterMightBeBusy_detector]
      refine ⟨h.toHistory.counted _ (h.begun hasked) rfl (.inl hfirst.symm) (.inl rfl), .candidate rfl (by rw [busies_counted, none]) ?_
        ((hsince.counted now).mono (by omega)) (Only.single trivial)⟩
      rw [outputs_counted, List.length_append]
      exact Nat.succ_le_succ hpos
    · refine ⟨h.toHistory.counted _ (h.begun hasked) rfl (.inl hfirst.symm) (.inl rfl), .quiet hstatus (by rw [busies_counted, none]) ?_
        (timers.mono (fun _ hdue => hdue.counted now))⟩
      rw [outputs_counted, List.length_append]
      exact Nat.succ_le_succ count
  | candidate status _ _ _ _ => exact absurd (hstatus.symm.trans status) nofun
  | busy status _ _ => exact absurd (hstatus.symm.trans status) nofun
  | settling status _ _ => exact absurd (hstatus.symm.trans status) nofun

theorem counted_turning (h : Sound log d now) (hasked : d.unasked now = false)
    (hstatus : d.status = .mightBeBusy ∨ d.status = .mightNeedAttention)
    (hs : s.detector = { d with lastOutputAt := some now }) :
    Sound (log ++ [.counted now] ++ [.busy now]) (s.enterBusy now).detector now := by
  rw [Stirred.enterBusy_detector, hs]
  have hlog := h.toHistory.counted { d with
    status := .busy, timers := (∅ : AList _).insert .mightNeedAttention (now + mightNeedAttentionGap),
    firstOutputAt := none, lastOutputAt := none, outputCountSinceReset := 0 } (h.begun hasked) rfl (.inr (.inr rfl)) (.inr rfl)
  refine ⟨hlog.busy, .busy rfl ?_ (Only.single (fun u hu => by have := hlog.busy.past u hu; omega))⟩
  cases h.phase with
  | candidate _ none count since _ => exact confirmed_turning count since (by rw [none]; exact nofun)
  | settling _ confirmed _ =>
    obtain ⟨b, hb⟩ := List.exists_mem_of_ne_nil _ confirmed.entered
    have := h.turned b hb
    exact confirmed_turning (by have := confirmed.enough; omega) ((confirmed.late b hb).mono (by omega)) confirmed.late
  | quiet status _ _ _ => exact absurd hstatus (by rw [status]; decide)
  | busy status _ _ => exact absurd hstatus (by rw [status]; decide)

theorem counted_busy (h : Sound log d now) (hasked : d.unasked now = false) (hstatus : d.status = .busy)
    (hs : s.detector = { d with lastOutputAt := some now }) :
    Sound (log ++ [.counted now]) (s.startMightNeedAttentionTimer now).detector now := by
  show Sound _ (s.detector.schedule _ _ _) now
  rw [hs]
  have hlog := h.toHistory.counted (QuiesceDetector.schedule { d with lastOutputAt := some now } .mightNeedAttention now
    mightNeedAttentionGap) (h.begun hasked) rfl (.inl rfl) (.inl rfl)
  refine ⟨hlog, ?_⟩
  cases h.phase with
  | busy _ confirmed timers =>
    exact .busy hstatus (confirmed.counted now) (timers.insert (fun u hu => by have := hlog.past u hu; omega))
  | quiet status _ _ _ => exact absurd (hstatus.symm.trans status) nofun
  | candidate status _ _ _ _ => exact absurd (hstatus.symm.trans status) nofun
  | settling status _ _ => exact absurd (hstatus.symm.trans status) nofun

/-! ### Timers -/

theorem fire (h : Sound log d now) {kind : DetectorTimer} {due : Int} (hlookup : d.timers.lookup kind = some due)
    (hdue : due ≤ now) : ((d.fire kind now).2 = false ∧ Sound log (d.fire kind now).1.detector now) ∨
      ((d.fire kind now).2 = true ∧ Settles log now ∧ Sound (log ++ [.settled now]) (d.fire kind now).1.detector now) := by
  cases h.phase with
  | quiet status none count timers =>
    obtain ⟨rfl, hsince⟩ := timers kind due hlookup
    refine .inl ⟨rfl, ?_⟩
    rw [QuiesceDetector.fire]
    split
    · rename_i hcount
      rw [Stirred.enterMightBeBusy_detector]
      exact ⟨⟨h.past, h.asked, h.gated, h.first, h.last, h.turned⟩,
        .candidate rfl none (hcount.2.trans count) (hsince.mono (by omega)) (Only.single trivial)⟩
    · exact ⟨⟨h.past, h.asked, h.gated, h.first, h.last, h.turned⟩, .quiet status none count (timers.erased _)⟩
  | candidate status none count since timers =>
    obtain ⟨rfl, -⟩ := timers kind due hlookup
    refine .inl ⟨rfl, ?_⟩
    rw [QuiesceDetector.fire, if_pos status, Stirred.setStatus_detector]
    have hnone : ∀ P, Only (d.timers.erase .busyConfirm) .busyCandidate P := fun _ => timers.erased _
    rcases hlast : d.lastOutputAt with _ | last
    · simp only [Stirred.seedFromLatestOutput, Stirred.ofDetector]
      exact ⟨⟨h.past, h.asked, h.gated, nofun, nofun, h.turned⟩, .quiet rfl none (Nat.zero_le _) (hnone _)⟩
    · have hnot : .busyCandidate ∉ d.timers.erase .busyConfirm := by
        intro hin
        obtain ⟨due', hdue'⟩ := Option.isSome_iff_exists.1 (AList.lookup_isSome.2 hin)
        exact (hnone (fun _ => False) _ due' hdue').2
      have hseed : ∀ x, some last = some x → Since log x := fun x hx => h.last x (hlast.trans hx)
      rw [Stirred.seedFromLatestOutput_detector _ _ rfl hnot]
      refine ⟨⟨h.past, h.asked, h.gated, hseed, hseed, h.turned⟩, .quiet rfl none (Nat.le_of_succ_le count) ?_⟩
      exact (hnone (fun _ => True)).insert (since.mono (by simp only [busyCandidateGap]; omega))
  | busy status confirmed timers =>
    obtain ⟨rfl, hpast⟩ := timers kind due hlookup
    refine .inl ?_
    rw [QuiesceDetector.fire, if_pos status]
    refine ⟨rfl, ?_⟩
    have hnone : Only (d.timers.erase .mightNeedAttention) .settledConfirm (fun _ => True) := timers.erased _
    have hd : (Stirred.map (QuiesceDetector.schedule · .settledConfirm now (max 0 (due + needsAttentionConfirm - now)))
        ((Stirred.ofDetector { d with timers := d.timers.erase .mightNeedAttention }).setStatus .mightNeedAttention)).detector =
          { d with
            status := .mightNeedAttention
            timers := (d.timers.erase .mightNeedAttention).insert .settledConfirm
              (now + max 0 (due + needsAttentionConfirm - now)) } := by
      show QuiesceDetector.schedule (Stirred.setStatus _ _).detector _ _ _ = _
      rw [Stirred.setStatus_detector]
      rfl
    rw [hlookup]
    dsimp only [Option.getD_some]
    rw [hd]
    refine ⟨⟨h.past, h.asked, h.gated, h.first, h.last, h.turned⟩, .settling rfl confirmed (hnone.insert (fun u hu => ?_))⟩
    have := hpast u hu
    omega
  | settling status confirmed timers =>
    obtain ⟨rfl, hpast⟩ := timers kind due hlookup
    refine .inr ?_
    rw [QuiesceDetector.fire, if_pos status]
    obtain ⟨b, hb⟩ := List.exists_mem_of_ne_nil _ confirmed.entered
    obtain ⟨f, hf, -⟩ := confirmed.late b hb
    refine ⟨rfl, ⟨fun u hu => Int.le_trans (hpast u hu) hdue, confirmed.enough, confirmed.entered, f, hf, h.gated f hf,
      fun b hb => ?_⟩, ?_⟩
    · obtain ⟨f', hf', hle⟩ := confirmed.late b hb
      cases hf.symm.trans hf'
      omega
    · exact h.toHistory.ended rfl nofun rfl rfl rfl rfl rfl (timers.erased _)

/-! ### The owner -/

theorem reset (h : Sound log d now) : Sound (log ++ [.reset now]) d.reset now :=
  h.toHistory.ended rfl nofun rfl rfl rfl rfl rfl .empty

theorem expectWork (h : Sound log d now) : Sound (log ++ [.expected now]) (d.expectWork now) now := by
  have hsince : ∀ {x}, Since log x → Since (log ++ [.expected now]) x := by
    intro x hx
    rw [Since, outputs_expected]
    exact hx
  have hpast : ∀ u, .counted u ∈ log ++ [.expected now] → .counted u ∈ log :=
    fun u hu => (List.mem_append.1 hu).elim id (fun hu => by cases List.mem_singleton.1 hu)
  have hconfirmed : Confirmed log → Confirmed (log ++ [.expected now]) := by
    intro hc
    refine ⟨by rw [outputs_expected]; exact hc.enough, by rw [busies_expected]; exact hc.entered, fun b hb => ?_⟩
    rw [busies_expected] at hb
    exact hsince (hc.late b hb)
  refine ⟨⟨fun u hu => h.past u (hpast u hu), fun e he => ?_, fun f hf => ?_, fun x hx => hsince (h.first x hx),
    fun x hx => hsince (h.last x hx), by rw [busies_expected]; exact h.turned⟩, ?_⟩
  · cases he
    exact ⟨List.mem_append_right _ (List.mem_singleton.2 rfl), Int.le_refl _⟩
  · rw [outputs_expected] at hf
    exact (h.gated f hf).append _
  · cases h.phase with
    | quiet status none count timers =>
      exact .quiet status (by rw [busies_expected, none]) (by rw [outputs_expected]; exact count)
        (timers.mono (fun _ hdue => hsince hdue))
    | candidate status none count since timers =>
      exact .candidate status (by rw [busies_expected, none]) (by rw [outputs_expected]; exact count) (hsince since) timers
    | busy status confirmed timers =>
      exact .busy status (hconfirmed confirmed) (timers.mono (fun _ hdue u hu => hdue u (hpast u hu)))
    | settling status confirmed timers =>
      exact .settling status (hconfirmed confirmed) (timers.mono (fun _ hdue u hu => hdue u (hpast u hu)))

end Sound

theorem sound_output (h : Sound log d now) : Sound (log ++ (if (d.onData now).2 then [.counted now] else []) ++
    (if (d.onData now).1.detector.status = .busy ∧ d.status ≠ .busy then [.busy now] else [])) (d.onData now).1.detector now := by
  have he := h.expireHistory
  have hbusy : (d.expireHistory now).detector.status = .busy ↔ d.status = .busy := Stirred.expireHistory_busy now d
  rw [QuiesceDetector.onData]
  dsimp only
  generalize d.expireHistory now = s at he hbusy ⊢
  have hs : (s.map (fun d => { d with lastOutputAt := some now })).detector = { s.detector with lastOutputAt := some now } := rfl
  -- an output turns the detector busy in the two states that wait for one
  have hmarks : ∀ d' : QuiesceDetector, (d'.status = .busy → s.detector.status = .busy) →
      (if d'.status = .busy ∧ d.status ≠ .busy then [Mark.busy now] else []) = [] := fun d' hd' =>
    if_neg (fun hturned => hturned.2 (hbusy.1 (hd' hturned.1)))
  have hturns : ∀ s' : Stirred, s.detector.status ≠ .busy →
      (if (s'.enterBusy now).detector.status = .busy ∧ d.status ≠ .busy then [Mark.busy now] else []) = [Mark.busy now] :=
    fun s' hne => if_pos ⟨by rw [Stirred.enterBusy_detector], fun hd => hne (hbusy.2 hd)⟩
  split
  · rw [hmarks _ id, List.append_nil]
    simpa using he
  · rename_i hasked
    rw [Bool.not_eq_true] at hasked
    rw [hs]
    dsimp only
    cases hstatus : s.detector.status with
    | nothingToShow =>
      dsimp only
      generalize s.map _ = s' at hs ⊢
      have hquiet : s'.detector.status = .nothingToShow := by rw [hs]; exact hstatus
      rw [hmarks _ (fun hturned => absurd hturned (s'.handleNothingToShowOutput_busy now hquiet)), List.append_nil]
      rcases hfirst : s.detector.firstOutputAt with _ | x
      · exact he.counted_first hasked hstatus hfirst hs
      · exact he.counted_further hasked hstatus hfirst hs
    | mightBeBusy =>
      rw [hturns _ (by rw [hstatus]; decide)]
      exact he.counted_turning hasked (.inl hstatus) hs
    | busy =>
      rw [hmarks _ (fun _ => hstatus), List.append_nil]
      exact he.counted_busy hasked hstatus hs
    | mightNeedAttention =>
      rw [hturns _ (by rw [hstatus]; decide)]
      exact he.counted_turning hasked (.inr hstatus) hs

end

/-! ## Every run -/

/-- What holds of a watch, by the clock. -/
structure Watch.Sound (w : Watch) (now : Int) : Prop where
  sound   : Alert.Sound w.log w.detector now
  settles : ∀ before m after, w.log = before ++ m :: after → ∀ t, m = .settled t → Settles before t

namespace Watch

variable {w : Watch} {now : Int}

theorem Sound.mono (h : w.Sound now) {later : Int} (hle : now ≤ later) : w.Sound later := ⟨h.sound.mono hle, h.settles⟩

theorem settles_append {log ms : List Mark} (h : ∀ before m after, log = before ++ m :: after → ∀ t, m = .settled t → Settles before t)
    (hms : ∀ m ∈ ms, ∀ t, m ≠ .settled t) :
    ∀ before m after, log ++ ms = before ++ m :: after → ∀ t, m = .settled t → Settles before t := by
  induction ms using List.reverseRecOn with
  | nil =>
    rw [List.append_nil]
    exact h
  | append_singleton ms m ih =>
    rw [← List.append_assoc]
    refine Mealy.everywhere_concat.2 ⟨ih (fun m hm => hms m (List.mem_append_left _ hm)), fun t ht => ?_⟩
    exact absurd ht (hms m (List.mem_append_right _ (List.mem_singleton.2 rfl)) t)

/-- **A step keeps it.** -/
theorem sound_step (h : w.Sound now) (input : DetectorInput) : (w.step (now, input)).Sound now := by
  cases input with
  | output =>
    refine ⟨sound_output h.sound, ?_⟩
    show ∀ before m after, w.log ++ _ ++ _ = _ → _
    rw [List.append_assoc]
    refine settles_append h.settles (fun m hm t ht => ?_)
    subst ht
    rcases List.mem_append.1 hm with hm | hm
    · split at hm
      · cases List.mem_singleton.1 hm
      · cases hm
    · split at hm
      · cases List.mem_singleton.1 hm
      · cases hm
  | expectWork =>
    exact ⟨h.sound.expectWork, settles_append h.settles (fun m hm t ht => by cases ht.symm.trans (List.mem_singleton.1 hm))⟩
  | reset =>
    exact ⟨h.sound.reset, settles_append h.settles (fun m hm t ht => by cases ht.symm.trans (List.mem_singleton.1 hm))⟩
  | timer kind =>
    rw [step]
    dsimp only
    split
    · exact h
    · rename_i due hlookup
      split
      · rename_i hdue
        rcases h.sound.fire hlookup hdue with ⟨hsettled, hsound⟩ | ⟨hsettled, hsettles, hsound⟩
        · rw [hsettled, if_neg Bool.false_ne_true, List.append_nil]
          exact ⟨hsound, h.settles⟩
        · rw [hsettled, if_pos rfl]
          refine ⟨hsound, Mealy.everywhere_concat.2 ⟨h.settles, fun t ht => ?_⟩⟩
          cases ht
          exact hsettles
      · exact h

theorem sound_run : ∀ (inputs : List (Int × DetectorInput)) (w : Watch) (now : Int), w.Sound now →
    (∀ input ∈ inputs, now ≤ input.1) → inputs.Pairwise (fun i j => i.1 ≤ j.1) → ∃ later, (Steps.run step w inputs).Sound later
  | [], w, now, h, _, _ => ⟨now, h⟩
  | input :: inputs, w, now, h, hle, hrest => by
    obtain ⟨hfirst, hrest⟩ := List.pairwise_cons.1 hrest
    exact sound_run inputs _ input.1 (sound_step (h.mono (hle input List.mem_cons_self)) input.2) hfirst hrest

end Watch

/-- **A settle has a busy run behind it, and all of it is this settle's own.**  At whatever times the inputs come that never go
back, and the timers from when they are due: nothing counted since the silence began that it waits for, three outputs counted since
the settle or reset before, the first of them asked for, and busy only so long after it. -/
theorem settled_after (inputs : List (Int × DetectorInput)) (htimes : inputs.Pairwise (fun i j => i.1 ≤ j.1)) :
    (∀ before t after, (Steps.run Watch.step .create inputs).log = before ++ .settled t :: after → Settles before t) ∧
    ∀ before t between t' after, (Steps.run Watch.step .create inputs).log = before ++ .settled t :: (between ++ .settled t' :: after) →
      3 ≤ (between.filterMap Mark.counted?).length ∧ ∃ b, .busy b ∈ between := by
  have hrun : ∃ later, (Steps.run Watch.step .create inputs).Sound later := by
    have hcreate : ∀ now, Watch.create.Sound now := fun now => ⟨sound_quiet now, fun before m after h => by
      cases before <;> cases h⟩
    cases inputs with
    | nil           => exact ⟨0, hcreate 0⟩
    | cons i inputs =>
      refine Watch.sound_run _ _ i.1 (hcreate i.1) (fun j hj => ?_) htimes
      rcases List.mem_cons.1 hj with rfl | hj
      · exact Int.le_refl _
      · exact List.rel_of_pairwise_cons htimes hj
  obtain ⟨_, hsound⟩ := hrun
  have hsettles : ∀ before t after, (Steps.run Watch.step .create inputs).log = before ++ .settled t :: after → Settles before t :=
    fun before t after hlog => hsound.settles before _ after hlog t rfl
  refine ⟨hsettles, fun before t between t' after hlog => ?_⟩
  have hlast : Settles (before ++ .settled t :: between) t' := hsettles _ t' after (by rw [hlog, List.append_assoc]; rfl)
  have hsuffix : stretch (before ++ .settled t :: between) <:+ between := stretch_suffix rfl
  refine ⟨hlast.enough.trans (hsuffix.sublist.filterMap _).length_le, ?_⟩
  obtain ⟨b, hb⟩ := List.exists_mem_of_ne_nil _ hlast.entered
  obtain ⟨m, hm, hbusy⟩ := List.mem_filterMap.1 hb
  cases m with
  | busy u =>
    obtain rfl := Option.some.inj hbusy
    exact ⟨u, hsuffix.subset hm⟩
  | _      => cases hbusy

/-- Work that was asked for, and two of its settles, the second by timers that ran late. -/
def sampleInputs : List (Int × DetectorInput) :=
  [(0, .expectWork), (100, .output), (900, .output), (1600, .timer .busyCandidate), (1700, .output),
    (3700, .timer .mightNeedAttention), (6700, .timer .settledConfirm),
    (7000, .expectWork), (7000, .output), (8600, .output), (8700, .output), (20000, .timer .mightNeedAttention),
    (20000, .timer .settledConfirm)]

theorem settled_after_sample : sampleInputs.Pairwise (fun i j => i.1 ≤ j.1) ∧
    (∃ before, (Steps.run Watch.step .create sampleInputs).log = before ++ [.settled 20000] ∧ Settles before 20000) := by
  have htimes : sampleInputs.Pairwise (fun i j => i.1 ≤ j.1) := by decide
  obtain ⟨before, hlog⟩ : ∃ before, (Steps.run Watch.step .create sampleInputs).log = before ++ [.settled 20000] :=
    ⟨(Steps.run Watch.step .create sampleInputs).log.dropLast, by decide +kernel⟩
  exact ⟨htimes, before, hlog, (settled_after sampleInputs htimes).1 before 20000 [] hlog⟩

end Alert
end Dormouse

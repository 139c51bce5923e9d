import Dormouse.Mealy
import Dormouse.Steps
import Dormouse.QuitModel
/-!
# QuitWalk — the vote comes before the walk, and the walk takes the windows one by one

What an operation can do to the phase is said once (`op_moves`); the invariants of the walk are read off it.  A run is
watched by two lists: the windows the present walk has torn down, and those whose teardown is outstanding.
-/
namespace Dormouse
namespace Quit

/-! ## The order of a walk -/

theorem quitOrder_nodup {labels : List Label} (h : labels.Nodup) : (quitOrder labels).Nodup := by
  unfold quitOrder
  refine List.Nodup.append (h.filter _) ?_ ?_
  · split <;> simp
  · intro l hl hm
    have hne : l ≠ mainLabel := by simpa using (List.mem_filter.mp hl).2
    split at hm
    · exact hne (List.mem_singleton.mp hm)
    · cases hm

/-- `main`, if it is there, is the last. -/
def MainLast (order : List Label) : Prop := ∀ i, order[i]? = some mainLabel → i + 1 = order.length

theorem quitOrder_mainLast (labels : List Label) : MainLast (quitOrder labels) := by
  intro i hi
  unfold quitOrder at hi ⊢
  rw [List.getElem?_append] at hi
  split at hi
  · have hne := (List.mem_filter.mp (List.mem_of_getElem? hi)).2
    simp at hne
  · rw [List.length_append]
    split at hi
    · rename_i hlt hm
      rw [if_pos hm]
      rw [List.getElem?_singleton] at hi
      split at hi
      · simp only [List.length_singleton]
        omega
      · cases hi
    · cases hi

theorem MainLast.eraseIdx {order : List Label} (h : MainLast order) {p : Nat} (hp : p < order.length) :
    MainLast (order.eraseIdx p) := by
  intro i hi
  rw [List.getElem?_eraseIdx] at hi
  rw [List.length_eraseIdx, if_pos hp]
  split at hi
  · have := h i hi
    omega
  · have := h (i + 1) hi
    omega

variable {order : List Label}

theorem getElem?_unique (h : order.Nodup) {i j : Nat} {l : Label} (hi : order[i]? = some l) (hj : order[j]? = some l) :
    i = j :=
  (List.getElem?_inj (List.getElem?_eq_some_iff.mp hi).1 h).mp (hi.trans hj.symm)

/-! ## What an operation can do -/

def QuitOp.forgets : QuitOp → Option Label
  | .forgetWindow label _ => some label
  | _                     => none

inductive Moves (m : QuitMachine) : QuitOp → QuitMachine × List QuitAction → Prop where
  | stays {op m'} (hp : m'.phase = m.phase) (ha : m'.approved = m.approved) : Moves m op (m', [])
  | asks {labels intent m' r} (hp : m'.phase = if m.isWalking then m.phase else .voting)
    (ha : m'.approved = m.approved) : Moves m (.request labels intent) (m', [.requestAll r])
  | cancels {m'} (hv : m.phase = .voting) (hp : m'.phase = .idle) : Moves m .cancel (m', [.cancelAll])
  | exits {op m'} (hp : m'.phase = .idle) (ha : m'.approved = true) : Moves m op (m', [.exit])
  | proceeds {m'} (hp : m'.phase = m.phase) (ha : m'.approved = true) : Moves m .proceed (m', [.exit])
  | begins {op m' first rest last} (hv : m.phase = .voting) (hn : (first :: rest).Nodup) (hm : MainLast (first :: rest))
    (hp : m'.phase = .walking (first :: rest) 0) (hall : allVoted m'.windows = true) :
    Moves m op (m', [.teardown first last])
  | advances {m' order index label next last} (hw : m.phase = .walking order index) (hc : order[index]? = some label)
    (hn : order[index + 1]? = some next) (hp : m'.phase = .walking order (index + 1)) :
    Moves m (.windowDone label) (m', [.destroy label, .teardown next last])
  | finishes {m' order index label} (hw : m.phase = .walking order index) (hc : order[index]? = some label)
    (hn : order[index + 1]? = none) (hp : m'.phase = .walking order (index + 1)) (ha : m'.approved = m.approved) :
    Moves m (.windowDone label) (m', [.destroy label, .exit])
  | loses {m' label it order index p} (hw : m.phase = .walking order index) (hl : order[p]? = some label)
    (hpi : p ≠ index)
    (hp : m'.phase = .walking (order.eraseIdx p) (if p < index then index - 1 else index))
    (ha : m'.approved = m.approved) : Moves m (.forgetWindow label it) (m', [])
  | replaces {m' label it order index next last} (hw : m.phase = .walking order index) (hl : order[index]? = some label)
    (hn : (order.eraseIdx index)[index]? = some next) (hp : m'.phase = .walking (order.eraseIdx index) index)
    (ha : m'.approved = m.approved) : Moves m (.forgetWindow label it) (m', [.teardown next last])

variable {op : QuitOp}

theorem startWalk_moves {m m₀ : QuitMachine} (it : Iteration) (hv : m₀.phase = .voting) (hall : allVoted m.windows = true) :
    Moves m₀ op (m.startWalk it) := by
  have hn : (quitOrder (it.order m.windows.keys)).Nodup :=
    quitOrder_nodup ((it.perm _).nodup_iff.mpr (AList.keys_nodup m.windows))
  have hm := quitOrder_mainLast (it.order m.windows.keys)
  unfold QuitMachine.startWalk
  simp only
  generalize quitOrder (it.order m.windows.keys) = order at hn hm ⊢
  cases order with
  | nil => exact .exits rfl rfl
  | cons first rest => exact .begins hv hn hm rfl hall

theorem request_moves (m : QuitMachine) (labels : List Label) (intent : QuitIntent) :
    Moves m (.request labels intent) (m.request labels intent) := by
  unfold QuitMachine.request
  simp only
  split
  · exact .exits rfl rfl
  · refine .asks ?_ ?_
    · split <;> rfl
    · split <;> rfl

theorem vote_moves (m : QuitMachine) (label : Label) (it : Iteration) : Moves m (.vote label it) (m.vote label it) := by
  unfold QuitMachine.vote
  split
  · exact .stays rfl rfl
  · rename_i hv
    simp only
    split
    · exact .stays rfl rfl
    · rename_i hall
      exact startWalk_moves it (not_not.mp hv) (by simpa using hall)

theorem windowDone_moves (m : QuitMachine) (label : Label) : Moves m (.windowDone label) (m.windowDone label) := by
  unfold QuitMachine.windowDone
  split
  · rename_i order index hw
    split
    · exact .stays rfl rfl
    · rename_i hc
      cases hn : order[index + 1]? with
      | some next => exact .advances hw (not_not.mp hc) hn rfl
      | none => exact .finishes hw (not_not.mp hc) hn rfl rfl
  · exact .stays rfl rfl

theorem forgetWindow_moves (m : QuitMachine) (label : Label) (it : Iteration) :
    Moves m (.forgetWindow label it) (m.forgetWindow label it) := by
  unfold QuitMachine.forgetWindow
  simp only
  split
  · exact .stays rfl rfl
  · rename_i hv
    split
    · exact .exits rfl rfl
    · split
      · rename_i hall
        exact startWalk_moves it hv hall
      · exact .stays rfl rfl
  · rename_i order index hw
    split
    · exact .stays rfl rfl
    · rename_i p hp
      have hl : order[p]? = some label := by
        obtain ⟨hlt, he, -⟩ := List.idxOf?_eq_some_iff.mp hp
        rw [List.getElem?_eq_getElem hlt, he]
      split
      · exact .exits rfl rfl
      · split
        · rename_i hlt
          exact .loses hw hl (by omega) (by rw [if_neg (by omega)]) rfl
        · split
          · rename_i hlt
            exact .loses hw hl (by omega) (by rw [if_pos hlt]) rfl
          · rename_i h1 h2
            have hpi : p = index := by omega
            subst hpi
            split
            · rename_i next hn
              exact .replaces hw hl hn rfl rfl
            · exact .exits rfl rfl

theorem op_moves (m : QuitMachine) (op : QuitOp) : Moves m op (m.op op) := by
  cases op with
  | request labels intent => exact request_moves m labels intent
  | ack label => exact .stays rfl rfl
  | progress label => exact .stays rfl rfl
  | vote label it => exact vote_moves m label it
  | cancel =>
    show Moves m .cancel m.cancel
    unfold QuitMachine.cancel
    split
    · exact .stays rfl rfl
    · rename_i hv
      exact .cancels (not_not.mp hv) rfl
  | windowDone label => exact windowDone_moves m label
  | forgetWindow label it => exact forgetWindow_moves m label it
  | proceed => exact .proceeds rfl rfl

/-! ## A run, watched -/

def teardowns (actions : List QuitAction) : List Label :=
  actions.filterMap (fun | .teardown label _ => some label | _ => none)

def destroys (actions : List QuitAction) : List Label :=
  actions.filterMap (fun | .destroy label => some label | _ => none)

/-- A machine, with the windows its present walk has torn down, oldest first, and those whose teardown is outstanding:
issued, and since then neither destroyed nor forgotten. -/
structure Watched where
  machine : QuitMachine
  torn    : List Label
  down    : List Label

def Watched.step (w : Watched) (op : QuitOp) : Watched :=
  let r := w.machine.op op
  if r.1.isWalking then
    { machine := r.1
      torn    := w.torn ++ teardowns r.2
      down    := w.down.filter (fun l => decide (l ∉ destroys r.2) && decide (op.forgets ≠ some l)) ++ teardowns r.2 }
  else ⟨r.1, [], []⟩

def Watched.fresh : Watched := ⟨{}, [], []⟩

def Watched.run (ops : List QuitOp) : Watched := Steps.run Watched.step .fresh ops

variable {m : QuitMachine}

theorem isWalking_iff : m.isWalking = true ↔ ∃ order index, m.phase = .walking order index := by
  unfold QuitMachine.isWalking
  cases m.phase <;> simp

variable {w : Watched} {m' : QuitMachine} {actions : List QuitAction}

theorem Watched.step_idle (h : w.machine.op op = (m', actions)) (hw : m'.isWalking = false) : w.step op = ⟨m', [], []⟩ := by
  simp [step, h, hw]

variable {index : Nat}

theorem Watched.step_walking (h : w.machine.op op = (m', actions)) (hw : m'.phase = .walking order index) :
    w.step op = ⟨m', w.torn ++ teardowns actions,
      w.down.filter (fun l => decide (l ∉ destroys actions) && decide (op.forgets ≠ some l)) ++ teardowns actions⟩ := by
  have : m'.isWalking = true := isWalking_iff.mpr ⟨order, index, hw⟩
  simp [step, h, this]

/-- Where a walk stands: at `index` of `order`, everything up to it torn down, nothing behind it. -/
structure Stands (order : List Label) (index : Nat) (torn down : List Label) : Prop where
  nodup    : order.Nodup
  mainLast : MainLast order
  torn_iff : ∀ i l, order[i]? = some l → (l ∈ torn ↔ i ≤ index)
  once     : torn.Nodup
  one      : down.length ≤ 1
  current  : ∀ l ∈ down, order[index]? = some l
  main     : mainLabel ∈ torn → order.length ≤ index + 1 ∧ torn.getLast? = some mainLabel

structure Watched.Ordered (w : Watched) : Prop where
  off : w.machine.isWalking = false → w.torn = [] ∧ w.down = []
  on  : ∀ order index, w.machine.phase = .walking order index → Stands order index w.torn w.down

variable {torn down : List Label}

theorem Stands.keep {order order' : List Label} {index index' : Nat} (p : Label → Bool) (h : Stands order index torn down)
    (hn : order'.Nodup) (hm : MainLast order') (ht : ∀ i l, order'[i]? = some l → (l ∈ torn ↔ i ≤ index'))
    (hc : ∀ l ∈ down, p l = true → order'[index']? = some l)
    (hlast : order.length ≤ index + 1 → order'.length ≤ index' + 1) :
    Stands order' index' torn (down.filter p) := by
  refine ⟨hn, hm, ht, h.once, le_trans (List.length_filter_le _ _) h.one, fun l hl => ?_, fun hmain => ?_⟩
  · obtain ⟨hl, hpl⟩ := List.mem_filter.mp hl
    exact hc l hl hpl
  · exact ⟨hlast (h.main hmain).1, (h.main hmain).2⟩

theorem Stands.next {order order' : List Label} {index index' : Nat} {torn down : List Label} {next : Label}
    (h : Stands order index torn down) (hn : order'.Nodup) (hm : MainLast order') (hnext : order'[index']? = some next)
    (hnew : next ∉ torn) (ht : ∀ i l, order'[i]? = some l → i ≠ index' → (l ∈ torn ↔ i ≤ index'))
    (hlen : index + 1 < order.length) : Stands order' index' (torn ++ [next]) [next] := by
  have hmain : mainLabel ∉ torn := fun hmem => by
    have := (h.main hmem).1
    omega
  refine ⟨hn, hm, fun i l hl => ?_, ?_, le_refl _, fun l hl => ?_, fun hmem => ?_⟩
  · rw [List.mem_append, List.mem_singleton]
    by_cases hi : i = index'
    · subst hi
      rw [hnext] at hl
      cases hl
      simp
    · have hne : l ≠ next := fun he => hi (getElem?_unique hn (he ▸ hl) hnext)
      rw [ht i l hl hi, or_iff_left hne]
  · exact h.once.append (List.nodup_singleton _) (by simpa using hnew)
  · rw [List.mem_singleton.mp hl]
    exact hnext
  · rcases List.mem_append.mp hmem with hmem | hmem
    · exact absurd hmem hmain
    · rw [List.mem_singleton] at hmem
      subst hmem
      refine ⟨?_, List.getLast?_concat ..⟩
      have := hm index' hnext
      omega

theorem Watched.ordered_off (hr : w.machine.op op = (m', actions)) (hw : m'.isWalking = false) : (w.step op).Ordered := by
  rw [step_idle hr hw]
  refine ⟨fun _ => ⟨rfl, rfl⟩, fun order index hp => ?_⟩
  have : m'.isWalking = true := isWalking_iff.mpr ⟨order, index, hp⟩
  rw [hw] at this
  cases this

theorem Watched.ordered_on (hr : w.machine.op op = (m', actions)) (hw : m'.phase = .walking order index)
    (h : Stands order index (w.torn ++ teardowns actions) (w.down.filter (fun l => decide (l ∉ destroys actions) && decide (op.forgets ≠ some l)) ++ teardowns actions)) :
    
    (w.step op).Ordered := by
  rw [step_walking hr hw]
  refine ⟨fun hoff => ?_, fun order' index' hp => ?_⟩
  · rw [show m'.isWalking = true from isWalking_iff.mpr ⟨order, index, hw⟩] at hoff
    cases hoff
  · cases hw.symm.trans hp
    exact h

theorem Watched.ordered_same (h : w.Ordered) (hr : w.machine.op op = (m', actions)) (hp : m'.phase = w.machine.phase)
    (ht : teardowns actions = []) : (w.step op).Ordered := by
  cases hw : m'.phase with
  | idle => exact ordered_off hr (by simp [QuitMachine.isWalking, hw])
  | voting => exact ordered_off hr (by simp [QuitMachine.isWalking, hw])
  | walking order index =>
    have hs := h.on order index (hp ▸ hw)
    refine ordered_on hr hw ?_
    rw [ht, List.append_nil, List.append_nil]
    exact hs.keep _ hs.nodup hs.mainLast hs.torn_iff (fun l hl _ => hs.current l hl) (fun hlen => hlen)

theorem Stands.over {label : Label} {p : Label → Bool} (h : Stands order index torn down) (hl : order[index]? = some label)
    (hp : p label = false) : down.filter p = [] := by
  refine List.filter_eq_nil_iff.mpr (fun l hmem => ?_)
  have := h.current l hmem
  rw [hl] at this
  cases this
  simp [hp]

theorem Stands.loses {index p : Nat} {label : Label} (q : Label → Bool) (h : Stands order index torn down)
    (hl : order[p]? = some label) (hpi : p ≠ index) :
    Stands (order.eraseIdx p) (if p < index then index - 1 else index) torn (down.filter q) := by
  have hlt : p < order.length := (List.getElem?_eq_some_iff.mp hl).1
  refine h.keep q (h.nodup.sublist (List.eraseIdx_sublist _ _)) (h.mainLast.eraseIdx hlt) (fun i l hi => ?_)
    (fun l hd _ => ?_) (fun hlen => ?_)
  · rw [List.getElem?_eraseIdx] at hi
    split at hi
    · rw [h.torn_iff i l hi]
      split <;> omega
    · rw [h.torn_iff (i + 1) l hi]
      split <;> omega
  · have hc := h.current l hd
    rw [List.getElem?_eraseIdx]
    split
    · rw [if_neg (by omega), show index - 1 + 1 = index by omega]
      exact hc
    · rw [if_pos (by omega)]
      exact hc
  · rw [List.length_eraseIdx, if_pos hlt]
    split <;> omega

theorem Stands.replaces {next : Label} (h : Stands order index torn down) (hlt : index < order.length)
    (hn : (order.eraseIdx index)[index]? = some next) :
    Stands (order.eraseIdx index) index (torn ++ [next]) [next] := by
  have hnext : order[index + 1]? = some next := by
    rwa [List.getElem?_eraseIdx, if_neg (lt_irrefl _)] at hn
  have hlen : index + 1 < order.length := (List.getElem?_eq_some_iff.mp hnext).1
  refine h.next (h.nodup.sublist (List.eraseIdx_sublist _ _)) (h.mainLast.eraseIdx hlt) hn ?_ (fun i l hi hne => ?_) hlen
  · rw [h.torn_iff _ _ hnext]
    omega
  · rw [List.getElem?_eraseIdx] at hi
    split at hi
    · rw [h.torn_iff i l hi]
    · rw [h.torn_iff (i + 1) l hi]
      omega

theorem Stands.advances {next : Label} (h : Stands order index torn down) (hn : order[index + 1]? = some next) :
    Stands order (index + 1) (torn ++ [next]) [next] := by
  refine h.next h.nodup h.mainLast hn ?_ (fun i l hi hne => ?_) (List.getElem?_eq_some_iff.mp hn).1
  · rw [h.torn_iff _ _ hn]
    omega
  · rw [h.torn_iff i l hi]
    omega

theorem Stands.finishes (h : Stands order index torn down) (hn : order[index + 1]? = none) :
    Stands order (index + 1) torn [] := by
  have hlen : order.length ≤ index + 1 := List.getElem?_eq_none_iff.mp hn
  refine ⟨h.nodup, h.mainLast, fun i l hi => ?_, h.once, Nat.zero_le _, fun l hl => absurd hl List.not_mem_nil,
    fun hm => ⟨by omega, (h.main hm).2⟩⟩
  have := (List.getElem?_eq_some_iff.mp hi).1
  rw [h.torn_iff i l hi]
  omega

theorem Stands.begins {first : Label} {rest : List Label} (hn : (first :: rest).Nodup) (hm : MainLast (first :: rest)) :
    Stands (first :: rest) 0 [first] [first] := by
  refine ⟨hn, hm, fun i l hi => ?_, List.nodup_singleton _, le_refl _, fun l hl => ?_, fun hmain => ?_⟩
  · rw [List.mem_singleton, Nat.le_zero]
    constructor
    · rintro rfl
      exact getElem?_unique hn hi rfl
    · rintro rfl
      exact (Option.some.inj hi).symm
  · rw [List.mem_singleton.mp hl]
    rfl
  · rw [List.mem_singleton] at hmain
    subst hmain
    exact ⟨by have := hm 0 rfl; omega, rfl⟩

/-- **Every operation keeps a walk in order.** -/
theorem Watched.step_ordered (w : Watched) (op : QuitOp) (h : w.Ordered) : (w.step op).Ordered := by
  have hmoves := op_moves w.machine op
  generalize hr : w.machine.op op = r at hmoves
  cases hmoves with
  | stays hp ha => exact ordered_same h hr hp rfl
  | asks hp ha =>
    cases hw : w.machine.isWalking with
    | true => exact ordered_same h hr (by rw [hp, hw]; rfl) rfl
    | false =>
      refine ordered_off hr ?_
      rw [hw] at hp
      simp [QuitMachine.isWalking, hp]
  | cancels hv hp => exact ordered_off hr (by simp [QuitMachine.isWalking, hp])
  | exits hp ha => exact ordered_off hr (by simp [QuitMachine.isWalking, hp])
  | proceeds hp ha => exact ordered_same h hr hp rfl
  | begins hv hn hm hp hall =>
    obtain ⟨ht, hd⟩ := h.off (by simp [QuitMachine.isWalking, hv])
    refine ordered_on hr hp ?_
    rw [ht, hd]
    exact .begins hn hm
  | advances hw hc hn hp =>
    have hs := h.on _ _ hw
    refine ordered_on hr hp ?_
    rw [hs.over hc (by simp [destroys])]
    exact hs.advances hn
  | finishes hw hc hn hp ha =>
    have hs := h.on _ _ hw
    refine ordered_on hr hp ?_
    rw [hs.over hc (by simp [destroys])]
    simpa [teardowns] using hs.finishes hn
  | loses hw hl hpi hp ha =>
    refine ordered_on hr hp ?_
    simpa [teardowns] using (h.on _ _ hw).loses _ hl hpi
  | replaces hw hl hn hp ha =>
    have hs := h.on _ _ hw
    refine ordered_on hr hp ?_
    rw [hs.over hl (by simp [QuitOp.forgets])]
    exact hs.replaces (List.getElem?_eq_some_iff.mp hl).1 hn

theorem Watched.run_ordered (ops : List QuitOp) : (Watched.run ops).Ordered := by
  refine Steps.run_invariant (I := Watched.Ordered) (fun w op h => w.step_ordered op h) ops .fresh ?_
  exact ⟨fun _ => ⟨rfl, rfl⟩, fun order index hp => by cases hp⟩

/-! ## Before the votes are in -/

def QuitAction.destructive : QuitAction → Bool
  | .teardown _ _ => true
  | .destroy _    => true
  | _             => false

/-- Off the walk, an operation destroys nothing unless every tracked window has voted by then. -/
theorem op_harmless (hw : m.isWalking = false) (op : QuitOp)
    (hv : m.phase = .voting → allVoted (m.op op).1.windows = false) :
    (∀ a ∈ (m.op op).2, a.destructive = false) ∧ (m.op op).1.isWalking = false := by
  have hmoves := op_moves m op
  generalize m.op op = r at hmoves hv ⊢
  have hoff : ∀ order index, m.phase ≠ .walking order index := fun order index hp => by
    rw [isWalking_iff.mpr ⟨order, index, hp⟩] at hw
    cases hw
  cases hmoves with
  | @stays _ m' hp ha =>
    refine ⟨by simp, ?_⟩
    simp [QuitMachine.isWalking, hp]
  | asks hp ha =>
    refine ⟨by simp [QuitAction.destructive], ?_⟩
    rw [hw] at hp
    simp [QuitMachine.isWalking, hp]
  | cancels _ hp => exact ⟨by simp [QuitAction.destructive], by simp [QuitMachine.isWalking, hp]⟩
  | exits hp ha => exact ⟨by simp [QuitAction.destructive], by simp [QuitMachine.isWalking, hp]⟩
  | proceeds hp ha =>
    refine ⟨by simp [QuitAction.destructive], ?_⟩
    simp [QuitMachine.isWalking, hp]
  | begins hvote hn hm hp hall =>
    rw [hv hvote] at hall
    cases hall
  | advances hp _ _ _ => exact absurd hp (hoff _ _)
  | finishes hp _ _ _ _ => exact absurd hp (hoff _ _)
  | loses hp _ _ _ _ => exact absurd hp (hoff _ _)
  | replaces hp _ _ _ _ => exact absurd hp (hoff _ _)

theorem run_harmless : ∀ (ops : List QuitOp) {m : QuitMachine}, m.isWalking = false →
    (∀ pre, pre <+: ops → pre ≠ [] → allVoted (Mealy.run QuitMachine.op m pre).1.windows = false) →
      ∀ a ∈ (Mealy.run QuitMachine.op m ops).2, a.destructive = false
  | [], _, _, _ => by simp
  | op :: ops, m, hw, hv => by
    have hone := hv [op] (List.cons_prefix_cons.mpr ⟨rfl, List.nil_prefix⟩) (by simp)
    rw [Mealy.run_one] at hone
    obtain ⟨h1, h2⟩ := op_harmless hw op (fun _ => hone)
    have hrest := run_harmless ops h2 (fun pre hpre hne => by
      have := hv (op :: pre) (List.cons_prefix_cons.mpr ⟨rfl, hpre⟩) (by simp)
      rwa [Mealy.run_cons] at this)
    rw [Mealy.run_cons]
    intro a ha
    rcases List.mem_append.mp ha with ha | ha
    · exact h1 a ha
    · exact hrest a ha

/-- From `Idle`, a trigger and what follows it destroy nothing until every tracked window has voted. -/
theorem request_harmless (hp : m.phase = .idle) (labels : List Label) (intent : QuitIntent) (ops : List QuitOp)
    (hv : ∀ pre, pre <+: ops → pre ≠ [] → allVoted (Mealy.run QuitMachine.op m (.request labels intent :: pre)).1.windows = false) :
    
    ∀ a ∈ (Mealy.run QuitMachine.op m (.request labels intent :: ops)).2, a.destructive = false := by
  obtain ⟨h1, h2⟩ := op_harmless (m := m) (by simp [QuitMachine.isWalking, hp]) (.request labels intent)
    (fun hv => by rw [hp] at hv; cases hv)
  rw [Mealy.run_cons]
  intro a ha
  rcases List.mem_append.mp ha with ha | ha
  · exact h1 a ha
  · exact run_harmless ops h2 hv a ha

/-! ## The walk -/

theorem cancelAll_voting (h : .cancelAll ∈ (m.op op).2) : m.phase = .voting := by
  have hmoves := op_moves m op
  generalize m.op op = r at hmoves h
  cases hmoves with
  | cancels hv hp => exact hv
  | _ => simp at h

structure Watched.Safe (w : Watched) : Prop where
  /-- A cancel outside the vote does nothing. -/
  cancel_ignored : w.machine.phase ≠ .voting → w.machine.op .cancel = (w.machine, [])
  /-- Once a teardown of the walk was issued, nothing is put back. -/
  cancel_refused : w.torn ≠ [] → ∀ op, .cancelAll ∉ (w.machine.op op).2
  one_down       : w.down.length ≤ 1
  torn_once      : w.torn.Nodup
  /-- `main` is torn down last: nothing after it, and everything else in the order before it. -/
  main_last      : mainLabel ∈ w.torn → w.torn.getLast? = some mainLabel ∧
    ∀ order index, w.machine.phase = .walking order index → ∀ l ∈ order, l ∈ w.torn
  index_at       : ∀ order index, w.machine.phase = .walking order index → ∀ l ∈ w.down, order[index]? = some l

theorem Watched.Ordered.safe (h : w.Ordered) : w.Safe := by
  have hphase : w.machine.isWalking = false ∨ ∃ order index, w.machine.phase = .walking order index := by
    cases hw : w.machine.isWalking with
    | false => exact .inl rfl
    | true => exact .inr (isWalking_iff.mp hw)
  have hcancel : w.machine.phase ≠ .voting → w.machine.op .cancel = (w.machine, []) := fun hv => if_pos hv
  rcases hphase with hw | ⟨order, index, hw⟩
  · obtain ⟨ht, hd⟩ := h.off hw
    refine ⟨hcancel, fun hne => absurd ht hne, by simp [hd], by simp [ht], fun hm => ?_, fun order index hp => ?_⟩
    · rw [ht] at hm
      cases hm
    · rw [hd]
      simp
  · have hs := h.on order index hw
    refine ⟨hcancel, fun _ op hc => ?_, hs.one, hs.once, fun hm => ⟨(hs.main hm).2, fun order' index' hp l hl => ?_⟩,
      fun order' index' hp => ?_⟩
    · rw [cancelAll_voting hc] at hw
      cases hw
    · rw [hw] at hp
      cases hp
      obtain ⟨i, hi⟩ := List.getElem?_of_mem hl
      have hlt := (List.getElem?_eq_some_iff.mp hi).1
      have hlen := (hs.main hm).1
      exact (hs.torn_iff i l hi).mpr (by omega)
    · rw [hw] at hp
      cases hp
      exact hs.current

/-- **A quit destroys nothing before the votes are in, and then walks its windows one at a time, `main` last**, whatever
the windows report and in whatever order. -/
theorem quit_votes_then_walks (ops : List QuitOp) :
    (Watched.run ops).Safe ∧
    ∀ (labels : List Label) (intent : QuitIntent) (later : List QuitOp), (Watched.run ops).machine.phase = .idle →
      (∀ pre, pre <+: later → pre ≠ [] →
        allVoted (Mealy.run QuitMachine.op (Watched.run ops).machine (.request labels intent :: pre)).1.windows = false) →
      ∀ a ∈ (Mealy.run QuitMachine.op (Watched.run ops).machine (.request labels intent :: later)).2,
        a.destructive = false :=
  ⟨(Watched.run_ordered ops).safe, fun labels intent later hp hv => request_harmless hp labels intent later hv⟩

theorem quit_votes_then_walks_sample :
    allVoted (Mealy.run QuitMachine.op {} [.request ["main", "ws-2"] {}, .vote "main" .asKept]).1.windows = false ∧
    (Watched.run [.request ["main", "ws-2"] {}, .vote "main" .asKept, .vote "ws-2" .asKept]).down = ["ws-2"] ∧
    (Watched.run [.request ["main", "ws-2"] {}, .vote "main" .asKept, .vote "ws-2" .asKept]).Safe ∧
    ∀ a ∈ (Mealy.run QuitMachine.op {} [.request ["main", "ws-2"] {}, .vote "main" .asKept]).2, a.destructive = false := by
  have hopen : allVoted
      (Mealy.run QuitMachine.op {} [.request ["main", "ws-2"] {}, .vote "main" .asKept]).1.windows = false := by decide
  refine ⟨hopen, by decide, (quit_votes_then_walks _).1, (quit_votes_then_walks []).2 _ _ _ rfl (fun pre hpre hne => ?_)⟩
  rcases List.prefix_cons_iff.mp hpre with rfl | ⟨t, rfl, ht⟩
  · exact absurd rfl hne
  · rw [List.prefix_nil.mp ht]
    exact hopen

/-! ## Exits -/

/-- An operation that returns `Exit` leaves the machine approved, and a walk it leaves stands at a place of its order. -/
def ExitsSoundly (m : QuitMachine) (op : QuitOp) : Prop :=
  (.exit ∈ (m.op op).2 → (m.op op).1.approved = true) ∧
    ∀ order index, (m.op op).1.phase = .walking order index → index < order.length

/-- The last window of a walk reports that it is done, rather than `proceed`. -/
def lastDone (m : QuitMachine) : QuitOp → Bool
  | .windowDone label =>
    match m.phase with
    | .walking order index => order[index]? == some label && index + 1 == order.length
    | _                    => false
  | _ => false

def Placed (m : QuitMachine) : Prop := ∀ order index, m.phase = .walking order index → index < order.length

theorem lastDone_unsound (h : lastDone m op = true) : ¬ ExitsSoundly m op := by
  rintro ⟨-, hplace⟩
  cases op with
  | windowDone label =>
    unfold lastDone at h
    cases hw : m.phase with
    | walking order index =>
      rw [hw] at h
      simp only [Bool.and_eq_true, beq_iff_eq] at h
      have hp : (m.op (.windowDone label)).1.phase = .walking order (index + 1) := by
        simp [QuitMachine.op, QuitMachine.windowDone, hw, h.1]
      have := hplace order (index + 1) hp
      omega
    | idle => simp [hw] at h
    | voting => simp [hw] at h
  | _ => cases h

theorem exitsSoundly_of_not_last (hm : Placed m) (h : lastDone m op = false) :
    ExitsSoundly m op := by
  have hmoves := op_moves m op
  unfold ExitsSoundly
  generalize hr : m.op op = r at hmoves
  cases hmoves with
  | stays hp ha => exact ⟨by simp, fun order index hw => hm order index (hp.symm.trans hw)⟩
  | asks hp ha =>
    refine ⟨by simp, fun order index hw => hm order index ?_⟩
    rw [hw] at hp
    split at hp
    · exact hp.symm
    · cases hp
  | cancels hv hp => exact ⟨by simp, fun order index hw => by cases hp.symm.trans hw⟩
  | exits hp ha => exact ⟨fun _ => ha, fun order index hw => by cases hp.symm.trans hw⟩
  | proceeds hp ha => exact ⟨fun _ => ha, fun order index hw => hm order index (hp.symm.trans hw)⟩
  | begins hv hn hmain hp hall =>
    refine ⟨by simp, fun order index hw => ?_⟩
    cases hp.symm.trans hw
    simp
  | advances hw hc hn hp =>
    refine ⟨by simp, fun order index hw' => ?_⟩
    cases hp.symm.trans hw'
    exact (List.getElem?_eq_some_iff.mp hn).1
  | finishes hw hc hn hp ha =>
    have h1 := (List.getElem?_eq_some_iff.mp hc).1
    have h2 := List.getElem?_eq_none_iff.mp hn
    simp only [lastDone, hw, hc, BEq.rfl, Bool.true_and, beq_eq_false_iff_ne] at h
    omega
  | @loses _ _ _ order index p hw hl hpi hp ha =>
    refine ⟨by simp, fun order' index' hw' => ?_⟩
    cases hp.symm.trans hw'
    have h1 := hm _ _ hw
    have h2 := (List.getElem?_eq_some_iff.mp hl).1
    rw [List.length_eraseIdx, if_pos h2]
    split <;> omega
  | replaces hw hl hn hp ha =>
    refine ⟨by simp, fun order' index' hw' => ?_⟩
    cases hp.symm.trans hw'
    exact (List.getElem?_eq_some_iff.mp hn).1

/-- **A run exits approved, and keeps its walks in place, as long as no last window of a walk reports itself done.**
Exactly then: that report returns `Exit` unapproved and leaves the index behind the order. -/
theorem exits_approved_iff (ops : List QuitOp) :
    Steps.Along (fun m op => (QuitMachine.op m op).1) ExitsSoundly {} ops ↔
      Steps.Along (fun m op => (QuitMachine.op m op).1) (fun m op => lastDone m op = false) {} ops := by
  refine Steps.along_iff (I := Placed) (fun m op hm => ⟨fun hs => ?_, exitsSoundly_of_not_last hm⟩)
    (fun m op _ hs => hs.2) ops {} (fun order index hp => by cases hp)
  cases hl : lastDone m op with
  | false => rfl
  | true => exact absurd hs (lastDone_unsound hl)

theorem last_done_exits_unapproved :
    ¬ Steps.Along (fun m op => (QuitMachine.op m op).1) ExitsSoundly {}
      [.request ["main"] {}, .vote "main" .asKept, .windowDone "main"] := by
  rintro ⟨-, -, ⟨happroved, -⟩, -⟩
  exact absurd (happroved (by decide)) (by decide)

end Quit
end Dormouse

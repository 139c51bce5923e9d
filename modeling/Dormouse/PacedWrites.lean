import Dormouse.PacedInput
/-!
# PacedWrites — writes to one PTY, paced and not

`write`, `drainInput` and `cancelInput` of `pty-core.js`, over one PTY that lives on.  What was written and what still waits are
together what was asked for, but for what an interrupt discards (`Owed`); each drain reads the clock anew, and nothing is assumed of
what it reads.
-/
namespace Dormouse
namespace Paced

def pacedChunkGapMs : Int := 10
def pacedKeySettleMs : Int := 100

structure Waiting where
  data  : JsString
  key   : Bool
  paced : Bool
  deriving DecidableEq

/-- The input of a PTY: `last` and `lastText` time the last write that drained and the last paced text, when there was one. -/
structure Input where
  steps    : List Waiting
  timer    : Bool
  last     : Option Int
  lastText : Option Int
  deriving DecidableEq

structure Pty where
  written : List JsString
  input   : Option Input
  deriving DecidableEq

def later : Option Int → Option Int → Option Int
  | some a, some b => some (max a b)
  | some a, none   => some a
  | none,   b      => b

def dueAt (step : Waiting) (last lastText : Option Int) : Option Int :=
  if step.key then later (last.map (· + pacedChunkGapMs)) (lastText.map (· + pacedKeySettleMs))
  else last.map (· + pacedChunkGapMs)

/-- `drainInput`; `clock` is what `Date.now()` reads, time after time. -/
def drainInput (clock : Nat → Int) : Nat → List Waiting → Option Int → Option Int → List JsString → Pty
  | _, [],            last, lastText, written => ⟨written, some ⟨[], false, last, lastText⟩⟩
  | k, step :: steps, last, lastText, written =>
    if step.paced && (dueAt step last lastText).any (fun due => clock k < due) then
      ⟨written, some ⟨step :: steps, true, last, lastText⟩⟩
    else
      let k' := if step.paced then k + 1 else k
      let now := some (clock k')
      drainInput clock (k' + 1) steps now (if step.paced && !step.key then now else lastText) (written ++ [step.data])

def cancelInput (p : Pty) : Pty := { p with input := none }

def pacedSteps (data : JsString) : List Waiting := (pacedInputSegments data).map (fun s => ⟨s.data, s.key, true⟩)

def write (clock : Nat → Int) (p : Pty) (data : JsString) (paced : Bool) : Pty :=
  let p := if data = [0x03] then cancelInput p else p
  if !paced && (p.input.map (·.steps)).getD [] = [] then { p with written := p.written ++ [data] }
  else
    let input := p.input.getD ⟨[], false, none, none⟩
    let steps := input.steps ++ (if paced then pacedSteps data else [⟨data, false, false⟩])
    if input.timer then { p with input := some { input with steps := steps } }
    else drainInput clock 0 steps input.last input.lastText p.written

def fire (clock : Nat → Int) (p : Pty) : Pty :=
  match p.input with
  | some input => if input.timer then drainInput clock 0 input.steps input.last input.lastText p.written else p
  | none       => p

inductive Event where
  | write (data : JsString) (paced : Bool) (clock : Nat → Int)
  | fire (clock : Nat → Int)

def step (p : Pty) : Event → Pty
  | .write data paced clock => write clock p data paced
  | .fire clock             => fire clock p

/-! ## What is owed -/

def bytesOf (written : List JsString) : List UInt8 := written.flatMap utf8

def waiting (p : Pty) : List UInt8 := ((p.input.map (·.steps)).getD []).flatMap (fun s => utf8 s.data)

/-- The writes in call order, each interrupt alone in place of what waited when it came. -/
def asked (p : Pty) (due : List UInt8) : Event → List UInt8
  | .write data _ _ => (if data = [0x03] then bytesOf p.written else due) ++ utf8 data
  | .fire _         => due

def run (events : List Event) : Pty × List UInt8 := events.foldl (fun s e => (step s.1 e, asked s.1 s.2 e)) (⟨[], none⟩, [])

theorem bytesOf_append (p q : List JsString) : bytesOf (p ++ q) = bytesOf p ++ bytesOf q := List.flatMap_append

/-- **A drain writes what waits, from its start.** -/
theorem drainInput_bytes (clock : Nat → Int) : ∀ (k : Nat) (steps : List Waiting) (last lastText : Option Int)
    (written : List JsString),
    bytesOf (drainInput clock k steps last lastText written).written ++
    waiting (drainInput clock k steps last lastText written) =
      bytesOf written ++ steps.flatMap (fun s => utf8 s.data)
  | k, [], last, lastText, written => rfl
  | k, step :: steps, last, lastText, written => by
    rw [drainInput]
    split
    · rfl
    · dsimp only
      rw [drainInput_bytes clock _ steps, bytesOf_append, List.flatMap_cons, List.append_assoc]
      congr 1
      rw [bytesOf, List.flatMap_singleton]

theorem pacedSteps_bytes {data : JsString} (h : ¬CutsPair data) :
    (pacedSteps data).flatMap (fun s => utf8 s.data) = utf8 data := by
  have hwhole := (whole_iff data).2 h
  have hbytes := utf8_of_pairs hwhole.pairs
  rw [hwhole.text] at hbytes
  rw [pacedSteps, List.flatMap_map, hbytes]

/-- An event whose write, when it is paced, has no escape sequence that ends inside a pair. -/
def Uncut : Event → Prop
  | .write data paced _ => paced = true → ¬CutsPair data
  | .fire _             => True

def Owed (s : Pty × List UInt8) : Prop := bytesOf s.1.written ++ waiting s.1 = s.2

theorem Owed.write {p : Pty} {due : List UInt8} (h : Owed (p, due)) (clock : Nat → Int) (data : JsString) (paced : Bool)
    (hcut : paced = true → ¬CutsPair data) : Owed (Paced.write clock p data paced, asked p due (.write data paced clock)) := by
  have hcancel : Owed (if data = [0x03] then cancelInput p else p, if data = [0x03] then bytesOf p.written else due) := by
    split
    · exact List.append_nil _
    · exact h
  unfold Paced.write
  rw [show asked p due (.write data paced clock) = (if data = [0x03] then bytesOf p.written else due) ++ utf8 data from rfl]
  generalize (if data = [0x03] then bytesOf p.written else due) = due' at hcancel ⊢
  generalize (if data = [0x03] then cancelInput p else p) = q at hcancel ⊢
  have hq : bytesOf q.written ++ waiting q = due' := hcancel
  have hsteps : waiting q = ((q.input.getD ⟨[], false, none, none⟩).steps).flatMap (fun s => utf8 s.data) := by
    rw [waiting]
    cases q.input <;> rfl
  dsimp only
  split
  · next hnow =>
    -- nothing waits
    rw [Bool.and_eq_true, decide_eq_true_eq] at hnow
    have hempty : waiting q = [] := by rw [waiting, hnow.2, List.flatMap_nil]
    show bytesOf (q.written ++ [data]) ++ waiting q = due' ++ utf8 data
    rw [hempty, List.append_nil] at hq
    rw [hempty, List.append_nil, bytesOf_append, hq, bytesOf, List.flatMap_singleton]
  · have hnew : (if paced then pacedSteps data else [⟨data, false, false⟩]).flatMap (fun s => utf8 s.data) = utf8 data := by
      split
      · next hpaced => exact pacedSteps_bytes (hcut hpaced)
      · exact List.flatMap_singleton _ _
    have hall : bytesOf q.written ++ ((q.input.getD ⟨[], false, none, none⟩).steps ++
        (if paced then pacedSteps data else [⟨data, false, false⟩])).flatMap (fun s => utf8 s.data) = due' ++ utf8 data := by
      rw [List.flatMap_append, hnew, ← hsteps, ← List.append_assoc, hq]
    split
    · exact hall
    · show bytesOf (drainInput _ _ _ _ _ _).written ++ waiting (drainInput _ _ _ _ _ _) = _
      rw [drainInput_bytes]
      exact hall

theorem Owed.fire {p : Pty} {due : List UInt8} (h : Owed (p, due)) (clock : Nat → Int) : Owed (Paced.fire clock p, due) := by
  have hp : bytesOf p.written ++ waiting p = due := h
  unfold Paced.fire
  split
  · next input hinput =>
    split
    · show bytesOf (drainInput _ _ _ _ _ _).written ++ waiting (drainInput _ _ _ _ _ _) = due
      rw [drainInput_bytes]
      rwa [waiting, hinput] at hp
    · exact h
  · exact h

/-- **What was written and what waits are what was asked for, over any run.** -/
theorem owed_run (events : List Event) (h : ∀ e ∈ events, Uncut e) : Owed (run events) := by
  have hgo : ∀ (es : List Event) (s : Pty × List UInt8), (∀ e ∈ es, Uncut e) → Owed s →
      Owed (es.foldl (fun s e => (step s.1 e, asked s.1 s.2 e)) s) := by
    intro es
    induction es with
    | nil => exact fun s _ hs => hs
    | cons e es ih =>
      intro s hes hs
      refine ih _ (fun x hx => hes x (List.mem_cons_of_mem e hx)) ?_
      have he := hes e List.mem_cons_self
      cases e with
      | write data paced clock => exact Owed.write hs clock data paced he
      | fire clock => exact Owed.fire hs clock
  exact hgo events _ h rfl

end Paced
end Dormouse

import Mathlib.Data.List.AList
/-!
# Quiesce — the output and silence detector

`lib/src/lib/quiesce-detector.ts`.  The detector of a Session counts its output and, by four timers, says when it looks
busy and when it has settled.  A clock reading is an argument of every operation that takes one.  What the source
announces through `onChange` is listed: the detector as it stood each time (`Stirred.published`).

A detector is disposed of with its entry, so a disposed one is not modelled.
-/
namespace Dormouse
namespace Alert

/-! ## `cfg.alert`, in milliseconds -/

def busyCandidateGap : Int := 1500
def busyConfirmGap : Int := 500
def mightNeedAttentionGap : Int := 2000
def needsAttentionConfirm : Int := 3000
def workStartWindow : Int := 5000

/-- The longest silence that unconfirmed candidate history can span. -/
def candidateHistoryTtl : Int := busyCandidateGap + busyConfirmGap

inductive QuiesceStatus where
  | nothingToShow
  | mightBeBusy
  | busy
  | mightNeedAttention
  deriving DecidableEq

inductive DetectorTimer where
  | busyCandidate
  | busyConfirm
  | mightNeedAttention
  | settledConfirm
  deriving DecidableEq

structure QuiesceDetector where
  status                : QuiesceStatus
  /-- `none` is `-Infinity`. -/
  lastWorkExpectedAt    : Option Int
  /-- When each running timer is due. -/
  timers                : AList (fun _ : DetectorTimer => Int)
  firstOutputAt         : Option Int
  lastOutputAt          : Option Int
  outputCountSinceReset : Nat

namespace QuiesceDetector

def create : QuiesceDetector := ⟨.nothingToShow, none, ∅, none, none, 0⟩

def isConfirmedBusy (d : QuiesceDetector) : Bool := d.status = .busy || d.status = .mightNeedAttention

def clearTimers (d : QuiesceDetector) : QuiesceDetector := { d with timers := ∅ }

def resetOutputTracking (d : QuiesceDetector) : QuiesceDetector :=
  { d with firstOutputAt := none, lastOutputAt := none, outputCountSinceReset := 0 }

def reset (d : QuiesceDetector) : QuiesceDetector :=
  { d.clearTimers.resetOutputTracking with status := .nothingToShow }

def expectWork (d : QuiesceDetector) (now : Int) : QuiesceDetector := { d with lastWorkExpectedAt := some now }

def schedule (d : QuiesceDetector) (kind : DetectorTimer) (now delay : Int) : QuiesceDetector :=
  { d with timers := d.timers.insert kind (now + delay) }

end QuiesceDetector

structure Stirred where
  detector  : QuiesceDetector
  published : List QuiesceDetector

namespace Stirred

def ofDetector (d : QuiesceDetector) : Stirred := ⟨d, []⟩

def map (f : QuiesceDetector → QuiesceDetector) (s : Stirred) : Stirred := { s with detector := f s.detector }

def setStatus (s : Stirred) (status : QuiesceStatus) : Stirred :=
  if s.detector.status = status then s
  else ⟨{ s.detector with status := status }, s.published ++ [{ s.detector with status := status }]⟩

def enterMightBeBusy (s : Stirred) (now : Int) : Stirred :=
  ((s.map (·.clearTimers)).setStatus .mightBeBusy).map (·.schedule .busyConfirm now busyConfirmGap)

def startMightNeedAttentionTimer (s : Stirred) (now : Int) : Stirred :=
  s.map (·.schedule .mightNeedAttention now mightNeedAttentionGap)

def enterBusy (s : Stirred) (now : Int) : Stirred :=
  ((s.map (·.clearTimers.resetOutputTracking)).setStatus .busy).startMightNeedAttentionTimer now

def startBusyCandidateTimer (s : Stirred) (now : Int) : Stirred :=
  if .busyCandidate ∈ s.detector.timers then s else s.map (·.schedule .busyCandidate now busyCandidateGap)

def handleNothingToShowOutput (s : Stirred) (now : Int) : Stirred :=
  match s.detector.firstOutputAt with
  | none       =>
    (s.map (fun d => { d with firstOutputAt := some now, outputCountSinceReset := 1 })).startBusyCandidateTimer now
  | some first =>
    let counted := s.map (fun d => { d with outputCountSinceReset := d.outputCountSinceReset + 1 })
    if now - first ≥ busyCandidateGap then counted.enterMightBeBusy now else counted

def seedFromLatestOutput (s : Stirred) (now : Int) : Stirred :=
  match s.detector.lastOutputAt with
  | none      => s.map (·.resetOutputTracking)
  | some last =>
    (s.map (fun d => { d with firstOutputAt := some last, outputCountSinceReset := 1 })).startBusyCandidateTimer now

end Stirred

namespace QuiesceDetector

def expireHistory (d : QuiesceDetector) (now : Int) : Stirred :=
  match d.lastOutputAt with
  | some last =>
    if !d.isConfirmedBusy ∧ now - last > candidateHistoryTtl then
      (Stirred.ofDetector d.clearTimers.resetOutputTracking).setStatus .nothingToShow
    else .ofDetector d
  | none      => .ofDetector d

def unasked (d : QuiesceDetector) (now : Int) : Bool :=
  d.status = .nothingToShow && d.firstOutputAt.isNone && d.lastWorkExpectedAt.all (fun at' => now - at' > workStartWindow)

def onData (d : QuiesceDetector) (now : Int) : Stirred × Bool :=
  let s := d.expireHistory now
  if s.detector.unasked now then (s, false)
  else
    let s := s.map (fun d => { d with lastOutputAt := some now })
    (match s.detector.status with
      | .nothingToShow      => s.handleNothingToShowOutput now
      | .mightBeBusy        => s.enterBusy now
      | .busy               => s.startMightNeedAttentionTimer now
      | .mightNeedAttention => s.enterBusy now, true)

/-- A timer's callback, run at `now`: the detector behind it, and whether it has settled.  The settle of the last timer is
not among the announced states: the owner hears of it first. -/
def fire (d : QuiesceDetector) (kind : DetectorTimer) (now : Int) : Stirred × Bool :=
  let s : Stirred := .ofDetector { d with timers := d.timers.erase kind }
  match kind with
  | .busyCandidate      =>
    (if d.status = .nothingToShow ∧ d.outputCountSinceReset ≥ 2 then s.enterMightBeBusy now else s, false)
  | .busyConfirm        =>
    (if d.status = .mightBeBusy then (s.seedFromLatestOutput now).setStatus .nothingToShow else s, false)
  | .mightNeedAttention =>
    if d.status = .busy then
      -- the deadline of this timer, which may have run late
      let dueAt := (d.timers.lookup kind).getD now
      ((s.setStatus .mightNeedAttention).map
        (·.schedule .settledConfirm now (max 0 (dueAt + needsAttentionConfirm - now))), false)
    else (s, false)
  | .settledConfirm     =>
    if d.status = .mightNeedAttention then
      (s.map (fun d => { d.resetOutputTracking with status := .nothingToShow }), true)
    else (s, false)

end QuiesceDetector

end Alert
end Dormouse

import Dormouse.Steps
import Mathlib.Algebra.GroupWithZero.Nat
/-!
# The direct path of a session

`remote-lib-common/src/security/direct-path.ts` (`DirectFrameQueue`, `DirectCutover`), and of `lib/src/remote/direct` the
endpoint (`direct-endpoint.ts`) with the peer's sending half (`direct-peer.ts`).

A ciphertext is an `α` of some `size`; a relay frame is one or a signal, and signals ride the relay alone.  What the code
is injected with or awaits is chosen by the environment: whether a signal could be sent, a peer built or described, what
`bufferedAmount` reads and whether `channel.send` throws, and what the owner calls while it processes a frame.  A
`deps.fatal` has the owner dispose the endpoint.  The reasons, the causes and the announcements of a path decide nothing
here and are left out.
-/
namespace Dormouse
namespace Direct

variable {α : Type} {size : α → Nat}

/-! ## `DirectFrameQueue` -/

structure DirectFrameQueue (size : α → Nat) (maxFrames maxBytes : Nat) where
  frames    : List α
  bytes     : Nat
  bytes_eq  : bytes = (frames.map size).sum
  frames_le : frames.length ≤ maxFrames
  bytes_le  : bytes ≤ maxBytes

namespace DirectFrameQueue

variable {maxFrames maxBytes : Nat}

def empty : DirectFrameQueue size maxFrames maxBytes := ⟨[], 0, rfl, Nat.zero_le _, Nat.zero_le _⟩

/-- `none` where the frame would break either bound. -/
def push (q : DirectFrameQueue size maxFrames maxBytes) (frame : α) : Option (DirectFrameQueue size maxFrames maxBytes) :=
  if h : q.frames.length ≥ maxFrames ∨ q.bytes + size frame > maxBytes then none
  else some ⟨q.frames ++ [frame], q.bytes + size frame, by simp [q.bytes_eq], by simp; omega, by omega⟩

def shift (q : DirectFrameQueue size maxFrames maxBytes) : Option (α × DirectFrameQueue size maxFrames maxBytes) :=
  match hq : q.frames with
  | []              => none
  | frame :: frames => some (frame, ⟨frames, q.bytes - size frame, by
      have h := q.bytes_eq
      rw [hq, List.map_cons, List.sum_cons] at h
      omega, by
      have h := q.frames_le
      rw [hq, List.length_cons] at h
      omega, by
      have h := q.bytes_le
      omega⟩)

theorem push_frames {q q' : DirectFrameQueue size maxFrames maxBytes} {frame : α} (h : q.push frame = some q') :
    q'.frames = q.frames ++ [frame] := by
  unfold push at h
  split at h
  · cases h
  · cases h
    rfl

theorem shift_frames {q q' : DirectFrameQueue size maxFrames maxBytes} {frame : α} (h : q.shift = some (frame, q')) :
    q.frames = frame :: q'.frames := by
  unfold shift at h
  split at h
  · cases h
  · rename_i hq
    cases h
    exact hq

end DirectFrameQueue

def maxDirectPendingBytes : Nat := 4 * 1024 * 1024
def maxDirectPendingFrames : Nat := 8192
def directBufferHigh : Nat := 256 * 1024

abbrev Pending (size : α → Nat) := DirectFrameQueue size maxDirectPendingFrames maxDirectPendingBytes

/-! ## `DirectCutover` -/

inductive DirectPath where
  | relay
  | direct
  deriving DecidableEq

inductive AttemptState where
  | idle
  | attempting
  | abandoned
  deriving DecidableEq

structure DirectCutover (size : α → Nat) where
  state    : AttemptState
  outbound : DirectPath
  inbound  : DirectPath
  held     : Pending size

inductive DirectChannelOutcome (size : α → Nat) where
  | process
  | held (queue : Pending size)
  | overflow

namespace DirectCutover

def fresh : DirectCutover size := ⟨.idle, .relay, .relay, .empty⟩

def switched (c : DirectCutover size) : Bool := c.outbound = .direct || c.inbound = .direct

/-- Claims the session's one attempt; `none` where it was claimed before. -/
def begin (c : DirectCutover size) : Option (DirectCutover size) :=
  if c.state ≠ .idle then none else some { c with state := .attempting }

def clear (c : DirectCutover size) : DirectCutover size := { c with held := .empty }

def abandon (c : DirectCutover size) : DirectCutover size := { c with state := .abandoned }.clear

def switchOutbound (c : DirectCutover size) : DirectCutover size := { c with outbound := .direct }

def onRelayTransport (c : DirectCutover size) : Bool := !(c.inbound = .direct)

/-- The held frames, in arrival order; `none` is `fatal`. -/
def onSwitchDecrypted (c : DirectCutover size) : Option (List α × DirectCutover size) :=
  if c.state ≠ .attempting then none else some (c.held.frames, { c with inbound := .direct, held := .empty })

def onChannelFrame (c : DirectCutover size) (frame : α) : DirectChannelOutcome size :=
  if c.inbound = .direct then .process
  else
    match c.held.push frame with
    | some q => .held q
    | none   => .overflow

end DirectCutover

/-! ## `DirectPeer`, as a sender -/

structure DirectPeer (size : α → Nat) where
  opened   : Bool
  closed   : Bool
  outbound : Pending size

namespace DirectPeer

def fresh : DirectPeer size := ⟨false, false, .empty⟩

def isOpen (p : DirectPeer size) : Bool := p.opened && !p.closed

def close (p : DirectPeer size) : DirectPeer size := { p with closed := true, outbound := .empty }

end DirectPeer

/-! ## `DirectEndpoint` -/

inductive DirectSignal where
  | offer
  | answer
  | decline
  | switch
  deriving DecidableEq

inductive Frame (α : Type) where
  | app (ciphertext : α)
  | signal (signal : DirectSignal)
  deriving DecidableEq

inductive DirectRole where
  | offerer
  | answerer
  deriving DecidableEq

/-- An endpoint, and what it has done: the messages it was handed or sealed, in order; its two links out; and the frames
its owner has processed. -/
structure DirectEndpoint (size : α → Nat) where
  role       : DirectRole
  cutover    : DirectCutover size
  /-- The attempt's peer; a disposed endpoint keeps one only to flush it. -/
  peer       : Option (DirectPeer size)
  disposed   : Bool
  owesAnswer : Bool
  /-- `offer` or `#answer` is suspended on its description. -/
  describing : Bool
  /-- `deps.isCurrent()` -/
  current    : Bool
  /-- `deps.fatal` was called. -/
  ended      : Bool
  sent       : List (Frame α)
  relay      : Steps.Fifo (Frame α)
  channel    : Steps.Fifo α
  processed  : List (Frame α)

/-- What the channel does with one write: its `bufferedAmount` before it, and whether `send` returns. -/
structure Write where
  buffered : Nat
  accepts  : Bool

namespace DirectEndpoint

def fresh (role : DirectRole) : DirectEndpoint size :=
  ⟨role, .fresh, none, false, false, false, true, false, [], .empty, .empty, []⟩

def alive (e : DirectEndpoint size) : Bool := !e.disposed && e.current

def dispose (e : DirectEndpoint size) : DirectEndpoint size :=
  if e.disposed then e else { e with disposed := true, peer := none, cutover := e.cutover.clear }

def disposeAfterFlush (e : DirectEndpoint size) : DirectEndpoint size :=
  if e.disposed then e
  else { e.dispose with peer := if e.cutover.outbound = .direct then e.peer else none }

/-- `deps.fatal`: the owner disposes the endpoint. -/
def fatal (e : DirectEndpoint size) : DirectEndpoint size := { e.dispose with ended := true }

def giveUp (e : DirectEndpoint size) : DirectEndpoint size × Bool :=
  if e.cutover.switched then (e.fatal, false)
  else ({ e with peer := none, cutover := e.cutover.abandon }, true)

/-- `deps.sendSignal`; `takes` is what it answers. -/
def sendSignal (e : DirectEndpoint size) (s : DirectSignal) (takes : Bool) : DirectEndpoint size × Bool :=
  if takes then ({ e with sent := e.sent ++ [.signal s], relay := e.relay.send (.signal s) }, true) else (e, false)

def decline (e : DirectEndpoint size) (takes : Bool) : DirectEndpoint size :=
  match { e with owesAnswer := false }.giveUp with
  | (e', true)  => (e'.sendSignal .decline takes).1
  | (e', false) => e'

def onClosed (e : DirectEndpoint size) (takes : Bool) : DirectEndpoint size :=
  if !e.alive then e
  else if e.owesAnswer then e.decline takes
  else e.giveUp.1

/-- `#fail` of the endpoint's peer. -/
def fail (e : DirectEndpoint size) (p : DirectPeer size) (takes : Bool) : DirectEndpoint size :=
  if p.closed then e else { e with peer := some p.close }.onClosed takes

/-- `DirectPeer.send`. -/
def peerSend (e : DirectEndpoint size) (p : DirectPeer size) (a : α) (w : Write) (takes : Bool) : DirectEndpoint size :=
  if !p.isOpen then e
  -- once anything is queued, everything queues
  else if p.outbound.frames.length = 0 ∧ w.buffered < directBufferHigh then
    if w.accepts then { e with channel := e.channel.send a } else e.fail p takes
  else
    match p.outbound.push a with
    | some q => { e with peer := some { p with outbound := q } }
    | none   => e.fail p takes

/-- `send`; every message it is handed counts as sent. -/
def send (e : DirectEndpoint size) (a : α) (w : Write) (takes : Bool) : DirectEndpoint size :=
  let e' := { e with sent := e.sent ++ [.app a] }
  if e.disposed then e'
  else if e.cutover.outbound ≠ .direct then { e' with relay := e.relay.send (.app a) }
  else
    match e.peer with
    | none   => e'
    | some p => e'.peerSend p a w takes

/-- `DirectPeer.#drain`: one reading and one write a frame, and a last reading that stops it. -/
def drain (e : DirectEndpoint size) (takes : Bool) : List Write → DirectEndpoint size
  | []      => e
  | w :: ws =>
    match e.peer with
    | none   => e
    | some p =>
      if !p.isOpen then e
      else if directBufferHigh ≤ w.buffered then e
      else
        match p.outbound.shift with
        | none        => e
        | some (f, q) =>
          if w.accepts then
            drain { e with peer := some { p with outbound := q }, channel := e.channel.send f } takes ws
          else e.fail { p with outbound := q } takes

end DirectEndpoint

/-- What an owner calls on its endpoint, at any time or while it processes a frame. -/
inductive OwnerCall (α : Type) where
  | send (a : α) (w : Write) (takes : Bool)
  | dispose
  | disposeAfterFlush
  /-- the session is replaced -/
  | retire

/-- What `deps.receive` does with a frame: its calls, or `none` for a ciphertext that does not open. -/
abbrev Reaction (α : Type) := Option (List (OwnerCall α))

namespace DirectEndpoint

def owner (e : DirectEndpoint size) : OwnerCall α → DirectEndpoint size
  | .send a w takes    => e.send a w takes
  | .dispose           => e.dispose
  | .disposeAfterFlush => e.disposeAfterFlush
  | .retire            => { e with current := false }

/-- `deps.receive`. -/
def receive (e : DirectEndpoint size) (f : Frame α) : Reaction α → DirectEndpoint size
  | none       => e.fatal
  | some calls => calls.foldl owner { e with processed := e.processed ++ [f] }

def deliverHeld (e : DirectEndpoint size) (script : List (Reaction α)) : List α → DirectEndpoint size
  | []              => e
  | frame :: frames =>
    if !e.alive then e
    else deliverHeld (e.receive (.app frame) (script.headD (some []))) script.tail frames

/-- `#build`, past the `begin` of the attempt. -/
def build (e : DirectEndpoint size) : DirectEndpoint size := { e with peer := some .fresh, describing := true }

/-- `#answer`, up to its await. -/
def answer (e : DirectEndpoint size) (builds takes : Bool) : DirectEndpoint size :=
  match e.cutover.begin with
  | none   => e
  | some c =>
    let e' := { e with cutover := c, owesAnswer := true }
    if builds then e'.build else e'.decline takes

def onSignal (e : DirectEndpoint size) (builds takes : Bool) (script : List (Reaction α)) :
    DirectSignal → DirectEndpoint size
  | .offer   => if e.alive ∧ e.role = .answerer then e.answer builds takes else e
  -- the answer goes to the peer connection
  | .answer  => e
  | .decline => if e.alive ∧ e.role = .offerer then e.giveUp.1 else e
  | .switch  =>
    if !e.alive then e
    else
      match e.cutover.onSwitchDecrypted with
      | none             => e.fatal
      | some (frames, c) => { e with cutover := c }.deliverHeld script frames

/-- `onRelayFrame`; `decodes` where the envelope's text does. -/
def onRelayFrame (e : DirectEndpoint size) (decodes builds takes : Bool) (script : List (Reaction α)) (f : Frame α) :
    DirectEndpoint size :=
  if !e.alive then e
  else if !e.cutover.onRelayTransport then e.fatal
  else if !decodes then e.fatal
  else
    let e' := e.receive f (script.headD (some []))
    match f with
    | .app _    => e'
    | .signal s => if (script.headD (some [])).isSome then e'.onSignal builds takes script.tail s else e'

/-- `#onFrame`. -/
def onFrame (e : DirectEndpoint size) (a : α) (r : Reaction α) : DirectEndpoint size :=
  if !e.alive then e
  else
    match e.cutover.onChannelFrame a with
    | .process  => e.receive (.app a) r
    | .held q   => { e with cutover := { e.cutover with held := q } }
    | .overflow => e.fatal

/-- `DirectPeer.#onOpen` and the endpoint's; `fits` where the association takes a Noise message. -/
def onOpen (e : DirectEndpoint size) (fits takes : Bool) : DirectEndpoint size :=
  match e.peer with
  | none   => e
  | some p =>
    if p.closed || p.opened then e
    else if !fits then e.fail p takes
    else
      let e' := { e with peer := some { p with opened := true } }
      if !e'.alive then e'
      else
        match e'.sendSignal .switch takes with
        | (e'', false) => e''.giveUp.1
        | (e'', true)  => { e'' with cutover := e''.cutover.switchOutbound }

/-- `offer`, up to its await. -/
def offer (e : DirectEndpoint size) (builds : Bool) : DirectEndpoint size :=
  if e.role ≠ .offerer then e
  else
    match e.cutover.begin with
    | none   => e
    | some c =>
      let e' := { e with cutover := c }
      if builds then e'.build else e'.giveUp.1

/-- `offer` and `#answer` past their await; `sdp` where there is a description to send. -/
def described (e : DirectEndpoint size) (sdp takes : Bool) : DirectEndpoint size :=
  if !e.describing then e
  else
    let e' := { e with describing := false }
    if !(e'.alive && e'.peer.isSome) then { e' with peer := e'.peer.map .close }
    else
      match e'.role with
      | .offerer =>
        if !sdp then e'.giveUp.1
        else
          match e'.sendSignal .offer takes with
          | (e'', false) => e''.giveUp.1
          | (e'', true)  => e''
      | .answerer =>
        if !sdp then e'.decline takes
        else
          match { e' with owesAnswer := false }.sendSignal .answer takes with
          | (e'', false) => e''.giveUp.1
          | (e'', true)  => e''

/-- `#onViolation`; a refused path closes its peer first. -/
def onViolation (e : DirectEndpoint size) (refused : Bool) : DirectEndpoint size :=
  match e.peer with
  | none   => e
  | some p =>
    if p.closed then e
    else
      let e' := if refused then { e with peer := some p.close } else e
      if e'.alive then e'.fatal else e'

def handoffExpired (e : DirectEndpoint size) : DirectEndpoint size :=
  if e.alive ∧ e.cutover.outbound = .direct ∧ e.cutover.inbound = .relay then e.fatal else e

end DirectEndpoint

end Direct
end Dormouse

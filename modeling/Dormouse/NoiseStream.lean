import Dormouse.Framing
import Dormouse.Steps
import Mathlib.Data.List.Forall2
import Mathlib.Algebra.GroupWithZero.Nat
/-!
# The application byte stream of a Noise session

`remote-lib-common/src/security/noise-transport.ts`: `chunkAppMessage` and `StreamReassembler`, with the `u32` helpers of
`bytes.ts`.  A `Uint8Array` is the list of its bytes; a typed-array write past the end (`setBytes`) is the `RangeError` it
throws, which no reachable reassembler meets (`push_spec`).

The reassembler's buffer is refined to its live bytes (`live`): what `push` answers is what `Framing.parse` answers on the
live bytes with the body behind them.
-/
namespace Dormouse

abbrev Bytes := List UInt8

namespace Noise

/-! ## `u32` -/

/-- The bytes `writeUint32BE` writes. -/
def uint32BE (value : Nat) : Bytes :=
  [(value / 16777216 % 256).toUInt8, (value / 65536 % 256).toUInt8, (value / 256 % 256).toUInt8, (value % 256).toUInt8]

def byteAt (bytes : Bytes) (offset : Nat) : Nat := (bytes[offset]?.getD 0).toNat

def readUint32BE (bytes : Bytes) (offset : Nat) : Nat :=
  byteAt bytes offset * 16777216 + byteAt bytes (offset + 1) * 65536 + byteAt bytes (offset + 2) * 256 +
    byteAt bytes (offset + 3)

theorem readUint32BE_uint32BE {n : Nat} (h : n < 4294967296) (l : Bytes) : readUint32BE (uint32BE n ++ l) 0 = n := by
  have hb : ∀ k : Nat, (k % 256).toUInt8.toNat = k % 256 := fun k => by
    rw [Nat.toUInt8_eq, UInt8.toNat_ofNat']
    omega
  simp only [readUint32BE, byteAt, uint32BE, List.cons_append, List.getElem?_cons_zero, List.getElem?_cons_succ,
    Option.getD_some, hb, Nat.zero_add, List.nil_append]
  omega

/-! ## `chunkAppMessage` -/

def noiseMaxMessageLength : Nat := 65535
def noiseTagLength : Nat := 16
def appLengthPrefixSize : Nat := 4
def maxAppMessageLength : Nat := 1048576
def maxStreamBodyLength : Nat := noiseMaxMessageLength - noiseTagLength - 1

inductive NoiseFault where
  /-- `reassembly already failed` -/
  | alreadyFailed
  /-- `stream body exceeds one Noise message` -/
  | bodyTooLong
  /-- `application message exceeds the 1 MiB cap` -/
  | messageTooLong
  /-- a typed-array write past the array's end, no `NoiseError` -/
  | range
  /-- `message exceeds the Noise maximum` -/
  | overLength
  /-- `nonce counter exhausted` -/
  | nonceExhausted
  /-- `ChaChaPoly authentication failed` -/
  | authentication
  /-- `transport plaintext is empty` -/
  | emptyPlaintext
  /-- `keepalive body must be 32 bytes` -/
  | keepaliveLength
  /-- `keepalive body must be zero` -/
  | keepaliveZero
  /-- `unknown transport kind` -/
  | unknownKind
  /-- `control message exceeds the control payload size` -/
  | controlTooLong
  /-- `control body is not the control payload size` -/
  | controlLength
  /-- `control message is not JSON` -/
  | controlJson
  /-- `control message is not an object` -/
  | controlObject
  /-- `transport failure` -/
  | transport
  /-- `session is destroyed: …` -/
  | destroyed (poison : NoiseFault)
  deriving DecidableEq

/-- The slices of `size` bytes from the front, the last one shorter. -/
def slices (size : Nat) (l : Bytes) : List Bytes :=
  if _h : 0 < size ∧ l ≠ [] then l.take size :: slices size (l.drop size) else []
termination_by l.length
decreasing_by
  have := List.length_pos_iff.2 _h.2
  rw [List.length_drop]
  omega

def chunkAppMessage (message : Bytes) : Except NoiseFault (List Bytes) :=
  if message.length > maxAppMessageLength then .error .messageTooLong
  else .ok (slices maxStreamBodyLength (uint32BE message.length ++ message))

/-! ## `StreamReassembler` -/

def retainedBufferCapacity : Nat := maxStreamBodyLength + appLengthPrefixSize
def maxBufferCapacity : Nat := appLengthPrefixSize + maxAppMessageLength + maxStreamBodyLength
def initialBufferCapacity : Nat := 1024

structure StreamReassembler where
  buffer : Bytes
  start  : Nat
  stop   : Nat
  failed : Bool

namespace StreamReassembler

def fresh : StreamReassembler := ⟨[], 0, 0, false⟩

def capacity (r : StreamReassembler) : Nat := r.buffer.length

def queued (r : StreamReassembler) : Nat := r.stop - r.start

def live (r : StreamReassembler) : Bytes := (r.buffer.take r.stop).drop r.start

/-- `TypedArray.set`; `none` is the `RangeError`. -/
def setBytes (buffer : Bytes) (offset : Nat) (xs : Bytes) : Option Bytes :=
  if offset + xs.length ≤ buffer.length then
    some (buffer.take offset ++ xs ++ buffer.drop (offset + xs.length))
  else none

/-- `copyWithin(0, start, end)`. -/
def copyToFront (buffer : Bytes) (start stop : Nat) : Bytes :=
  (buffer.take stop).drop start ++ buffer.drop (stop - start)

def grownCapacity (r : StreamReassembler) (needed : Nat) : Nat :=
  min maxBufferCapacity (max needed (max (r.buffer.length * 2) initialBufferCapacity))

/-- The buffer with the live window at its front and room behind it. -/
def makeRoom (r : StreamReassembler) (needed : Nat) : Option Bytes :=
  if needed ≤ r.buffer.length then some (copyToFront r.buffer r.start r.stop)
  else setBytes (List.replicate (r.grownCapacity needed) 0) 0 r.live

def append (r : StreamReassembler) (body : Bytes) : Option StreamReassembler :=
  if r.stop + body.length > r.buffer.length then
    (r.makeRoom (r.queued + body.length)).bind fun moved =>
      (setBytes moved r.queued body).map (⟨·, 0, r.queued + body.length, r.failed⟩)
  else (setBytes r.buffer r.stop body).map (⟨·, r.start, r.stop + body.length, r.failed⟩)

def fail (_ : StreamReassembler) : StreamReassembler := ⟨[], 0, 0, true⟩

/-- Nothing is queued: rewind, and release a buffer one big message grew. -/
def drain (r : StreamReassembler) : StreamReassembler :=
  { r with start := 0, stop := 0, buffer := if r.buffer.length > retainedBufferCapacity then [] else r.buffer }

/-- The loop of `push`: the messages from `start` on and where it stops; `none` is a length over the cap. -/
def takeMessages (buffer : Bytes) (stop start : Nat) : Option (List Bytes × Nat) :=
  if stop - start < appLengthPrefixSize then some ([], start)
  else
    let length := readUint32BE buffer start
    if length > maxAppMessageLength then none
    else if stop - start < appLengthPrefixSize + length then some ([], start)
    else
      let from' := start + appLengthPrefixSize
      (takeMessages buffer stop (from' + length)).map
        (fun r => ((buffer.take (from' + length)).drop from' :: r.1, r.2))
termination_by stop - start
decreasing_by
  unfold appLengthPrefixSize at *
  omega

/-- `push`, past the copy of the body into the buffer. -/
def pushed (r : StreamReassembler) : StreamReassembler × Except NoiseFault (List Bytes) :=
  match takeMessages r.buffer r.stop r.start with
  | none             => (r.fail, .error .messageTooLong)
  | some (ms, start) =>
    let r' : StreamReassembler := { r with start := start }
    (if r'.start = r'.stop then r'.drain else r', .ok ms)

def push (r : StreamReassembler) (body : Bytes) : StreamReassembler × Except NoiseFault (List Bytes) :=
  if r.failed then (r, .error .alreadyFailed)
  else if body.length > maxStreamBodyLength then (r.fail, .error .bodyTooLong)
  else
    match (if 0 < body.length then r.append body else some r) with
    | none    => (r, .error .range)
    | some r' => r'.pushed

/-! ## Refinement to the live bytes -/

end StreamReassembler

theorem readUint32BE_take (l : Bytes) : readUint32BE (l.take 4) 0 = readUint32BE l 0 := by
  simp [readUint32BE, byteAt]

/-- The stream's framing: a `u32` length, capped. -/
def appFormat : Framing.Format UInt8 :=
  ⟨appLengthPrefixSize, fun l => readUint32BE l 0, maxAppMessageLength, by decide, readUint32BE_take⟩

def appWriter : appFormat.Writer :=
  ⟨uint32BE, fun _ => rfl, fun n hn => by
    have := readUint32BE_uint32BE (n := n) (by
      have : n ≤ 1048576 := hn
      omega) []
    rwa [List.append_nil] at this⟩

namespace StreamReassembler

structure Bounded (r : StreamReassembler) : Prop where
  start_le : r.start ≤ r.stop
  stop_le  : r.stop ≤ r.capacity
  cap      : r.capacity ≤ maxBufferCapacity

/-- What holds between pushes: the bounds, and no complete message queued. -/
structure Idle (r : StreamReassembler) : Prop extends Bounded r where
  waits : appFormat.parse r.live = some ([], r.live)

section
variable {r : StreamReassembler}

theorem Bounded.length_live (h : r.Bounded) : r.live.length = r.queued := by
  have h1 := h.start_le
  have h2 : r.stop ≤ r.buffer.length := h.stop_le
  rw [live, List.length_drop, List.length_take, queued, Nat.min_eq_left h2]

theorem length_setBytes (buffer : Bytes) (offset : Nat) (xs : Bytes) (h : offset + xs.length ≤ buffer.length) :
    ∃ b, setBytes buffer offset xs = some b ∧ b.length = buffer.length ∧
      b.take (offset + xs.length) = buffer.take offset ++ xs := by
  refine ⟨_, if_pos h, ?_, ?_⟩
  · simp only [List.length_append, List.length_take, List.length_drop]
    omega
  · rw [List.take_left']
    rw [List.length_append, List.length_take, Nat.min_eq_left (by omega)]

theorem makeRoom_spec (h : r.Bounded) {needed : Nat} (hq : r.queued ≤ needed) (hm : needed ≤ maxBufferCapacity) :
    ∃ b, r.makeRoom needed = some b ∧ needed ≤ b.length ∧ b.length ≤ maxBufferCapacity ∧ b.take r.queued = r.live := by
  have hlive := h.length_live
  have hcap : r.buffer.length ≤ maxBufferCapacity := h.cap
  have hstop : r.stop ≤ r.buffer.length := h.stop_le
  unfold makeRoom
  split
  · rename_i hn
    refine ⟨_, rfl, ?_, ?_, ?_⟩
    all_goals unfold copyToFront
    · rw [List.length_append, ← live, hlive, List.length_drop, queued]
      unfold queued at hq
      omega
    · rw [List.length_append, ← live, hlive, List.length_drop, queued]
      omega
    · rw [← live, ← hlive, List.take_left]
  · have hgrown : needed ≤ r.grownCapacity needed ∧ r.grownCapacity needed ≤ maxBufferCapacity := by
      unfold grownCapacity
      omega
    obtain ⟨b, hb, hlen, htake⟩ := length_setBytes (List.replicate (r.grownCapacity needed) 0) 0 r.live
      (by rw [List.length_replicate, hlive]; omega)
    rw [List.length_replicate] at hlen
    refine ⟨b, hb, by omega, by omega, ?_⟩
    rw [← hlive, ← Nat.zero_add r.live.length, htake]
    rfl

/-- **Copying a body in puts it behind the live bytes.** -/
theorem append_spec (h : r.Bounded) {body : Bytes} (hm : r.queued + body.length ≤ maxBufferCapacity) :
    ∃ r', r.append body = some r' ∧ r'.Bounded ∧ r'.live = r.live ++ body ∧ r'.failed = r.failed := by
  have hlive := h.length_live
  have hcap : r.buffer.length ≤ maxBufferCapacity := h.cap
  have hstart := h.start_le
  unfold append
  split
  · obtain ⟨moved, hmoved, hlen, hmax, htake⟩ := makeRoom_spec h (Nat.le_add_right _ body.length) hm
    obtain ⟨b, hb, hbl, hbt⟩ := length_setBytes moved r.queued body hlen
    rw [hmoved, Option.bind_some, hb]
    refine ⟨_, rfl, ⟨Nat.zero_le _, ?_, ?_⟩, ?_, rfl⟩
    · show r.queued + body.length ≤ b.length
      omega
    · show b.length ≤ maxBufferCapacity
      omega
    · show (b.take (r.queued + body.length)).drop 0 = r.live ++ body
      rw [hbt, htake, List.drop_zero]
  · rename_i hfit
    obtain ⟨b, hb, hbl, hbt⟩ := length_setBytes r.buffer r.stop body (by omega)
    rw [hb]
    refine ⟨_, rfl, ⟨?_, ?_, ?_⟩, ?_, rfl⟩
    · show r.start ≤ r.stop + body.length
      omega
    · show r.stop + body.length ≤ b.length
      omega
    · show b.length ≤ maxBufferCapacity
      omega
    · show (b.take (r.stop + body.length)).drop r.start = r.live ++ body
      have hstop : r.stop ≤ r.buffer.length := h.stop_le
      rw [hbt, List.drop_append_of_le_length (by rw [List.length_take]; omega), live]

theorem takeMessages_eq {buffer : Bytes} {stop : Nat} (hb : stop ≤ buffer.length) (start : Nat) (hs : start ≤ stop) :
    takeMessages buffer stop start =
      (appFormat.parse ((buffer.take stop).drop start)).map (fun r => (r.1, stop - r.2.length)) := by
  have hlen : ((buffer.take stop).drop start).length = stop - start := by
    rw [List.length_drop, List.length_take, Nat.min_eq_left hb]
  have hread : appLengthPrefixSize ≤ stop - start →
      readUint32BE buffer start = readUint32BE ((buffer.take stop).drop start) 0 := by
    intro h4
    unfold appLengthPrefixSize at h4
    unfold readUint32BE byteAt
    simp only [List.getElem?_drop, List.getElem?_take, Nat.zero_add, Nat.add_zero]
    rw [if_pos (by omega), if_pos (by omega), if_pos (by omega), if_pos (by omega)]
  have hwait : some (([] : List Bytes), start) =
      (some ([], (buffer.take stop).drop start)).map (fun r : List Bytes × Bytes => (r.1, stop - r.2.length)) := by
    rw [Option.map_some, hlen, Nat.sub_sub_self hs]
  rw [takeMessages]
  by_cases h4 : stop - start < appLengthPrefixSize
  · rw [if_pos h4, Framing.Format.parse_incomplete (.inl (by rw [hlen]; exact h4)), hwait]
  rw [if_neg h4]
  dsimp only
  rw [hread (by omega)]
  by_cases hc : readUint32BE ((buffer.take stop).drop start) 0 > maxAppMessageLength
  · rw [if_pos hc, Framing.Format.parse_overCap (by rw [hlen]; exact Nat.le_of_not_lt h4) hc]
    rfl
  rw [if_neg hc]
  by_cases hl : stop - start < appLengthPrefixSize + readUint32BE ((buffer.take stop).drop start) 0
  · rw [if_pos hl, Framing.Format.parse_incomplete (.inr ⟨Nat.le_of_not_lt hc, by rw [hlen]; exact hl⟩), hwait]
  · rw [if_neg hl, Framing.Format.parse_complete (by rw [hlen]; exact Nat.le_of_not_lt h4) (Nat.le_of_not_lt hc)
      (by rw [hlen]; exact Nat.le_of_not_lt hl)]
    generalize hn : readUint32BE ((buffer.take stop).drop start) 0 = n at hl
    have hsize : appFormat.size ((buffer.take stop).drop start) = n := hn
    have hheader : appFormat.header = appLengthPrefixSize := rfl
    have hrec := takeMessages_eq hb (start + appLengthPrefixSize + n) (by omega)
    have hdrop : ((buffer.take stop).drop start).drop (appLengthPrefixSize + n) =
        (buffer.take stop).drop (start + appLengthPrefixSize + n) := by
      rw [List.drop_drop, Nat.add_assoc]
    have hbody : (((buffer.take stop).drop start).drop appLengthPrefixSize).take n =
        (buffer.take (start + appLengthPrefixSize + n)).drop (start + appLengthPrefixSize) := by
      rw [List.drop_drop, List.drop_take, List.take_take, List.drop_take]
      congr 1
      omega
    rw [hrec, hsize, hheader, hdrop, hbody, Option.map_map, Option.map_map]
    rfl
termination_by stop - start
decreasing_by
  unfold appLengthPrefixSize at *
  omega

theorem waits_nil : appFormat.parse [] = some ([], []) := Framing.Format.parse_incomplete (.inl (by decide))

theorem empty_idle (failed : Bool) : (⟨[], 0, 0, failed⟩ : StreamReassembler).Idle :=
  ⟨⟨Nat.le_refl _, Nat.le_refl _, Nat.zero_le _⟩, waits_nil⟩

theorem Idle.room (h : r.Idle) : r.queued < appLengthPrefixSize + maxAppMessageLength := by
  rw [← h.length_live]
  exact (Framing.Format.parse_rest _ h.waits).1

theorem pushed_spec (h : r.Bounded) :
    (appFormat.parse r.live = none ∧ r.pushed = (r.fail, .error .messageTooLong)) ∨
    ∃ ms rest r', appFormat.parse r.live = some (ms, rest) ∧ r.pushed = (r', .ok ms) ∧ r'.Idle ∧ r'.live = rest ∧
      r'.failed = r.failed := by
  have hlive := h.length_live
  have htake := takeMessages_eq h.stop_le r.start h.start_le
  rw [← live] at htake
  unfold pushed
  cases hp : appFormat.parse r.live with
  | none =>
    rw [htake, hp]
    exact .inl ⟨rfl, rfl⟩
  | some res =>
    obtain ⟨ms, rest⟩ := res
    obtain ⟨_, hwaits⟩ := Framing.Format.parse_rest _ hp
    obtain ⟨taken, hsuffix⟩ := Framing.Format.parse_suffix _ hp
    have hle : rest.length ≤ r.queued := by
      rw [← hlive, hsuffix, List.length_append]
      omega
    rw [htake, hp]
    refine .inr ⟨ms, rest, _, rfl, rfl, ?_⟩
    have hstop : r.stop ≤ r.buffer.length := h.stop_le
    have hstart := h.start_le
    have hcap : r.buffer.length ≤ maxBufferCapacity := h.cap
    unfold queued at hle
    dsimp only
    split
    · rename_i heq
      have hnil : rest = [] := List.length_eq_zero_iff.1 (by omega)
      refine ⟨⟨⟨Nat.le_refl _, Nat.zero_le _, ?_⟩, waits_nil⟩, ?_, rfl⟩
      · show (if r.buffer.length > retainedBufferCapacity then ([] : Bytes) else r.buffer).length ≤ maxBufferCapacity
        split
        · exact Nat.zero_le _
        · exact hcap
      · rw [hnil]
        rfl
    · have hrest : (r.buffer.take r.stop).drop (r.stop - rest.length) = rest := by
        have hd : (r.buffer.take r.stop).drop (r.stop - rest.length) = r.live.drop taken.length := by
          rw [live, List.drop_drop]
          congr 1
          rw [hsuffix, List.length_append] at hlive
          unfold queued at hlive
          omega
        rw [hd, hsuffix, List.drop_left]
      refine ⟨⟨⟨Nat.sub_le _ _, hstop, hcap⟩, ?_⟩, hrest, rfl⟩
      show appFormat.parse ((r.buffer.take r.stop).drop (r.stop - rest.length)) =
        some ([], (r.buffer.take r.stop).drop (r.stop - rest.length))
      rw [hrest]
      exact hwaits

theorem push_failed (h : r.failed = true) (body : Bytes) : r.push body = (r, .error .alreadyFailed) := if_pos h

theorem push_tooLong (h : r.failed = false) {body : Bytes} (hb : body.length > maxStreamBodyLength) :
    r.push body = (⟨[], 0, 0, true⟩, .error .bodyTooLong) := by
  rw [push, if_neg (by simp [h]), if_pos hb]
  rfl

/-- **`push` refines the framing of the live bytes**: it never writes past its buffer, keeps its bounds, and answers what
`parse` answers. -/
theorem push_spec (h : r.Idle) (hf : r.failed = false) {body : Bytes} (hb : body.length ≤ maxStreamBodyLength) :
    (appFormat.parse (r.live ++ body) = none ∧ r.push body = (⟨[], 0, 0, true⟩, .error .messageTooLong)) ∨
    ∃ ms rest r', appFormat.parse (r.live ++ body) = some (ms, rest) ∧ r.push body = (r', .ok ms) ∧ r'.Idle ∧
      r'.live = rest ∧ r'.failed = false := by
  obtain ⟨r₁, h₁, hbound, hlive, hfail⟩ : ∃ r₁, (if 0 < body.length then r.append body else some r) = some r₁ ∧
      r₁.Bounded ∧ r₁.live = r.live ++ body ∧ r₁.failed = r.failed := by
    split
    · refine append_spec h.toBounded ?_
      have := h.room
      unfold maxBufferCapacity
      omega
    · have hnil : body = [] := List.length_eq_zero_iff.1 (by omega)
      exact ⟨r, rfl, h.toBounded, by rw [hnil, List.append_nil], rfl⟩
  rw [push, if_neg (by simp [hf]), if_neg (by omega), h₁, ← hlive]
  rcases pushed_spec hbound with ⟨hp, hr⟩ | ⟨ms, rest, r', hp, hr, hidle, hrest, hfail'⟩
  · exact .inl ⟨hp, hr⟩
  · exact .inr ⟨ms, rest, r', hp, hr, hidle, hrest, by rw [hfail', hfail, hf]⟩

theorem push_idle (h : r.Idle) (body : Bytes) : (r.push body).1.Idle := by
  cases hf : r.failed with
  | true =>
    rw [push_failed hf]
    exact h
  | false =>
    by_cases hb : body.length ≤ maxStreamBodyLength
    · rcases push_spec h hf hb with ⟨_, hr⟩ | ⟨_, _, r', _, hr, hidle, _⟩
      · rw [hr]
        exact empty_idle true
      · rw [hr]
        exact hidle
    · rw [push_tooLong hf (by omega)]
      exact empty_idle true

end

/-! ## A run of pushes -/

def pushAll (r : StreamReassembler) : List Bytes → StreamReassembler × List (Except NoiseFault (List Bytes))
  | []             => (r, [])
  | body :: bodies =>
    let s := r.push body
    let t := pushAll s.1 bodies
    (t.1, s.2 :: t.2)

def yielded (answers : List (Except NoiseFault (List Bytes))) : List Bytes :=
  answers.flatMap (fun a => match a with | .ok ms => ms | .error _ => [])

theorem pushAll_idle : ∀ {r : StreamReassembler}, r.Idle → ∀ bodies, (r.pushAll bodies).1.Idle
  | _, h, [] => h
  | _, h, body :: bodies => pushAll_idle (push_idle h body) bodies

theorem pushAll_failed {r : StreamReassembler} (h : r.failed = true) : ∀ bodies,
    r.pushAll bodies = (r, List.replicate bodies.length (.error .alreadyFailed))
  | [] => rfl
  | body :: bodies => by
    rw [pushAll, push_failed h, pushAll_failed h bodies, List.length_cons, List.replicate_succ]

/-- **A run of pushes parses the bytes pushed.** -/
theorem pushAll_spec : ∀ {r : StreamReassembler} {bodies : List Bytes} {ms : List Bytes} {rest : Bytes}, r.Idle →
    r.failed = false → (∀ b ∈ bodies, b.length ≤ maxStreamBodyLength) →
    appFormat.parse (r.live ++ bodies.flatten) = some (ms, rest) →
    ∃ r' answers, r.pushAll bodies = (r', answers) ∧ r'.Idle ∧ r'.failed = false ∧ r'.live = rest ∧
      (∀ a ∈ answers, ∃ ms, a = .ok ms) ∧ yielded answers = ms
  | r, [], ms, rest, h, hf, _, hp => by
    rw [List.flatten_nil, List.append_nil, h.waits] at hp
    cases hp
    exact ⟨r, [], rfl, h, hf, rfl, by simp, rfl⟩
  | r, body :: bodies, ms, rest, h, hf, hb, hp => by
    rw [List.flatten_cons, ← List.append_assoc] at hp
    rcases push_spec h hf (hb body (by simp)) with ⟨hnone, _⟩ | ⟨ms₁, rest₁, r₁, hp₁, hr, hidle, hlive, hf₁⟩
    · rw [Framing.Format.parse_append_none _ _ hnone] at hp
      cases hp
    · rw [Framing.Format.parse_append _ _ hp₁, ← hlive] at hp
      obtain ⟨⟨ms₂, rest₂⟩, hp₂, he⟩ := Option.map_eq_some_iff.1 hp
      cases he
      obtain ⟨r', answers, hrun, hi, hf', hl, hok, hy⟩ := pushAll_spec hidle hf₁ (fun b hb' => hb b (by simp [hb'])) hp₂
      refine ⟨r', .ok ms₁ :: answers, ?_, hi, hf', hl, ?_, ?_⟩
      · rw [pushAll, hr]
        dsimp only
        rw [hrun]
      · intro a ha
        rcases List.mem_cons.1 ha with rfl | ha
        · exact ⟨ms₁, rfl⟩
        · exact hok a ha
      · rw [yielded, List.flatMap_cons]
        exact congrArg (ms₁ ++ ·) hy

/-- **The reassembler of a session's byte stream.**  However the stream of some messages is cut into bodies, after each
push the messages out are those whose last byte has arrived, and at the end nothing is queued; the window stays inside
the buffer and the buffer within its bound whatever is pushed; and a length over the cap fails the push that completes it
and every later one. -/
theorem reassembler_stream :
    (∀ (messages : List Bytes), (∀ m ∈ messages, m.length ≤ maxAppMessageLength) → ∀ (pre post : List Bytes),
      (∀ b ∈ pre ++ post, b.length ≤ maxStreamBodyLength) → (pre ++ post).flatten = appWriter.stream messages →
      ∃ done todo, messages = done ++ todo ∧ yielded (fresh.pushAll pre).2 = done ∧
        (∀ a ∈ (fresh.pushAll pre).2, ∃ ms, a = .ok ms) ∧
        (appWriter.stream done).length + (fresh.pushAll pre).1.queued = pre.flatten.length ∧
        (∀ m todo', todo = m :: todo' → pre.flatten.length < (appWriter.stream (done ++ [m])).length) ∧
        (post = [] → done = messages ∧ (fresh.pushAll pre).1.queued = 0)) ∧
    (∀ (bodies : List Bytes), (fresh.pushAll bodies).1.start ≤ (fresh.pushAll bodies).1.stop ∧
      (fresh.pushAll bodies).1.stop ≤ (fresh.pushAll bodies).1.capacity ∧
      (fresh.pushAll bodies).1.capacity ≤ maxBufferCapacity) ∧
    (∀ (messages : List Bytes), (∀ m ∈ messages, m.length ≤ maxAppMessageLength) → ∀ (n : Nat) (pre : List Bytes)
      (body : Bytes), maxAppMessageLength < n → n < 4294967296 →
      (∀ b ∈ pre ++ [body], b.length ≤ maxStreamBodyLength) → ∀ x y,
      pre.flatten ++ x = appWriter.stream messages ++ uint32BE n →
      pre.flatten ++ body = appWriter.stream messages ++ uint32BE n ++ y → x ≠ [] →
      (∀ a ∈ (fresh.pushAll pre).2, ∃ ms, a = .ok ms) ∧
      ((fresh.pushAll pre).1.push body).2 = .error .messageTooLong ∧
      ∀ later, ∀ a ∈ (((fresh.pushAll pre).1.push body).1.pushAll later).2, a = .error .alreadyFailed) := by
  have hfresh : fresh.Idle := empty_idle false
  refine ⟨fun messages hm pre post hb hstream => ?_, fun bodies => ?_,
    fun messages hm n pre body hn hn32 hb x y hx hy hne => ?_⟩
  · have hp : pre.flatten <+: appWriter.stream messages ++ [] := by
      rw [List.append_nil, ← hstream, List.flatten_append]
      exact List.prefix_append _ _
    have hlen := hp.length_le
    rw [List.append_nil] at hlen
    have hpos : 0 < appFormat.header := by decide
    obtain ⟨done, todo, rest, rfl, hl, hparse, hnil, hcons⟩ :=
      Framing.Format.Writer.parse_prefix hm hp (by omega)
    obtain ⟨r', answers, hrun, hidle, _, hlive, hok, hy⟩ :=
      pushAll_spec hfresh rfl (fun b hbp => hb b (by simp [hbp])) hparse
    have hq : r'.queued = rest.length := by rw [← hidle.length_live, hlive]
    rw [hrun]
    refine ⟨done, todo, rfl, hy, hok, ?_, ?_, fun hpost => ?_⟩
    · rw [hq, hl, List.length_append]
    · intro m todo' he
      have := hcons m todo' he
      rw [hl, List.length_append, Framing.Format.Writer.stream, Framing.Format.Writer.stream, List.flatMap_append,
        List.length_append]
      simpa using this
    · rw [hpost, List.append_nil, hl, Framing.Format.Writer.stream, Framing.Format.Writer.stream,
        List.flatMap_append, List.append_cancel_left_eq] at hstream
      cases todo with
      | nil =>
        refine ⟨by rw [List.append_nil], ?_⟩
        rw [hq, hstream]
        rfl
      | cons m todo' =>
        have h1 := hcons m todo' rfl
        rw [hstream, List.flatMap_cons, List.length_append] at h1
        omega
  · have h := pushAll_idle hfresh bodies
    exact ⟨h.start_le, h.stop_le, h.cap⟩
  · have hp : pre.flatten <+: appWriter.stream messages ++ uint32BE n := ⟨x, hx⟩
    have hxlen := List.length_pos_iff.2 hne
    have hlen := congrArg List.length hx
    rw [List.length_append, List.length_append] at hlen
    have hn4 : (uint32BE n).length = appFormat.header := rfl
    obtain ⟨done, todo, rest, rfl, hl, hparse, _⟩ := Framing.Format.Writer.parse_prefix hm hp (by omega)
    obtain ⟨r', answers, hrun, hidle, hf, hlive, hok, _⟩ :=
      pushAll_spec hfresh rfl (fun b hbp => hb b (by simp [hbp])) hparse
    have hover : appFormat.parse (pre.flatten ++ body) = none := by
      rw [hy, List.append_assoc]
      refine Framing.Format.Writer.parse_stream_overCap (by rw [List.length_append]; omega) ?_ hm
      show maxAppMessageLength < readUint32BE (uint32BE n ++ y) 0
      rw [readUint32BE_uint32BE hn32]
      exact hn
    rw [hrun]
    have hrest : appFormat.parse (r'.live ++ body) = none := by
      rw [Framing.Format.parse_append _ _ hparse, ← hlive] at hover
      exact Option.map_eq_none_iff.1 hover
    rcases push_spec hidle hf (hb body (by simp)) with ⟨_, hr⟩ | ⟨ms, rest', r'', hsome, _⟩
    · rw [hr]
      refine ⟨hok, rfl, fun later a ha => ?_⟩
      rw [pushAll_failed rfl] at ha
      exact List.eq_of_mem_replicate ha
    · rw [hrest] at hsome
      cases hsome

theorem reassembler_stream_two :
    yielded (fresh.pushAll [[0, 0, 0, 2, 7], [8, 0, 0], [0, 1, 9]]).2 = [[7, 8], [9]] := by
  obtain ⟨done, todo, _, hy, _, _, _, hend⟩ := reassembler_stream.1 [[7, 8], [9]] (by decide)
    [[0, 0, 0, 2, 7], [8, 0, 0], [0, 1, 9]] [] (by decide) (by decide)
  rw [hy, (hend rfl).1]

end StreamReassembler

/-! ## `chunkAppMessage`'s own bodies -/

theorem slices_nil (size : Nat) : slices size [] = [] := by
  rw [slices, dif_neg (by simp)]

theorem slices_spec {size : Nat} (hs : 0 < size) (l : Bytes) :
    (slices size l).flatten = l ∧ ∀ b ∈ slices size l, b.length ≤ size := by
  by_cases hl : l = []
  · subst hl
    rw [slices_nil]
    simp
  · have hlen := List.length_pos_iff.2 hl
    obtain ⟨hflat, hle⟩ := slices_spec hs (l.drop size)
    rw [slices, dif_pos ⟨hs, hl⟩]
    refine ⟨by rw [List.flatten_cons, hflat, List.take_append_drop], fun b hb => ?_⟩
    rcases List.mem_cons.1 hb with rfl | hb
    · rw [List.length_take]
      omega
    · exact hle b hb
termination_by l.length
decreasing_by
  rw [List.length_drop]
  omega

/-- **The bodies of one message are its frame, cut to fit Noise messages.** -/
theorem chunkAppMessage_spec {message : Bytes} (h : message.length ≤ maxAppMessageLength) :
    ∃ bodies, chunkAppMessage message = .ok bodies ∧ bodies.flatten = appWriter.frame message ∧
      ∀ b ∈ bodies, b.length ≤ maxStreamBodyLength := by
  obtain ⟨hflat, hle⟩ := slices_spec (show 0 < maxStreamBodyLength by decide) (uint32BE message.length ++ message)
  exact ⟨_, if_neg (by omega), hflat, hle⟩

end Noise
end Dormouse

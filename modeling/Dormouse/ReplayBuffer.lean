import Dormouse.Js
import Dormouse.Steps
import Mathlib.Data.List.DropRight
/-!
# ReplayBuffer — what the sidecar still holds of a PTY's output

The output handler, `receivedChars` and `outputSince` of `standalone/sidecar/pty-core.js`, and `sliceSince` of
`lib/src/host/replay-buffer.ts`, as the standalone host makes them: with `replay`, and with `sliceSince`.  An append drops whole
chunks off the front and trims the head, and a reader gathers chunks from the end and cuts the overshoot; what is held is always the
end of what came (`Session.Holds`), so both come to the last characters of it.
-/
namespace Dormouse
namespace Sidecar

def replayChars : Nat := 200000

/-- A buffer: what it holds, how much that is, and how much it ever received. -/
structure Session where
  chunks   : List JsString
  chars    : Int
  received : Int
  deriving DecidableEq

namespace Session

def empty : Session := ⟨[], 0, 0⟩

/-- Whole chunks dropped off the front while what is left reaches the limit. -/
def dropWhole (limit : Int) : List JsString → Int → List JsString × Int
  | chunk :: next :: rest, chars =>
    if chars - chunk.length ≥ limit then dropWhole limit (next :: rest) (chars - chunk.length) else (chunk :: next :: rest, chars)
  | chunks,                chars => (chunks, chars)

def trimHead (limit : Int) (chunks : List JsString) (chars : Int) : List JsString × Int :=
  if chars > limit then (chunks.modifyHead (fun chunk => chunk.drop (chars - limit).toNat), limit) else (chunks, chars)

def append (limit : Nat) (s : Session) (data : JsString) : Session :=
  let kept := dropWhole limit (s.chunks ++ [data]) (s.chars + data.length)
  let trimmed := trimHead limit kept.1 kept.2
  ⟨trimmed.1, trimmed.2, s.received + data.length⟩

end Session

/-- Chunks, from the newest back, until they hold what is wanted: as they are pushed, and how much they hold. -/
def gather (wanted : Int) : List JsString → Int → List JsString × Int
  | [],             held => ([], held)
  | chunk :: older, held =>
    if held < wanted then ((chunk :: (gather wanted older (held + chunk.length)).1), (gather wanted older (held + chunk.length)).2)
    else ([], held)

/-- The output received after a mark, as far back as the buffer still goes. -/
def sliceSince (chunks : List JsString) (heldChars receivedChars mark : Int) : JsString :=
  let oldestHeld := receivedChars - heldChars
  let wanted := receivedChars - max mark oldestHeld
  if wanted ≤ 0 then []
  else
    let tail := gather wanted chunks.reverse 0
    let joined := tail.1.reverse.flatten
    if tail.2 > wanted then joined.drop (tail.2 - wanted).toNat else joined

/-! ## The end of a list -/

section

variable {α : Type}

theorem rtake_append (gone kept : List α) {n : Nat} (h : gone = [] ∨ n ≤ kept.length) :
    (gone ++ kept).rtake n = kept.rtake n := by
  rcases h with rfl | h
  · rfl
  · rw [List.rtake, List.rtake, List.length_append, Nat.add_sub_assoc h, ← List.drop_drop, List.drop_left]

theorem rtake_of_length_le {l : List α} {n : Nat} (h : l.length ≤ n) : l.rtake n = l := by
  rw [List.rtake, Nat.sub_eq_zero_of_le h, List.drop_zero]

theorem rtake_split (l : List α) (n : Nat) : ∃ gone, l = gone ++ l.rtake n ∧ (gone = [] ∨ n ≤ (l.rtake n).length) := by
  refine ⟨l.take (l.length - n), (List.take_append_drop _ _).symm, ?_⟩
  rcases Nat.le_total l.length n with h | h
  · exact .inl (by rw [Nat.sub_eq_zero_of_le h, List.take_zero])
  · refine .inr ?_
    rw [List.rtake, List.length_drop]
    omega

theorem rtake_rtake (l : List α) (m n : Nat) : (l.rtake m).rtake n = l.rtake (min m n) := by
  rw [List.rtake, List.rtake, List.rtake, List.drop_drop, List.length_drop]
  congr 1
  omega

end

/-! ## Appending -/

namespace Session

/-- What dropping leaves is the end of what there was: at least the limit of it, and less without the head. -/
theorem dropWhole_spec (limit : Int) : ∀ {chunks : List JsString} {chars : Int}, chunks ≠ [] → chars = chunks.flatten.length →
    ∃ gone head rest, (dropWhole limit chunks chars).1 = head :: rest ∧ chunks.flatten = gone ++ (head :: rest).flatten ∧
      (dropWhole limit chunks chars).2 = (head :: rest).flatten.length ∧ (gone = [] ∨ limit ≤ (head :: rest).flatten.length) ∧
      (rest = [] ∨ (rest.flatten.length : Int) < limit)
  | [], chars, h, _ => absurd rfl h
  | [chunk], chars, _, hc => ⟨[], chunk, [], rfl, rfl, hc, .inl rfl, .inl rfl⟩
  | chunk :: next :: rest, chars, _, hc => by
    have hlen : chars - chunk.length = (next :: rest).flatten.length := by
      rw [hc, List.flatten_cons, List.length_append]
      omega
    rw [dropWhole]
    split
    · rename_i hge
      obtain ⟨gone, head, rest', hkept, hflat, hchars, hgone, hrest⟩ :=
        dropWhole_spec limit (List.cons_ne_nil next rest) hlen
      refine ⟨chunk ++ gone, head, rest', hkept, ?_, hchars, .inr ?_, hrest⟩
      · rw [List.flatten_cons, hflat, List.append_assoc]
      · rcases hgone with rfl | hle
        · rw [List.nil_append] at hflat
          rw [← hflat, ← hlen]
          exact hge
        · exact hle
    · rename_i hlt
      refine ⟨[], chunk, next :: rest, rfl, rfl, hc, .inl rfl, .inr ?_⟩
      rw [← hlen]
      omega

/-- A buffer holds the end of an output, of at most `limit` characters. -/
structure Holds (limit : Nat) (s : Session) (output : JsString) : Prop where
  chunks   : s.chunks.flatten = output.rtake limit
  chars    : s.chars = s.chunks.flatten.length
  received : s.received = output.length

theorem holds_empty (limit : Nat) : empty.Holds limit [] where
  chunks := by rw [List.rtake_nil]; rfl
  chars := rfl
  received := rfl

theorem trimHead_spec (limit : Nat) (head : JsString) {rest : List JsString} (hrest : rest = [] ∨ rest.flatten.length < limit) :
    (trimHead limit (head :: rest) (head :: rest).flatten.length).1.flatten = (head :: rest).flatten.rtake limit ∧
      (trimHead limit (head :: rest) (head :: rest).flatten.length).2 = ((head :: rest).flatten.rtake limit).length := by
  have hlen : rest.flatten.length ≤ limit := by
    rcases hrest with rfl | h
    · exact Nat.zero_le _
    · exact h.le
  rw [trimHead]
  split
  · rename_i hlong
    have hcut : (((head :: rest).flatten.length : Int) - limit).toNat = (head :: rest).flatten.length - limit := by omega
    have hhead : (head :: rest).flatten.length - limit ≤ head.length := by
      rw [List.flatten_cons, List.length_append]
      omega
    rw [hcut, List.modifyHead_cons, List.rtake, List.length_drop]
    refine ⟨?_, by omega⟩
    rw [List.flatten_cons] at hhead ⊢
    rw [List.flatten_cons, List.drop_append_of_le_length hhead]
  · rename_i hshort
    rw [rtake_of_length_le (by omega)]
    exact ⟨rfl, rfl⟩

/-- **An append** keeps the end of the output that came. -/
theorem Holds.append {limit : Nat} {s : Session} {output : JsString} (h : s.Holds limit output) (data : JsString) :
    (s.append limit data).Holds limit (output ++ data) := by
  have hall : (s.chunks ++ [data]).flatten = output.rtake limit ++ data := by
    rw [List.flatten_append, h.chunks, List.flatten_singleton]
  have hchars : s.chars + data.length = ((s.chunks ++ [data]).flatten.length : Int) := by
    rw [h.chars, hall, h.chunks, List.length_append, Nat.cast_add]
  obtain ⟨gone, head, rest, hkept, hflat, hleft, hgone, hrest⟩ :=
    dropWhole_spec limit (by simp) hchars
  obtain ⟨before, houtput, hbefore⟩ := rtake_split output limit
  have hend : (output ++ data).rtake limit = (head :: rest).flatten.rtake limit := by
    have hsplit : output ++ data = before ++ (gone ++ (head :: rest).flatten) := by
      conv => lhs; rw [houtput]
      rw [List.append_assoc, ← hall, hflat]
    rw [hsplit, rtake_append before, rtake_append gone _ (hgone.imp_right (fun hle => by omega))]
    refine hbefore.imp_right (fun hle => ?_)
    rw [← hflat, hall, List.length_append]
    omega
  obtain ⟨htrim, hlength⟩ := trimHead_spec limit head (hrest.imp_right (fun hlt => by omega))
  refine ⟨?_, ?_, ?_⟩
  · rw [Session.append, hkept, hleft, htrim, hend]
  · rw [Session.append, hkept, hleft, hlength, htrim]
  · rw [Session.append, h.received, List.length_append, Nat.cast_add]

end Session

/-! ## Reading -/

/-- What is gathered is the end of the chunks: all of them, or as much as is wanted and more. -/
theorem gather_spec (wanted : Int) : ∀ (older : List JsString) (held : Int), ∃ left, older = (gather wanted older held).1 ++ left ∧
    (gather wanted older held).2 = held + (gather wanted older held).1.flatten.length ∧
    (left = [] ∨ wanted ≤ (gather wanted older held).2)
  | [], held => ⟨[], rfl, by simp [gather], .inl rfl⟩
  | chunk :: older, held => by
    rw [gather]
    split
    · obtain ⟨left, holder, hheld, hleft⟩ := gather_spec wanted older (held + chunk.length)
      refine ⟨left, ?_, ?_, hleft⟩
      · rw [List.cons_append, ← holder]
      · rw [hheld, List.flatten_cons, List.length_append]
        push_cast
        ring
    · rename_i hle
      exact ⟨chunk :: older, rfl, by simp, .inr (by omega)⟩

theorem flatten_reverse_length (chunks : List JsString) : chunks.reverse.flatten.length = chunks.flatten.length := by
  induction chunks with
  | nil => rfl
  | cons c chunks ih =>
    rw [List.reverse_cons, List.flatten_append, List.length_append, ih, List.flatten_singleton, List.flatten_cons,
      List.length_append, Nat.add_comm]

/-- **A read** answers the end of what is held: what came after the mark, or all there is. -/
theorem sliceSince_eq (chunks : List JsString) {received mark : Int} (hmark : mark ≤ received) :
    sliceSince chunks chunks.flatten.length received mark = chunks.flatten.rtake (received - mark).toNat := by
  obtain ⟨n, hn⟩ := Int.eq_ofNat_of_zero_le (Int.sub_nonneg.2 hmark)
  have hwanted : received - max mark (received - chunks.flatten.length) = min n chunks.flatten.length := by omega
  have hmin : chunks.flatten.rtake n = chunks.flatten.rtake (min n chunks.flatten.length) := by
    rw [List.rtake, List.rtake]
    congr 1
    omega
  rw [sliceSince, hwanted, hn, Int.toNat_natCast, hmin]
  dsimp only
  generalize hw : min n chunks.flatten.length = w
  split
  · rename_i hnone
    obtain rfl : w = 0 := by omega
    rw [List.rtake_zero]
  · obtain ⟨left, hsplit, hheld, hleft⟩ := gather_spec w chunks.reverse 0
    generalize gather w chunks.reverse 0 = tail at hsplit hheld hleft ⊢
    have hchunks : chunks.flatten = left.reverse.flatten ++ tail.1.reverse.flatten := by
      rw [← List.flatten_append, ← List.reverse_append, ← hsplit, List.reverse_reverse]
    rw [Int.zero_add, ← flatten_reverse_length] at hheld
    have hlong : w ≤ tail.1.reverse.flatten.length := by
      rcases hleft with rfl | hle
      · rw [hchunks, List.reverse_nil, List.flatten_nil, List.nil_append] at hw
        omega
      · omega
    rw [hchunks, rtake_append _ _ (.inr hlong), List.rtake]
    split
    · congr 1
      omega
    · rw [Nat.sub_eq_zero_of_le (by omega), List.drop_zero]

/-- **What came after a mark**, cut to what is still held. -/
theorem Session.Holds.sliceSince {limit : Nat} {s : Session} {output since : JsString} (h : s.Holds limit (output ++ since)) :
    Sidecar.sliceSince s.chunks s.chars s.received output.length = since.rtake limit := by
  have hcount : (((output ++ since).length : Int) - output.length).toNat = since.length := by
    rw [List.length_append]
    omega
  have hmin : since.rtake (min limit since.length) = since.rtake limit := by
    rw [← rtake_rtake, rtake_of_length_le (by rw [List.rtake, List.length_drop]; omega)]
  rw [h.chars, h.received, sliceSince_eq _ (by simp), hcount, h.chunks, rtake_rtake, rtake_append _ _ (.inr (Nat.min_le_right ..)),
    hmin]

/-! ## The sidecar -/

/-- PTYs are numbered as they are spawned; each has the id it was spawned under and the buffer its output handler appends to. -/
structure Host where
  spawned  : List (JsString × Session)
  ptys     : JsString → Option Nat
  sessions : JsString → Option Nat

namespace Host

def create : Host := ⟨[], fun _ => none, fun _ => none⟩

inductive Event where
  | spawn (id : JsString)
  | data (pty : Nat) (text : JsString)
  | exit (pty : Nat)
  /-- Whether the PTY is stopped, or throws. -/
  | kill (id : JsString) (stopped : Bool)
  | killAll (stopped : Bool)

/-- What the output handler of a PTY appends: nothing once another PTY has its id, or none. -/
def appended (h : Host) (pty : Nat) : Event → Option JsString
  | .data p text => if p = pty ∧ (h.spawned[pty]?).any (fun e => h.ptys e.1 = some pty) then some text else none
  | _            => none

def step (h : Host) : Event → Host
  | .spawn id      =>
    { spawned  := h.spawned ++ [(id, .empty)]
      ptys     := Function.update h.ptys id (some h.spawned.length)
      sessions := Function.update h.sessions id (some h.spawned.length) }
  | .data pty text =>
    match h.appended pty (.data pty text) with
    | some data => { h with spawned := h.spawned.modify pty (fun e => (e.1, e.2.append replayChars data)) }
    | none      => h
  | .exit pty      =>
    match h.spawned[pty]? with
    | some (id, _) => if h.ptys id = some pty then { h with ptys := Function.update h.ptys id none } else h
    | none         => h
  | .kill id stopped =>
    { h with
      ptys     := if stopped then Function.update h.ptys id none else h.ptys
      sessions := Function.update h.sessions id none }
  | .killAll stopped => if stopped then { h with ptys := fun _ => none, sessions := fun _ => none } else h

def buffer (h : Host) (pty : Nat) : Session := ((h.spawned[pty]?).map Prod.snd).getD .empty

def receivedChars (h : Host) (id : JsString) : Int :=
  match h.sessions id with
  | some pty => (h.buffer pty).received
  | none     => 0

def outputSince (h : Host) (id : JsString) (mark : Int) : JsString :=
  match h.sessions id with
  | some pty => sliceSince (h.buffer pty).chunks (h.buffer pty).chars (h.buffer pty).received mark
  | none     => []

def output (pty : Nat) : Host → List Event → JsString
  | _, []          => []
  | h, e :: events => (h.appended pty e).getD [] ++ output pty (h.step e) events

theorem buffer_step (h : Host) (e : Event) (pty : Nat) : (h.step e).buffer pty =
    (h.appended pty e).elim (h.buffer pty) (fun data => (h.buffer pty).append replayChars data) := by
  cases e with
  | spawn id =>
    show ((h.spawned ++ [(id, Session.empty)])[pty]?.map Prod.snd).getD .empty = h.buffer pty
    rcases Nat.lt_trichotomy pty h.spawned.length with hlt | rfl | hgt
    · rw [List.getElem?_append_left hlt]
      rfl
    · simp [buffer]
    · simp [buffer, List.getElem?_eq_none hgt.le, List.getElem?_append_right hgt.le, Nat.sub_ne_zero_of_lt hgt]
  | data p text =>
    show (match h.appended p (.data p text) with
      | some data => { h with spawned := h.spawned.modify p (fun e => (e.1, e.2.append replayChars data)) }
      | none => h).buffer pty = _
    by_cases hp : p = pty
    · subst hp
      cases happ : h.appended p (.data p text) with
      | none => rfl
      | some data =>
        obtain ⟨entry, hentry⟩ : ∃ entry, h.spawned[p]? = some entry := by
          cases hget : h.spawned[p]? with
          | none => simp [appended, hget] at happ
          | some entry => exact ⟨entry, rfl⟩
        simp [buffer, hentry]
    · have hnone : h.appended pty (.data p text) = none := by simp [appended, hp]
      rw [hnone]
      split
      · simp [buffer, hp]
      · rfl
  | exit p =>
    show (match h.spawned[p]? with
      | some (id, _) => if h.ptys id = some p then { h with ptys := Function.update h.ptys id none } else h
      | none => h).buffer pty = h.buffer pty
    split
    · split
      · rfl
      · rfl
    · rfl
  | kill id stopped => rfl
  | killAll stopped =>
    cases stopped with
    | true => rfl
    | false => rfl

/-- **Every buffer holds the end of what its PTY said**, in every run. -/
theorem holds_run (pty : Nat) : ∀ (events : List Event) {h : Host} {before : JsString}, (h.buffer pty).Holds replayChars before →
    ((Steps.run step h events).buffer pty).Holds replayChars (before ++ output pty h events)
  | [], h, before, hb => by
    rw [output, List.append_nil]
    exact hb
  | e :: events, h, before, hb => by
    rw [output, ← List.append_assoc, Steps.run_cons]
    refine holds_run pty events ?_
    rw [buffer_step]
    cases h.appended pty e with
    | none => simpa using hb
    | some data => exact hb.append data

theorem output_append (pty : Nat) : ∀ (earlier later : List Event) (h : Host),
    output pty h (earlier ++ later) = output pty h earlier ++ output pty (Steps.run step h earlier) later
  | [], later, h => rfl
  | e :: earlier, later, h => by
    rw [List.cons_append, output, output, output_append pty earlier later, List.append_assoc, Steps.run_cons]

theorem length_step (h : Host) (e : Event) : h.spawned.length ≤ (h.step e).spawned.length := by
  cases e with
  | spawn id => simp [step]
  | data p text =>
    rw [step]
    split
    · simp
    · exact Nat.le_refl _
  | exit p =>
    rw [step]
    split
    · split
      · exact Nat.le_refl _
      · exact Nat.le_refl _
    · exact Nat.le_refl _
  | kill id stopped => exact Nat.le_refl _
  | killAll stopped =>
    cases stopped with
    | true => exact Nat.le_refl _
    | false => exact Nat.le_refl _

theorem sessions_step (h : Host) (e : Event) (id : JsString) :
    (h.step e).sessions id = h.sessions id ∨ (h.step e).sessions id = none ∨
      (h.step e).sessions id = some h.spawned.length := by
  cases e with
  | spawn id' =>
    by_cases hid : id = id'
    · exact .inr (.inr (by rw [hid]; exact Function.update_self ..))
    · exact .inl (Function.update_of_ne hid ..)
  | data p text =>
    left
    rw [step]
    split
    · rfl
    · rfl
  | exit p =>
    left
    rw [step]
    split
    · split
      · rfl
      · rfl
    · rfl
  | kill id' stopped =>
    by_cases hid : id = id'
    · exact .inr (.inl (by rw [hid]; exact Function.update_self ..))
    · exact .inl (Function.update_of_ne hid ..)
  | killAll stopped =>
    cases stopped with
    | true => exact .inr (.inl rfl)
    | false => exact .inl rfl

theorem spawned_later {pty : Nat} {id : JsString} : ∀ (events : List Event) {h : Host}, h.sessions id ≠ some pty →
    (Steps.run step h events).sessions id = some pty → h.spawned.length ≤ pty
  | [], h, hne, hin => absurd hin hne
  | e :: events, h, hne, hin => by
    rw [Steps.run_cons] at hin
    by_cases hnext : (h.step e).sessions id = some pty
    · rcases sessions_step h e id with hsame | hnone | hnew
      · exact absurd (hsame.symm.trans hnext) hne
      · rw [hnone] at hnext
        cases hnext
      · rw [hnew, Option.some.injEq] at hnext
        exact hnext.le
    · exact (length_step h e).trans (spawned_later events hnext hin)

theorem output_unspawned {pty : Nat} : ∀ (events : List Event) {h : Host}, (Steps.run step h events).spawned.length ≤ pty →
    output pty h events = [] ∧ h.spawned.length ≤ pty
  | [], h, hlen => ⟨rfl, hlen⟩
  | e :: events, h, hlen => by
    rw [Steps.run_cons] at hlen
    obtain ⟨hnil, hle⟩ := output_unspawned events hlen
    have hhere := (length_step h e).trans hle
    have hnone : h.appended pty e = none := by
      cases e with
      | data p text => simp [appended, List.getElem?_eq_none hhere]
      | _ => rfl
    exact ⟨by rw [output, hnone, hnil]; rfl, hhere⟩

end Host

/-- **A buffer is an exact end of the output**, after every event of every run: it holds the last characters of what the PTY said,
`replayChars` at most, and counts them; and a read since a mark, taken at any moment from this buffer or before there was one,
answers what the PTY said after it, cut to what the buffer still holds. -/
theorem replay_exact_suffix (events : List Host.Event) (id : JsString) (pty : Nat)
    (h : (Steps.run Host.step .create events).sessions id = some pty) :
    let host := Steps.run Host.step .create events
    let output := Host.output pty .create events
    (host.buffer pty).chunks.flatten = output.rtake replayChars ∧
    (host.buffer pty).chars = (host.buffer pty).chunks.flatten.length ∧
    host.receivedChars id = output.length ∧
    ∀ earlier later, events = earlier ++ later →
      (∀ other, (Steps.run Host.step .create earlier).sessions id = some other → other = pty) →
      host.outputSince id ((Steps.run Host.step .create earlier).receivedChars id) =
        (Host.output pty (Steps.run Host.step .create earlier) later).rtake replayChars := by
  have hholds : ((Steps.run Host.step .create events).buffer pty).Holds replayChars (Host.output pty .create events) :=
    Host.holds_run pty events (h := .create) (Session.holds_empty _)
  dsimp only
  refine ⟨hholds.chunks, hholds.chars, ?_, fun earlier later heq hmark => ?_⟩
  · rw [Host.receivedChars, h]
    exact hholds.received
  · rw [heq, Host.output_append] at hholds
    have hcount : (Steps.run Host.step .create earlier).receivedChars id = (Host.output pty .create earlier).length := by
      rw [Host.receivedChars]
      cases hsession : (Steps.run Host.step .create earlier).sessions id with
      | some other =>
        obtain rfl := hmark other hsession
        exact (Host.holds_run other earlier (h := .create) (Session.holds_empty _)).received
      | none =>
        rw [heq, Steps.run_append] at h
        have hlater := Host.spawned_later later (by rw [hsession]; simp) h
        rw [(Host.output_unspawned earlier hlater).1]
        rfl
    rw [hcount, Host.outputSince, h, heq]
    exact hholds.sliceSince

theorem replay_exact_suffix_respawned :
    (Steps.run Host.step .create [.spawn [0x61], .data 0 [1, 2], .kill [0x61] true, .spawn [0x61], .data 1 [3],
      .data 0 [4], .data 1 [5]]).outputSince [0x61] 1 = [5] := by
  have hrun := replay_exact_suffix [.spawn [0x61], .data 0 [1, 2], .kill [0x61] true, .spawn [0x61], .data 1 [3],
    .data 0 [4], .data 1 [5]] [0x61] 1 rfl
  exact hrun.2.2.2 [.spawn [0x61], .data 0 [1, 2], .kill [0x61] true, .spawn [0x61], .data 1 [3]] [.data 0 [4], .data 1 [5]] rfl
    (fun other hother => (Option.some.inj hother).symm)

end Sidecar
end Dormouse

import Dormouse.Steps
import Dormouse.TermFilter
import Mathlib.Data.List.Chain
/-!
# PtyStream — one parse, fanned out to the owner and its sinks

`createProcessedPtyStream` cuts a raw read into bounded pieces, hands each to the parser once, and fans the result out:
to the owner always, to a sink from the first ground byte after it subscribed.  `deliveries` is the history of the
pieces; what a sink is owed is said over it alone (`stringTail`), without the offset the parser reports.
-/
namespace Dormouse
namespace Term

variable {P : Payloads}

/-! ## A raw read, cut -/

def maxParserInputChars : Nat := 64 * 1024

/-- Where the next piece ends: at the limit, or one unit before it rather than inside a surrogate pair. -/
def pieceEnd (limit : Nat) (rest : JsString) : Nat :=
  let cut := min limit rest.length
  if cut < rest.length ∧ 1 < cut ∧ rest[cut - 1]?.any isHighSurrogate then cut - 1 else cut

theorem pieceEnd_le (limit : Nat) (rest : JsString) : pieceEnd limit rest ≤ limit := by
  unfold pieceEnd
  simp only
  split <;> omega

variable {limit : Nat}

theorem pieceEnd_pos (hl : 0 < limit) {rest : JsString} (hr : rest ≠ []) : 0 < pieceEnd limit rest := by
  have := List.length_pos_iff.mpr hr
  unfold pieceEnd
  simp only
  split <;> omega

/-- The loop of `boundPtyRead` over the text not yet cut. -/
def boundPieces (limit : Nat) (hl : 0 < limit) (rest : JsString) : List JsString :=
  if hr : rest = [] then []
  else
    have := pieceEnd_pos hl hr
    have := List.length_pos_iff.mpr hr
    rest.take (pieceEnd limit rest) :: boundPieces limit hl (rest.drop (pieceEnd limit rest))
termination_by rest.length
decreasing_by
  rw [List.length_drop]
  omega

def boundPtyRead (raw : JsString) (limit : Nat) (hl : 0 < limit) : List JsString :=
  if raw.length ≤ limit then [raw] else boundPieces limit hl raw

def SplitsPair (p q : JsString) : Prop :=
  p.getLast?.any isHighSurrogate = true ∧ q.head?.any isLowSurrogate = true

instance (p q : JsString) : Decidable (SplitsPair p q) := inferInstanceAs (Decidable (_ ∧ _))

theorem high_not_low {u : UInt16} (h : isHighSurrogate u = true) : isLowSurrogate u = false := by
  simp only [isHighSurrogate, isLowSurrogate, Bool.and_eq_true, decide_eq_true_eq, Bool.and_eq_false_iff,
    decide_eq_false_iff_not, UInt16.le_iff_toNat_le] at h ⊢
  left
  obtain ⟨-, h⟩ := h
  have h1 : (0xdbff : UInt16).toNat = 0xdbff := rfl
  have h2 : (0xdc00 : UInt16).toNat = 0xdc00 := rfl
  omega

theorem pieceEnd_splits (hl : 2 ≤ limit) (rest : JsString) :
    ¬ SplitsPair (rest.take (pieceEnd limit rest)) (rest.drop (pieceEnd limit rest)) := by
  rintro ⟨hp, hq⟩
  rw [List.head?_drop] at hq
  have hlt : pieceEnd limit rest < rest.length := by
    by_contra hge
    rw [List.getElem?_eq_none (by omega)] at hq
    cases hq
  rw [List.getLast?_take] at hp
  unfold pieceEnd at hp hq hlt
  simp only at hp hq hlt
  split at hp
  · rename_i hc
    rw [if_pos hc] at hq
    obtain ⟨u, hu, hhigh⟩ := (Option.any_eq_true _ _).mp hc.2.2
    rw [hu] at hq
    rw [Option.any_some, high_not_low hhigh] at hq
    cases hq
  · rename_i hc
    rw [if_neg hc] at hlt
    have hlong : limit < rest.length := by omega
    rw [Nat.min_eq_left hlong.le] at hp hc
    rw [if_neg (by omega)] at hp
    obtain ⟨u, hu⟩ : ∃ u, rest[limit - 1]? = some u := ⟨_, List.getElem?_eq_getElem (by omega)⟩
    rw [hu] at hp hc
    exact hc ⟨hlong, by omega, by simpa using hp⟩

theorem boundPieces_flatten (hl : 0 < limit) (rest : JsString) :
    (boundPieces limit hl rest).flatten = rest := by
  fun_induction boundPieces limit hl rest with
  | case1 => rfl
  | case2 rest hr _ _ ih => rw [List.flatten_cons, ih, List.take_append_drop]

theorem boundPieces_length (hl : 0 < limit) (rest : JsString) :
    ∀ piece ∈ boundPieces limit hl rest, piece.length ≤ limit := by
  fun_induction boundPieces limit hl rest with
  | case1 => simp
  | case2 rest hr _ _ ih =>
    intro piece hp
    rcases List.mem_cons.mp hp with rfl | hp
    · have := pieceEnd_le limit rest
      rw [List.length_take]
      omega
    · exact ih piece hp

theorem boundPieces_chain (hl : 2 ≤ limit) (rest : JsString) :
    (boundPieces limit (by omega) rest).IsChain (fun p q => ¬ SplitsPair p q) := by
  fun_induction boundPieces limit (by omega) rest with
  | case1 => exact .nil
  | case2 rest hr _ _ ih =>
    rw [List.isChain_cons]
    refine ⟨fun q hq hs => ?_, ih⟩
    rw [boundPieces] at hq
    split at hq
    · cases hq
    · simp only [List.head?_cons, Option.mem_def, Option.some.injEq] at hq
      refine pieceEnd_splits hl rest ⟨hs.1, ?_⟩
      have h2 := hs.2
      rw [← hq, List.head?_take] at h2
      split at h2
      · cases h2
      · exact h2

/-- **A read is cut into pieces that make it up, none over the limit, none inside a surrogate pair.** -/
theorem boundPtyRead_spec (raw : JsString) (hl : 2 ≤ limit) :
    (boundPtyRead raw limit (by omega)).flatten = raw ∧
      (∀ piece ∈ boundPtyRead raw limit (by omega), piece.length ≤ limit) ∧
      (boundPtyRead raw limit (by omega)).IsChain (fun p q => ¬ SplitsPair p q) := by
  unfold boundPtyRead
  split
  · rename_i hle
    exact ⟨by simp, by simpa using hle, .singleton _⟩
  · exact ⟨boundPieces_flatten _ raw, boundPieces_length _ raw, boundPieces_chain hl raw⟩

/-! ## The stream -/

structure ProcessedPtyChunk where
  data     : JsString
  textData : Option JsString
  deriving DecidableEq

def textProjectionOf (visibleData textData : JsString) : Option JsString :=
  if textData = visibleData then none else some textData

def chunkOf (visibleData textData : JsString) : ProcessedPtyChunk := ⟨visibleData, textProjectionOf visibleData textData⟩

/-- A subscription, with what its sink was handed.  `sink` tells sinks apart; `joined` is how many pieces had been
delivered when it subscribed. -/
structure Subscription where
  sink     : Nat
  held     : Bool
  joined   : Nat
  received : List ProcessedPtyChunk

/-- The history of one piece: what was streaming when it arrived, and what was visible of it; nothing is when `process`
threw. -/
structure Delivery where
  forwarding : Option Forwarding
  piece      : JsString
  visible    : Option JsString

structure Stream (P : Payloads) where
  parser        : Parser Osc99Pending
  subscriptions : List Subscription
  onEvents      : List (List (TerminalProtocolEvent P))
  onChunk       : List ProcessedPtyChunk
  /-- The subscriptions that are over, each with how many pieces had been delivered by then. -/
  departed      : List (Subscription × Nat)
  deliveries    : List Delivery

def Stream.fresh : Stream P := ⟨.fresh, [], [], [], [], []⟩

/-- What is outside the stream when a piece is delivered: the clock, and which sinks unsubscribe themselves when they are
called. -/
structure Turn where
  now    : Int
  leaves : Subscription → Bool

/-- `sink(chunk)`, its faults caught. -/
def Subscription.emit (sub : Subscription) (chunk : ProcessedPtyChunk) : Subscription :=
  { sub with received := sub.received ++ [chunk] }

/-- One turn of the loop over the subscriptions: the subscription, and whether its sink was called. -/
def Subscription.visit (r : TerminalProtocolParseResult P) (sub : Subscription) : Subscription × Bool :=
  if sub.held = false then
    if r.visibleData = [] then (sub, false) else (sub.emit (chunkOf r.visibleData r.textData), true)
  else
    match r.resumedStringEnd with
    | none   => (sub, false)
    | some n =>
      let ground := r.visibleData.drop n
      if ground = [] then ({ sub with held := false }, false)
      else ({ sub with held := false }.emit (chunkOf ground r.textData), true)

/-- A piece, and whether `process` returned. -/
def deliver (R : Readers P) (turn : Turn) (s : Stream P) (piece : JsString) : Stream P × Bool :=
  let forwarding := s.parser.forwarding
  match process (oscHandler R turn.now) s.parser piece with
  | (parser, none)   =>
    ({ s with parser := parser, deliveries := s.deliveries ++ [⟨forwarding, piece, none⟩] }, false)
  | (parser, some r) =>
    let visited := s.subscriptions.map (Subscription.visit r)
    let deliveries := s.deliveries ++ [⟨forwarding, piece, some r.visibleData⟩]
    let leaving := visited.filter (fun v => v.2 && turn.leaves v.1)
    ({ parser        := parser
       subscriptions := (visited.filter (fun v => !(v.2 && turn.leaves v.1))).map Prod.fst
       onEvents      := if r.events.length = 0 then s.onEvents else s.onEvents ++ [r.events]
       onChunk       := if r.visibleData = [] then s.onChunk else s.onChunk ++ [chunkOf r.visibleData r.textData]
       departed      := s.departed ++ leaving.map (fun v => (v.1, deliveries.length))
       deliveries    := deliveries }, true)

/-- The pieces of a read, up to one that throws out of `write`. -/
def deliverAll (R : Readers P) : (Nat → Turn) → Stream P → List JsString → Stream P
  | _, s, []                 => s
  | turns, s, piece :: pieces =>
    match deliver R (turns 0) s piece with
    | (s', true)  => deliverAll R (fun n => turns (n + 1)) s' pieces
    | (s', false) => s'

inductive StreamOp where
  /-- `write`, with the turn of each of its pieces. -/
  | write (raw : JsString) (turns : Nat → Turn)
  | subscribe (sink : Nat)
  /-- What the `subscribe` of a live subscription returned, called. -/
  | unsubscribe (position : Nat)

def Stream.step (R : Readers P) (s : Stream P) : StreamOp → Stream P
  | .write raw turns      => deliverAll R turns s (boundPtyRead raw maxParserInputChars (by decide))
  | .subscribe sink       =>
    { s with subscriptions := s.subscriptions ++ [⟨sink, s.parser.forwarding.isSome, s.deliveries.length, []⟩] }
  | .unsubscribe position =>
    match s.subscriptions[position]? with
    | none     => s
    | some sub =>
      { s with
        subscriptions := s.subscriptions.eraseIdx position
        departed      := s.departed ++ [(sub, s.deliveries.length)] }

def Stream.run (R : Readers P) (ops : List StreamOp) : Stream P := Steps.run (Stream.step R) .fresh ops

/-! ## What a sink is owed -/

def dataOf (chunks : List ProcessedPtyChunk) : JsString := (chunks.map (·.data)).flatten

def emitted (ds : List Delivery) : JsString := (ds.map (fun d => d.visible.getD [])).flatten

/-- How much of what a history made visible belongs to a string control that was streaming when it began.  A control that
ends in a piece that throws has nothing of that piece. -/
def stringTail : List Delivery → Nat
  | []      => 0
  | d :: ds =>
    match d.forwarding with
    | none   => 0
    | some f =>
      match findStringControlEnd f.kind (f.heldEsc ++ d.piece), d.visible with
      | none, visible     => (visible.getD []).length + stringTail ds
      | some e, some _    => (e.payload ++ e.ending).length
      | some _, none      => 0

/-- The string control that was streaming when a history began has not ended in it. -/
def Streams : List Delivery → Prop
  | []      => True
  | d :: ds => (∃ f, d.forwarding = some f ∧ findStringControlEnd f.kind (f.heldEsc ++ d.piece) = none) ∧ Streams ds

def between (ds : List Delivery) (joined left : Nat) : List Delivery := (ds.take left).drop joined

/-- **The run of the owner's stream a sink is owed**, from the first ground byte after it subscribed. -/
def owed (ds : List Delivery) (joined left : Nat) : JsString :=
  (emitted (between ds joined left)).drop (stringTail (between ds joined left))

@[simp] theorem emitted_append (as bs : List Delivery) : emitted (as ++ bs) = emitted as ++ emitted bs := by
  simp [emitted]

@[simp] theorem emitted_one (d : Delivery) : emitted [d] = d.visible.getD [] := by
  simp [emitted]

@[simp] theorem dataOf_append (as bs : List ProcessedPtyChunk) : dataOf (as ++ bs) = dataOf as ++ dataOf bs := by
  simp [dataOf]

@[simp] theorem dataOf_one (c : ProcessedPtyChunk) : dataOf [c] = c.data := by
  simp [dataOf]

theorem streams_append : ∀ (as bs : List Delivery), Streams (as ++ bs) ↔ Streams as ∧ Streams bs
  | [], bs => (true_and _).symm.to_iff
  | d :: as, bs => by
    show _ ∧ Streams (as ++ bs) ↔ (_ ∧ Streams as) ∧ Streams bs
    rw [streams_append as bs, and_assoc]

theorem stringTail_streams : ∀ {as : List Delivery}, Streams as → ∀ bs : List Delivery,
    stringTail (as ++ bs) = (emitted as).length + stringTail bs
  | [], _, bs => (Nat.zero_add _).symm
  | d :: as, ⟨⟨f, hf, he⟩, h⟩, bs => by
    show stringTail (d :: (as ++ bs)) = (emitted ([d] ++ as)).length + _
    simp only [stringTail, hf, he, stringTail_streams h bs, emitted_append, emitted_one, List.length_append]
    omega

theorem streams_tail {as : List Delivery} (hs : Streams as) : stringTail as = (emitted as).length := by
  have := stringTail_streams hs []
  rwa [List.append_nil, show stringTail [] = 0 from rfl, Nat.add_zero] at this

theorem stringTail_ended : ∀ {as : List Delivery}, ¬ Streams as → ∀ bs : List Delivery,
    stringTail (as ++ bs) = stringTail as
  | [], h, _ => absurd trivial h
  | d :: as, h, bs => by
    show stringTail (d :: (as ++ bs)) = stringTail (d :: as)
    unfold stringTail
    cases hf : d.forwarding with
    | none => rfl
    | some f =>
      cases he : findStringControlEnd f.kind (f.heldEsc ++ d.piece) with
      | none =>
        have hend : ¬ Streams as := fun hs => h ⟨⟨f, hf, he⟩, hs⟩
        simp only [he, stringTail_ended hend bs]
      | some e => cases d.visible <;> simp only [he]

/-! ## A call of the parser -/

/-- **What a call means to a sink**: nothing was streaming, the control goes on, it ended, or the call threw. -/
inductive Called (p : Parser Osc99Pending) (piece : JsString) :
    Parser Osc99Pending × Option (TerminalProtocolParseResult P) → Prop where
  | ground {p' r} (hp : p.forwarding = none) (hr : r.resumedStringEnd = some 0) : Called p piece (p', some r)
  | streams {f p' r} (hp : p.forwarding = some f) (he : findStringControlEnd f.kind (f.heldEsc ++ piece) = none)
    (hr : r.resumedStringEnd = none) : Called p piece (p', some r)
  | ended {f e p' r} (ground : JsString) (hp : p.forwarding = some f)
    (he : findStringControlEnd f.kind (f.heldEsc ++ piece) = some e)
    (hv : r.visibleData = e.payload ++ e.ending ++ ground)
    (hr : r.resumedStringEnd = some (e.payload ++ e.ending).length) : Called p piece (p', some r)
  | threw {p'} (hp : ∀ f, p.forwarding = some f → findStringControlEnd f.kind (f.heldEsc ++ piece) ≠ none)
    (hp' : p'.forwarding = none) : Called p piece (p', none)

theorem groundLoop_thrown (h : Handler P τ) (text : JsString) : ∀ t, (groundLoop h t text).2 = none →
    (groundLoop h t text).1.forwarding = none := by
  induction text using scan_induction with
  | tail text hm =>
    intro t hn
    rw [groundLoop_tail h t hm] at hn
    cases hn
  | opened text m hm he =>
    intro t hn
    rw [groundLoop_opened h t hm he] at hn
    cases hn
  | control text m e hm he ih =>
    intro t hn
    rw [groundLoop_control h t hm he] at hn ⊢
    split
    · rfl
    · rename_i hr
      rw [hr] at hn
      exact ih _ (Option.map_eq_none_iff.mp hn)

variable {p : Parser Osc99Pending}

theorem called_ground {h : Handler P Osc99Pending} {t : Osc99Pending} {piece text : JsString} (hp : p.forwarding = none) :
    Called p piece ((groundLoop h t text).1, (groundLoop h t text).2.map Emitted.result) := by
  cases hg : (groundLoop h t text).2 with
  | none => exact .threw (fun f hf => by rw [hp] at hf; cases hf) (groundLoop_thrown h text t hg)
  | some em => exact .ground hp rfl

theorem process_called (h : Handler P Osc99Pending) (hp : p.Exclusive) (piece : JsString) :
    Called p piece (process h p piece) := by
  rw [hp]
  cases p.mode with
  | ground w =>
    rw [process_ground]
    exact called_ground rfl
  | forwarding kind held =>
    cases he : findStringControlEnd kind (held ++ piece) with
    | none =>
      rw [process_forwarding_open h _ he]
      exact .streams rfl he rfl
    | some e =>
      rw [process_forwarding_end h _ he]
      cases hg : (groundLoop h p.osc99Pending e.rest).2 with
      | none =>
        refine .threw (fun f hf => ?_) (groundLoop_thrown h e.rest _ hg)
        cases hf
        rw [he]
        simp
      | some em => exact .ended em.visibleData rfl he rfl rfl
  | discarding held =>
    cases he : findStringControlEnd .osc (held ++ piece) with
    | none =>
      rw [process_discarding_open h _ he]
      exact .ground rfl rfl
    | some e =>
      rw [process_discarding_end h _ he]
      exact called_ground rfl

/-! ## A subscription, piece by piece -/

/-- What holds of a live subscription: its sink was handed what it is owed, and it waits as long as the control streams. -/
structure Follows (p : Parser Osc99Pending) (ds : List Delivery) (sub : Subscription) : Prop where
  joined : sub.joined ≤ ds.length
  data   : dataOf sub.received = (emitted (ds.drop sub.joined)).drop (stringTail (ds.drop sub.joined))
  tail   : stringTail (ds.drop sub.joined) ≤ (emitted (ds.drop sub.joined)).length
  held   : sub.held = true → stringTail (ds.drop sub.joined) = (emitted (ds.drop sub.joined)).length ∧
    (p.forwarding ≠ none → Streams (ds.drop sub.joined))
  free   : sub.held = false → ¬ Streams (ds.drop sub.joined) ∨ p.forwarding = none

theorem Subscription.visit_joined (r : TerminalProtocolParseResult P) (sub : Subscription) :
    (sub.visit r).1.joined = sub.joined := by
  unfold visit
  dsimp only
  repeat' split
  all_goals rfl

variable {r : TerminalProtocolParseResult P} {sub : Subscription}

theorem Subscription.visit_free (h : sub.held = false) :
    (sub.visit r).1.held = false ∧ dataOf (sub.visit r).1.received = dataOf sub.received ++ r.visibleData := by
  unfold visit
  rw [if_pos h]
  split
  · rename_i hv
    exact ⟨h, by rw [hv, List.append_nil]⟩
  · exact ⟨h, by simp [emit, chunkOf]⟩

theorem Subscription.visit_waits (h : sub.held = true) (hr : r.resumedStringEnd = none) : (sub.visit r).1 = sub := by
  unfold visit
  rw [if_neg (by simp [h]), hr]

theorem Subscription.visit_resumes {n : Nat} (h : sub.held = true) (hr : r.resumedStringEnd = some n) :
    (sub.visit r).1.held = false ∧ dataOf (sub.visit r).1.received = dataOf sub.received ++ r.visibleData.drop n := by
  unfold visit
  rw [if_neg (by simp [h]), hr]
  simp only
  split
  · rename_i hv
    exact ⟨rfl, by rw [hv, List.append_nil]⟩
  · exact ⟨rfl, by simp [emit, chunkOf]⟩

variable {d : Delivery}

theorem not_streams_ground {as : List Delivery} (hd : d.forwarding = none) : ¬ Streams (as ++ [d]) := by
  rw [streams_append]
  rintro ⟨-, ⟨f, hf, -⟩, -⟩
  rw [hd] at hf
  cases hf

theorem not_streams_ended {as : List Delivery} {f : Forwarding} {e : StringControlEnd} (hf : d.forwarding = some f)
    (he : findStringControlEnd f.kind (f.heldEsc ++ d.piece) = some e) :
    ¬ Streams (as ++ [d]) := by
  rw [streams_append]
  rintro ⟨-, ⟨f', hf', he'⟩, -⟩
  rw [hf] at hf'
  cases hf'
  rw [he] at he'
  cases he'

theorem stringTail_ground (as : List Delivery) (hd : d.forwarding = none) :
    stringTail (as ++ [d]) = stringTail as := by
  by_cases hs : Streams as
  · rw [stringTail_streams hs, streams_tail hs]
    simp only [stringTail, hd, Nat.add_zero]
  · exact stringTail_ended hs _

theorem Follows.extend {p p' : Parser Osc99Pending} {ds : List Delivery} {sub sub' : Subscription} (h : Follows p ds sub)
    (hj : sub'.joined = sub.joined)
    (hstep : ∀ T, T = ds.drop sub.joined → dataOf sub'.received = (emitted (T ++ [d])).drop (stringTail (T ++ [d])) ∧ stringTail (T ++ [d]) ≤ (emitted (T ++ [d])).length ∧ (sub'.held = true → stringTail (T ++ [d]) = (emitted (T ++ [d])).length ∧ (p'.forwarding ≠ none → Streams (T ++ [d]))) ∧ (sub'.held = false → ¬ Streams (T ++ [d]) ∨ p'.forwarding = none)) :
    
    Follows p' (ds ++ [d]) sub' := by
  have hd : (ds ++ [d]).drop sub'.joined = ds.drop sub.joined ++ [d] := by
    rw [hj, List.drop_append_of_le_length h.joined]
  obtain ⟨h1, h2, h3, h4⟩ := hstep _ rfl
  have hlen : sub'.joined ≤ (ds ++ [d]).length := by
    rw [hj, List.length_append]
    exact Nat.le_add_right_of_le h.joined
  rw [← hd] at h1 h2 h3 h4
  exact ⟨hlen, h1, h2, h3, h4⟩

/-- **A sink keeps what it is owed over a piece that was parsed.** -/
theorem Follows.visit {p p' : Parser Osc99Pending} {ds : List Delivery} {sub : Subscription} {piece : JsString}
    {r : TerminalProtocolParseResult P} (h : Follows p ds sub) (hc : Called p piece (p', some r)) :
    Follows p' (ds ++ [⟨p.forwarding, piece, some r.visibleData⟩]) (sub.visit r).1 := by
  refine h.extend (sub.visit_joined r) ?_
  rintro T hT
  obtain ⟨-, hdata, htail, hheld, hfree⟩ := h
  rw [← hT] at hdata htail hheld hfree
  rw [emitted_append, emitted_one, Option.getD_some]
  cases hh : sub.held with
  | false =>
    obtain ⟨hv1, hv2⟩ := Subscription.visit_free (r := r) hh
    -- the control it may have joined in has ended, or nothing was streaming
    have hst : stringTail (T ++ [⟨p.forwarding, piece, some r.visibleData⟩]) = stringTail T := by
      rcases hfree hh with hs | hs
      · exact stringTail_ended hs _
      · exact stringTail_ground T hs
    have hns : ¬ Streams (T ++ [⟨p.forwarding, piece, some r.visibleData⟩]) := by
      rcases hfree hh with hs | hs
      · exact fun hs' => hs ((streams_append _ _).mp hs').1
      · exact not_streams_ground hs
    rw [hst, hv2, hdata, List.drop_append_of_le_length htail, List.length_append]
    refine ⟨rfl, Nat.le_add_right_of_le htail, fun hx => ?_, fun _ => .inl hns⟩
    rw [hv1] at hx
    cases hx
  | true =>
    obtain ⟨htail', hstr⟩ := hheld hh
    have hnil : dataOf sub.received = [] := by rw [hdata, htail', List.drop_length]
    cases hc with
    | ground hp hr =>
      obtain ⟨hv1, hv2⟩ := Subscription.visit_resumes hh hr
      rw [stringTail_ground T hp, hv2, hnil, htail', List.nil_append, List.drop_zero, List.drop_left, List.length_append]
      refine ⟨rfl, Nat.le_add_right _ _, fun hx => ?_, fun _ => .inl (not_streams_ground hp)⟩
      rw [hv1] at hx
      cases hx
    | streams hp he hr =>
      rw [Subscription.visit_waits hh hr]
      have hs : Streams T := hstr (by rw [hp]; simp)
      have hall : Streams (T ++ [⟨p.forwarding, piece, some r.visibleData⟩]) :=
        (streams_append _ _).mpr ⟨hs, ⟨_, hp, he⟩, trivial⟩
      have hst := streams_tail hall
      rw [emitted_append, emitted_one, Option.getD_some] at hst
      rw [hst, List.drop_length]
      refine ⟨hnil, le_refl _, fun _ => ⟨rfl, fun _ => hall⟩, fun hx => ?_⟩
      rw [hh] at hx
      cases hx
    | @ended f e _ _ ground hp he hv hr =>
      obtain ⟨hv1, hv2⟩ := Subscription.visit_resumes hh hr
      have hs : Streams T := hstr (by rw [hp]; simp)
      have hst : stringTail (T ++ [⟨p.forwarding, piece, some r.visibleData⟩]) =
          (emitted T ++ (e.payload ++ e.ending)).length := by
        rw [stringTail_streams hs, List.length_append]
        simp only [stringTail, hp, he]
      rw [hst, hv2, hnil, hv, List.drop_left, List.nil_append, ← List.append_assoc (emitted T) (e.payload ++ e.ending),
        List.drop_left]
      refine ⟨rfl, ?_, fun hx => ?_, fun _ => .inl (not_streams_ended hp he)⟩
      · exact (List.prefix_append _ ground).length_le
      · rw [hv1] at hx
        cases hx

/-- **And over a piece that threw**, of which nobody is handed anything. -/
theorem Follows.threw {p p' : Parser Osc99Pending} {ds : List Delivery} {sub : Subscription} {piece : JsString}
    (h : Follows p ds sub) (hc : Called (P := P) p piece (p', none)) :
    Follows p' (ds ++ [⟨p.forwarding, piece, none⟩]) sub := by
  refine h.extend rfl ?_
  rintro T hT
  obtain ⟨-, hdata, htail, hheld, hfree⟩ := h
  rw [← hT] at hdata htail hheld hfree
  rw [emitted_append, emitted_one, Option.getD_none, List.append_nil]
  cases hc with
  | threw hp hp' =>
    have hst : stringTail (T ++ [⟨p.forwarding, piece, none⟩]) = stringTail T := by
      by_cases hs : Streams T
      · rw [stringTail_streams hs, streams_tail hs]
        cases hf : p.forwarding with
        | none => rfl
        | some f =>
          cases he : findStringControlEnd f.kind (f.heldEsc ++ piece) with
          | none => exact absurd he (hp f hf)
          | some e => simp only [stringTail, he, Nat.add_zero]
      · exact stringTail_ended hs _
    rw [hst]
    exact ⟨hdata, htail, fun hx => ⟨(hheld hx).1, fun hf => absurd hp' hf⟩, fun _ => .inr hp'⟩

/-! ## The stream, operation by operation -/

/-- A subscription that is over was handed what it was owed while it lasted. -/
def Settled (ds : List Delivery) (gone : Subscription × Nat) : Prop :=
  gone.1.joined ≤ gone.2 ∧ gone.2 ≤ ds.length ∧ dataOf gone.1.received = owed ds gone.1.joined gone.2

structure Stream.Faithful (s : Stream P) : Prop where
  exclusive : s.parser.Exclusive
  owner     : dataOf s.onChunk = emitted s.deliveries
  live      : ∀ sub ∈ s.subscriptions, Follows s.parser s.deliveries sub
  departed  : ∀ gone ∈ s.departed, Settled s.deliveries gone

theorem Settled.extend {ds : List Delivery} {gone : Subscription × Nat} (h : Settled ds gone) (d : Delivery) :
    Settled (ds ++ [d]) gone := by
  obtain ⟨h1, h2, h3⟩ := h
  refine ⟨h1, ?_, ?_⟩
  · rw [List.length_append]
    exact Nat.le_add_right_of_le h2
  · rw [h3, owed, owed, between, between, List.take_append_of_le_length h2]

theorem Follows.settled {ds : List Delivery} (h : Follows p ds sub) :
    Settled ds (sub, ds.length) := by
  refine ⟨h.joined, le_refl _, ?_⟩
  rw [owed, between, List.take_length]
  exact h.data

theorem Follows.subscribe (p : Parser Osc99Pending) (ds : List Delivery) (sink : Nat) :
    Follows p ds ⟨sink, p.forwarding.isSome, ds.length, []⟩ := by
  have hnone : ds.drop ds.length = [] := List.drop_length
  constructor <;> simp only [hnone]
  · exact le_refl _
  · rfl
  · exact le_refl _
  · exact fun _ => ⟨rfl, fun _ => trivial⟩
  · exact fun hf => .inr (by simpa using hf)

theorem deliver_faithful (R : Readers P) (turn : Turn) {s : Stream P} (h : s.Faithful) (piece : JsString) :
    (deliver R turn s piece).1.Faithful := by
  obtain ⟨hex, howner, hlive, hgone⟩ := h
  have hc := process_called (oscHandler R turn.now) hex piece
  have hex' := process_exclusive (oscHandler R turn.now) s.parser piece hex
  unfold deliver
  simp only
  generalize process (oscHandler R turn.now) s.parser piece = out at hc hex' ⊢
  obtain ⟨parser, r⟩ := out
  cases r with
  | none =>
    refine ⟨hex', ?_, fun sub hs => (hlive sub hs).threw hc, fun gone hg => (hgone gone hg).extend _⟩
    rw [emitted_append, emitted_one, Option.getD_none, List.append_nil]
    exact howner
  | some r =>
    have hvisited : ∀ v ∈ s.subscriptions.map (Subscription.visit r),
        Follows parser (s.deliveries ++ [⟨s.parser.forwarding, piece, some r.visibleData⟩]) v.1 := by
      intro v hv
      obtain ⟨sub, hs, rfl⟩ := List.mem_map.mp hv
      exact (hlive sub hs).visit hc
    refine ⟨hex', ?_, ?_, ?_⟩
    · show dataOf (if r.visibleData = [] then s.onChunk else _) = _
      rw [emitted_append, emitted_one, Option.getD_some, ← howner]
      split
      · rename_i hv
        rw [hv, List.append_nil]
      · rw [dataOf_append, dataOf_one]
        rfl
    · intro sub hs
      obtain ⟨v, hv, rfl⟩ := List.mem_map.mp hs
      exact hvisited v (List.mem_filter.mp hv).1
    · intro gone hg
      rcases List.mem_append.mp hg with hg | hg
      · exact (hgone gone hg).extend _
      · obtain ⟨v, hv, rfl⟩ := List.mem_map.mp hg
        exact (hvisited v (List.mem_filter.mp hv).1).settled

theorem deliverAll_faithful (R : Readers P) : ∀ (pieces : List JsString) (turns : Nat → Turn) {s : Stream P},
    s.Faithful → (deliverAll R turns s pieces).Faithful
  | [], _, _, h => h
  | piece :: pieces, turns, s, h => by
    have hd := deliver_faithful R (turns 0) h piece
    unfold deliverAll
    split
    · rename_i s' hs
      rw [hs] at hd
      exact deliverAll_faithful R pieces _ hd
    · rename_i s' hs
      rw [hs] at hd
      exact hd

/-- **Every operation keeps it.** -/
theorem Stream.step_faithful (R : Readers P) (s : Stream P) (op : StreamOp) (h : s.Faithful) : (s.step R op).Faithful := by
  cases op with
  | write raw turns => exact deliverAll_faithful R _ turns h
  | subscribe sink =>
    refine ⟨h.exclusive, h.owner, fun sub hs => ?_, h.departed⟩
    rcases List.mem_append.mp hs with hs | hs
    · exact h.live sub hs
    · cases List.mem_singleton.mp hs
      exact .subscribe s.parser s.deliveries sink
  | unsubscribe position =>
    simp only [step]
    split
    · exact h
    · rename_i sub hs
      refine ⟨h.exclusive, h.owner, fun sub hs => h.live sub (List.mem_of_mem_eraseIdx hs), fun gone hg => ?_⟩
      rcases List.mem_append.mp hg with hg | hg
      · exact h.departed gone hg
      · cases List.mem_singleton.mp hg
        exact (h.live sub (List.mem_of_getElem? hs)).settled

theorem Stream.run_faithful (R : Readers P) (ops : List StreamOp) : (Stream.run R ops).Faithful := by
  refine Steps.run_invariant (I := Stream.Faithful) (fun s op h => s.step_faithful R op h) ops .fresh ?_
  exact ⟨rfl, rfl, fun sub hs => absurd hs (List.not_mem_nil), fun gone hg => absurd hg (List.not_mem_nil)⟩

theorem owed_infix (ds : List Delivery) (joined left : Nat) : owed ds joined left <:+: emitted ds := by
  have h1 : between ds joined left <:+: ds := ((ds.take left).drop_suffix joined).isInfix.trans (ds.take_prefix left).isInfix
  obtain ⟨as, bs, hds⟩ := h1
  refine ((List.drop_suffix _ _).isInfix).trans ⟨emitted as, emitted bs, ?_⟩
  rw [← emitted_append, ← emitted_append, hds]

/-- **Every sink is handed one run of the owner's stream**: all that was made visible from the time it subscribed to the
time it left, less the rest of a string control that was streaming when it joined.  And a raw read is cut into pieces
that make it up, none over the limit, none inside a surrogate pair. -/
theorem sinks_receive_ground_run (R : Readers P) (ops : List StreamOp) (raw : JsString) (limit : Nat) (hl : 2 ≤ limit) :
    dataOf (Stream.run R ops).onChunk = emitted (Stream.run R ops).deliveries ∧
    (∀ sub ∈ (Stream.run R ops).subscriptions,
      dataOf sub.received =
          owed (Stream.run R ops).deliveries sub.joined (Stream.run R ops).deliveries.length ∧
        dataOf sub.received <:+: dataOf (Stream.run R ops).onChunk) ∧
    (∀ gone ∈ (Stream.run R ops).departed,
      dataOf gone.1.received = owed (Stream.run R ops).deliveries gone.1.joined gone.2 ∧
        dataOf gone.1.received <:+: dataOf (Stream.run R ops).onChunk) ∧
    (boundPtyRead raw limit (by omega)).flatten = raw ∧
    (∀ piece ∈ boundPtyRead raw limit (by omega), piece.length ≤ limit) ∧
    (boundPtyRead raw limit (by omega)).IsChain (fun p q => ¬ SplitsPair p q) := by
  obtain ⟨-, howner, hlive, hgone⟩ := Stream.run_faithful R ops
  refine ⟨howner, fun sub hs => ?_, fun gone hg => ?_, boundPtyRead_spec raw hl⟩
  · obtain ⟨-, -, h⟩ := (hlive sub hs).settled
    refine ⟨h, ?_⟩
    rw [howner, h]
    exact owed_infix _ _ _
  · obtain ⟨-, -, h⟩ := hgone gone hg
    refine ⟨h, ?_⟩
    rw [howner, h]
    exact owed_infix _ _ _

/-- A sink joins in the middle of a forwarded DCS, and starts behind its terminator; a pair is not cut at the limit. -/
theorem sinks_receive_ground_run_sample :
    (Stream.run noReaders [.write [0x1b, 0x50, 0x71] (fun _ => ⟨0, fun _ => false⟩), .subscribe 7,
      .write ([0x71, 0x1b, 0x5c] ++ units "ok") (fun _ => ⟨1, fun _ => false⟩)]).subscriptions.map
        (fun sub => dataOf sub.received) = [units "ok"] ∧
    (∀ sub ∈ (Stream.run noReaders [.write [0x1b, 0x50, 0x71] (fun _ => ⟨0, fun _ => false⟩), .subscribe 7,
        .write ([0x71, 0x1b, 0x5c] ++ units "ok") (fun _ => ⟨1, fun _ => false⟩)]).subscriptions,
      dataOf sub.received <:+: dataOf (Stream.run noReaders
        [.write [0x1b, 0x50, 0x71] (fun _ => ⟨0, fun _ => false⟩), .subscribe 7,
          .write ([0x71, 0x1b, 0x5c] ++ units "ok") (fun _ => ⟨1, fun _ => false⟩)]).onChunk) ∧
    boundPtyRead [0x61, 0xd83d, 0xde00] 2 (by decide) = [[0x61], [0xd83d, 0xde00]] ∧
    (boundPtyRead [0x61, 0xd83d, 0xde00] 2 (by decide)).flatten = [0x61, 0xd83d, 0xde00] := by
  obtain ⟨-, hlive, -, hflat, -⟩ := sinks_receive_ground_run noReaders
    [.write [0x1b, 0x50, 0x71] (fun _ => ⟨0, fun _ => false⟩), .subscribe 7,
      .write ([0x71, 0x1b, 0x5c] ++ units "ok") (fun _ => ⟨1, fun _ => false⟩)] [0x61, 0xd83d, 0xde00] 2 (by decide)
  exact ⟨by decide +kernel, fun sub hs => (hlive sub hs).2, by decide +kernel, hflat⟩

end Term
end Dormouse

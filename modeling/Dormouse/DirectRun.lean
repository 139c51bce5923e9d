import Dormouse.DirectSends
/-!
# DirectRun — two endpoints, a relay and a channel

Each end has a relay and a channel to the other, both reliable and in order; what happens next is chosen freely: a call of
an owner, an event of a peer, the next frame of a relay or of a channel.  A channel carries frames to a peer that exists
and is not closed.

What a receiver has processed is what it was handed on the relay, and behind the marker what it was handed on the channel
(`Received`); with the sender's account (`Accounted`) it is a prefix of what was sent.
-/
namespace Dormouse
namespace Direct

variable {α : Type} {size : α → Nat}

/-! ## The system -/

inductive Event (α : Type) where
  | owner (c : OwnerCall α)
  | offer (builds : Bool)
  | described (sdp takes : Bool)
  | opened (fits takes : Bool)
  | drained (ws : List Write) (takes : Bool)
  | closed (takes : Bool)
  | violation (refused : Bool)
  | handoffExpired
  /-- a disposed endpoint's peer has flushed, or its grace is over -/
  | flushed

def DirectEndpoint.event (e : DirectEndpoint size) : Event α → DirectEndpoint size
  | .owner c              => e.owner c
  | .offer builds         => e.offer builds
  | .described sdp takes  => e.described sdp takes
  | .opened fits takes    => e.onOpen fits takes
  | .drained ws takes     => e.drain takes ws
  | .closed takes         =>
    match e.peer with
    | none   => e
    | some p => e.fail p takes
  | .violation refused    => e.onViolation refused
  | .handoffExpired       => e.handoffExpired
  | .flushed              => if e.disposed then { e with peer := e.peer.map .close } else e

inductive Action (α : Type) where
  | at (side : Bool) (event : Event α)
  /-- `side` is handed the next frame of the other's relay -/
  | relayFrame (side decodes builds takes : Bool) (script : List (Reaction α))
  /-- `side` is handed the next frame of the other's channel -/
  | channelFrame (side : Bool) (reaction : Reaction α)

abbrev Pair (size : α → Nat) := Bool → DirectEndpoint size

def start (roles : Bool → DirectRole) : Pair size := fun side => .fresh (roles side)

/-- Both ends, `side` and the other. -/
def both (side : Bool) (e other : DirectEndpoint size) : Pair size := fun b => if b = side then e else other

def step (p : Pair size) : Action α → Pair size
  | .at side event => both side ((p side).event event) (p !side)
  | .relayFrame side decodes builds takes script =>
    let other := p !side
    match other.relay.deliver with
    | none            => p
    | some (f, relay) => both side ((p side).onRelayFrame decodes builds takes script f) { other with relay := relay }
  | .channelFrame side reaction =>
    let other := p !side
    match other.channel.deliver with
    | none              => p
    | some (a, channel) =>
      if (p side).peer.any (fun q => !q.closed) then
        both side ((p side).onFrame a reaction) { other with channel := channel }
      else p

/-! ## One end -/

namespace DirectEndpoint

theorem event_moves (e : DirectEndpoint size) : ∀ event : Event α, e.Moves (e.event event)
  | .owner c => e.owner_moves c
  | .offer builds => e.offer_moves builds
  | .described sdp takes => e.described_moves sdp takes
  | .opened fits takes => e.onOpen_moves fits takes
  | .drained ws takes => drain_moves ws e takes
  | .closed takes => by
    unfold event
    dsimp only
    split
    · exact .refl e
    · rename_i p hp
      exact fail_moves hp rfl takes
  | .violation refused => e.onViolation_moves refused
  | .handoffExpired => e.handoffExpired_moves
  | .flushed => by
    unfold event
    dsimp only
    split
    · cases hp : e.peer with
      | none =>
        rw [Option.map_none, ← hp]
        exact .refl e
      | some p => exact close_moves hp rfl
    · exact .refl e

theorem processed_moves (e : DirectEndpoint size) (l : List (Frame α)) : e.Sends { e with processed := l } :=
  .of_same rfl rfl rfl rfl rfl (fun _ => id) (fun h => ⟨h.idle, h.opened⟩)

/-- **One frame processed**: the owner's calls go out as ever, and the frame is logged, or the session ends. -/
theorem receive_spec (e : DirectEndpoint size) (f : Frame α) (r : Reaction α) :
    e.Sends (e.receive f r) ∧
    (((e.receive f r).processed = e.processed ∧ (e.receive f r).alive = false) ∨
      (r.isSome = true ∧ { e with processed := e.processed ++ [f] }.Hears (e.receive f r))) := by
  cases r with
  | none => exact ⟨e.fatal_sends, .inl e.fatal_dead⟩
  | some calls =>
    have h := owners_moves calls { e with processed := e.processed ++ [f] }
    exact ⟨(e.processed_moves _).trans h.toSends, .inr ⟨rfl, h.toHears⟩⟩

variable {e : DirectEndpoint size}

theorem deliverHeld_dead (h : e.alive = false) (script : List (Reaction α)) :
    ∀ frames : List α, e.deliverHeld script frames = e
  | [] => rfl
  | _ :: _ => by rw [deliverHeld, if_pos (by simp [h])]

/-- **The held frames, in order, until the session ends.** -/
theorem deliverHeld_spec : ∀ (frames : List α) (script : List (Reaction α)) (e : DirectEndpoint size),
    e.Sends (e.deliverHeld script frames) ∧
    (∃ k, (e.deliverHeld script frames).processed = e.processed ++ (frames.take k).map .app) ∧
    ((e.deliverHeld script frames).alive = true →
      (e.deliverHeld script frames).processed = e.processed ++ frames.map .app ∧
      (e.deliverHeld script frames).cutover.inbound = e.cutover.inbound)
  | [], _, e => ⟨.refl e, ⟨0, by simp [deliverHeld]⟩, fun _ => ⟨by simp [deliverHeld], rfl⟩⟩
  | a :: frames, script, e => by
    by_cases hal : e.alive = true
    · rw [deliverHeld, if_neg (by simp [hal])]
      obtain ⟨hs, hp⟩ := e.receive_spec (.app a) (script.headD (some []))
      generalize e.receive (.app a) (script.headD (some [])) = e₁ at hs hp ⊢
      rcases hp with ⟨hp, hdead⟩ | ⟨_, hh⟩
      · rw [deliverHeld_dead hdead]
        exact ⟨hs, ⟨0, by rw [hp]; simp⟩, fun ha => by rw [hdead] at ha; cases ha⟩
      · obtain ⟨hs', ⟨k, hk⟩, halive⟩ := deliverHeld_spec frames script.tail e₁
        have hp : e₁.processed = e.processed ++ [.app a] := hh.processed
        refine ⟨hs.trans hs', ⟨k + 1, ?_⟩, fun ha => ?_⟩
        · rw [hk, hp, List.take_succ_cons, List.map_cons, List.append_assoc]
          rfl
        · obtain ⟨hpr, hin⟩ := halive ha
          have ha₁ : e₁.alive = true := by
            cases h : e₁.alive with
            | true => rfl
            | false =>
              rw [deliverHeld_dead h, h] at ha
              cases ha
          refine ⟨?_, hin.trans (hh.inbound ha₁)⟩
          rw [hpr, hp, List.map_cons, List.append_assoc]
          rfl
    · have hdead : e.alive = false := by simpa using hal
      rw [deliverHeld_dead hdead]
      exact ⟨.refl e, ⟨0, by simp⟩, fun ha => absurd ha hal⟩

theorem onSignal_dead (h : e.alive = false) (builds takes : Bool) (script : List (Reaction α)) :
    ∀ s : DirectSignal, e.onSignal builds takes script s = e
  | .offer => by rw [onSignal, if_neg (by simp [h])]
  | .answer => rfl
  | .decline => by rw [onSignal, if_neg (by simp [h])]
  | .switch => by rw [onSignal, if_pos (by simp [h])]

theorem onSignal_moves (e : DirectEndpoint size) (builds takes : Bool) (script : List (Reaction α)) :
    ∀ {s : DirectSignal}, s ≠ .switch → e.Moves (e.onSignal builds takes script s)
  | .offer, _ => by
    rw [onSignal]
    split
    · rename_i h
      exact answer_moves h.1 builds takes
    · exact .refl e
  | .answer, _ => .refl e
  | .decline, _ => by
    rw [onSignal]
    split
    · exact e.giveUp_moves
    · exact .refl e
  | .switch, h => absurd rfl h

theorem cutover_sends {c : DirectCutover size} (ho : c.outbound = e.cutover.outbound) (hs : c.state = e.cutover.state) :
    e.Sends { e with cutover := c } :=
  .of_same rfl rfl rfl rfl ho (fun _ h => by simpa [stopped, ho] using h)
    (fun h => ⟨fun hi => by rw [ho]; exact h.idle (hs ▸ hi), fun hd => h.opened (ho ▸ hd)⟩)

theorem onSwitch_sends (e : DirectEndpoint size) (builds takes : Bool) (script : List (Reaction α)) :
    e.Sends (e.onSignal builds takes script .switch) := by
  rw [onSignal]
  split
  · exact .refl e
  unfold DirectCutover.onSwitchDecrypted
  split
  · exact e.fatal_sends
  · rename_i frames c hc
    split at hc
    · cases hc
    · cases hc
      refine Sends.trans ?_ (deliverHeld_spec _ script _).1
      exact cutover_sends rfl rfl

theorem onRelayFrame_sends (e : DirectEndpoint size) (decodes builds takes : Bool) (script : List (Reaction α)) (f : Frame α) :
    e.Sends (e.onRelayFrame decodes builds takes script f) := by
  have hrec := (e.receive_spec f (script.headD (some []))).1
  unfold onRelayFrame
  split
  · exact .refl e
  split
  · exact e.fatal_sends
  split
  · exact e.fatal_sends
  dsimp only
  split
  · exact hrec
  · rename_i s
    split
    · by_cases hs : s = .switch
      · rw [hs]
        rw [hs] at hrec
        exact hrec.trans (onSwitch_sends _ builds takes _)
      · exact hrec.trans (onSignal_moves _ builds takes _ hs).toSends
    · exact hrec

theorem onFrame_sends (e : DirectEndpoint size) (a : α) (r : Reaction α) : e.Sends (e.onFrame a r) := by
  unfold onFrame
  split
  · exact .refl e
  split
  · exact (e.receive_spec (.app a) r).1
  · exact cutover_sends rfl rfl
  · exact e.fatal_sends

/-! ## One direction -/

/-- What `r` has processed of what `s` sent: the frames off the relay, and behind the marker those off the channel. -/
structure Received (s r : DirectEndpoint size) : Prop where
  before : r.processed <+: s.sent
  relay  : r.alive = true → r.cutover.inbound = .relay → r.processed = s.relay.done ∧
    Frame.signal .switch ∉ s.relay.done ∧ (r.cutover.state ≠ .abandoned → r.cutover.held.frames = s.channel.done)
  direct : r.alive = true → r.cutover.inbound = .direct → r.processed = s.relay.done ++ s.channel.done.map .app ∧
    ∃ before, s.relay.done = before ++ [.signal .switch]

section
variable {s r s' r' : DirectEndpoint size}

theorem Accounted.relay_prefix (h : s.Accounted) {l : List (Frame α)} (hl : l <+: s.relay.log) : l <+: s.sent := by
  obtain ⟨dropped, he, _⟩ := h.sent
  rw [he, List.append_assoc]
  exact hl.trans (List.prefix_append _ _)

/-- **Behind the marker, the frames of the channel.** -/
theorem Accounted.channel_prefix (h : s.Accounted) (hm : MarkerLast s.relay.log)
    (hmark : ∃ before, s.relay.done = before ++ [.signal .switch]) {l : List α} (hl : l <+: s.channel.log) :
    s.relay.done ++ l.map .app <+: s.sent := by
  obtain ⟨before, hb⟩ := hmark
  have hlog : s.relay.log = before ++ .signal .switch :: s.relay.queue := by
    rw [Steps.Fifo.log, hb, List.append_assoc]
    rfl
  have hdone : s.relay.log = s.relay.done := by rw [hlog, hm _ _ hlog, hb]
  obtain ⟨dropped, he, _⟩ := h.sent
  obtain ⟨t, ht⟩ := hl
  refine ⟨(t ++ s.queue).map .app ++ dropped, ?_⟩
  rw [he, hdone, ← ht]
  simp

/-- What `r` holds back for the marker. -/
def waiting (r : DirectEndpoint size) : List α := if r.cutover.inbound = .relay then r.cutover.held.frames else []

/-- **Nothing is lost between live ends**: what was sent and is not processed is under way. -/
theorem Received.under_way (h : Received s r) (hacc : s.Accounted) (hm : MarkerLast s.relay.log) (ha : r.alive = true)
    (hst : s.stopped = false) (hab : r.cutover.state ≠ .abandoned) :
    s.sent = r.processed ++ s.relay.queue ++ (r.waiting ++ s.channel.queue ++ s.queue).map .app := by
  obtain ⟨dropped, he, hd⟩ := hacc.sent
  have hdrop : dropped = [] := Classical.byContradiction fun hne => by
    have := hd hne
    rw [hst] at this
    cases this
  rw [hdrop, List.append_nil] at he
  cases hin : r.cutover.inbound with
  | relay =>
    obtain ⟨hp, _, hheld⟩ := h.relay ha hin
    rw [he, waiting, if_pos hin, hp, hheld hab]
    rfl
  | direct =>
    obtain ⟨hp, before, hb⟩ := h.direct ha hin
    have hq : s.relay.queue = [] := hm before s.relay.queue (by rw [Steps.Fifo.log, hb, List.append_assoc]; rfl)
    rw [he, waiting, if_neg (by rw [hin]; decide), hp, hq, Steps.Fifo.log, Steps.Fifo.log, hq]
    simp

theorem Received.sender (h : Received s r) (hs : s.Sends s') : Received s' r := by
  refine ⟨h.before.trans hs.sent, ?_, ?_⟩
  · rw [hs.relayDone, hs.channelDone]
    exact h.relay
  · rw [hs.relayDone, hs.channelDone]
    exact h.direct

theorem Received.hears (h : Received s r) (hr : r.Hears r') : Received s r' := by
  refine ⟨by rw [hr.processed]; exact h.before, fun ha hi => ?_, fun ha hi => ?_⟩
  · rw [hr.inbound ha] at hi
    obtain ⟨hp, hno, hheld⟩ := h.relay (hr.alive ha) hi
    refine ⟨by rw [hr.processed, hp], hno, fun hst => ?_⟩
    obtain ⟨hst', he⟩ := hr.held ha hst
    rw [he, hheld hst']
  · rw [hr.inbound ha] at hi
    rw [hr.processed]
    exact h.direct (hr.alive ha) hi

theorem Received.dead (hb : r'.processed <+: s.sent) (hd : r'.alive = false) : Received s r' := by
  have hno : r'.alive ≠ true := by simp [hd]
  exact ⟨hb, fun ha => absurd ha hno, fun ha => absurd ha hno⟩

theorem Received.switch (hacc : s.Accounted) (hm : MarkerLast s.relay.log)
    (hmark : ∃ before, s.relay.done = before ++ [.signal .switch]) (hp : r.processed = s.relay.done)
    (hheld : r.cutover.state ≠ .abandoned → r.cutover.held.frames = s.channel.done) (builds takes : Bool)
    (script : List (Reaction α)) (ha : r.alive = true) : Received s (r.onSignal builds takes script .switch) := by
  rw [onSignal, if_neg (by simp [ha])]
  unfold DirectCutover.onSwitchDecrypted
  split
  · exact .dead (by rw [r.fatal_dead.1, hp]; exact hacc.relay_prefix s.relay.done_prefix) r.fatal_dead.2
  · rename_i frames c hc
    split at hc
    · cases hc
    · rename_i hst
      have hframes := hheld (by rw [Decidable.not_not.1 hst]; decide)
      cases hc
      rw [hframes]
      obtain ⟨_, ⟨k, hk⟩, halive⟩ := deliverHeld_spec s.channel.done script
        { r with cutover := { r.cutover with inbound := .direct, held := .empty } }
      refine ⟨?_, fun ha' hi => ?_, fun ha' _ => ⟨?_, hmark⟩⟩
      · rw [hk]
        show r.processed ++ _ <+: _
        rw [hp]
        exact hacc.channel_prefix hm hmark ((List.take_prefix _ _).trans s.channel.done_prefix)
      · rw [(halive ha').2] at hi
        cases hi
      · rw [(halive ha').1]
        show r.processed ++ _ = _
        rw [hp]

/-- **The next frame of the relay is handed over.** -/
theorem Received.relayFrame (hacc : s.Accounted) (hm : MarkerLast s.relay.log) (h : Received s r) {f : Frame α}
    {relay : Steps.Fifo (Frame α)} (hd : s.relay.deliver = some (f, relay)) (decodes builds takes : Bool)
    (script : List (Reaction α)) :
    Received { s with relay := relay } (r.onRelayFrame decodes builds takes script f) := by
  obtain ⟨hlog, hdone⟩ := Steps.Fifo.deliver_spec hd
  have hsent : ({ s with relay := relay } : DirectEndpoint size).sent = s.sent := rfl
  have hacc' : ({ s with relay := relay } : DirectEndpoint size).Accounted := by
    obtain ⟨hs, hr, hdir⟩ := hacc
    rw [← hlog] at hs hr hdir
    exact ⟨hs, hr, hdir⟩
  have hm' : MarkerLast ({ s with relay := relay } : DirectEndpoint size).relay.log := by
    show MarkerLast relay.log
    rw [hlog]
    exact hm
  by_cases ha : r.alive = true
  · cases hin : r.cutover.inbound with
    | direct =>
      have : r.onRelayFrame decodes builds takes script f = r.fatal := by
        rw [onRelayFrame, if_neg (by simp [ha]), if_pos (by simp [DirectCutover.onRelayTransport, hin])]
      rw [this]
      exact .dead (by rw [r.fatal_dead.1]; exact h.before) r.fatal_dead.2
    | relay =>
      obtain ⟨hp, hno, hheld⟩ := h.relay ha hin
      have hpre : relay.done <+: s.sent := hacc'.relay_prefix (Steps.Fifo.done_prefix relay)
      rw [onRelayFrame, if_neg (by simp [ha]), if_neg (by simp [DirectCutover.onRelayTransport, hin])]
      split
      · exact .dead (by rw [r.fatal_dead.1]; exact h.before) r.fatal_dead.2
      rcases (r.receive_spec f (script.headD (some []))).2 with ⟨hpr, hdead⟩ | ⟨hsome, hh⟩
      · have hsig : ∀ sig, (r.receive f (script.headD (some []))).onSignal builds takes script.tail sig =
            r.receive f (script.headD (some [])) := onSignal_dead hdead builds takes script.tail
        have hres : Received { s with relay := relay } (r.receive f (script.headD (some []))) :=
          .dead (by rw [hpr]; exact h.before) hdead
        cases f with
        | app a => exact hres
        | signal sig =>
          dsimp only
          rw [hsig]
          split <;> exact hres
      · have hpr : (r.receive f (script.headD (some []))).processed = relay.done := by
          rw [hh.processed, hdone, ← hp]
        generalize r.receive f (script.headD (some [])) = e₁ at hh hpr ⊢
        have hkeep : e₁.cutover.state ≠ .abandoned → e₁.alive = true → e₁.cutover.held.frames = s.channel.done :=
          fun hst ha₁ => by
            obtain ⟨hst', he⟩ := hh.held ha₁ hst
            rw [he]
            exact hheld hst'
        -- a frame that is not the marker
        have hplain : f ≠ .signal .switch → Received { s with relay := relay } e₁ := fun hf => by
          refine ⟨by rw [hpr]; exact hpre, fun ha₁ _ => ⟨hpr, ?_, fun hst => hkeep hst ha₁⟩, fun ha₁ hi => ?_⟩
          · show Frame.signal .switch ∉ relay.done
            rw [hdone, List.mem_append, List.mem_singleton]
            exact fun hmem => hmem.elim hno (fun he => hf he.symm)
          · rw [hh.inbound ha₁] at hi
            rw [show r.cutover.inbound = .direct from hi] at hin
            cases hin
        cases f with
        | app a => exact hplain nofun
        | signal sig =>
          dsimp only
          rw [if_pos hsome]
          by_cases hsw : sig = .switch
          · subst hsw
            by_cases ha₁ : e₁.alive = true
            · exact .switch hacc' hm' ⟨s.relay.done, hdone⟩ hpr (fun hst => hkeep hst ha₁) builds takes _ ha₁
            · have hd₁ : e₁.alive = false := by simpa using ha₁
              rw [onSignal_dead hd₁]
              exact .dead (by rw [hpr]; exact hpre) hd₁
          · exact (hplain (fun he => hsw (by cases he; rfl))).hears
              (onSignal_moves e₁ builds takes script.tail hsw).toHears
  · have : r.onRelayFrame decodes builds takes script f = r := by
      rw [onRelayFrame, if_pos (by simpa using ha)]
    rw [this]
    exact .dead h.before (by simpa using ha)

/-- **The next frame of the channel is handed over.** -/
theorem Received.channelFrame (hacc : s.Accounted) (hm : MarkerLast s.relay.log) (h : Received s r) {a : α}
    {channel : Steps.Fifo α} (hd : s.channel.deliver = some (a, channel)) (reaction : Reaction α) :
    Received { s with channel := channel } (r.onFrame a reaction) := by
  obtain ⟨hlog, hdone⟩ := Steps.Fifo.deliver_spec hd
  have hstep : s.channel.done ++ [a] <+: s.channel.log := by
    rw [← hdone, ← hlog]
    exact channel.done_prefix
  unfold onFrame
  split
  · rename_i ha
    exact .dead h.before (by simpa using ha)
  rename_i hal
  have ha : r.alive = true := by simpa using hal
  unfold DirectCutover.onChannelFrame
  by_cases hin : r.cutover.inbound = .direct
  · obtain ⟨hp, hmark⟩ := h.direct ha hin
    rw [if_pos hin]
    dsimp only
    rcases (r.receive_spec (.app a) reaction).2 with ⟨hpr, hdead⟩ | ⟨_, hh⟩
    · exact .dead (by rw [hpr]; exact h.before) hdead
    · have hpr : (r.receive (.app a) reaction).processed = s.relay.done ++ channel.done.map .app := by
        rw [hh.processed, hdone, List.map_append, ← List.append_assoc, ← hp]
        rfl
      refine ⟨?_, fun ha' hi => ?_, fun _ _ => ⟨hpr, hmark⟩⟩
      · rw [hpr, hdone]
        exact hacc.channel_prefix hm hmark hstep
      · rw [hh.inbound ha', show r.cutover.inbound = .direct from hin] at hi
        cases hi
  · have hrelay : r.cutover.inbound = .relay := by
      cases hi : r.cutover.inbound with
      | relay => rfl
      | direct => exact absurd hi hin
    obtain ⟨hp, hno, hheld⟩ := h.relay ha hrelay
    rw [if_neg hin]
    cases hq : r.cutover.held.push a with
    | none => exact .dead (by rw [r.fatal_dead.1]; exact h.before) r.fatal_dead.2
    | some q =>
      refine ⟨h.before, fun _ _ => ⟨hp, hno, fun hst => ?_⟩, fun _ hi => absurd hi hin⟩
      show q.frames = channel.done
      rw [DirectFrameQueue.push_frames hq, hheld hst, hdone]

end

end DirectEndpoint

/-! ## Runs -/

open DirectEndpoint

def Fine (p : Pair size) : Prop :=
  ∀ side, (p side).Sound ∧ (MarkerLast (p side).relay.log → Received (p side) (p !side))

theorem both_self (side : Bool) (e other : DirectEndpoint size) : both side e other side = e := if_pos rfl

theorem both_other (side : Bool) (e other : DirectEndpoint size) : both side e other (!side) = other :=
  if_neg (by cases side <;> decide)

theorem start_fine (roles : Bool → DirectRole) : Fine (start roles : Pair size) := fun _ =>
  ⟨fresh_sound _, fun _ => ⟨List.prefix_rfl, fun _ _ => ⟨rfl, nofun, fun _ => rfl⟩, nofun⟩⟩

variable {p : Pair size}

/-- One end moves as a sender, the other as a receiver, and the frames the other sent reach the one. -/
theorem fine_both (hp : Fine p) {side : Bool} {e other : DirectEndpoint size} (hsend : (p side).Sends e)
    (hhears : (p !side).Hears other) (hsound : other.Sound) (hrec : MarkerLast other.relay.log → Received other e) :
    Fine (both side e other) := by
  intro b
  by_cases hb : b = side
  · subst hb
    rw [both_self, both_other]
    exact ⟨hsend.sound (hp b).1, fun hm => (((hp b).2 (hm.of_prefix hsend.relayLog)).sender hsend).hears hhears⟩
  · obtain rfl : b = !side := by
      cases b <;> cases side <;> simp_all
    rw [both_other, Bool.not_not, both_self]
    exact ⟨hsound, hrec⟩

theorem relay_deliver_sound {s : DirectEndpoint size} (h : s.Sound) {f : Frame α} {relay : Steps.Fifo (Frame α)}
    (hd : s.relay.deliver = some (f, relay)) : ({ s with relay := relay } : DirectEndpoint size).Sound := by
  obtain ⟨hlog, _⟩ := Steps.Fifo.deliver_spec hd
  refine ⟨⟨h.wired.idle, h.wired.opened⟩, fun hm => ?_⟩
  obtain ⟨hs, hr, hdir⟩ := h.accounted (by rw [← hlog]; exact hm)
  rw [← hlog] at hs hr hdir
  exact ⟨hs, hr, hdir⟩

theorem channel_deliver_sound {s : DirectEndpoint size} (h : s.Sound) {a : α} {channel : Steps.Fifo α}
    (hd : s.channel.deliver = some (a, channel)) : ({ s with channel := channel } : DirectEndpoint size).Sound := by
  obtain ⟨hlog, _⟩ := Steps.Fifo.deliver_spec hd
  refine ⟨⟨h.wired.idle, h.wired.opened⟩, fun hm => ?_⟩
  obtain ⟨hs, hr, hdir⟩ := h.accounted hm
  rw [← hlog] at hs hr
  exact ⟨hs, hr, hdir⟩

/-- **One action keeps both directions.** -/
theorem step_fine (hp : Fine p) : ∀ action : Action α, Fine (step p action)
  | .at side event => by
    have hmoves := (p side).event_moves event
    have hother := hp (!side)
    rw [Bool.not_not] at hother
    exact fine_both hp hmoves.toSends (Moves.refl _).toHears hother.1 (fun hm => (hother.2 hm).hears hmoves.toHears)
  | .relayFrame side decodes builds takes script => by
    have hother := hp (!side)
    rw [Bool.not_not] at hother
    rw [step]
    cases hd : (p !side).relay.deliver with
    | none => exact hp
    | some fr =>
      obtain ⟨f, relay⟩ := fr
      have hlog := (Steps.Fifo.deliver_spec hd).1
      refine fine_both hp (onRelayFrame_sends _ decodes builds takes script f)
        (.of_same rfl rfl rfl rfl (fun h => ⟨h, rfl⟩)) (relay_deliver_sound hother.1 hd) (fun hm => ?_)
      have hm' : MarkerLast (p !side).relay.log := by rw [← hlog]; exact hm
      exact (hother.2 hm').relayFrame (hother.1.accounted hm') hm' hd decodes builds takes script
  | .channelFrame side reaction => by
    have hother := hp (!side)
    rw [Bool.not_not] at hother
    rw [step]
    cases hd : (p !side).channel.deliver with
    | none => exact hp
    | some fr =>
      obtain ⟨a, channel⟩ := fr
      dsimp only
      split
      · exact fine_both hp (onFrame_sends _ a reaction) (.of_same rfl rfl rfl rfl (fun h => ⟨h, rfl⟩))
          (channel_deliver_sound hother.1 hd)
          (fun hm => (hother.2 hm).channelFrame (hother.1.accounted hm) hm hd reaction)
      · exact hp

theorem both_dead {side b : Bool} {e other : DirectEndpoint size} (hd : (p side).alive = false)
    (he : (p b).alive = false → e.processed = (p b).processed ∧ e.alive = false)
    (ho : other.processed = (p !b).processed ∧ other.alive = (p !b).alive) :
    (both b e other side).processed = (p side).processed ∧ (both b e other side).alive = false := by
  by_cases hb : side = b
  · subst hb
    rw [both_self]
    exact he hd
  · obtain rfl : side = !b := by
      cases b <;> cases side <;> simp_all
    rw [both_other]
    exact ⟨ho.1, ho.2.trans hd⟩

theorem step_dead {side : Bool} (h : (p side).alive = false) : ∀ action : Action α,
    (step p action side).processed = (p side).processed ∧ (step p action side).alive = false
  | .at b event => by
    have hm := (p b).event_moves event
    refine both_dead h (fun hd => ⟨hm.processed, ?_⟩) ⟨rfl, rfl⟩
    cases ha : ((p b).event event).alive with
    | false => rfl
    | true =>
      rw [hm.alive ha] at hd
      cases hd
  | .relayFrame b decodes builds takes script => by
    rw [step]
    cases (p !b).relay.deliver with
    | none => exact ⟨rfl, h⟩
    | some fr =>
      refine both_dead h (fun hd => ?_) ⟨rfl, rfl⟩
      rw [onRelayFrame, if_pos (by simp [hd])]
      exact ⟨rfl, hd⟩
  | .channelFrame b reaction => by
    rw [step]
    cases (p !b).channel.deliver with
    | none => exact ⟨rfl, h⟩
    | some fr =>
      dsimp only
      split
      · refine both_dead h (fun hd => ?_) ⟨rfl, rfl⟩
        rw [onFrame, if_pos (by simp [hd])]
        exact ⟨rfl, hd⟩
      · exact ⟨rfl, h⟩

theorem run_dead {side : Bool} : ∀ (actions : List (Action α)) {p : Pair size}, (p side).alive = false →
    (Steps.run step p actions side).processed = (p side).processed
  | [], _, _ => rfl
  | action :: actions, p, h => by
    obtain ⟨hp, hd⟩ := step_dead h action
    rw [Steps.run_cons, run_dead actions hd, hp]

/-- **A session across the switch.**  In every run where each end's marker is the last message it puts on the relay, what
an end has processed is a prefix of what the other sent, in the order it was sent; between live ends what is missing is
under way; an end that is over (by an overflow, a violation or any fatal end) processes nothing more; and what is held
back for the marker keeps its bounds. -/
theorem cutover_delivers_prefix (roles : Bool → DirectRole) (actions : List (Action α)) (p : Pair size)
    (hp : p = Steps.run step (start roles) actions) (hlast : ∀ side, MarkerLast (p side).relay.log) :
    ∀ side, (p side).processed <+: (p !side).sent ∧
      ((p side).alive = true → (p !side).stopped = false → (p side).cutover.state ≠ .abandoned →
        (p !side).sent = (p side).processed ++ (p !side).relay.queue ++
          ((p side).waiting ++ (p !side).channel.queue ++ (p !side).queue).map .app) ∧
      ((p side).alive = false → ∀ later, (Steps.run step p later side).processed = (p side).processed) ∧
      (p side).cutover.held.frames.length ≤ maxDirectPendingFrames ∧
      ((p side).cutover.held.frames.map size).sum ≤ maxDirectPendingBytes := by
  intro side
  have hfine : Fine p := by
    rw [hp]
    exact Steps.run_invariant (I := Fine) (fun _ action h => step_fine h action) actions _ (start_fine roles)
  have hother := hfine (!side)
  rw [Bool.not_not] at hother
  have hm := hlast (!side)
  have hrec := hother.2 hm
  refine ⟨hrec.before, fun ha hst hab => hrec.under_way (hother.1.accounted hm) hm ha hst hab,
    fun hd later => run_dead later hd, (p side).cutover.held.frames_le, ?_⟩
  rw [← (p side).cutover.held.bytes_eq]
  exact (p side).cutover.held.bytes_le

/-! ### A run -/

theorem markerLast_of {log : List (Frame α)} (h : Frame.signal .switch ∉ log.dropLast) : MarkerLast log := by
  intro before after he
  cases after with
  | nil => rfl
  | cons f after =>
    refine absurd ?_ h
    rw [he, List.dropLast_append_of_ne_nil (by simp), List.dropLast_cons_of_ne_nil (by simp)]
    simp

def sampleRoles : Bool → DirectRole
  | true  => .offerer
  | false => .answerer

/-- An offer taken up, a message on the relay, the switch, and a message on the channel that arrives before it. -/
def sampleActions : List (Action Nat) :=
  [.at true (.offer true), .at true (.described true true), .relayFrame false true true true [],
    .at false (.described true true), .relayFrame true true true true [], .at true (.owner (.send 1 ⟨0, true⟩ true)),
    .at true (.opened true true), .at true (.owner (.send 2 ⟨0, true⟩ true)), .channelFrame false (some []),
    .relayFrame false true true true [], .relayFrame false true true true []]

theorem cutover_delivers_prefix_sample :
    (Steps.run step (start sampleRoles : Pair (id : Nat → Nat)) sampleActions false).processed =
      [.signal .offer, .app 1, .signal .switch, .app 2] ∧
    (Steps.run step (start sampleRoles : Pair (id : Nat → Nat)) sampleActions false).processed <+:
      (Steps.run step (start sampleRoles : Pair (id : Nat → Nat)) sampleActions true).sent :=
  ⟨by decide, ( cutover_delivers_prefix sampleRoles sampleActions _ rfl
    (fun side => markerLast_of (by cases side <;> decide)) false).1⟩

end Direct
end Dormouse

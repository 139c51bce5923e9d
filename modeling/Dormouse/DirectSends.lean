import Dormouse.DirectPath
/-!
# DirectSends — where a sent message is

What an endpoint has sent is, in order: what it put on the relay, what it wrote to the channel, what waits in its peer's
queue, and a tail that was dropped because nothing can leave any more (`Accounted`).  That stands on the marker being the
last message on the relay (`MarkerLast`), and every operation of an endpoint keeps it (`Sends`).
-/
namespace Dormouse
namespace Direct

variable {α : Type} {size : α → Nat}

def MarkerLast (log : List (Frame α)) : Prop := ∀ before after, log = before ++ .signal .switch :: after → after = []

theorem MarkerLast.of_prefix {log log' : List (Frame α)} (h : MarkerLast log') (hp : log <+: log') : MarkerLast log := by
  obtain ⟨t, rfl⟩ := hp
  intro before after he
  have := h before (after ++ t) (by rw [he, List.append_assoc]; rfl)
  exact (List.append_eq_nil_iff.1 this).1

theorem MarkerLast.not_snoc {log : List (Frame α)} {f : Frame α} (h : MarkerLast (log ++ [f]))
    (hm : ∃ before, log = before ++ [.signal .switch]) : False := by
  obtain ⟨before, rfl⟩ := hm
  have := h before [f] (by rw [List.append_assoc]; rfl)
  cases this

namespace DirectEndpoint

def queue (e : DirectEndpoint size) : List α :=
  match e.peer with
  | some p => p.outbound.frames
  | none   => []

/-- Nothing handed to `send` can leave. -/
def stopped (e : DirectEndpoint size) : Bool :=
  e.disposed || (e.cutover.outbound = .direct && !e.peer.any DirectPeer.isOpen)

structure Wired (e : DirectEndpoint size) : Prop where
  idle   : e.cutover.state = .idle → e.peer = none ∧ e.cutover.outbound = .relay
  opened : e.cutover.outbound = .direct → ∀ p, e.peer = some p → p.opened = true

/-- Where the messages sent are. -/
structure Accounted (e : DirectEndpoint size) : Prop where
  sent   : ∃ dropped, e.sent = e.relay.log ++ (e.channel.log ++ e.queue).map .app ++ dropped ∧
    (dropped ≠ [] → e.stopped = true)
  relay  : e.cutover.outbound = .relay → e.channel.log = [] ∧ e.queue = [] ∧ Frame.signal .switch ∉ e.relay.log
  direct : e.cutover.outbound = .direct → ∃ before, e.relay.log = before ++ [.signal .switch]

structure Sound (e : DirectEndpoint size) : Prop where
  wired     : e.Wired
  accounted : MarkerLast e.relay.log → e.Accounted

/-- What an operation does to an endpoint as a sender: its history grows, its links lose nothing, and the account of its
messages is kept. -/
structure Sends (e e' : DirectEndpoint size) : Prop where
  sound       : e.Sound → e'.Sound
  sent        : e.sent <+: e'.sent
  relayLog    : e.relay.log <+: e'.relay.log
  relayDone   : e'.relay.done = e.relay.done
  channelDone : e'.channel.done = e.channel.done

theorem Sends.refl (e : DirectEndpoint size) : e.Sends e := ⟨id, List.prefix_rfl, List.prefix_rfl, rfl, rfl⟩

theorem Sends.trans {e e' e'' : DirectEndpoint size} (h : e.Sends e') (h' : e'.Sends e'') : e.Sends e'' :=
  ⟨h'.sound ∘ h.sound, h.sent.trans h'.sent, h.relayLog.trans h'.relayLog, h'.relayDone.trans h.relayDone,
    h'.channelDone.trans h.channelDone⟩

theorem fresh_sound (role : DirectRole) : (fresh role : DirectEndpoint size).Sound :=
  ⟨⟨fun _ => ⟨rfl, rfl⟩, nofun⟩, fun _ => ⟨⟨[], rfl, fun h => absurd rfl h⟩, fun _ => ⟨rfl, rfl, nofun⟩, nofun⟩⟩

variable {e : DirectEndpoint size}
variable {e' : DirectEndpoint size}

theorem Sends.of_same (hs : e'.sent = e.sent) (hr : e'.relay = e.relay) (hc : e'.channel = e.channel)
    (hq : e'.queue = e.queue) (ho : e'.cutover.outbound = e.cutover.outbound)
    (hst : e.Wired → e.stopped = true → e'.stopped = true) (hw : e.Wired → e'.Wired) : e.Sends e' := by
  refine ⟨fun h => ⟨hw h.wired, fun hm => ?_⟩, by simp [hs], by simp [hr], by rw [hr], by rw [hc]⟩
  rw [hr] at hm
  obtain ⟨⟨dropped, he, hd⟩, hrel, hdir⟩ := h.accounted hm
  exact ⟨⟨dropped, by rw [hs, hr, hc, hq, he], hst h.wired ∘ hd⟩, by rw [ho, hr, hc, hq]; exact hrel,
    by rw [ho, hr]; exact hdir⟩

theorem Sends.of_lost (hs : e'.sent = e.sent) (hr : e'.relay = e.relay) (hc : e'.channel = e.channel) (hq : e'.queue = [])
    (ho : e'.cutover.outbound = e.cutover.outbound)
    (hst : e.cutover.outbound = .direct ∨ e.stopped = true → e'.stopped = true) (hw : e.Wired → e'.Wired) :
    e.Sends e' := by
  refine ⟨fun h => ⟨hw h.wired, fun hm => ?_⟩, by simp [hs], by simp [hr], by rw [hr], by rw [hc]⟩
  rw [hr] at hm
  obtain ⟨⟨dropped, he, hd⟩, hrel, hdir⟩ := h.accounted hm
  refine ⟨⟨e.queue.map .app ++ dropped, ?_, fun hne => ?_⟩, fun hrelay => ?_, by rw [ho, hr]; exact hdir⟩
  · rw [hs, hr, hc, hq, he, List.append_nil, List.map_append]
    simp only [List.append_assoc]
  · cases hout : e.cutover.outbound with
    | direct => exact hst (.inl hout)
    | relay =>
      rw [(hrel hout).2.1] at hne
      exact hst (.inr (hd hne))
  · rw [ho] at hrelay
    rw [hr, hc]
    exact ⟨(hrel hrelay).1, hq, (hrel hrelay).2.2⟩

theorem dispose_sends (e : DirectEndpoint size) : e.Sends e.dispose := by
  unfold dispose
  split
  · exact .refl e
  · exact .of_lost rfl rfl rfl rfl rfl (fun _ => rfl) (fun h => ⟨fun hi => ⟨rfl, (h.idle hi).2⟩, nofun⟩)

theorem fatal_sends (e : DirectEndpoint size) : e.Sends e.fatal := by
  exact e.dispose_sends.trans (.of_same rfl rfl rfl rfl rfl (fun _ => id) (fun h => ⟨h.idle, h.opened⟩))

theorem disposeAfterFlush_sends (e : DirectEndpoint size) : e.Sends e.disposeAfterFlush := by
  unfold disposeAfterFlush
  split
  · exact .refl e
  · rename_i hd
    have hdis : e.dispose = { e with disposed := true, peer := none, cutover := e.cutover.clear } := if_neg hd
    by_cases ho : e.cutover.outbound = .direct
    · rw [if_pos ho, hdis]
      exact .of_same rfl rfl rfl rfl rfl (fun _ _ => rfl) (fun h => ⟨fun hi => h.idle hi, h.opened⟩)
    · rw [if_neg ho]
      rw [hdis]
      exact .of_lost rfl rfl rfl rfl rfl (fun _ => rfl) (fun h => ⟨fun hi => ⟨rfl, (h.idle hi).2⟩, nofun⟩)

theorem giveUp_sends (e : DirectEndpoint size) : e.Sends e.giveUp.1 := by
  unfold giveUp
  split
  · exact e.fatal_sends
  · rename_i hsw
    have ho : e.cutover.outbound ≠ .direct := fun h => hsw (by simp [DirectCutover.switched, h])
    refine .of_lost rfl rfl rfl rfl rfl (fun h => ?_) (fun h => ⟨nofun, nofun⟩)
    rcases h with h | h
    · exact absurd h ho
    · have hdisp : e.disposed = true := by simpa [stopped, ho] using h
      simp [stopped, hdisp]

theorem sendSignal_sends (ha : e.alive = true) {s : DirectSignal} (hs : s ≠ .switch) (takes : Bool) :
    e.Sends (e.sendSignal s takes).1 := by
  unfold sendSignal
  split
  · have hdisp : e.disposed = false := by
      unfold alive at ha
      simp at ha
      exact ha.1
    refine ⟨fun h => ⟨⟨h.wired.idle, h.wired.opened⟩, fun hm => ?_⟩, List.prefix_append _ _, ?_, rfl, rfl⟩
    · rw [Steps.Fifo.log_send] at hm
      obtain ⟨⟨dropped, he, hd⟩, hrel, hdir⟩ := h.accounted (hm.of_prefix (List.prefix_append _ _))
      cases hout : e.cutover.outbound with
      | direct => exact (hm.not_snoc (hdir hout)).elim
      | relay =>
        obtain ⟨hc, hq, hno⟩ := hrel hout
        have hdrop : dropped = [] := Classical.byContradiction fun hne => by
          have := hd hne
          simp [stopped, hdisp, hout] at this
        refine ⟨⟨[], ?_, fun hne => absurd rfl hne⟩, fun _ => ⟨hc, hq, ?_⟩, fun hdir' => ?_⟩
        · show e.sent ++ [.signal s] = (e.relay.send (.signal s)).log ++ (e.channel.log ++ e.queue).map .app ++ []
          rw [he, hc, hq, hdrop, Steps.Fifo.log_send]
          simp
        · rw [Steps.Fifo.log_send]
          intro hmem
          rcases List.mem_append.1 hmem with h' | h'
          · exact hno h'
          · rw [List.mem_singleton] at h'
            cases h'
            exact hs rfl
        · rw [show e.cutover.outbound = .direct from hdir'] at hout
          cases hout
    · rw [Steps.Fifo.log_send]
      exact List.prefix_append _ _
  · exact .refl e

/-! ## What an operation does to a receiver -/

/-- What an operation that processes no frame does to an endpoint as a receiver. -/
structure Hears (e e' : DirectEndpoint size) : Prop where
  processed : e'.processed = e.processed
  alive     : e'.alive = true → e.alive = true
  inbound   : e'.alive = true → e'.cutover.inbound = e.cutover.inbound
  held      : e'.alive = true → e'.cutover.state ≠ .abandoned →
    e.cutover.state ≠ .abandoned ∧ e'.cutover.held = e.cutover.held

structure Moves (e e' : DirectEndpoint size) : Prop extends e.Sends e', e.Hears e'

theorem Moves.refl (e : DirectEndpoint size) : e.Moves e := ⟨.refl e, rfl, id, fun _ => rfl, fun _ h => ⟨h, rfl⟩⟩

theorem Moves.trans {e e' e'' : DirectEndpoint size} (h : e.Moves e') (h' : e'.Moves e'') : e.Moves e'' :=
  ⟨h.toSends.trans h'.toSends, h'.processed.trans h.processed, h.alive ∘ h'.alive,
    fun ha => (h'.inbound ha).trans (h.inbound (h'.alive ha)), fun ha hs =>
      ⟨(h.held (h'.alive ha) (h'.held ha hs).1).1,
        (h'.held ha hs).2.trans (h.held (h'.alive ha) (h'.held ha hs).1).2⟩⟩

theorem Hears.of_dead (hp : e'.processed = e.processed) (h : e'.alive = false) : e.Hears e' := by
  have hno : e'.alive ≠ true := by simp [h]
  exact ⟨hp, fun ha => absurd ha hno, fun ha => absurd ha hno, fun ha => absurd ha hno⟩

theorem Hears.of_same (hp : e'.processed = e.processed) (hd : e'.disposed = e.disposed) (hcur : e'.current = e.current)
    (hi : e'.cutover.inbound = e.cutover.inbound)
    (hst : e'.cutover.state ≠ .abandoned → e.cutover.state ≠ .abandoned ∧ e'.cutover.held = e.cutover.held) :
    e.Hears e' :=
  ⟨hp, fun ha => by rwa [DirectEndpoint.alive, hd, hcur] at ha, fun _ => hi, fun _ => hst⟩

theorem dispose_dead (e : DirectEndpoint size) : e.dispose.processed = e.processed ∧ e.dispose.alive = false := by
  unfold dispose
  split
  · rename_i h
    exact ⟨rfl, by simp [alive, h]⟩
  · exact ⟨rfl, rfl⟩

theorem dispose_moves (e : DirectEndpoint size) : e.Moves e.dispose :=
  ⟨e.dispose_sends, .of_dead e.dispose_dead.1 e.dispose_dead.2⟩

theorem fatal_dead (e : DirectEndpoint size) : e.fatal.processed = e.processed ∧ e.fatal.alive = false := e.dispose_dead

theorem fatal_moves (e : DirectEndpoint size) : e.Moves e.fatal :=
  ⟨e.fatal_sends, .of_dead e.fatal_dead.1 e.fatal_dead.2⟩

theorem disposeAfterFlush_moves (e : DirectEndpoint size) : e.Moves e.disposeAfterFlush := by
  refine ⟨e.disposeAfterFlush_sends, ?_⟩
  unfold disposeAfterFlush
  split
  · exact (Moves.refl e).toHears
  · exact .of_dead e.dispose_dead.1 e.dispose_dead.2

theorem giveUp_moves (e : DirectEndpoint size) : e.Moves e.giveUp.1 := by
  refine ⟨e.giveUp_sends, ?_⟩
  unfold giveUp
  split
  · exact e.fatal_moves.toHears
  · exact .of_same rfl rfl rfl rfl (fun h => absurd rfl h)

theorem giveUp_alive (h : e.giveUp.2 = true) : e.giveUp.1.alive = e.alive := by
  unfold giveUp at h ⊢
  split at h
  · cases h
  · rename_i hs
    rw [if_neg hs]
    rfl

theorem sendSignal_moves (ha : e.alive = true) {s : DirectSignal} (hs : s ≠ .switch) (takes : Bool) :
    e.Moves (e.sendSignal s takes).1 := by
  refine ⟨sendSignal_sends ha hs takes, ?_⟩
  unfold sendSignal
  split
  · exact .of_same rfl rfl rfl rfl (fun h => ⟨h, rfl⟩)
  · exact (Moves.refl e).toHears

theorem flags_moves (e : DirectEndpoint size) (owes describing : Bool) :
    e.Moves { e with owesAnswer := owes, describing := describing } :=
  ⟨.of_same rfl rfl rfl rfl rfl (fun _ => id) (fun h => ⟨h.idle, h.opened⟩), .of_same rfl rfl rfl rfl (fun h => ⟨h, rfl⟩)⟩

theorem decline_moves (ha : e.alive = true) (takes : Bool) : e.Moves (e.decline takes) := by
  have h₁ := (e.flags_moves false e.describing).trans (giveUp_moves _)
  unfold decline
  cases hg : { e with owesAnswer := false }.giveUp with
  | mk e' ok =>
    rw [hg] at h₁
    cases ok with
    | false => exact h₁
    | true =>
      have hal := giveUp_alive (e := { e with owesAnswer := false }) (by rw [hg])
      rw [hg] at hal
      exact h₁.trans (sendSignal_moves (hal.trans ha) (by decide) takes)

theorem onClosed_moves (e : DirectEndpoint size) (takes : Bool) : e.Moves (e.onClosed takes) := by
  unfold onClosed
  split
  · exact .refl e
  · rename_i ha
    split
    · exact decline_moves (by simpa using ha) takes
    · exact e.giveUp_moves

theorem close_moves {p q : DirectPeer size} (hp : e.peer = some p) (hq : q.opened = p.opened) :
    e.Moves { e with peer := some q.close } := by
  refine ⟨.of_lost rfl rfl rfl rfl rfl (fun h => ?_) (fun h => ⟨fun hi => ?_, fun ho p' hp' => ?_⟩),
    .of_same rfl rfl rfl rfl (fun h => ⟨h, rfl⟩)⟩
  · rcases h with h | h
    · simp [stopped, h, DirectPeer.isOpen, DirectPeer.close]
    · cases hd : e.disposed with
      | true => simp [stopped]
      | false =>
        simp only [stopped, hd, Bool.false_or, Bool.and_eq_true, decide_eq_true_eq] at h
        simp [stopped, h.1, DirectPeer.isOpen, DirectPeer.close]
  · have := (h.idle hi).1
    rw [hp] at this
    cases this
  · cases hp'
    rw [← h.opened ho p hp, ← hq]
    rfl

theorem fail_moves {p q : DirectPeer size} (hp : e.peer = some p) (hq : q.opened = p.opened) (takes : Bool) :
    e.Moves (e.fail q takes) := by
  unfold fail
  split
  · exact .refl e
  · exact (close_moves hp hq).trans (onClosed_moves _ takes)

/-! ## Sending -/

theorem Sends.of_app {a : α} (hs : e'.sent = e.sent ++ [.app a]) (hr : e'.relay = e.relay)
    (hcd : e'.channel.done = e.channel.done) (hcut : e'.cutover = e.cutover) (hw : e.Wired → e'.Wired)
    (h : (e'.channel.log ++ e'.queue = e.channel.log ++ e.queue ++ [a] ∧ e.stopped = false ∧ e.cutover.outbound = .direct) ∨ (e'.channel = e.channel ∧ e'.queue = e.queue ∧ e'.stopped = true)) :
    e.Sends e' := by
  refine ⟨fun hsound => ⟨hw hsound.wired, fun hm => ?_⟩, by rw [hs]; exact List.prefix_append _ _, by simp [hr],
    by rw [hr], hcd⟩
  rw [hr] at hm
  obtain ⟨⟨dropped, he, hd⟩, hrel, hmark⟩ := hsound.accounted hm
  rcases h with ⟨hcq, hst, hout⟩ | ⟨hc, hq, hst⟩
  · have hdrop : dropped = [] := Classical.byContradiction fun hne => by
      have := hd hne
      rw [hst] at this
      cases this
    refine ⟨⟨[], ?_, fun hne => absurd rfl hne⟩, fun hrelay => ?_, by rw [hcut, hr]; exact hmark⟩
    · rw [hs, hr, hcq, he, hdrop]
      simp
    · rw [hcut, hout] at hrelay
      cases hrelay
  · refine ⟨⟨dropped ++ [.app a], ?_, fun _ => hst⟩, by rw [hcut, hr, hc, hq]; exact hrel, by rw [hcut, hr]; exact hmark⟩
    rw [hs, hr, hc, hq, he, List.append_assoc]

variable {p : DirectPeer size}

theorem not_stopped (hp : e.peer = some p) (hd : e.disposed = false) (ho : p.isOpen = true) :
    e.stopped = false := by
  simp [stopped, hp, hd, ho]

theorem send_relay_sends (hd : e.disposed = false) (ho : e.cutover.outbound ≠ .direct) (a : α) :
    e.Sends { e with sent := e.sent ++ [.app a], relay := e.relay.send (.app a) } := by
  have hrelay : e.cutover.outbound = .relay := by
    cases h : e.cutover.outbound with
    | relay => rfl
    | direct => exact absurd h ho
  refine ⟨fun h => ⟨⟨h.wired.idle, h.wired.opened⟩, fun hm => ?_⟩, List.prefix_append _ _, by simp, rfl, rfl⟩
  rw [Steps.Fifo.log_send] at hm
  obtain ⟨⟨dropped, he, hdr⟩, hrel, _⟩ := h.accounted (hm.of_prefix (List.prefix_append _ _))
  obtain ⟨hc, hq, hno⟩ := hrel hrelay
  have hdrop : dropped = [] := Classical.byContradiction fun hne => by
    have := hdr hne
    simp [stopped, hd, hrelay] at this
  refine ⟨⟨[], ?_, fun hne => absurd rfl hne⟩, fun _ => ⟨hc, hq, ?_⟩, fun hdir => absurd hdir ho⟩
  · show e.sent ++ [.app a] = (e.relay.send (.app a)).log ++ (e.channel.log ++ e.queue).map .app ++ []
    rw [he, hc, hq, hdrop, Steps.Fifo.log_send]
    simp
  · rw [Steps.Fifo.log_send]
    intro hmem
    rcases List.mem_append.1 hmem with h' | h'
    · exact hno h'
    · rw [List.mem_singleton] at h'
      cases h'

theorem peerSend_moves (hp : e.peer = some p) (hd : e.disposed = false) (ho : e.cutover.outbound = .direct) (a : α)
    (w : Write) (takes : Bool) :
    e.Moves ({ e with sent := e.sent ++ [Frame.app a] }.peerSend p a w takes) := by
  have hears : ∀ q chan, e.Hears { e with sent := e.sent ++ [Frame.app a], peer := q, channel := chan } := fun _ _ =>
    .of_same rfl rfl rfl rfl (fun h => ⟨h, rfl⟩)
  have hidle : e.Wired → e.cutover.state ≠ .idle := fun h hi => by
    have := (h.idle hi).1
    rw [hp] at this
    cases this
  unfold peerSend
  by_cases hopen : p.isOpen = true
  · have hst := not_stopped hp hd hopen
    have hclosed : ¬ p.closed = true := fun h => by simp [DirectPeer.isOpen, h] at hopen
    -- the message is lost with what is queued before it
    have hlost : e.Moves ({ e with sent := e.sent ++ [Frame.app a] }.fail p takes) := by
      rw [fail, if_neg hclosed]
      have happ : { e with peer := some p.close }.Moves
          { e with peer := some p.close, sent := e.sent ++ [Frame.app a] } :=
        ⟨.of_app rfl rfl rfl rfl (fun h => ⟨h.idle, h.opened⟩)
          (.inr ⟨rfl, rfl, by simp [stopped, ho, DirectPeer.isOpen, DirectPeer.close]⟩),
          .of_same rfl rfl rfl rfl (fun h => ⟨h, rfl⟩)⟩
      exact ((close_moves hp rfl).trans happ).trans (onClosed_moves _ takes)
    rw [if_neg (by simp [hopen])]
    split
    · rename_i hfree
      split
      · refine ⟨.of_app rfl rfl rfl rfl (fun h => ⟨h.idle, h.opened⟩) (.inl ⟨?_, hst, ho⟩), hears _ _⟩
        have hq : e.queue = [] := by rw [queue, hp]; exact List.length_eq_zero_iff.1 hfree.1
        show (e.channel.send a).log ++ e.queue = _
        rw [Steps.Fifo.log_send, hq, List.append_nil, List.append_nil]
      · exact hlost
    · split
      · rename_i q hq
        refine ⟨.of_app rfl rfl rfl rfl (fun h => ⟨fun hi => absurd hi (hidle h), fun _ p' hp' => ?_⟩)
          (.inl ⟨?_, hst, ho⟩), hears _ _⟩
        · cases hp'
          exact h.opened ho p hp
        · have hqueue : e.queue = p.outbound.frames := by rw [queue, hp]
          show e.channel.log ++ q.frames = _
          rw [DirectFrameQueue.push_frames hq, hqueue, List.append_assoc]
      · exact hlost
  · rw [if_pos (by simpa using hopen)]
    exact ⟨.of_app rfl rfl rfl rfl (fun h => ⟨h.idle, h.opened⟩) (.inr ⟨rfl, rfl, by
      simp only [Bool.not_eq_true] at hopen
      simp [stopped, ho, hp, hopen]⟩), hears _ _⟩

/-- **One message handed to an endpoint.** -/
theorem send_moves (e : DirectEndpoint size) (a : α) (w : Write) (takes : Bool) : e.Moves (e.send a w takes) := by
  have hhears : e.Hears { e with sent := e.sent ++ [.app a] } := .of_same rfl rfl rfl rfl (fun h => ⟨h, rfl⟩)
  unfold send
  dsimp only
  split
  · rename_i hd
    exact ⟨.of_app rfl rfl rfl rfl (fun h => ⟨h.idle, h.opened⟩) (.inr ⟨rfl, rfl, by simp [stopped, hd]⟩), hhears⟩
  rename_i hd
  have hd' : e.disposed = false := by simpa using hd
  split
  · rename_i ho
    exact ⟨send_relay_sends hd' ho a, .of_same rfl rfl rfl rfl (fun h => ⟨h, rfl⟩)⟩
  rename_i ho
  have ho' : e.cutover.outbound = .direct := Decidable.not_not.1 ho
  split
  · rename_i hp
    exact ⟨.of_app rfl rfl rfl rfl (fun h => ⟨h.idle, h.opened⟩)
      (.inr ⟨rfl, rfl, by simp [stopped, ho', hp]⟩), hhears⟩
  rename_i p hp
  exact peerSend_moves hp hd' ho' a w takes

theorem shift_moves (hp : e.peer = some p) {f : α} {q : Pending size} (hq : p.outbound.shift = some (f, q)) :
    e.Moves { e with peer := some { p with outbound := q }, channel := e.channel.send f } := by
  have hqueue : e.queue = f :: q.frames := by
    rw [queue, hp]
    exact DirectFrameQueue.shift_frames hq
  refine ⟨⟨fun h => ⟨⟨fun hi => ?_, fun ho p' hp' => ?_⟩, fun hm => ?_⟩, List.prefix_rfl, List.prefix_rfl, rfl, rfl⟩,
    .of_same rfl rfl rfl rfl (fun h => ⟨h, rfl⟩)⟩
  · have := (h.wired.idle hi).1
    rw [hp] at this
    cases this
  · cases hp'
    exact h.wired.opened ho p hp
  · obtain ⟨⟨dropped, he, hd⟩, hrel, hmark⟩ := h.accounted hm
    refine ⟨⟨dropped, ?_, fun hne => ?_⟩, fun hrelay => ?_, hmark⟩
    · show e.sent = e.relay.log ++ ((e.channel.send f).log ++ q.frames).map .app ++ dropped
      rw [he, hqueue, Steps.Fifo.log_send, List.append_assoc e.channel.log]
      rfl
    · have hst := hd hne
      simp only [stopped, hp] at hst ⊢
      exact hst
    · have := (hrel hrelay).2.1
      rw [hqueue] at this
      cases this

theorem drain_moves : ∀ (ws : List Write) (e : DirectEndpoint size) (takes : Bool), e.Moves (e.drain takes ws)
  | [], e, _ => .refl e
  | w :: ws, e, takes => by
    unfold drain
    split
    · exact .refl e
    rename_i p hp
    split
    · exact .refl e
    split
    · exact .refl e
    split
    · exact .refl e
    rename_i f q hq
    split
    · exact (shift_moves hp hq).trans (drain_moves ws _ takes)
    · exact fail_moves hp rfl takes

theorem owner_moves (e : DirectEndpoint size) : ∀ c : OwnerCall α, e.Moves (e.owner c)
  | .send a w takes => e.send_moves a w takes
  | .dispose => e.dispose_moves
  | .disposeAfterFlush => e.disposeAfterFlush_moves
  | .retire => ⟨.of_same rfl rfl rfl rfl rfl (fun _ => id) (fun h => ⟨h.idle, h.opened⟩),
      .of_dead rfl (by simp [owner, DirectEndpoint.alive])⟩

theorem owners_moves : ∀ (calls : List (OwnerCall α)) (e : DirectEndpoint size), e.Moves (calls.foldl owner e)
  | [], e => .refl e
  | c :: calls, e => (e.owner_moves c).trans (owners_moves calls _)

/-! ## The attempt -/

theorem Wired.not_idle (h : e.Wired) (hp : e.peer = some p) : e.cutover.state ≠ .idle := fun hi => by
  have := (h.idle hi).1
  rw [hp] at this
  cases this

theorem open_moves (hp : e.peer = some p) (ho : p.opened = false) :
    e.Moves { e with peer := some { p with opened := true } } := by
  refine ⟨.of_same rfl rfl rfl ?_ rfl (fun hw hst => ?_) (fun h => ⟨fun hi => absurd hi (h.not_idle hp), fun _ p' hp' => ?_⟩),
    .of_same rfl rfl rfl rfl (fun h => ⟨h, rfl⟩)⟩
  · rw [queue, queue, hp]
  · have hrelay : e.cutover.outbound ≠ .direct := fun hd => by
      rw [hw.opened hd p hp] at ho
      cases ho
    have hdisp : e.disposed = true := by simpa [stopped, hrelay] using hst
    simp [stopped, hdisp]
  · cases hp'
    rfl

/-- **The marker goes on the relay, and the sends after it on the channel.** -/
theorem marker_moves (ha : e.alive = true) (hp : e.peer = some p) (ho : p.opened = true) :
    e.Moves { e with
      sent := e.sent ++ [.signal .switch], relay := e.relay.send (.signal .switch),
      cutover := e.cutover.switchOutbound } := by
  have hdisp : e.disposed = false := by
    simp only [DirectEndpoint.alive, Bool.and_eq_true, Bool.not_eq_true'] at ha
    exact ha.1
  refine ⟨⟨fun h => ⟨⟨fun hi => absurd hi (h.wired.not_idle hp), fun _ p' hp' => ?_⟩, fun hm => ?_⟩,
    List.prefix_append _ _, by simp, rfl, rfl⟩, .of_same rfl rfl rfl rfl (fun h => ⟨h, rfl⟩)⟩
  · rw [show e.peer = some p' from hp'] at hp
    cases hp
    exact ho
  · rw [Steps.Fifo.log_send] at hm
    obtain ⟨⟨dropped, he, hd⟩, hrel, hmark⟩ := h.accounted (hm.of_prefix (List.prefix_append _ _))
    cases hout : e.cutover.outbound with
    | direct => exact (hm.not_snoc (hmark hout)).elim
    | relay =>
      obtain ⟨hc, hq, _⟩ := hrel hout
      have hdrop : dropped = [] := Classical.byContradiction fun hne => by
        have := hd hne
        simp [stopped, hdisp, hout] at this
      refine ⟨⟨[], ?_, fun hne => absurd rfl hne⟩, nofun, fun _ => ⟨e.relay.log, by rw [Steps.Fifo.log_send]⟩⟩
      show e.sent ++ [.signal .switch] =
        (e.relay.send (.signal .switch)).log ++ (e.channel.log ++ e.queue).map .app ++ []
      rw [he, hc, hq, hdrop, Steps.Fifo.log_send]
      simp

theorem onOpen_moves (e : DirectEndpoint size) (fits takes : Bool) : e.Moves (e.onOpen fits takes) := by
  unfold onOpen
  split
  · exact .refl e
  rename_i p hp
  split
  · exact .refl e
  rename_i hco
  have ho : p.opened = false := by
    cases h : p.opened with
    | false => rfl
    | true => simp [h] at hco
  split
  · exact fail_moves hp rfl takes
  have hopen := open_moves hp ho
  dsimp only
  split
  · exact hopen
  rename_i ha
  simp only [Bool.not_eq_true', Bool.not_eq_false] at ha
  cases takes with
  | false => exact hopen.trans (giveUp_moves _)
  | true => exact hopen.trans (marker_moves ha rfl rfl)

theorem begin_cases {c c' : DirectCutover size} (h : c.begin = some c') :
    c.state = .idle ∧ c' = { c with state := .attempting } := by
  unfold DirectCutover.begin at h
  split at h
  · cases h
  · rename_i hs
    cases h
    exact ⟨Decidable.not_not.1 hs, rfl⟩

variable {c : DirectCutover size}

theorem begin_moves (h : e.cutover.begin = some c) (owes : Bool) :
    e.Moves { e with cutover := c, owesAnswer := owes } := by
  obtain ⟨hidle, rfl⟩ := begin_cases h
  refine ⟨.of_same rfl rfl rfl rfl rfl (fun _ => id) (fun hw => ⟨nofun, hw.opened⟩),
    .of_same rfl rfl rfl rfl (fun _ => ⟨by rw [hidle]; decide, rfl⟩)⟩

theorem build_moves (h : e.cutover.begin = some c) (owes : Bool) :
    e.Moves { e with cutover := c, owesAnswer := owes }.build := by
  obtain ⟨hidle, rfl⟩ := begin_cases h
  refine ⟨⟨fun hs => ?_, List.prefix_rfl, List.prefix_rfl, rfl, rfl⟩,
    .of_same rfl rfl rfl rfl (fun _ => ⟨by rw [hidle]; decide, rfl⟩)⟩
  obtain ⟨hpeer, hout⟩ := hs.wired.idle hidle
  have hsame : e.Sends
      { e with cutover := { e.cutover with state := .attempting }, owesAnswer := owes }.build := by
    refine .of_same rfl rfl rfl ?_ rfl (fun _ hst => ?_) (fun _ => ⟨nofun, fun hd => ?_⟩)
    · rw [queue, queue, hpeer]
      rfl
    · have hdisp : e.disposed = true := by simpa [stopped, hout] using hst
      simp [stopped, build, hdisp]
    · rw [show e.cutover.outbound = .direct from hd] at hout
      cases hout
  exact hsame.sound hs

theorem alive_begin (ha : e.alive = true) (owes : Bool) :
    { e with cutover := c, owesAnswer := owes }.alive = true := ha

theorem answer_moves (ha : e.alive = true) (builds takes : Bool) : e.Moves (e.answer builds takes) := by
  unfold answer
  split
  · exact .refl e
  · rename_i c hc
    dsimp only
    split
    · exact build_moves hc true
    · exact (begin_moves hc true).trans (decline_moves (alive_begin ha true) takes)

theorem offer_moves (e : DirectEndpoint size) (builds : Bool) : e.Moves (e.offer builds) := by
  unfold offer
  split
  · exact .refl e
  split
  · exact .refl e
  · rename_i c hc
    dsimp only
    split
    · exact build_moves hc e.owesAnswer
    · exact (begin_moves hc e.owesAnswer).trans (giveUp_moves _)

theorem signal_moves (ha : e.alive = true) {s : DirectSignal} (hs : s ≠ .switch) (takes : Bool) :
    e.Moves (match e.sendSignal s takes with
      | (e', false) => e'.giveUp.1
      | (e', true) => e') := by
  have h := sendSignal_moves ha hs takes
  cases he : e.sendSignal s takes with
  | mk e' ok =>
    rw [he] at h
    cases ok with
    | false => exact h.trans (giveUp_moves _)
    | true => exact h

theorem described_moves (e : DirectEndpoint size) (sdp takes : Bool) : e.Moves (e.described sdp takes) := by
  have hflag := e.flags_moves e.owesAnswer false
  unfold described
  split
  · exact .refl e
  dsimp only
  split
  · refine hflag.trans ?_
    cases hp : e.peer with
    | none => exact .refl _
    | some p => exact close_moves (p := p) rfl rfl
  rename_i hal
  have ha : e.alive = true := by
    simp only [Bool.not_eq_true', Bool.not_eq_false, Bool.and_eq_true] at hal
    exact hal.1
  split
  · split
    · exact hflag.trans (giveUp_moves _)
    · exact hflag.trans (signal_moves (e := { e with describing := false }) ha (by decide) takes)
  · split
    · exact hflag.trans (decline_moves (e := { e with describing := false }) ha takes)
    · exact (e.flags_moves false false).trans
        (signal_moves (e := { e with owesAnswer := false, describing := false }) ha (by decide) takes)

theorem onViolation_moves (e : DirectEndpoint size) (refused : Bool) : e.Moves (e.onViolation refused) := by
  have hend : ∀ e' : DirectEndpoint size, e'.Moves (if e'.alive then e'.fatal else e') := fun e' => by
    split
    · exact e'.fatal_moves
    · exact .refl e'
  unfold onViolation
  split
  · exact .refl e
  rename_i p hp
  split
  · exact .refl e
  cases refused with
  | true => exact (close_moves hp rfl).trans (hend _)
  | false => exact hend e

theorem handoffExpired_moves (e : DirectEndpoint size) : e.Moves e.handoffExpired := by
  unfold handoffExpired
  split
  · exact e.fatal_moves
  · exact .refl e

end DirectEndpoint

end Direct
end Dormouse

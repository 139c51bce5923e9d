import Dormouse.AlertManager
/-!
# AlertDelivery — when a ring is spoken or pushed

`lib/src/lib/alert-delivery-scheduler.ts`, with `alert-delivery-model.ts`, and the part of `lib/src/host/alert-host.ts`
that joins the scheduler to the manager.

A pending map of the source is an object that timers close over: it is known by a number, and an episode's record names
the one it holds.  A map arms a sink once, so the map and the sink name a timer.  A timer that was cleared never fires; a
running one fires at or after its deadline, how late it may be.  A settings field that no delivery reads is left out.
-/
namespace Dormouse
namespace Alert

/-! ## Settings -/

inductive AlertSink where
  | speech
  | push
  deriving DecidableEq

structure AlertSettings where
  speakEnabled : Bool
  speakDelayMs : Int
  pushEnabled  : Bool
  pushDelayMs  : Int

def defaultAlertSettings : AlertSettings := ⟨false, 10000, false, 20000⟩

def minDelayMs : Int := 1000
def maxDelayMs : Int := 600000

def clampAlertDelayMs (ms : ℚ) : Int := min maxDelayMs (max minDelayMs ⌊ms + 1 / 2⌋)

/-- What a Session overrides; a voice may be `null`, the system's. -/
structure AlertDeliveryOverrides where
  speakEnabled : Option Bool
  speakDelayMs : Option Int
  pushEnabled  : Option Bool
  pushDelayMs  : Option Int
  speakVoice   : Option (Option JsString)
  deriving DecidableEq

def noOverrides : AlertDeliveryOverrides := ⟨none, none, none, none, none⟩

structure AlertDeliveryPolicy where
  speakEnabled : Bool
  speakDelayMs : Int
  speakVoice   : Option JsString
  pushEnabled  : Bool
  pushDelayMs  : Int

def readFlag : Option Json → Option Bool
  | some (.bool b) => some b
  | _              => none

def readDelay : Option Json → Option Int
  | some (.num (.fin ms)) => some (clampAlertDelayMs ms)
  | _                     => none

def readVoice : Option Json → Option (Option JsString)
  | some .null    => some none
  | some (.str s) => if 0 < s.length ∧ s.length ≤ 1024 then some (some s) else none
  | _             => none

def normalizeAlertDeliveryOverrides (value : Option Json) : AlertDeliveryOverrides :=
  let raw (key : String) : Option Json := value.bind (·.field (units key))
  { speakEnabled := readFlag (raw "speakEnabled")
    pushEnabled  := readFlag (raw "pushEnabled")
    speakDelayMs := readDelay (raw "speakDelayMs")
    pushDelayMs  := readDelay (raw "pushDelayMs")
    speakVoice   := readVoice (raw "speakVoice") }

def resolveAlertDeliveryPolicy (defaults : AlertSettings) (overrides : AlertDeliveryOverrides) : AlertDeliveryPolicy :=
  { speakEnabled := overrides.speakEnabled.getD defaults.speakEnabled
    speakDelayMs := overrides.speakDelayMs.getD defaults.speakDelayMs
    speakVoice   := overrides.speakVoice.getD none
    pushEnabled  := overrides.pushEnabled.getD defaults.pushEnabled
    pushDelayMs  := overrides.pushDelayMs.getD defaults.pushDelayMs }

def sameAlertDeliveryOverrides (a b : AlertDeliveryOverrides) : Bool := a = b

/-! ## The scheduler -/

namespace AlertSink

def enabled (policy : AlertDeliveryPolicy) : AlertSink → Bool
  | .speech => policy.speakEnabled
  | .push   => policy.pushEnabled

def delayMs (policy : AlertDeliveryPolicy) : AlertSink → Int
  | .speech => policy.speakDelayMs
  | .push   => policy.pushDelayMs

/-- Speech spares the pane the user is looking at; a push waits until the user has left every viewer. -/
def blocked (m : AlertManager) (id : SessionId) : AlertSink → Bool
  | .speech => m.isEngaged id
  | .push   => !m.viewers.entries.isEmpty

end AlertSink

def labelLimit : Nat := 1024

structure Published where
  realmId   : JsString
  label     : JsString
  overrides : AlertDeliveryOverrides

/-- What is kept of a Session's episode: the pending map is known by its number. -/
structure EpisodeRecord where
  episodeId : Nat
  pending   : Nat

structure DeliveryTimer where
  id        : SessionId
  episodeId : Nat
  dueAt     : Int

/-- A delivery: a spoken one names its episode, a pushed one its title. -/
structure Delivery where
  id        : SessionId
  episodeId : Nat
  sink      : AlertSink
  title     : Option JsString

structure AlertDeliveryScheduler where
  defaults  : AlertSettings
  episodes  : AList (fun _ : SessionId => EpisodeRecord)
  published : AList (fun _ : SessionId => Published)
  /-- The sinks each pending map holds. -/
  pendings  : AList (fun _ : Nat => List AlertSink)
  timers    : AList (fun _ : Nat × AlertSink => DeliveryTimer)
  /-- How many pending maps were created. -/
  maps      : Nat
  /-- Whether it still listens to the manager. -/
  attached  : Bool
  delivered : List Delivery

namespace AlertDeliveryScheduler

def create : AlertDeliveryScheduler := ⟨defaultAlertSettings, ∅, ∅, ∅, ∅, 0, true, []⟩

def policy (s : AlertDeliveryScheduler) (id : SessionId) : AlertDeliveryPolicy :=
  resolveAlertDeliveryPolicy s.defaults ((s.published.lookup id).elim noOverrides (·.overrides))

def pendingOf (s : AlertDeliveryScheduler) (map : Nat) : List AlertSink := (s.pendings.lookup map).getD []

/-- `clearTimeout` of the timers of some sinks of a map. -/
def clearTimers (s : AlertDeliveryScheduler) (map : Nat) (sinks : List AlertSink) : AlertDeliveryScheduler :=
  { s with timers := sinks.foldl (fun timers sink => timers.erase (map, sink)) s.timers }

def recheck (s : AlertDeliveryScheduler) (id : SessionId) : AlertDeliveryScheduler :=
  match s.episodes.lookup id with
  | none         => s
  | some current =>
    let off := (s.pendingOf current.pending).filter (fun sink => !AlertSink.enabled (s.policy id) sink)
    let on := (s.pendingOf current.pending).filter (AlertSink.enabled (s.policy id))
    { s.clearTimers current.pending off with pendings := s.pendings.insert current.pending on }

def endEpisode (s : AlertDeliveryScheduler) (id : SessionId) : AlertDeliveryScheduler :=
  match s.episodes.lookup id with
  | none         => s
  | some current =>
    { s.clearTimers current.pending (s.pendingOf current.pending) with episodes := s.episodes.erase id }

def startEpisode (s : AlertDeliveryScheduler) (id : SessionId) (episode : AlertEpisode) (now : Int) :
    AlertDeliveryScheduler :=
  let effective := s.policy id
  let sinks := [AlertSink.speech, .push].filter (AlertSink.enabled effective)
  let timer (sink : AlertSink) : DeliveryTimer :=
    ⟨id, episode.id, now + max 0 (episode.startedAt + AlertSink.delayMs effective sink - now)⟩
  { s with
    episodes := s.episodes.insert id ⟨episode.id, s.maps⟩
    pendings := s.pendings.insert s.maps sinks
    timers   := sinks.foldl (fun timers sink => timers.insert (s.maps, sink) (timer sink)) s.timers
    maps     := s.maps + 1 }

def onState (s : AlertDeliveryScheduler) (id : SessionId) (state : AlertState) (now : Int) : AlertDeliveryScheduler :=
  if (s.episodes.lookup id).map (·.episodeId) = state.episode.map (·.id) then s
  else
    match state.episode with
    | none         => s.endEpisode id
    | some episode => (s.endEpisode id).startEpisode id episode now

def onRemove (s : AlertDeliveryScheduler) (id : SessionId) : AlertDeliveryScheduler :=
  { s with published := s.published.erase id }

def fire (s : AlertDeliveryScheduler) (m : AlertManager) (map : Nat) (sink : AlertSink) (now : Int) :
    AlertDeliveryScheduler :=
  match s.timers.lookup (map, sink) with
  | none       => s
  | some timer =>
    if now < timer.dueAt then s
    else
      let fired :=
        { s with
          timers   := s.timers.erase (map, sink)
          pendings := s.pendings.insert map ((s.pendingOf map).filter (· ≠ sink)) }
      if AlertSink.blocked m timer.id sink then fired
      else
        let label := (s.published.lookup timer.id).elim [] (·.label)
        let title := match sink with
          | .speech => none
          | .push   => some (if label = [] then units "terminal" else label)
        { fired with delivered := s.delivered ++ [⟨timer.id, timer.episodeId, sink, title⟩] }

/-- A value a Session's publication is read from: an object, an array included. -/
def isObject : Json → Bool
  | .obj _ => true
  | .arr _ => true
  | _      => false

def publishOne (s : AlertDeliveryScheduler) (realmId id : JsString) (value : Json) : AlertDeliveryScheduler :=
  let label := match value.field (units "label") with
    | some (.str label) => label.take labelLimit
    | _                 => []
  let overrides := normalizeAlertDeliveryOverrides (value.field (units "overrides"))
  let prior := (s.published.lookup id).elim noOverrides (·.overrides)
  let written := { s with published := s.published.insert id ⟨realmId, label, overrides⟩ }
  if sameAlertDeliveryOverrides prior overrides then written else written.recheck id

def namedSessions (fields : List (JsString × Json)) : List (JsString × Json) :=
  fields.filter (fun f => f.1 ≠ [] && isObject f.2)

def has (m : AlertManager) (id : SessionId) : Bool := id ∈ m.entries && id ∉ m.helpers

def publish (s : AlertDeliveryScheduler) (m : AlertManager) (realmId : JsString) (raw : Json) : AlertDeliveryScheduler :=
  match raw with
  | .obj fields =>
    let named := namedSessions fields
    let written := named.foldl (fun s f => s.publishOne realmId f.1 f.2) s
    { written with
      published := written.published.keys.foldl
        (fun published id =>
          if (written.published.lookup id).any (·.realmId = realmId) && id ∉ named.map (·.1) && !has m id then
            published.erase id
          else published)
        written.published }
  | _           => s

def setDefaults (s : AlertDeliveryScheduler) (settings : AlertSettings) : AlertDeliveryScheduler :=
  s.episodes.keys.foldl recheck { s with defaults := settings }

def dispose (s : AlertDeliveryScheduler) : AlertDeliveryScheduler :=
  { s.episodes.keys.foldl endEpisode s with attached := false, published := ∅ }

end AlertDeliveryScheduler

/-! ## The host -/

structure AlertHost where
  manager   : AlertManager
  scheduler : AlertDeliveryScheduler

namespace AlertHost

variable {P : Term.Payloads}

def create : AlertHost := ⟨.create, .create⟩

def removes : AlertOp P → Option SessionId
  | .remove id _ => some id
  | _            => none

/-- What the host is asked to do, or what comes due.  The manager is disposed of by `dispose` alone. -/
inductive HostOp (P : Term.Payloads) where
  | alert (op : AlertOp P) (now : Int) (alive : ∀ at', op ≠ .dispose at')
  | publish (realmId : JsString) (sessions : Json)
  | setDefaults (settings : AlertSettings)
  | fire (map : Nat) (sink : AlertSink) (now : Int)
  | dispose (now : Int)

def hears (s : AlertDeliveryScheduler) (announced : List (SessionId × AlertState)) (now : Int) : AlertDeliveryScheduler :=
  if s.attached then announced.foldl (fun s a => s.onState a.1 a.2 now) s else s

def step (R : AlertReaders) (h : AlertHost) : HostOp P → AlertHost
  | .alert op now _       =>
    let m := h.manager.step R op
    let s := hears h.scheduler (m.emitted.drop h.manager.emitted.length) now
    ⟨m, match removes op with
      | some id => if s.attached then s.onRemove id else s
      | none    => s⟩
  | .publish realmId raw  => { h with scheduler := h.scheduler.publish h.manager realmId raw }
  | .setDefaults settings => { h with scheduler := h.scheduler.setDefaults settings }
  | .fire map sink now    => { h with scheduler := h.scheduler.fire h.manager map sink now }
  | .dispose now          => ⟨h.manager.dispose now, h.scheduler.dispose⟩

end AlertHost

end Alert
end Dormouse

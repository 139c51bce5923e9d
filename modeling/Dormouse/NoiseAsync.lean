import Dormouse.NoiseAgree
/-!
# NoiseAsync — calls on one handshake, interleaved

The calls of one `NoiseHandshake` share its state, and each goes on only when what it awaits is there: between two of its
steps any other call may come in.  `#step` refuses a second call while one is in flight and fails the handshake, but the
first goes on to its end, and the end of a second message is where the session is written.
-/
namespace Dormouse
namespace Noise

variable {Priv : Type}

open Handshake

/-- A call inside `#step`: whether it is at the second message, and what is left of it. -/
structure StepInFlight (Priv : Type) where
  second : Bool
  script : Handshake.Call Priv Bytes

/-- A handshake, its calls in flight, and what calls have thrown. -/
structure Shared (Priv : Type) where
  handshake : Handshake Priv
  running   : List (StepInFlight Priv)
  faults    : List HandshakeFault

/-- What happens next: a call is made, a call that waits goes on, or what it awaits is rejected. -/
inductive Turn (Priv : Type) where
  | call (request : Request Priv)
  | resume (k : Nat)
  | reject (k : Nat)

namespace Shared

def start (h : Handshake Priv) : Shared Priv := ⟨h, [], []⟩

def settle (s : Shared Priv) (k : Nat) : Except HandshakeFault Bytes → Shared Priv
  | .ok a    => { s with handshake := s.handshake.leave (.ok a), running := s.running.eraseIdx k }
  | .error e =>
    { handshake := s.handshake.leave (.error e), running := s.running.eraseIdx k, faults := s.faults ++ [e] }

def step (S : Suite Priv) (s : Shared Priv) : Turn Priv → Shared Priv
  | .call request =>
    match s.handshake.enter S request with
    | (h, .error e)   => { s with handshake := h, faults := s.faults ++ [e] }
    | (h, .ok script) => { s with handshake := h, running := s.running ++ [⟨s.handshake.completes request, script⟩] }
  | .resume k     =>
    match s.running[k]? with
    | none                             => s
    | some ⟨_, .ret a⟩                 => s.settle k (.ok a)
    | some ⟨_, .throw e⟩               => s.settle k (.error e)
    | some ⟨second, .await write next⟩ =>
      { s with handshake := write s.handshake, running := s.running.set k ⟨second, next s.handshake⟩ }
  | .reject k     =>
    match s.running[k]? with
    | some ⟨_, .await _ _⟩ => s.settle k (.error .rejected)
    | _                    => s

/-- Some call has failed.  A call on a handshake that is complete is refused, which is not a failure of the handshake. -/
def HasFailed (s : Shared Priv) : Prop := ∃ e ∈ s.faults, e ≠ .alreadyComplete

/-- No call is made while a step at the second message is in flight and its session is not there yet. -/
def Calm (s : Shared Priv) : Turn Priv → Prop
  | .call _ => s.handshake.session = none → ∀ c ∈ s.running, c.second = false
  | _       => True

end Shared

/-! ## What the calls leave alone -/

namespace Handshake

open Resumption

/-- A reading of the handshake that no message writes, the session apart. -/
structure Aside {γ : Type} (read : Handshake Priv → γ) : Prop where
  symmetric        : ∀ h s, read { h with symmetric := s } = read h
  ephemeral        : ∀ h e, read { h with ephemeral := e } = read h
  remoteStatic     : ∀ h k, read { h with remoteStatic := k } = read h
  remoteEphemeral  : ∀ h k, read { h with remoteEphemeral := k } = read h
  firstMessageDone : ∀ h b, read { h with firstMessageDone := b } = read h

variable {γ : Type} {read : Handshake Priv → γ}

theorem keeps_requireMessageLength (length message overhead : Nat) :
    (requireMessageLength length message overhead).Keeps read := by
  unfold requireMessageLength requireMaxMessageLength
  by_cases h₁ : length < overhead
  · rw [if_pos h₁]
    trivial
  · rw [if_neg h₁]
    by_cases h₂ : length > noiseMaxMessageLength
    · rw [if_pos h₂]
      trivial
    · rw [if_neg h₂]
      trivial

theorem keeps_requireKey (key : Bytes) : (requireKey key).Keeps read := by
  unfold requireKey
  by_cases h : key.length ≠ noiseKeyLength
  · rw [if_pos h]
    trivial
  · rw [if_neg h]
    trivial

theorem keeps_read {α : Type} (f : Handshake Priv → α) : (Handshake.read f).Keeps read :=
  keeps_act (fun s r h => by cases h; rfl)

theorem keeps_write {f : Handshake Priv → Handshake Priv} (hf : ∀ h, read (f h) = read h) : (write f).Keeps read :=
  keeps_act (fun s r h => by cases h; exact hf s)

theorem keeps_mixHash (hr : Aside read) (S : Suite Priv) (data : Bytes) : (mixHash S data).Keeps read :=
  keeps_act (fun s r h => by cases h; exact hr.symmetric s _)

theorem keeps_useEphemeral (hr : Aside read) (pair : NoiseKeyPair Priv) : (useEphemeral pair).Keeps read :=
  keeps_act (fun s r h => by cases h; exact hr.ephemeral s _)

theorem keeps_symmetric (hr : Aside read) {α β : Type} (f : Handshake Priv → Except HandshakeFault β)
    (g : β → SymmetricState) (result : β → α) :
    (act (fun h => (f h).map (fun b => ({ h with symmetric := g b }, result b)))).Keeps read := by
  refine keeps_act (fun s r h => ?_)
  cases hb : f s with
  | error e =>
    rw [hb] at h
    cases h
  | ok b =>
    rw [hb] at h
    cases h
    exact hr.symmetric s _

theorem keeps_mixKey (hr : Aside read) (S : Suite Priv) (input : Bytes) : (mixKey S input).Keeps read :=
  keeps_symmetric hr (fun h => h.symmetric.mixKey S input) id (fun _ => ())

theorem keeps_encryptAndHash (hr : Aside read) (S : Suite Priv) (p : Bytes) : (encryptAndHash S p).Keeps read :=
  keeps_symmetric hr (fun h => h.symmetric.encryptAndHash S p) Prod.fst Prod.snd

theorem keeps_decryptAndHash (hr : Aside read) (S : Suite Priv) (c : Bytes) : (decryptAndHash S c).Keeps read :=
  keeps_symmetric hr (fun h => h.symmetric.decryptAndHash S c) Prod.fst Prod.snd

theorem keeps_dh (S : Suite Priv) (privateKey : Priv) (publicKey : Bytes) : (dh S privateKey publicKey).Keeps read := by
  refine Keeps.bind (keeps_requireKey publicKey) (fun _ => keeps_act (fun s r h => ?_))
  cases hd : S.deriveBits privateKey publicKey with
  | none =>
    rw [hd] at h
    cases h
  | some shared =>
    rw [hd] at h
    dsimp only at h
    split at h
    · cases h
    · cases h
      rfl

theorem keeps_splitSession (hr : ∀ h s, read { h with session := s } = read h) (S : Suite Priv) {α : Type} (result : α) :
    (splitSession S result).Keeps read := by
  refine keeps_act (fun s r h => ?_)
  cases hs : s.symmetric.split S (s.role == .initiator) with
  | error e =>
    rw [hs] at h
    cases h
  | ok session =>
    rw [hs] at h
    cases h
    exact hr s _

theorem keeps_writeMessage1 (hr : Aside read) (S : Suite Priv) (payload : Bytes) (fresh : NoiseKeyPair Priv) :
    (writeMessage1 S payload fresh).Keeps read := by
  refine Keeps.bind (keeps_requireMessageLength _ _ _) (fun _ => ?_)
  refine Keeps.bind (keeps_useEphemeral hr fresh) (fun ephemeral => ?_)
  refine Keeps.bind (keeps_mixHash hr S _) (fun _ => ?_)
  refine Keeps.bind (keeps_read _) (fun remoteStatic => ?_)
  refine Keeps.bind (keeps_dh S _ _) (fun es => ?_)
  refine Keeps.bind (keeps_mixKey hr S _) (fun _ => ?_)
  refine Keeps.bind (keeps_read _) (fun static => ?_)
  refine Keeps.bind (keeps_encryptAndHash hr S _) (fun encryptedStatic => ?_)
  refine Keeps.bind (keeps_dh S _ _) (fun ss => ?_)
  refine Keeps.bind (keeps_mixKey hr S _) (fun _ => ?_)
  refine Keeps.bind (keeps_encryptAndHash hr S _) (fun encryptedPayload => ?_)
  exact Keeps.bind (keeps_write (fun h => hr.firstMessageDone h true)) (fun _ => trivial)

theorem keeps_readMessage1 (hr : Aside read) (S : Suite Priv) (message : Bytes) :
    (readMessage1 S message).Keeps read := by
  refine Keeps.bind (keeps_requireMessageLength _ _ _) (fun _ => ?_)
  refine Keeps.bind (keeps_write (fun h => hr.remoteEphemeral h _)) (fun _ => ?_)
  refine Keeps.bind (keeps_mixHash hr S _) (fun _ => ?_)
  refine Keeps.bind (keeps_read _) (fun static => ?_)
  refine Keeps.bind (keeps_dh S _ _) (fun es => ?_)
  refine Keeps.bind (keeps_mixKey hr S _) (fun _ => ?_)
  refine Keeps.bind (keeps_decryptAndHash hr S _) (fun remoteStatic => ?_)
  refine Keeps.bind (keeps_requireKey _) (fun _ => ?_)
  refine Keeps.bind (keeps_write (fun h => hr.remoteStatic h _)) (fun _ => ?_)
  refine Keeps.bind (keeps_dh S _ _) (fun ss => ?_)
  refine Keeps.bind (keeps_mixKey hr S _) (fun _ => ?_)
  refine Keeps.bind (keeps_decryptAndHash hr S _) (fun payload => ?_)
  exact Keeps.bind (keeps_write (fun h => hr.firstMessageDone h true)) (fun _ => trivial)

/-- A property of calls that a step in front does not lose, if it leaves a reading alone. -/
structure Behind (read : Handshake Priv → γ) (Q : Call Priv Bytes → Prop) : Prop where
  bind  : ∀ {α : Type} {r : Call Priv α} {f : α → Call Priv Bytes}, r.Keeps read → (∀ a, Q (f a)) → Q (r >>= f)
  throw : ∀ e, Q (.throw e)

theorem behind_keeps : Behind read (Keeps read) := ⟨Keeps.bind, fun _ => trivial⟩

theorem behind_setsLast : Behind read (SetsLast read) := ⟨Keeps.bind_setsLast, fun _ => trivial⟩

theorem behind_writeMessage2 (hr : Aside read) {Q : Call Priv Bytes → Prop} (hq : Behind read Q) {S : Suite Priv}
    (hsplit : ∀ result, Q (splitSession S result)) (payload : Bytes) (fresh : NoiseKeyPair Priv) :
    Q (writeMessage2 S payload fresh) := by
  refine hq.bind (keeps_requireMessageLength _ _ _) (fun _ => ?_)
  refine hq.bind (keeps_useEphemeral hr fresh) (fun ephemeral => ?_)
  refine hq.bind (keeps_mixHash hr S _) (fun _ => ?_)
  refine hq.bind (keeps_read _) (fun remoteEphemeral => ?_)
  refine hq.bind (keeps_dh S _ _) (fun ee => ?_)
  refine hq.bind (keeps_mixKey hr S _) (fun _ => ?_)
  refine hq.bind (keeps_read _) (fun remoteStatic => ?_)
  refine hq.bind (keeps_dh S _ _) (fun se => ?_)
  refine hq.bind (keeps_mixKey hr S _) (fun _ => ?_)
  exact hq.bind (keeps_encryptAndHash hr S _) (fun encryptedPayload => hsplit _)

theorem behind_readMessage2 (hr : Aside read) {Q : Call Priv Bytes → Prop} (hq : Behind read Q) {S : Suite Priv}
    (hsplit : ∀ result, Q (splitSession S result)) (message : Bytes) : Q (readMessage2 S message) := by
  refine hq.bind (keeps_requireMessageLength _ _ _) (fun _ => ?_)
  refine hq.bind (keeps_mixHash hr S _) (fun _ => ?_)
  refine hq.bind (keeps_read _) (fun ephemeral => ?_)
  cases ephemeral with
  | none => exact hq.throw _
  | some ephemeral =>
    refine hq.bind (keeps_dh S _ _) (fun ee => ?_)
    refine hq.bind (keeps_mixKey hr S _) (fun _ => ?_)
    refine hq.bind (keeps_read _) (fun static => ?_)
    refine hq.bind (keeps_dh S _ _) (fun se => ?_)
    refine hq.bind (keeps_mixKey hr S _) (fun _ => ?_)
    exact hq.bind (keeps_decryptAndHash hr S _) (fun payload => hsplit payload)

/-- What holds of both second messages holds of a call that completes; any other call writes no session. -/
theorem body_cases (S : Suite Priv) (h : Handshake Priv) (request : Request Priv) :
    (h.completes request = true ∧ ((∃ payload fresh, h.body S request = writeMessage2 S payload fresh) ∨
      ∃ message, h.body S request = readMessage2 S message)) ∨
    (h.completes request = false ∧ ((∃ payload fresh, h.body S request = writeMessage1 S payload fresh) ∨
      (∃ message, h.body S request = readMessage1 S message) ∨ ∃ fault, h.body S request = .throw fault)) := by
  cases request with
  | writeMessage payload fresh =>
    cases hr : h.role <;> cases hd : h.firstMessageDone <;> simp [body, completes, hr, hd]
  | readMessage message =>
    cases hr : h.role <;> cases hd : h.firstMessageDone <;> simp [body, completes, hr, hd]

theorem keeps_body (hr : Aside read) (hs : ∀ h s, read { h with session := s } = read h) (S : Suite Priv)
    (h : Handshake Priv) (request : Request Priv) : (h.body S request).Keeps read := by
  rcases body_cases S h request with
    ⟨-, ⟨payload, fresh, he⟩ | ⟨message, he⟩⟩ | ⟨-, ⟨payload, fresh, he⟩ | ⟨message, he⟩ | ⟨fault, he⟩⟩
  · rw [he]
    exact behind_writeMessage2 hr behind_keeps (fun result => keeps_splitSession hs S result) payload fresh
  · rw [he]
    exact behind_readMessage2 hr behind_keeps (fun result => keeps_splitSession hs S result) message
  · rw [he]
    exact keeps_writeMessage1 hr S payload fresh
  · rw [he]
    exact keeps_readMessage1 hr S message
  · rw [he]
    trivial

theorem aside_failed : Aside (fun h : Handshake Priv => h.failed) :=
  ⟨fun _ _ => rfl, fun _ _ => rfl, fun _ _ => rfl, fun _ _ => rfl, fun _ _ => rfl⟩

theorem aside_inFlight : Aside (fun h : Handshake Priv => h.inFlight) :=
  ⟨fun _ _ => rfl, fun _ _ => rfl, fun _ _ => rfl, fun _ _ => rfl, fun _ _ => rfl⟩

theorem aside_session : Aside (fun h : Handshake Priv => h.session) :=
  ⟨fun _ _ => rfl, fun _ _ => rfl, fun _ _ => rfl, fun _ _ => rfl, fun _ _ => rfl⟩

theorem body_session (S : Suite Priv) (h : Handshake Priv) (request : Request Priv) :
    (h.completes request = true → (h.body S request).SetsLast Handshake.session) ∧
    (h.completes request = false → (h.body S request).Keeps Handshake.session) := by
  rcases body_cases S h request with
    ⟨hc, ⟨payload, fresh, he⟩ | ⟨message, he⟩⟩ | ⟨hc, ⟨payload, fresh, he⟩ | ⟨message, he⟩ | ⟨fault, he⟩⟩
  · rw [hc, he]
    exact ⟨fun _ => behind_writeMessage2 aside_session behind_setsLast (fun _ => setsLast_act _ _) payload fresh, nofun⟩
  · rw [hc, he]
    exact ⟨fun _ => behind_readMessage2 aside_session behind_setsLast (fun _ => setsLast_act _ _) message, nofun⟩
  · rw [hc, he]
    exact ⟨nofun, fun _ => keeps_writeMessage1 aside_session S payload fresh⟩
  · rw [hc, he]
    exact ⟨nofun, fun _ => keeps_readMessage1 aside_session S message⟩
  · rw [hc, he]
    exact ⟨nofun, fun _ => trivial⟩

end Handshake

/-! ## Every interleaving -/

namespace Shared

open Resumption

/-- What is known of a call in flight: it leaves the flags alone, and it has not written the session, unless it is at the
second message and done. -/
structure Tame (session : Option NoiseSession) (c : StepInFlight Priv) : Prop where
  failed   : c.script.Keeps Handshake.failed
  inFlight : c.script.Keeps Handshake.inFlight
  session  : (session = none ∧ (c.second = true → c.script.SetsLast Handshake.session) ∧
    (c.second = false → c.script.Keeps Handshake.session)) ∨ (c.second = true ∧ ∃ a, c.script = .ret a)

/-- At most one call is in flight; and a handshake that has failed has no session, and no call that could write one. -/
structure Sound (s : Shared Priv) : Prop where
  one      : s.running = [] ∧ s.handshake.inFlight = false ∨ ∃ c, s.running = [c] ∧ s.handshake.inFlight = true
  tame     : ∀ c ∈ s.running, Tame s.handshake.session c
  recorded : s.HasFailed → s.handshake.failed = true
  poisoned : s.handshake.failed = true → s.handshake.session = none ∧ ∀ c ∈ s.running, c.second = false

variable {s : Shared Priv}

theorem hasFailed_append {e : HandshakeFault} {h : Handshake Priv} {l : List (StepInFlight Priv)}
    (hf : HasFailed ⟨h, l, s.faults ++ [e]⟩) : s.HasFailed ∨ e ≠ .alreadyComplete := by
  obtain ⟨x, hx, hne⟩ := hf
  rcases List.mem_append.mp hx with hx | hx
  · exact .inl ⟨x, hx, hne⟩
  · rw [List.mem_singleton.mp hx] at hne
    exact .inr hne

theorem sound_start {S : Suite Priv} (prologue : Bytes) (static : NoiseKeyPair Priv)
    (ephemeral : Option (NoiseKeyPair Priv)) (remoteStatic : Option Bytes) :
    Sound (start (fresh S prologue static ephemeral remoteStatic)) :=
  ⟨.inl ⟨rfl, rfl⟩, nofun, nofun, nofun⟩

theorem sound_call (S : Suite Priv) (hs : s.Sound) (request : Request Priv) (hcalm : s.Calm (.call request)) :
    (s.step S (.call request)).Sound := by
  simp only [step]
  unfold enter
  by_cases hf : s.handshake.failed = true
  · rw [if_pos hf]
    exact ⟨hs.one, hs.tame, fun _ => hf, hs.poisoned⟩
  rw [if_neg hf]
  by_cases hc : s.handshake.session.isSome = true
  · rw [if_pos hc]
    refine ⟨hs.one, hs.tame, fun h => ?_, hs.poisoned⟩
    exact hs.recorded ((hasFailed_append h).resolve_right (fun h => h rfl))
  rw [if_neg hc]
  have hnone : s.handshake.session = none := by simpa using hc
  by_cases hi : s.handshake.inFlight = true
  · -- the handshake fails under the call that is in flight
    rw [if_pos hi]
    exact ⟨hs.one, hs.tame, fun _ => rfl, fun _ => ⟨hnone, hcalm hnone⟩⟩
  · rw [if_neg hi]
    have hempty : s.running = [] := by
      rcases hs.one with ⟨h, -⟩ | ⟨c, -, h⟩
      · exact h
      · exact absurd h hi
    refine ⟨.inr ⟨_, by rw [hempty]; rfl, rfl⟩, ?_, fun h => absurd (hs.recorded h) hf, fun h => absurd h hf⟩
    intro c hc
    dsimp only at hc ⊢
    rw [hempty, List.nil_append, List.mem_singleton] at hc
    subst hc
    obtain ⟨h₂, h₁⟩ := body_session S s.handshake request
    exact ⟨keeps_body aside_failed (fun _ _ => rfl) S _ _, keeps_body aside_inFlight (fun _ _ => rfl) S _ _,
      .inl ⟨hnone, h₂, h₁⟩⟩

variable {c : StepInFlight Priv}

theorem Sound.running_eq (hs : s.Sound) {k : Nat} (hk : s.running[k]? = some c) :
    k = 0 ∧ s.running = [c] ∧ s.handshake.inFlight = true := by
  rcases hs.one with ⟨h, -⟩ | ⟨c', h, hi⟩
  · rw [h] at hk
    cases hk
  · rw [h] at hk
    cases k with
    | zero =>
      cases hk
      exact ⟨rfl, h, hi⟩
    | succ k => cases hk

theorem sound_settle_error (hs : s.Sound) {k : Nat} (hk : s.running[k]? = some c) (hc : ∀ a, c.script ≠ .ret a)
    (e : HandshakeFault) : (s.settle k (.error e)).Sound := by
  obtain ⟨rfl, hrun, -⟩ := hs.running_eq hk
  have hnone : s.handshake.session = none := by
    rcases (hs.tame c (by rw [hrun]; exact List.mem_singleton.mpr rfl)).session with ⟨h, -⟩ | ⟨-, a, ha⟩
    · exact h
    · exact absurd ha (hc a)
  unfold settle
  rw [hrun]
  exact ⟨.inl ⟨rfl, rfl⟩, nofun, fun _ => rfl, fun _ => ⟨hnone, nofun⟩⟩

theorem sound_settle_ok (hs : s.Sound) {k : Nat} (hk : s.running[k]? = some c) (a : Bytes) : (s.settle k (.ok a)).Sound := by
  obtain ⟨rfl, hrun, -⟩ := hs.running_eq hk
  unfold settle
  rw [hrun]
  exact ⟨.inl ⟨rfl, rfl⟩, nofun, hs.recorded, fun h => ⟨(hs.poisoned h).1, nofun⟩⟩

/-- **A call goes on.**  Where it writes the session it is done, and a call that could is not in flight once the handshake
has failed. -/
theorem sound_await (hs : s.Sound) {k : Nat} {second : Bool} {write : Handshake Priv → Handshake Priv}
    {next : Handshake Priv → Handshake.Call Priv Bytes} (hk : s.running[k]? = some ⟨second, .await write next⟩) :
    Sound { s with handshake := write s.handshake, running := s.running.set k ⟨second, next s.handshake⟩ } := by
  obtain ⟨rfl, hrun, hi⟩ := hs.running_eq hk
  obtain ⟨hkf, hki, hks⟩ := hs.tame ⟨second, .await write next⟩ (by rw [hrun]; exact List.mem_singleton.mpr rfl)
  have hfailed := (hkf s.handshake).1
  have hset : s.running.set 0 ⟨second, next s.handshake⟩ = [⟨second, next s.handshake⟩] := by
    rw [hrun]
    rfl
  have hs' : ((write s.handshake).session = none ∧ (second = true → (next s.handshake).SetsLast Handshake.session) ∧
      (second = false → (next s.handshake).Keeps Handshake.session)) ∨
      (second = true ∧ ∃ a, next s.handshake = .ret a) := by
    rcases hks with ⟨hnone, h₂, h₁⟩ | ⟨-, a, ha⟩
    · cases second with
      | false =>
        obtain ⟨h, hk⟩ := h₁ rfl s.handshake
        exact .inl ⟨h.trans hnone, nofun, fun _ => hk⟩
      | true =>
        rcases h₂ rfl s.handshake with ⟨h, hk⟩ | ⟨a, ha⟩
        · exact .inl ⟨h.trans hnone, fun _ => hk, nofun⟩
        · exact .inr ⟨rfl, a, ha⟩
    · cases ha
  rw [hset]
  refine ⟨.inr ⟨_, rfl, (hki s.handshake).1.trans hi⟩, ?_, fun h => hfailed.trans (hs.recorded h), ?_⟩
  · intro c hc
    rw [List.mem_singleton.mp hc]
    exact ⟨(hkf s.handshake).2, (hki s.handshake).2, hs'⟩
  · intro hf
    obtain ⟨-, hfirst⟩ := hs.poisoned (hfailed.symm.trans hf)
    have hsecond : second = false := hfirst ⟨second, .await write next⟩ (by rw [hrun]; exact List.mem_singleton.mpr rfl)
    rcases hs' with ⟨hnone, -⟩ | ⟨h, -⟩
    · refine ⟨hnone, fun c hc => ?_⟩
      rw [List.mem_singleton.mp hc]
      exact hsecond
    · rw [hsecond] at h
      cases h

theorem sound_step (S : Suite Priv) (s : Shared Priv) (turn : Turn Priv) (hcalm : s.Calm turn) (hs : s.Sound) :
    (s.step S turn).Sound := by
  cases turn with
  | call request => exact sound_call S hs request hcalm
  | resume k =>
    cases hk : s.running[k]? with
    | none =>
      simp only [step, hk]
      exact hs
    | some c =>
      obtain ⟨second, script⟩ := c
      simp only [step, hk]
      cases script with
      | ret a => exact sound_settle_ok hs hk a
      | throw e => exact sound_settle_error hs hk nofun e
      | await write next => exact sound_await hs hk
  | reject k =>
    cases hk : s.running[k]? with
    | none =>
      simp only [step, hk]
      exact hs
    | some c =>
      obtain ⟨second, script⟩ := c
      simp only [step, hk]
      cases script with
      | ret a => exact hs
      | throw e => exact hs
      | await write next => exact sound_settle_error hs hk nofun _

end Shared

theorem start_ok {S : Suite Priv} {prologue : Bytes} {static : NoiseKeyPair Priv} {ephemeral : Option (NoiseKeyPair Priv)}
    {remoteStatic : Option Bytes} {h : Handshake Priv}
    (hstart : Handshake.start S prologue static ephemeral remoteStatic = .ok h) :
    h = fresh S prologue static ephemeral remoteStatic := by
  unfold Handshake.start at hstart
  split at hstart
  · cases hstart
  · split at hstart
    · cases hstart
    · split at hstart
      · cases hstart
      · cases hstart
        rfl

/-- **A handshake that has failed stays without a session**, in every interleaving in which no call is made while a step
at the second message is in flight. -/
theorem failed_handshake_exposes_no_session (S : Suite Priv) (prologue : Bytes) (static : NoiseKeyPair Priv)
    (ephemeral : Option (NoiseKeyPair Priv)) (remoteStatic : Option Bytes) {h : Handshake Priv}
    (hstart : Handshake.start S prologue static ephemeral remoteStatic = .ok h) (turns : List (Turn Priv))
    (hcalm : Steps.Along (Shared.step S) Shared.Calm (Shared.start h) turns)
    (hfailed : (Steps.run (Shared.step S) (Shared.start h) turns).HasFailed) :
    (Steps.run (Shared.step S) (Shared.start h) turns).handshake.session = none := by
  rw [start_ok hstart] at hcalm hfailed ⊢
  have hsound := Steps.run_invariant_along (Shared.sound_step S) turns _ hcalm
    (Shared.sound_start (S := S) prologue static ephemeral remoteStatic)
  exact (hsound.poisoned (hsound.recorded hfailed)).1

def wrongTurn : List (Turn UInt8) := [.call (.writeMessage [] (pairOf smallSuite 4)), .resume 0]

theorem failed_handshake_wrong_turn :
    (Steps.run (Shared.step smallSuite) (Shared.start (fresh smallSuite [1] (pairOf smallSuite 2) none none))
      wrongTurn).HasFailed ∧
    (Steps.run (Shared.step smallSuite) (Shared.start (fresh smallSuite [1] (pairOf smallSuite 2) none none))
      wrongTurn).handshake.session = none :=
  have hfailed : (Steps.run (Shared.step smallSuite)
      (Shared.start (fresh smallSuite [1] (pairOf smallSuite 2) none none)) wrongTurn).HasFailed :=
    ⟨.turn .responder true, List.mem_singleton.mpr rfl, nofun⟩
  ⟨hfailed, failed_handshake_exposes_no_session smallSuite [1] (pairOf smallSuite 2) none none rfl wrongTurn
    ⟨nofun, trivial, trivial⟩ hfailed⟩

/-- A responder that has read the first message and is called twice for the second: the second call comes in before the
first goes on. -/
def calledTwice : List (Turn UInt8) :=
  .call (.readMessage (message1 smallSuite (fresh smallSuite [1] (pairOf smallSuite 2) none none).symmetric 4 1 2 [])) ::
    List.replicate 12 (.resume 0) ++
  [.call (.writeMessage [] (pairOf smallSuite 5)), .call (.writeMessage [] (pairOf smallSuite 5))] ++
    List.replicate 11 (.resume 0)

theorem failed_handshake_completes :
    Handshake.start smallSuite [1] (pairOf smallSuite 2) none none =
      .ok (fresh smallSuite [1] (pairOf smallSuite 2) none none) ∧
    (Steps.run (Shared.step smallSuite) (Shared.start (fresh smallSuite [1] (pairOf smallSuite 2) none none))
      calledTwice).faults = [.inFlight] ∧
    (Steps.run (Shared.step smallSuite) (Shared.start (fresh smallSuite [1] (pairOf smallSuite 2) none none))
      calledTwice).handshake.session.isSome = true :=
  ⟨rfl, by decide +kernel, by decide +kernel⟩

end Noise
end Dormouse

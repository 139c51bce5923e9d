import Dormouse.NoiseFrames
/-!
# NoiseRun — two sessions and a network between them

The two ends of one handshake, each sending and receiving, and a network that delivers what it likes: frames in any
order, twice or never, turned back on their sender, or bytes of its own.  Of the bytes it delivers only those that open
under the receiver's key were sealed by one of the ends (`Unforged`).

A direction is kept by one invariant (`Flow`): the frames out are the plaintexts of the calls that returned, sealed under
`0, 1, 2, …`, and the receipts in are what the first of those plaintexts give, in order.
-/
namespace Dormouse
namespace Noise

variable {Key V : Type}

/-! ## The two ends -/

/-- One end, with its history: the calls that returned, the frames they gave out, and the receipts of `receive`. -/
structure End (Key V : Type) where
  session : Session Key
  sent    : List (Call V)
  emitted : List Bytes
  got     : List (TransportReceipt V)

def End.call (A : Aead Key) (J : JsonText V) (e : End Key V) (c : Call V) : End Key V :=
  match e.session.perform A J c with
  | (s, .ok xs)   => ⟨s, e.sent ++ [c], e.emitted ++ xs, e.got⟩
  | (s, .error _) => { e with session := s }

def End.deliver (A : Aead Key) (J : JsonText V) (e : End Key V) (bytes : Bytes) : End Key V :=
  match e.session.receiveFrame A J bytes with
  | (s, .ok x)    => { e with session := s, got := e.got ++ [x] }
  | (s, .error _) => { e with session := s }

abbrev Pair (Key V : Type) := Bool → End Key V

inductive Move (V : Type) where
  | call (side : Bool) (c : Call V)
  | deliver (side : Bool) (bytes : Bytes)

def Move.side : Move V → Bool
  | .call side _    => side
  | .deliver side _ => side

def End.move (A : Aead Key) (J : JsonText V) (e : End Key V) : Move V → End Key V
  | .call _ c        => e.call A J c
  | .deliver _ bytes => e.deliver A J bytes

def step (A : Aead Key) (J : JsonText V) (p : Pair Key V) (m : Move V) : Pair Key V :=
  Function.update p m.side ((p m.side).move A J m)

/-- The two ends of one handshake; a side seals with its own key and opens with the other's. -/
def handshaken (keys : Bool → Key) : Pair Key V := fun side => ⟨.ofSplit (keys side) (keys !side), [], [], []⟩

/-- Bytes delivered that open under the receiver's key are an end's. -/
def Genuine (A : Aead Key) (keys : Bool → Key) (p : Pair Key V) : Move V → Prop
  | .call _ _           => True
  | .deliver side bytes => ∀ nonce q, nonce.length = 12 → A.decrypt (keys !side) nonce bytes = some q →
    bytes ∈ (p side).emitted ∨ bytes ∈ (p !side).emitted

def Unforged (A : Aead Key) (J : JsonText V) (keys : Bool → Key) : Pair Key V → List (Move V) → Prop
  | _, []      => True
  | p, m :: ms => Genuine A keys p m ∧ Unforged A J keys (step A J p m) ms

/-- One direction: the frames out are the plaintexts of the calls, sealed in order, and the receipts in are what the
first of them give. -/
structure Flow (A : Aead Key) (J : JsonText V) (key : Key) (s r : End Key V) : Prop where
  accepted : Accepted J s.sent
  emitted  : s.emitted = sealFrom A key 0 (s.sent.flatMap (·.frames J))
  bound    : s.emitted.length ≤ reservedNonce
  sender   : s.session.poison = none → s.session.send = ⟨some key, s.emitted.length⟩
  got      : r.got <+: s.sent.flatMap Call.receipts
  receiver : r.session.poison = none → r.session.receive = ⟨some key, r.got.length⟩ ∧
    r.got.length ≤ s.emitted.length ∧
    absorbAll J .fresh ((s.sent.flatMap (·.frames J)).take r.got.length) = some (r.session.reassembler, r.got)

theorem decryptWithAd_keyed (A : Aead Key) (key : Key) (n : Nat) (bytes : Bytes) :
    (∃ e, CipherState.decryptWithAd A ⟨some key, n⟩ bytes = (⟨some key, n⟩, .error e)) ∨
    ∃ p, n < reservedNonce ∧ A.decrypt key (nonceBytes n) bytes = some p ∧
      CipherState.decryptWithAd A ⟨some key, n⟩ bytes = (⟨some key, n + 1⟩, .ok p) := by
  unfold CipherState.decryptWithAd
  dsimp only
  by_cases hlen : noiseMaxMessageLength < bytes.length
  · exact .inl ⟨.overLength, if_pos hlen⟩
  rw [if_neg hlen]
  by_cases hn : n < reservedNonce
  · rw [noiseNonceBytes_of_lt hn]
    cases hd : A.decrypt key (nonceBytes n) bytes with
    | none => exact .inl ⟨.authentication, by dsimp only; rw [hd]⟩
    | some p => exact .inr ⟨p, hn, rfl, by dsimp only; rw [hd]⟩
  · rw [noiseNonceBytes, if_pos (by omega)]
    exact .inl ⟨.nonceExhausted, rfl⟩

theorem decryptWithAd_opens (A : Aead Key) {key : Key} {n : Nat} {bytes p : Bytes}
    (hlen : bytes.length ≤ noiseMaxMessageLength) (hn : n < reservedNonce)
    (hd : A.decrypt key (nonceBytes n) bytes = some p) :
    CipherState.decryptWithAd A ⟨some key, n⟩ bytes = (⟨some key, n + 1⟩, .ok p) := by
  rw [CipherState.decryptWithAd, if_neg (by omega)]
  dsimp only
  rw [noiseNonceBytes_of_lt hn]
  dsimp only
  rw [hd]

/-- `receive` of a live session: it refuses and is poisoned, or opens the next plaintext. -/
theorem receiveFrame_live (A : Aead Key) (J : JsonText V) {s : Session Key} {key : Key} {n : Nat} (hp : s.poison = none)
    (hc : s.receive = ⟨some key, n⟩) (bytes : Bytes) :
    (∃ s' e, s.receiveFrame A J bytes = (s', .error e) ∧ s'.poison ≠ none) ∨
    ∃ p r' x, n < reservedNonce ∧ A.decrypt key (nonceBytes n) bytes = some p ∧
      absorb J s.reassembler p = (r', .ok x) ∧
      s.receiveFrame A J bytes = ({ s with receive := ⟨some key, n + 1⟩, reassembler := r' }, .ok x) := by
  obtain ⟨send, receive, r, poison⟩ := s
  dsimp only at hp hc
  subst hp hc
  unfold Session.receiveFrame
  dsimp only
  rcases decryptWithAd_keyed A key n bytes with ⟨e, he⟩ | ⟨p, hn, hd, he⟩
  · rw [he]
    exact .inl ⟨_, _, rfl, nofun⟩
  · rw [he]
    dsimp only
    rw [accept_eq]
    dsimp only
    cases ha : absorb J r p with
    | mk r' a =>
      cases a with
      | error e => exact .inl ⟨_, _, rfl, nofun⟩
      | ok x => exact .inr ⟨p, r', x, hn, hd, ha, rfl⟩

theorem receiveFrame_opens (A : Aead Key) (J : JsonText V) {s : Session Key} {key : Key} {n : Nat} (hp : s.poison = none)
    (hc : s.receive = ⟨some key, n⟩) {bytes p : Bytes} (hlen : bytes.length ≤ noiseMaxMessageLength)
    (hn : n < reservedNonce) (hd : A.decrypt key (nonceBytes n) bytes = some p) {r' : StreamReassembler}
    {x : TransportReceipt V} (ha : absorb J s.reassembler p = (r', .ok x)) :
    (s.receiveFrame A J bytes).2 = .ok x := by
  unfold Session.receiveFrame
  rw [hp]
  dsimp only
  rw [hc, decryptWithAd_opens A hlen hn hd]
  dsimp only
  rw [accept_eq]
  dsimp only
  rw [ha]
  rfl

/-! ## One step keeps a direction -/

section
variable {A : Aead Key} {J : JsonText V} {key : Key} {s r : End Key V}

theorem flatMap_frames_snoc (cs : List (Call V)) {c : Call V} {ps : List Bytes} (h : c.plaintexts J = .ok ps) :
    (cs ++ [c]).flatMap (·.frames J) = cs.flatMap (·.frames J) ++ ps := by
  rw [List.flatMap_append, List.flatMap_singleton, frames_of_plaintexts h]

theorem Flow.length_emitted (h : Flow A J key s r) : s.emitted.length = (s.sent.flatMap (·.frames J)).length := by
  rw [h.emitted, length_sealFrom]

theorem Flow.call_sender (h : Flow A J key s r) (c : Call V) : Flow A J key (s.call A J c) r := by
  cases hp : s.session.poison with
  | some why =>
    rw [End.call, perform_poisoned A J hp]
    exact h
  | none =>
    have hsend := h.sender hp
    have hn : s.session.send.n = s.emitted.length := by rw [hsend]
    unfold End.call
    rcases performs A J hp (by rw [hsend]) (by rw [hn]; exact h.bound) c with
      ⟨e, _, hs⟩ | ⟨ps, hc, hle, hs⟩ | ⟨ps, send, why, e, _, _, hs⟩
    · rw [hs]
      exact h
    · rw [hs]
      have hlen : (s.emitted ++ sealFrom A key s.session.send.n ps).length = s.emitted.length + ps.length := by
        rw [List.length_append, length_sealFrom]
      refine ⟨fun c' hc' => ?_, ?_, ?_, fun _ => ?_, ?_, fun hr => ?_⟩
      · rcases List.mem_append.1 hc' with hc' | hc'
        · exact h.accepted c' hc'
        · rw [List.mem_singleton.1 hc']
          exact ⟨ps, hc⟩
      · show s.emitted ++ sealFrom A key s.session.send.n ps = _
        rw [flatMap_frames_snoc _ hc, sealFrom_append, ← h.emitted, ← h.length_emitted, hn, Nat.zero_add]
      · show (s.emitted ++ sealFrom A key s.session.send.n ps).length ≤ reservedNonce
        omega
      · show (⟨some key, s.session.send.n + ps.length⟩ : CipherState Key) = _
        rw [hlen, hn]
      · show r.got <+: (s.sent ++ [c]).flatMap Call.receipts
        rw [List.flatMap_append]
        exact h.got.trans (List.prefix_append _ _)
      · obtain ⟨hrec, hle', habs⟩ := h.receiver hr
        refine ⟨hrec, ?_, ?_⟩
        · show r.got.length ≤ (s.emitted ++ sealFrom A key s.session.send.n ps).length
          omega
        · show absorbAll J .fresh (((s.sent ++ [c]).flatMap (·.frames J)).take r.got.length) = _
          rw [flatMap_frames_snoc _ hc, List.take_append_of_le_length (by rw [← h.length_emitted]; exact hle'), habs]
    · rw [hs]
      exact ⟨h.accepted, h.emitted, h.bound, nofun, h.got, h.receiver⟩

theorem Flow.call_receiver (h : Flow A J key s r) (c : Call V) : Flow A J key s (r.call A J c) := by
  obtain ⟨send, poison, hs, hlive⟩ := perform_keeps A J r.session c
  have hgot : (r.call A J c).got = r.got := by
    unfold End.call
    split <;> rfl
  have hses : (r.call A J c).session = { r.session with send := send, poison := poison } := by
    unfold End.call
    split <;> rename_i heq <;> rw [heq] at hs <;> exact hs
  refine ⟨h.accepted, h.emitted, h.bound, h.sender, by rw [hgot]; exact h.got, fun hp => ?_⟩
  rw [hses] at hp
  rw [hgot, hses]
  exact h.receiver (hlive hp)

theorem Flow.deliver_sender (h : Flow A J key s r) (bytes : Bytes) : Flow A J key (s.deliver A J bytes) r := by
  obtain ⟨c, re, poison, hs, hlive⟩ := receiveFrame_keeps A J s.session bytes
  have hsame : (s.deliver A J bytes).sent = s.sent ∧ (s.deliver A J bytes).emitted = s.emitted := by
    unfold End.deliver
    split <;> exact ⟨rfl, rfl⟩
  have hses : (s.deliver A J bytes).session = { s.session with receive := c, reassembler := re, poison := poison } := by
    unfold End.deliver
    split <;> rename_i heq <;> rw [heq] at hs <;> exact hs
  obtain ⟨hsent, hem⟩ := hsame
  refine ⟨by rw [hsent]; exact h.accepted, by rw [hsent, hem]; exact h.emitted, by rw [hem]; exact h.bound, fun hp => ?_,
    by rw [hsent]; exact h.got, fun hp => by rw [hsent, hem]; exact h.receiver hp⟩
  rw [hses] at hp
  rw [hses, hem]
  exact h.sender (hlive hp)

/-- **The receiver is delivered something**: what it accepts is the next plaintext of the sender's calls. -/
theorem Flow.deliver_receiver (hA : A.Ideal) (hJ : J.Lawful) (h : Flow A J key s r) {bytes : Bytes}
    (hsealed : ∀ nonce q, nonce.length = 12 → A.decrypt key nonce bytes = some q → bytes ∈ s.emitted) :
    Flow A J key s (r.deliver A J bytes) := by
  cases hp : r.session.poison with
  | some why =>
    rw [End.deliver, receiveFrame_poisoned A J hp]
    exact h
  | none =>
    obtain ⟨hrec, hle, habs⟩ := h.receiver hp
    unfold End.deliver
    rcases receiveFrame_live A J hp hrec bytes with ⟨s', e, hs, hpo⟩ | ⟨p, r', x, hn, hd, ha, hs⟩
    · rw [hs]
      exact ⟨h.accepted, h.emitted, h.bound, h.sender, h.got, fun hp' => absurd hp' hpo⟩
    · rw [hs]
      obtain ⟨i, hi, hget⟩ := List.mem_iff_getElem.1 (hsealed _ p (length_nonceBytes _) hd)
      have hi? : s.emitted[i]? = some bytes := List.getElem?_eq_some_iff.2 ⟨hi, hget⟩
      rw [h.emitted, getElem?_sealFrom, Nat.zero_add] at hi?
      obtain ⟨q, hq, rfl⟩ := Option.map_eq_some_iff.1 hi?
      obtain ⟨_, hnonce, rfl⟩ := hA.only _ _ _ _ _ _ (length_nonceBytes _) (length_nonceBytes _) hd
      -- the frame that opened is the one the counter stands at
      have hik : r.got.length = i := nonceBytes_inj hn (by have := h.bound; omega) hnonce
      rw [← hik] at hq
      obtain ⟨r'', x', ha', hpre, habs'⟩ := absorb_next hJ h.accepted hq habs
      rw [ha] at ha'
      cases ha'
      have hlen : (r.got ++ [x]).length = r.got.length + 1 := by rw [List.length_append]; rfl
      refine ⟨h.accepted, h.emitted, h.bound, h.sender, hpre, fun _ => ⟨?_, ?_, ?_⟩⟩
      · show (⟨some key, r.got.length + 1⟩ : CipherState Key) = ⟨some key, (r.got ++ [x]).length⟩
        rw [hlen]
      · show (r.got ++ [x]).length ≤ s.emitted.length
        omega
      · show absorbAll J .fresh (List.take (r.got ++ [x]).length _) = some (r', r.got ++ [x])
        rw [hlen, habs']

theorem Flow.next (hA : A.Ideal) (hJ : J.Lawful) (h : Flow A J key s r) (hp : r.session.poison = none) {bytes : Bytes}
    (hb : s.emitted[r.got.length]? = some bytes) :
    ∃ x, (r.session.receiveFrame A J bytes).2 = .ok x ∧ r.got ++ [x] <+: s.sent.flatMap Call.receipts := by
  obtain ⟨hrec, _, habs⟩ := h.receiver hp
  have hlt := (List.getElem?_eq_some_iff.1 hb).1
  have hbound := h.bound
  rw [h.emitted, getElem?_sealFrom, Nat.zero_add] at hb
  obtain ⟨q, hq, rfl⟩ := Option.map_eq_some_iff.1 hb
  obtain ⟨r', x, ha, hpre, _⟩ := absorb_next hJ h.accepted hq habs
  refine ⟨x, receiveFrame_opens A J hp hrec ?_ (by omega) (hA.opens _ _ _ (length_nonceBytes _)) ha, hpre⟩
  rw [hA.length _ _ _ (length_nonceBytes _)]
  obtain ⟨c, hc, hqc⟩ := List.mem_flatMap.1 (List.mem_of_getElem? hq)
  obtain ⟨ps, hps⟩ := h.accepted c hc
  rw [frames_of_plaintexts hps] at hqc
  exact plaintexts_fit hps q hqc

end

/-! ## Runs -/

section
variable {A : Aead Key} {J : JsonText V} {keys : Bool → Key}

def Flows (A : Aead Key) (J : JsonText V) (keys : Bool → Key) (p : Pair Key V) : Prop :=
  ∀ side, Flow A J (keys side) (p side) (p !side)

theorem flows_handshaken : Flows A J keys (handshaken keys) := fun _ =>
  ⟨nofun, rfl, Nat.zero_le _, fun _ => rfl, List.prefix_refl _, fun _ =>
    ⟨by rw [handshaken, Bool.not_not]; rfl, Nat.zero_le _, rfl⟩⟩

theorem step_self (p : Pair Key V) (m : Move V) : step A J p m m.side = (p m.side).move A J m := Function.update_self ..

theorem step_other (p : Pair Key V) (m : Move V) : step A J p m (!m.side) = p (!m.side) :=
  Function.update_of_ne (by cases m.side <;> decide) _ _

theorem Flow.reflected (hA : A.Ideal) {key key' : Key} (hk : key ≠ key') {s r : End Key V} (h : Flow A J key' s r)
    {bytes nonce q : Bytes} (hn : nonce.length = 12) (hd : A.decrypt key nonce bytes = some q) : bytes ∉ s.emitted := by
  intro hmem
  obtain ⟨i, hi⟩ := List.getElem?_of_mem hmem
  rw [h.emitted, getElem?_sealFrom] at hi
  obtain ⟨p, _, rfl⟩ := Option.map_eq_some_iff.1 hi
  exact hk (hA.only _ _ _ _ _ _ hn (length_nonceBytes _) hd).1

/-- **One move keeps both directions.** -/
theorem flows_step (hA : A.Ideal) (hJ : J.Lawful) (hk : keys true ≠ keys false) {p : Pair Key V} (h : Flows A J keys p)
    {m : Move V} (hg : Genuine A keys p m) : Flows A J keys (step A J p m) := by
  intro side
  have hne : ∀ b : Bool, keys (!b) ≠ keys b := fun b => by
    cases b with
    | true => exact hk.symm
    | false => exact hk
  by_cases hside : side = m.side
  · rw [hside, step_self, step_other]
    cases m with
    | call b c => exact (h b).call_sender c
    | deliver b bytes => exact (h b).deliver_sender bytes
  · obtain rfl : side = !m.side := by
      cases side <;> cases hm : m.side <;> simp_all
    have hflow := h (!m.side)
    rw [Bool.not_not] at hflow
    rw [step_other, Bool.not_not, step_self]
    cases m with
    | call b c => exact hflow.call_receiver c
    | deliver b bytes =>
      refine hflow.deliver_receiver hA hJ (fun nonce q hn hd => ?_)
      rcases hg nonce q hn hd with hown | hpeer
      · exact absurd hown ((h b).reflected hA (hne b) hn hd)
      · exact hpeer

theorem flows_run (hA : A.Ideal) (hJ : J.Lawful) (hk : keys true ≠ keys false) : ∀ (ms : List (Move V)) {p : Pair Key V},
    Flows A J keys p → Unforged A J keys p ms → Flows A J keys (Steps.run (step A J) p ms)
  | [], _, h, _ => h
  | _ :: ms, _, h, hu => flows_run hA hJ hk ms (flows_step hA hJ hk h hu.1) hu.2

theorem receiveFrame_error {s : Session Key} {bytes : Bytes} {e : NoiseFault}
    (h : (s.receiveFrame A J bytes).2 = .error e) : ∃ why, (s.receiveFrame A J bytes).1.poison = some why := by
  cases hp : s.poison with
  | some why =>
    rw [receiveFrame_poisoned A J hp]
    exact ⟨why, hp⟩
  | none =>
    unfold Session.receiveFrame at h ⊢
    rw [hp] at h ⊢
    dsimp only at h ⊢
    cases hd : s.receive.decryptWithAd A bytes with
    | mk c a =>
      rw [hd] at h
      cases a with
      | error e' => exact ⟨e', rfl⟩
      | ok p =>
        dsimp only at h ⊢
        rw [accept_eq] at h ⊢
        cases ha : (absorb J s.reassembler p).2 with
        | error e' => exact ⟨e', rfl⟩
        | ok x =>
          dsimp only at h
          rw [ha] at h
          cases h

theorem End.session_deliver (e : End Key V) (bytes : Bytes) :
    (e.deliver A J bytes).session = (e.session.receiveFrame A J bytes).1 := by
  unfold End.deliver
  split <;> rename_i heq <;> rw [heq]

theorem run_poisoned {side : Bool} {why : NoiseFault} : ∀ (ms : List (Move V)) {p : Pair Key V},
    (p side).session.poison = some why → Steps.run (step A J) p ms side = p side
  | [], _, _ => rfl
  | m :: ms, p, h => by
    have hstep : step A J p m side = p side := by
      by_cases hm : m.side = side
      · rw [← hm, step_self]
        rw [← hm] at h
        cases m with
        | call b c =>
          rw [End.move, End.call, perform_poisoned A J h]
        | deliver b bytes =>
          rw [End.move, End.deliver, receiveFrame_poisoned A J h]
      · exact Function.update_of_ne (Ne.symm hm) _ _
    rw [Steps.run_cons, run_poisoned ms (by rw [hstep]; exact h), hstep]

def TransportReceipt.calls : TransportReceipt V → List (Call V)
  | .keepalive    => [.keepalive]
  | .control v    => [.control v]
  | .app messages => messages.map .app

theorem receipts_snoc (c : Call V) : ∃ xs x, c.receipts = xs ++ [x] ∧ xs.flatMap TransportReceipt.calls = [] ∧
    x.calls = [c] := by
  cases c with
  | keepalive => exact ⟨[], _, rfl, rfl, rfl⟩
  | control v => exact ⟨[], _, rfl, rfl, rfl⟩
  | app m =>
    refine ⟨_, _, rfl, ?_, rfl⟩
    rw [List.flatMap_eq_nil_iff]
    intro x hx
    rw [List.eq_of_mem_replicate hx]
    rfl

theorem calls_prefix : ∀ {cs : List (Call V)} {got : List (TransportReceipt V)}, got <+: cs.flatMap Call.receipts →
    got.flatMap TransportReceipt.calls <+: cs
  | [], got, h => by
    rw [List.flatMap_nil, List.prefix_nil] at h
    rw [h]
    exact List.prefix_refl _
  | c :: cs, got, h => by
    obtain ⟨xs, x, hc, hxs, hx⟩ := receipts_snoc c
    rw [List.flatMap_cons, hc] at h
    by_cases hlen : got.length ≤ xs.length
    · have hp : got <+: xs := List.prefix_of_prefix_length_le h (by rw [List.append_assoc]; exact List.prefix_append _ _) hlen
      obtain ⟨t, rfl⟩ := hp
      rw [List.flatMap_append] at hxs
      rw [(List.append_eq_nil_iff.1 hxs).1]
      exact List.nil_prefix
    · have hp : xs ++ [x] <+: got := List.prefix_of_prefix_length_le (List.prefix_append _ _) h (by simp; omega)
      obtain ⟨t, rfl⟩ := hp
      rw [List.flatMap_append, List.flatMap_append, hxs, List.flatMap_singleton, hx]
      exact (List.prefix_cons_inj c).2 ( calls_prefix ((List.prefix_append_right_inj _).1 h))

/-- **Two sessions of one handshake, over any network.**  Whatever the ends call and the network delivers, what an end
has accepted is a prefix of what the other sent: receipt by receipt, and as calls, in order and byte for byte; and while
it lives it accepts the next frame.  The first frame it rejects ends it: every later call and frame throws and changes
nothing.  A call refused for its size leaves the session as it was. -/
theorem sessions_deliver_prefix (hA : A.Ideal) (hJ : J.Lawful) (hk : keys true ≠ keys false) :
    (∀ ms, Unforged A J keys (handshaken keys) ms → ∀ side p, p = Steps.run (step A J) (handshaken keys) ms →
      (p side).got <+: (p !side).sent.flatMap Call.receipts ∧
      (p side).got.flatMap TransportReceipt.calls <+: (p !side).sent ∧
      ((p side).session.poison = none → ∀ bytes, (p !side).emitted[(p side).got.length]? = some bytes →
        ∃ x, ((p side).session.receiveFrame A J bytes).2 = .ok x)) ∧
    (∀ ms side bytes e p, p = Steps.run (step A J) (handshaken keys) ms →
      ((p side).session.receiveFrame A J bytes).2 = .error e →
      ∃ dead, dead = step A J p (.deliver side bytes) side ∧ dead.got = (p side).got ∧
        (∀ later, Steps.run (step A J) p (.deliver side bytes :: later) side = dead) ∧
        (∀ c, ∃ e', dead.session.perform A J c = (dead.session, .error e')) ∧
        ∀ bytes', ∃ e', dead.session.receiveFrame A J bytes' = (dead.session, .error e')) ∧
    (∀ s : Session Key, s.poison = none →
      (∀ m, maxAppMessageLength < m.length → s.sendApp A m = (s, .error .messageTooLong)) ∧
      ∀ v, controlPayloadSize < (J.stringify v).length → s.sendControl A J v = (s, .error .controlTooLong)) := by
  refine ⟨fun ms hu side p hp => ?_, fun ms side bytes e p _ he => ?_, fun s hs => ⟨fun m hm => ?_, fun v hv => ?_⟩⟩
  · have hflow := flows_run hA hJ hk _ flows_handshaken hu (!side)
    rw [← hp, Bool.not_not] at hflow
    refine ⟨hflow.got, calls_prefix hflow.got, fun hlive bytes hb => ?_⟩
    obtain ⟨x, hx, _⟩ := hflow.next hA hJ hlive hb
    exact ⟨x, hx⟩
  · obtain ⟨why, hwhy⟩ := receiveFrame_error he
    have hdead : step A J p (.deliver side bytes) side = (p side).deliver A J bytes := step_self p _
    have hpoison : (step A J p (.deliver side bytes) side).session.poison = some why := by
      rw [hdead, End.session_deliver, hwhy]
    refine ⟨_, rfl, ?_, fun later => ?_, fun c => ⟨_, perform_poisoned A J hpoison c⟩,
      fun bytes' => ⟨_, receiveFrame_poisoned A J hpoison bytes'⟩⟩
    · rw [hdead, End.deliver]
      split
      · rename_i heq
        rw [heq] at he
        cases he
      · rfl
    · rw [Steps.run_cons, run_poisoned later hpoison]
  · rw [Session.sendApp, hs, chunkAppMessage, if_pos hm]
  · have henc : encodeTransportPlaintext J (.control v) = .error .controlTooLong := by
      rw [encodeTransportPlaintext, encodeControlBody, if_pos hv]
      rfl
    rw [Session.sendControl, hs, henc]

end

/-! ### A run -/

def tagOf (k : UInt8) (nonce : Bytes) : Bytes := k :: nonce ++ [0, 0, 0]

def tagAead : Aead UInt8 where
  encrypt k nonce p := p ++ tagOf k nonce
  decrypt k nonce x :=
    if noiseTagLength ≤ x.length ∧ x.drop (x.length - noiseTagLength) = tagOf k nonce then
      some (x.take (x.length - noiseTagLength))
    else none

theorem length_tagOf {k : UInt8} {nonce : Bytes} (h : nonce.length = 12) : (tagOf k nonce).length = noiseTagLength := by
  rw [tagOf, List.length_append, List.length_cons, h]
  rfl

theorem tagAead_ideal : tagAead.Ideal where
  length k nonce p h := by
    show (p ++ tagOf k nonce).length = _
    rw [List.length_append, length_tagOf h]
  opens k nonce p h := by
    show (if _ then _ else _) = _
    have hl : (tagAead.encrypt k nonce p).length - noiseTagLength = p.length := by
      show (p ++ tagOf k nonce).length - _ = _
      rw [List.length_append, length_tagOf h, Nat.add_sub_cancel]
    have hle : noiseTagLength ≤ (tagAead.encrypt k nonce p).length := by
      show _ ≤ (p ++ tagOf k nonce).length
      rw [List.length_append, length_tagOf h]
      omega
    rw [hl, if_pos ⟨hle, List.drop_left⟩]
    exact congrArg some List.take_left
  only k nonce k' nonce' p q h h' hd := by
    have hl : (tagAead.encrypt k' nonce' p).length - noiseTagLength = p.length := by
      show (p ++ tagOf k' nonce').length - _ = _
      rw [List.length_append, length_tagOf h', Nat.add_sub_cancel]
    obtain ⟨⟨_, htag⟩, hq⟩ := Option.ite_none_right_eq_some.1 (show (if _ then _ else _) = _ from hd)
    rw [hl] at htag hq
    have hdrop : (tagAead.encrypt k' nonce' p).drop p.length = tagOf k' nonce' := List.drop_left
    have htake : (tagAead.encrypt k' nonce' p).take p.length = p := List.take_left
    rw [hdrop, tagOf, tagOf, List.cons_append, List.cons_append, List.cons.injEq] at htag
    rw [htake] at hq
    exact ⟨htag.1.symm, (List.append_cancel_right htag.2).symm, (Option.some.inj hq).symm⟩

def emptyObjectText : JsonText Unit where
  stringify _ := [0x7b, 0x7d]
  parse bytes := if bytes = [0x7b, 0x7d] then some (some ()) else none

theorem emptyObjectText_lawful : emptyObjectText.Lawful := ⟨fun _ => rfl, fun _ => rfl⟩

def sampleKeys : Bool → UInt8
  | true  => 1
  | false => 2

/-- The first frame of the `true` side. -/
def sampleFrame : Bytes := 0x00 :: List.replicate keepaliveBodySize 0 ++ tagOf 1 (nonceBytes 0)

def sampleMoves : List (Move Unit) :=
  [.call true .keepalive, .deliver false sampleFrame, .deliver true sampleFrame, .deliver false sampleFrame]

theorem sampleMoves_unforged : Unforged tagAead emptyObjectText sampleKeys (handshaken sampleKeys) sampleMoves := by
  refine ⟨trivial, ?_, ?_, ?_, trivial⟩
  · exact fun _ _ _ _ => .inr (by decide)
  · exact fun _ _ _ _ => .inl (by decide)
  · exact fun _ _ _ _ => .inr (by decide)

theorem sessions_deliver_prefix_sample :
    (Steps.run (step tagAead emptyObjectText) (handshaken sampleKeys) sampleMoves false).got.length = 1 ∧
    (Steps.run (step tagAead emptyObjectText) (handshaken sampleKeys) sampleMoves false).got.flatMap
        TransportReceipt.calls <+:
      (Steps.run (step tagAead emptyObjectText) (handshaken sampleKeys) sampleMoves true).sent :=
  ⟨by decide, (( sessions_deliver_prefix tagAead_ideal emptyObjectText_lawful (by decide)).1 sampleMoves
    sampleMoves_unforged false _ rfl).2.1⟩

end Noise
end Dormouse

import Dormouse.NoiseSession
/-!
# NoiseFrames — what a call seals and what a frame gives

A call that is not refused seals its plaintexts under consecutive counters (`performs`); the plaintexts of a run of calls,
taken one by one by a fresh reassembler, give the calls' receipts in order (`absorbAll_calls`, `absorb_next`).
-/
namespace Dormouse
namespace Noise

variable {Key V : Type}

/-! ## Sealing -/

def nonceBytes (n : Nat) : Bytes := [0, 0, 0, 0] ++ littleEndian 8 n

/-- The plaintexts sealed under the counters from `n` on. -/
def sealFrom (A : Aead Key) (key : Key) : Nat → List Bytes → List Bytes
  | _, []      => []
  | n, p :: ps => A.encrypt key (nonceBytes n) p :: sealFrom A key (n + 1) ps

theorem length_littleEndian : ∀ k n, (littleEndian k n).length = k
  | 0, _ => rfl
  | k + 1, n => by rw [littleEndian, List.length_cons, length_littleEndian k]

theorem length_nonceBytes (n : Nat) : (nonceBytes n).length = 12 := by
  rw [nonceBytes, List.length_append, length_littleEndian]
  rfl

theorem toUInt8_inj {a b : Nat} (ha : a < 256) (hb : b < 256) (h : a.toUInt8 = b.toUInt8) : a = b := by
  have h' := congrArg UInt8.toNat h
  rwa [Nat.toUInt8_eq, Nat.toUInt8_eq, UInt8.toNat_ofNat', UInt8.toNat_ofNat', Nat.mod_eq_of_lt ha,
    Nat.mod_eq_of_lt hb] at h'

theorem littleEndian_inj : ∀ {k a b : Nat}, a < 256 ^ k → b < 256 ^ k → littleEndian k a = littleEndian k b → a = b
  | 0, a, b, ha, hb, _ => by omega
  | k + 1, a, b, ha, hb, h => by
    rw [littleEndian, littleEndian, List.cons.injEq] at h
    have hmod := toUInt8_inj (Nat.mod_lt a (by decide)) (Nat.mod_lt b (by decide)) h.1
    rw [Nat.pow_succ] at ha hb
    have hdiv := littleEndian_inj (Nat.div_lt_of_lt_mul (by rwa [Nat.mul_comm] at ha))
      (Nat.div_lt_of_lt_mul (by rwa [Nat.mul_comm] at hb)) h.2
    omega

theorem nonceBytes_inj {a b : Nat} (ha : a < reservedNonce) (hb : b < reservedNonce) (h : nonceBytes a = nonceBytes b) :
    a = b := by
  refine littleEndian_inj (k := 8) ?_ ?_ (List.append_cancel_left h)
  all_goals
    unfold reservedNonce at ha hb
    omega

theorem noiseNonceBytes_of_lt {n : Nat} (h : n < reservedNonce) : noiseNonceBytes n = .ok (nonceBytes n) :=
  if_neg (by omega)

theorem length_sealFrom (A : Aead Key) (key : Key) : ∀ n ps, (sealFrom A key n ps).length = ps.length
  | _, [] => rfl
  | n, p :: ps => by rw [sealFrom, List.length_cons, List.length_cons, length_sealFrom A key (n + 1) ps]

theorem sealFrom_append (A : Aead Key) (key : Key) : ∀ n ps qs,
    sealFrom A key n (ps ++ qs) = sealFrom A key n ps ++ sealFrom A key (n + ps.length) qs
  | n, [], qs => rfl
  | n, p :: ps, qs => by
    rw [List.cons_append, sealFrom, sealFrom, sealFrom_append A key (n + 1) ps qs, List.length_cons, List.cons_append,
      Nat.add_assoc, Nat.add_comm 1]

theorem getElem?_sealFrom (A : Aead Key) (key : Key) : ∀ n ps i,
    (sealFrom A key n ps)[i]? = ps[i]?.map (A.encrypt key (nonceBytes (n + i)))
  | _, [], _ => rfl
  | n, p :: ps, 0 => rfl
  | n, p :: ps, i + 1 => by
    rw [sealFrom, List.getElem?_cons_succ, List.getElem?_cons_succ, getElem?_sealFrom A key (n + 1) ps i, Nat.add_assoc,
      Nat.add_comm 1]

/-! ## What a call sends -/

inductive Call (V : Type) where
  | keepalive
  | control (value : V)
  | app (message : Bytes)

/-- The transport plaintexts of a call, or why it is refused before anything is sealed. -/
def Call.plaintexts (J : JsonText V) : Call V → Except NoiseFault (List Bytes)
  | .keepalive     => .ok [0x00 :: List.replicate keepaliveBodySize 0]
  | .control value => (encodeTransportPlaintext J (.control value)).map ([·])
  | .app message   => (chunkAppMessage message).map (·.map (0x01 :: ·))

def Call.frames (J : JsonText V) (c : Call V) : List Bytes :=
  match c.plaintexts J with
  | .ok ps   => ps
  | .error _ => []

namespace Session

def perform (A : Aead Key) (J : JsonText V) (s : Session Key) : Call V → Session Key × Except NoiseFault (List Bytes)
  | .keepalive     => let r := s.sendKeepalive A; (r.1, r.2.map ([·]))
  | .control value => let r := s.sendControl A J value; (r.1, r.2.map ([·]))
  | .app message   => s.sendApp A message

end Session

variable {key : Key} {p : Bytes}

theorem CipherState.encryptWithAd_keyed (A : Aead Key) {c : CipherState Key} (hk : c.key = some key)
    (hp : p.length + noiseTagLength ≤ noiseMaxMessageLength) :
    (c.n < reservedNonce ∧
      c.encryptWithAd A p = (⟨some key, c.n + 1⟩, .ok (A.encrypt key (nonceBytes c.n) p))) ∨
    (reservedNonce ≤ c.n ∧ c.encryptWithAd A p = (c, .error .nonceExhausted)) := by
  obtain ⟨k, n⟩ := c
  cases hk
  unfold encryptWithAd
  rw [if_neg (by simp; omega)]
  by_cases hn : n < reservedNonce
  · refine .inl ⟨hn, ?_⟩
    dsimp only
    rw [noiseNonceBytes_of_lt hn]
  · have hge : reservedNonce ≤ n := by omega
    refine .inr ⟨hge, ?_⟩
    dsimp only
    rw [noiseNonceBytes, if_pos hge]

theorem encryptBodies_spec (A : Aead Key) {key : Key} : ∀ {bodies : List Bytes} {c : CipherState Key},
    c.key = some key → (∀ b ∈ bodies, b.length ≤ maxStreamBodyLength) → c.n ≤ reservedNonce →
    (c.n + bodies.length ≤ reservedNonce ∧ Session.encryptBodies A c bodies =
      (⟨some key, c.n + bodies.length⟩, .ok (sealFrom A key c.n (bodies.map (0x01 :: ·))))) ∨
    (reservedNonce < c.n + bodies.length ∧ ∃ c' e, Session.encryptBodies A c bodies = (c', .error e))
  | [], ⟨k, n⟩, hk, _, hn => by
    cases hk
    exact .inl ⟨hn, rfl⟩
  | b :: bodies, c, hk, hb, hn => by
    have hbl : b.length ≤ maxStreamBodyLength := hb b (by simp)
    have hfit : (0x01 :: b).length + noiseTagLength ≤ noiseMaxMessageLength := by
      unfold maxStreamBodyLength noiseTagLength noiseMaxMessageLength at *
      rw [List.length_cons]
      omega
    rw [Session.encryptBodies, if_neg (by omega), List.length_cons]
    rcases CipherState.encryptWithAd_keyed A hk hfit with ⟨hlt, he⟩ | ⟨hge, he⟩
    · rw [he]
      dsimp only
      rcases encryptBodies_spec A (c := ⟨some key, c.n + 1⟩) rfl (fun x hx => hb x (List.mem_cons_of_mem b hx)) hlt with
        ⟨hle, hr⟩ | ⟨hgt, c', e, hr⟩
      · rw [hr]
        dsimp only at hle ⊢
        refine .inl ⟨by omega, ?_⟩
        rw [List.map_cons, sealFrom, Nat.add_assoc, Nat.add_comm 1]
      · rw [hr]
        dsimp only at hgt
        exact .inr ⟨by omega, c', e, rfl⟩
    · rw [he]
      exact .inr ⟨by omega, c, _, rfl⟩

variable {J : JsonText V}

theorem length_encodeControlBody {v : V} {body : Bytes} (h : encodeControlBody J v = .ok body) :
    body.length = controlPayloadSize := by
  unfold encodeControlBody at h
  dsimp only at h
  split at h
  · cases h
  · cases h
    rw [List.length_append, List.length_replicate]
    omega

theorem encode_control {v : V} (h : encodeTransportPlaintext J (.control v) = .ok p) :
    ∃ body, p = 0x02 :: body ∧ encodeControlBody J v = .ok body := by
  unfold encodeTransportPlaintext at h
  dsimp only at h
  cases hb : encodeControlBody J v with
  | error e =>
    rw [hb] at h
    cases h
  | ok body =>
    rw [hb] at h
    cases h
    exact ⟨body, rfl, rfl⟩

theorem plaintexts_fit : ∀ {c : Call V} {ps : List Bytes}, c.plaintexts J = .ok ps → ∀ p ∈ ps,
    p.length + noiseTagLength ≤ noiseMaxMessageLength
  | .keepalive, ps, h, p, hp => by
    cases h
    rw [List.mem_singleton] at hp
    subst hp
    decide
  | .control v, ps, h, p, hp => by
    cases he : encodeTransportPlaintext J (.control v) with
    | error e =>
      rw [Call.plaintexts, he] at h
      cases h
    | ok q =>
      rw [Call.plaintexts, he] at h
      cases h
      rw [List.mem_singleton] at hp
      subst hp
      obtain ⟨body, rfl, hb⟩ := encode_control he
      rw [List.length_cons, length_encodeControlBody hb]
      decide
  | .app m, ps, h, p, hp => by
    by_cases hm : m.length ≤ maxAppMessageLength
    · obtain ⟨bodies, hc, _, hle⟩ := chunkAppMessage_spec hm
      rw [Call.plaintexts, hc] at h
      cases h
      obtain ⟨b, hb, rfl⟩ := List.mem_map.1 hp
      have := hle b hb
      unfold maxStreamBodyLength noiseTagLength noiseMaxMessageLength at *
      rw [List.length_cons]
      omega
    · rw [Call.plaintexts, chunkAppMessage, if_pos (by omega)] at h
      cases h

variable {s : Session Key}

theorem sealed_spec (A : Aead Key) (hk : s.send.key = some key) (hfit : p.length + noiseTagLength ≤ noiseMaxMessageLength) :
    (s.send.n + 1 ≤ reservedNonce ∧ s.sealed A p =
      ({ s with send := ⟨some key, s.send.n + 1⟩ }, .ok (A.encrypt key (nonceBytes s.send.n) p))) ∨
    (reservedNonce < s.send.n + 1 ∧ ∃ send why e, s.sealed A p =
      ({ s with send := send, poison := some why }, .error e)) := by
  unfold Session.sealed
  rcases CipherState.encryptWithAd_keyed A hk hfit with ⟨hlt, he⟩ | ⟨hge, he⟩
  · rw [he]
    exact .inl ⟨hlt, rfl⟩
  · rw [he]
    exact .inr ⟨Nat.lt_succ_of_le hge, _, _, _, rfl⟩

/-- What a call of a session does: a refused call leaves the session as it was; otherwise its plaintexts are sealed in
order, or the counter runs out and the session is poisoned. -/
inductive Performs (A : Aead Key) (J : JsonText V) (s : Session Key) (key : Key) (c : Call V) : Prop where
  | refused (e : NoiseFault) (hc : c.plaintexts J = .error e) (hs : s.perform A J c = (s, .error e))
  | sent (ps : List Bytes) (hc : c.plaintexts J = .ok ps) (hn : s.send.n + ps.length ≤ reservedNonce)
    (hs : s.perform A J c =
      ({ s with send := ⟨some key, s.send.n + ps.length⟩ }, .ok (sealFrom A key s.send.n ps)))
  | exhausted (ps : List Bytes) (send : CipherState Key) (why e : NoiseFault) (hc : c.plaintexts J = .ok ps)
    (hn : reservedNonce < s.send.n + ps.length)
    (hs : s.perform A J c = ({ s with send := send, poison := some why }, .error e))

theorem performs_one (A : Aead Key) (hk : s.send.key = some key) {c : Call V} (hc : c.plaintexts J = .ok [p])
    (hs : s.perform A J c = ((s.sealed A p).1, (s.sealed A p).2.map ([·]))) : Performs A J s key c := by
  rcases sealed_spec A hk (plaintexts_fit hc p (by simp)) with ⟨hle, he⟩ | ⟨hgt, send, why, e, he⟩
  · rw [he] at hs
    exact .sent [p] hc hle hs
  · rw [he] at hs
    exact .exhausted [p] send why e hc hgt hs

theorem performs (A : Aead Key) (J : JsonText V) (hp : s.poison = none) (hk : s.send.key = some key)
    (hn : s.send.n ≤ reservedNonce) (c : Call V) : Performs A J s key c := by
  cases c with
  | keepalive =>
    refine performs_one A hk rfl ?_
    unfold Session.perform Session.sendKeepalive
    rw [hp]
  | control v =>
    cases hc : encodeTransportPlaintext J (.control v) with
    | error e =>
      refine .refused e (by rw [Call.plaintexts, hc]; rfl) ?_
      rw [Session.perform, Session.sendControl, hp, hc]
      rfl
    | ok p =>
      refine performs_one A hk (by rw [Call.plaintexts, hc]; rfl) ?_
      rw [Session.perform, Session.sendControl, hp, hc]
  | app m =>
    by_cases hm : m.length ≤ maxAppMessageLength
    · obtain ⟨bodies, hc, _, hle⟩ := chunkAppMessage_spec hm
      have hps : (Call.app m).plaintexts J = .ok (bodies.map (0x01 :: ·)) := by
        rw [Call.plaintexts, hc]
        rfl
      have hlen : (bodies.map (0x01 :: ·)).length = bodies.length := List.length_map _
      have happ : s.perform A J (.app m) = Session.guarded { s with send := (Session.encryptBodies A s.send bodies).1 }
          (Session.encryptBodies A s.send bodies).2 := by
        rw [Session.perform, Session.sendApp, hp, hc]
      rcases encryptBodies_spec A hk hle hn with ⟨hle, hr⟩ | ⟨hgt, c', e, hr⟩
      · rw [hr] at happ
        exact .sent _ hps (by rwa [hlen]) (by rw [hlen]; exact happ)
      · rw [hr] at happ
        exact .exhausted _ _ _ _ hps (by rwa [hlen]) happ
    · refine .refused .messageTooLong ?_ ?_
      · rw [Call.plaintexts, chunkAppMessage, if_pos (by omega)]
        rfl
      · rw [Session.perform, Session.sendApp, hp, chunkAppMessage, if_pos (by omega)]

theorem perform_poisoned (A : Aead Key) (J : JsonText V) {why : NoiseFault} (hp : s.poison = some why) :
    ∀ c : Call V, s.perform A J c = (s, .error (.destroyed why))
  | .keepalive => by
    rw [Session.perform, Session.sendKeepalive, hp]
    rfl
  | .control v => by
    rw [Session.perform, Session.sendControl, hp]
    rfl
  | .app m => by
    rw [Session.perform, Session.sendApp, hp]

theorem receiveFrame_poisoned (A : Aead Key) (J : JsonText V) {why : NoiseFault} (hp : s.poison = some why) (bytes : Bytes) :
    s.receiveFrame A J bytes = (s, .error (.destroyed why)) := by
  rw [Session.receiveFrame, hp]

/-! ## What a frame gives -/

/-- `receive`, past the decryption, without its guard. -/
def absorb (J : JsonText V) (r : StreamReassembler) (p : Bytes) :
    StreamReassembler × Except NoiseFault (TransportReceipt V) :=
  match decodeTransportPlaintext J p with
  | .error e           => (r, .error e)
  | .ok .keepalive     => (r, .ok .keepalive)
  | .ok (.control v)   => (r, .ok (.control v))
  | .ok (.stream body) => ((r.push body).1, (r.push body).2.map .app)

def absorbAll (J : JsonText V) (r : StreamReassembler) : List Bytes → Option (StreamReassembler × List (TransportReceipt V))
  | []      => some (r, [])
  | p :: ps =>
    match absorb J r p with
    | (_, .error _) => none
    | (r', .ok x)   => (absorbAll J r' ps).map (fun t => (t.1, x :: t.2))

/-- What the receiver of a call is handed: an application message with its last frame. -/
def Call.receipts : Call V → List (TransportReceipt V)
  | .keepalive     => [.keepalive]
  | .control value => [.control value]
  | .app message   =>
    List.replicate ((slices maxStreamBodyLength (uint32BE message.length ++ message)).length - 1) (.app []) ++
      [.app [message]]

theorem accept_eq (J : JsonText V) (s : Session Key) (p : Bytes) :
    Session.accept J s p =
      Session.guarded { s with reassembler := (absorb J s.reassembler p).1 } (absorb J s.reassembler p).2 := by
  unfold Session.accept absorb
  cases decodeTransportPlaintext J p with
  | error e => rfl
  | ok t => cases t <;> rfl

theorem absorbAll_append (J : JsonText V) : ∀ (r : StreamReassembler) (ps qs : List Bytes), absorbAll J r (ps ++ qs) =
    (absorbAll J r ps).bind (fun t => (absorbAll J t.1 qs).map (fun u => (u.1, t.2 ++ u.2)))
  | r, [], qs => by
    rw [List.nil_append, absorbAll, Option.bind_some]
    cases absorbAll J r qs <;> rfl
  | r, p :: ps, qs => by
    rw [List.cons_append, absorbAll, absorbAll]
    cases h : absorb J r p with
    | mk r' a =>
      cases a with
      | error e => rfl
      | ok x =>
        dsimp only
        rw [absorbAll_append J r' ps qs]
        cases absorbAll J r' ps with
        | none => rfl
        | some t =>
          simp only [Option.bind_some, Option.map_some, Option.map_map]
          rfl

structure Rested (r : StreamReassembler) : Prop extends r.Idle where
  live   : r.live = []
  sound  : r.failed = false

theorem rested_fresh : Rested .fresh := ⟨StreamReassembler.empty_idle false, rfl, rfl⟩

theorem decode_stream {body : Bytes} (h : body.length ≤ maxStreamBodyLength) :
    decodeTransportPlaintext J (0x01 :: body) = .ok (.stream body) := by
  rw [decodeTransportPlaintext, if_neg (by decide), if_pos rfl, if_neg (by omega)]

theorem absorb_stream {r r' : StreamReassembler} {body : Bytes} {ms : List Bytes} (h : body.length ≤ maxStreamBodyLength)
    (hr : r.push body = (r', .ok ms)) :
    absorb J r (0x01 :: body) = (r', .ok (.app ms)) := by
  rw [absorb, decode_stream h]
  dsimp only
  rw [hr]
  rfl

theorem absorbAll_cons {r r' : StreamReassembler} {x : TransportReceipt V} (h : absorb J r p = (r', .ok x))
    (ps : List Bytes) :
    absorbAll J r (p :: ps) = (absorbAll J r' ps).map (fun t => (t.1, x :: t.2)) := by
  rw [absorbAll, h]

theorem rdropWhile_padded {l : Bytes} (h : l.getLast? = some 0x7d) (n : Nat) :
    (l ++ List.replicate n 0).rdropWhile (· = 0) = l := by
  induction n with
  | zero =>
    obtain ⟨l', rfl⟩ := List.getLast?_eq_some_iff.1 h
    rw [List.replicate_zero, List.append_nil, List.rdropWhile_concat_neg _ _ _ (by decide)]
  | succ n ih =>
    rw [List.replicate_succ', ← List.append_assoc, List.rdropWhile_concat_pos _ _ _ (by decide), ih]

/-- **The control value that was sent is the one received.** -/
theorem decode_control (hJ : J.Lawful) {v : V} (h : encodeTransportPlaintext J (.control v) = .ok p) :
    decodeTransportPlaintext J p = .ok (.control v) := by
  obtain ⟨body, rfl, hb⟩ := encode_control h
  have hlen := length_encodeControlBody hb
  have hpad : body.rdropWhile (· = 0) = J.stringify v := by
    unfold encodeControlBody at hb
    dsimp only at hb
    split at hb
    · cases hb
    · cases hb
      exact rdropWhile_padded (hJ.ends v) _
  rw [decodeTransportPlaintext, if_neg (by decide), if_neg (by decide), if_pos rfl, decodeControlBody,
    if_neg (by simp [hlen]), hpad, hJ.parse_stringify]
  rfl

theorem absorbAll_slices (J : JsonText V) {m : Bytes} (hm : m.length ≤ maxAppMessageLength) (l : Bytes) (hl : l ≠ [])
    {r : StreamReassembler} (hi : r.Idle) (hf : r.failed = false) (hlive : r.live ++ l = appWriter.frame m) :
    ∃ r', Rested r' ∧ absorbAll J r ((slices maxStreamBodyLength l).map (0x01 :: ·)) =
      some (r', List.replicate ((slices maxStreamBodyLength l).length - 1) (.app []) ++ [.app [m]]) := by
  have hpos : 0 < maxStreamBodyLength := by decide
  have hll := List.length_pos_iff.2 hl
  have htake : (l.take maxStreamBodyLength).length ≤ maxStreamBodyLength := by
    rw [List.length_take]
    omega
  rw [slices, dif_pos ⟨hpos, hl⟩, List.map_cons]
  by_cases hd : l.drop maxStreamBodyLength = []
  · have hlt : l.take maxStreamBodyLength = l := by
      rw [List.take_of_length_le (by rwa [List.drop_eq_nil_iff] at hd)]
    have hparse := Framing.Format.Writer.parse_frame (W := appWriter) hm []
    rw [List.append_nil, StreamReassembler.waits_nil] at hparse
    rw [hd, slices_nil, hlt]
    rcases StreamReassembler.push_spec hi hf (by rwa [hlt] at htake) with ⟨hp, _⟩ | ⟨ms, rest, r', hp, hr, hi', hl', hf'⟩
    · rw [hlive, hparse] at hp
      cases hp
    · rw [hlive, hparse] at hp
      cases hp
      rw [absorbAll_cons (absorb_stream (by rwa [hlt] at htake) hr)]
      exact ⟨r', ⟨hi', hl', hf'⟩, rfl⟩
  · have hdl := List.length_pos_iff.2 hd
    have hpre : r.live ++ l.take maxStreamBodyLength ++ l.drop maxStreamBodyLength = appWriter.frame m := by
      rw [List.append_assoc, List.take_append_drop, hlive]
    have hlen := congrArg List.length hpre
    rw [List.length_append] at hlen
    have hparse := Framing.Format.Writer.parse_partial (W := appWriter) hm ⟨_, hpre⟩ (by omega)
    rcases StreamReassembler.push_spec hi hf htake with ⟨hp, _⟩ | ⟨ms, rest, r₁, hp, hr, hi₁, hl₁, hf₁⟩
    · rw [hparse] at hp
      cases hp
    · rw [hparse] at hp
      cases hp
      obtain ⟨r', hrest, hall⟩ := absorbAll_slices J hm (l.drop maxStreamBodyLength) hd hi₁ hf₁ (by rw [hl₁, hpre])
      rw [absorbAll_cons (absorb_stream htake hr), hall]
      refine ⟨r', hrest, ?_⟩
      have hne : 0 < (slices maxStreamBodyLength (l.drop maxStreamBodyLength)).length := by
        rw [slices, dif_pos ⟨hpos, hd⟩]
        exact Nat.succ_pos _
      rw [List.length_cons, Nat.add_sub_cancel, ← Nat.sub_add_cancel hne, Nat.add_sub_cancel, List.replicate_succ]
      rfl
termination_by l.length
decreasing_by
  have hpos : 0 < maxStreamBodyLength := by decide
  have := List.length_pos_iff.2 hl
  rw [List.length_drop]
  omega

/-- **The frames of a call give its receipts.** -/
theorem absorbAll_call (hJ : J.Lawful) {r : StreamReassembler} (hr : Rested r) :
    ∀ {c : Call V} {ps : List Bytes}, c.plaintexts J = .ok ps → ∃ r', Rested r' ∧ absorbAll J r ps = some (r', c.receipts)
  | .keepalive, ps, h => by
    cases h
    exact ⟨r, hr, rfl⟩
  | .control v, ps, h => by
    rw [Call.plaintexts] at h
    cases he : encodeTransportPlaintext J (.control v) with
    | error e =>
      rw [he] at h
      cases h
    | ok p =>
      rw [he] at h
      cases h
      refine ⟨r, hr, ?_⟩
      rw [absorbAll, absorb, decode_control hJ he]
      rfl
  | .app m, ps, h => by
    rw [Call.plaintexts, chunkAppMessage] at h
    split at h
    · cases h
    · rename_i hm
      cases h
      exact absorbAll_slices J (Nat.le_of_not_lt hm) _ (by simp [uint32BE]) hr.toIdle hr.sound
        (by rw [hr.live]; rfl)

theorem frames_of_plaintexts {c : Call V} {ps : List Bytes} (h : c.plaintexts J = .ok ps) :
    c.frames J = ps := by
  rw [Call.frames, h]

def Accepted (J : JsonText V) (cs : List (Call V)) : Prop := ∀ c ∈ cs, ∃ ps, c.plaintexts J = .ok ps

theorem absorbAll_calls {J : JsonText V} (hJ : J.Lawful) : ∀ {cs : List (Call V)} {r : StreamReassembler}, Rested r →
    Accepted J cs → ∃ r', Rested r' ∧ absorbAll J r (cs.flatMap (·.frames J)) = some (r', cs.flatMap Call.receipts)
  | [], r, hr, _ => ⟨r, hr, rfl⟩
  | c :: cs, r, hr, hc => by
    obtain ⟨ps, hps⟩ := hc c (by simp)
    obtain ⟨r₁, hr₁, h₁⟩ := absorbAll_call hJ hr hps
    obtain ⟨r₂, hr₂, h₂⟩ := absorbAll_calls hJ hr₁ (fun c' hc' => hc c' (List.mem_cons_of_mem _ hc'))
    refine ⟨r₂, hr₂, ?_⟩
    rw [List.flatMap_cons, absorbAll_append, frames_of_plaintexts hps, h₁, Option.bind_some, h₂]
    rfl

/-- **Past some of the frames of the calls sent, the next one gives the next receipt.** -/
theorem absorb_next (hJ : J.Lawful) {cs : List (Call V)} (hc : Accepted J cs) {k : Nat}
    (hp : (cs.flatMap (·.frames J))[k]? = some p) {r : StreamReassembler} {got : List (TransportReceipt V)}
    (hr : absorbAll J .fresh ((cs.flatMap (·.frames J)).take k) = some (r, got)) :
    ∃ r' x, absorb J r p = (r', .ok x) ∧ got ++ [x] <+: cs.flatMap Call.receipts ∧
      absorbAll J .fresh ((cs.flatMap (·.frames J)).take (k + 1)) = some (r', got ++ [x]) := by
  obtain ⟨r₁, _, hall⟩ := absorbAll_calls hJ rested_fresh hc
  have hsplit : cs.flatMap (·.frames J) =
      (cs.flatMap (·.frames J)).take k ++ p :: (cs.flatMap (·.frames J)).drop (k + 1) := by
    obtain ⟨hlt, he⟩ := List.getElem?_eq_some_iff.1 hp
    rw [← he, ← List.drop_eq_getElem_cons hlt, List.take_append_drop]
  have htake : (cs.flatMap (·.frames J)).take (k + 1) = (cs.flatMap (·.frames J)).take k ++ [p] := by
    rw [List.take_add_one, hp]
    rfl
  rw [hsplit, absorbAll_append, hr, Option.bind_some, absorbAll] at hall
  rw [htake, absorbAll_append, hr, Option.bind_some, absorbAll]
  cases ha : absorb J r p with
  | mk r' a =>
    rw [ha] at hall
    cases a with
    | error e => cases hall
    | ok x =>
      refine ⟨r', x, rfl, ?_, rfl⟩
      dsimp only at hall
      rw [Option.map_map] at hall
      obtain ⟨t, _, he⟩ := Option.map_eq_some_iff.1 hall
      have h2 : got ++ x :: t.2 = cs.flatMap Call.receipts := congrArg Prod.snd he
      exact ⟨t.2, by rw [← h2, List.append_assoc]; rfl⟩

/-! ## What a call leaves alone -/

theorem Session.guarded_keeps {α : Type} (s : Session Key) : ∀ x : Except NoiseFault α, ∃ poison,
    (s.guarded x).1 = { s with poison := poison } ∧ (poison = none → s.poison = none)
  | .ok _ => ⟨s.poison, rfl, id⟩
  | .error e => ⟨some e, rfl, nofun⟩

theorem perform_keeps (A : Aead Key) (J : JsonText V) (s : Session Key) (c : Call V) : ∃ send poison,
    (s.perform A J c).1 = { s with send := send, poison := poison } ∧ (poison = none → s.poison = none) := by
  cases hp : s.poison with
  | some why => exact ⟨s.send, some why, by rw [perform_poisoned A J hp, ← hp], nofun⟩
  | none =>
    have one : ∀ p, ∃ send poison, (s.sealed A p).1 = { s with send := send, poison := poison } := fun p => by
      obtain ⟨poison, he, _⟩ := Session.guarded_keeps { s with send := (s.send.encryptWithAd A p).1 }
        (s.send.encryptWithAd A p).2
      exact ⟨_, poison, he⟩
    have same : ∃ send poison, s = { s with send := send, poison := poison } := ⟨s.send, s.poison, rfl⟩
    suffices h : ∃ send poison, (s.perform A J c).1 = { s with send := send, poison := poison } by
      obtain ⟨send, poison, h⟩ := h
      exact ⟨send, poison, h, fun _ => rfl⟩
    cases c with
    | keepalive =>
      rw [Session.perform, Session.sendKeepalive, hp]
      exact one _
    | control v =>
      rw [Session.perform, Session.sendControl, hp]
      cases encodeTransportPlaintext J (.control v) with
      | error e => exact same
      | ok p => exact one p
    | app m =>
      rw [Session.perform, Session.sendApp, hp]
      cases chunkAppMessage m with
      | error e => exact same
      | ok bodies =>
        obtain ⟨poison, he, _⟩ := Session.guarded_keeps { s with send := (Session.encryptBodies A s.send bodies).1 }
          (Session.encryptBodies A s.send bodies).2
        rw [hp] at he
        exact ⟨_, poison, he⟩

theorem receiveFrame_keeps (A : Aead Key) (J : JsonText V) (s : Session Key) (bytes : Bytes) : ∃ c r poison,
    (s.receiveFrame A J bytes).1 = { s with receive := c, reassembler := r, poison := poison } ∧
      (poison = none → s.poison = none) := by
  cases hp : s.poison with
  | some why => exact ⟨s.receive, s.reassembler, some why, by rw [receiveFrame_poisoned A J hp, ← hp], nofun⟩
  | none =>
    rw [Session.receiveFrame, hp]
    dsimp only
    cases s.receive.decryptWithAd A bytes with
    | mk c a =>
      cases a with
      | error e => exact ⟨c, s.reassembler, some e, rfl, nofun⟩
      | ok p =>
        dsimp only
        rw [accept_eq]
        obtain ⟨poison, he, _⟩ := Session.guarded_keeps
          { s with receive := c, reassembler := (absorb J s.reassembler p).1 } (absorb J s.reassembler p).2
        rw [hp] at he
        exact ⟨c, _, poison, he, fun _ => rfl⟩

end Noise
end Dormouse

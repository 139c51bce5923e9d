import Dormouse.NoiseRun
/-!
# NoiseCodec — the transport plaintexts, and no others

The encoder and the decoder of `noise-transport.ts` write their length and padding rules separately.  `WellFormed` is the
format both mean: which bytes are a plaintext, and of which frame.  The decoder accepts it and nothing else, and the
encoder writes it.
-/
namespace Dormouse
namespace Noise

variable {V : Type}

/-- The plaintexts: 32 zero bytes; a body within the limit; the text of an object, padded with zeros to its fixed size. -/
inductive WellFormed (J : JsonText V) : Bytes → TransportPlaintext V → Prop where
  | keepalive : WellFormed J (0x00 :: List.replicate keepaliveBodySize 0) .keepalive
  | stream {body} (h : body.length ≤ maxStreamBodyLength) : WellFormed J (0x01 :: body) (.stream body)
  | control {json value} (padding : Nat) (hj : J.parse json = some (some value))
    (hl : json.length + padding = controlPayloadSize) :
    WellFormed J (0x02 :: (json ++ List.replicate padding 0)) (.control value)

/-- `JSON.parse` takes no text with a NUL in it: it is no white space, and a string spells it `\u0000`. -/
def JsonText.RejectsNul (J : JsonText V) : Prop := ∀ json, 0x00 ∈ json → J.parse json = none

theorem padded_split (body : Bytes) :
    ∃ padding, body = body.rdropWhile (· = 0) ++ List.replicate padding 0 := by
  refine ⟨(body.rtakeWhile (· = 0)).length, ?_⟩
  have hzeros : body.rtakeWhile (· = 0) = List.replicate (body.rtakeWhile (· = 0)).length 0 :=
    List.eq_replicate_of_mem (fun b hb => by simpa using List.mem_rtakeWhile_imp hb)
  rw [← hzeros, List.rdropWhile_append_rtakeWhile]

theorem rdropWhile_padding {json : Bytes} (h : (0x00 : UInt8) ∉ json) (padding : Nat) :
    (json ++ List.replicate padding 0).rdropWhile (· = 0) = json := by
  induction padding with
  | zero =>
    rw [List.replicate_zero, List.append_nil, List.rdropWhile_eq_self_iff]
    intro hne hz
    exact h (by simpa using (of_decide_eq_true hz) ▸ List.getLast_mem hne)
  | succ n ih => rw [List.replicate_succ', ← List.append_assoc, List.rdropWhile_concat_pos _ _ _ (by decide), ih]

variable {J : JsonText V}

theorem decodeControlBody_ok {body : Bytes} {value : V} :
    decodeControlBody J body = .ok value ↔
      body.length = controlPayloadSize ∧ J.parse (body.rdropWhile (· = 0)) = some (some value) := by
  unfold decodeControlBody
  split
  · rename_i hl
    simp [hl]
  · rename_i hl
    rw [and_iff_right (not_not.mp hl)]
    split <;> simp_all

variable {frame : TransportPlaintext V}

theorem decode_wellFormed {p : Bytes} (h : decodeTransportPlaintext J p = .ok frame) : WellFormed J p frame := by
  cases p with
  | nil => cases h
  | cons kind body =>
    rw [decodeTransportPlaintext] at h
    split at h
    · rename_i hk
      subst hk
      split at h
      · cases h
      · rename_i hl
        split at h
        · cases h
        · rename_i hz
          cases h
          have hbody : body = List.replicate keepaliveBodySize 0 := by
            rw [← not_not.mp hl]
            exact List.eq_replicate_of_mem (by simpa using hz)
          rw [hbody]
          exact .keepalive
    · split at h
      · rename_i hk
        subst hk
        split at h
        · cases h
        · rename_i hl
          cases h
          exact .stream (not_lt.mp hl)
      · split at h
        · rename_i hk
          subst hk
          cases hd : decodeControlBody J body with
          | error e =>
            rw [hd] at h
            cases h
          | ok value =>
            rw [hd] at h
            cases h
            obtain ⟨hl, hj⟩ := decodeControlBody_ok.mp hd
            obtain ⟨padding, hp⟩ := padded_split body
            have hlen := congrArg List.length hp
            rw [List.length_append, List.length_replicate, hl] at hlen
            rw [hp]
            exact .control padding hj hlen.symm
        · cases h

theorem wellFormed_decode (hJ : J.RejectsNul) {p : Bytes} (h : WellFormed J p frame) :
    decodeTransportPlaintext J p = .ok frame := by
  cases h with
  | keepalive => rfl
  | stream h => exact decode_stream h
  | @control json value padding hj hl =>
    have hnul : (0x00 : UInt8) ∉ json := fun hm => by
      rw [hJ json hm] at hj
      cases hj
    have hd : decodeControlBody J (json ++ List.replicate padding 0) = .ok value := by
      rw [decodeControlBody_ok, rdropWhile_padding hnul, List.length_append, List.length_replicate]
      exact ⟨hl, hj⟩
    rw [decodeTransportPlaintext, if_neg (by decide), if_neg (by decide), if_pos rfl, hd]
    rfl

/-- **The encoder writes the format.** -/
theorem encode_wellFormed (hJ : ∀ v, J.parse (J.stringify v) = some (some v)) {p : Bytes}
    (h : encodeTransportPlaintext J frame = .ok p) : WellFormed J p frame := by
  cases frame with
  | keepalive =>
    cases h
    exact .keepalive
  | stream body =>
    unfold encodeTransportPlaintext at h
    dsimp only at h
    split at h
    · cases h
    · rename_i hl
      cases h
      exact .stream (not_lt.mp hl)
  | control value =>
    obtain ⟨body, rfl, hb⟩ := encode_control h
    unfold encodeControlBody at hb
    dsimp only at hb
    split at hb
    · cases hb
    · rename_i hl
      cases hb
      exact .control _ (hJ value) (by omega)

def Encodable (J : JsonText V) : TransportPlaintext V → Prop
  | .keepalive     => True
  | .control value => (J.stringify value).length ≤ controlPayloadSize
  | .stream body   => body.length ≤ maxStreamBodyLength

theorem encode_encodable (h : Encodable J frame) :
    ∃ p, encodeTransportPlaintext J frame = .ok p := by
  cases frame with
  | keepalive => exact ⟨_, rfl⟩
  | stream body => exact ⟨_, if_neg (not_lt.mpr h)⟩
  | control value =>
    have hb : encodeControlBody J value = .ok
        (J.stringify value ++ List.replicate (controlPayloadSize - (J.stringify value).length) 0) := if_neg (not_lt.mpr h)
    rw [encodeTransportPlaintext, hb]
    exact ⟨_, rfl⟩

/-- **The codec is a bijection on its format.**  What is encoded decodes to itself; a keepalive or a stream body that is
accepted encodes to the same bytes; and what is no keepalive, no body within the limit and no padded text of an object
is rejected. -/
theorem transport_codec_bijective (J : JsonText V) (hparse : ∀ v, J.parse (J.stringify v) = some (some v))
    (hnul : J.RejectsNul) :
    (∀ frame, Encodable J frame →
      ∃ p, encodeTransportPlaintext J frame = .ok p ∧ decodeTransportPlaintext J p = .ok frame) ∧
    (∀ p, decodeTransportPlaintext J p = .ok .keepalive → encodeTransportPlaintext J .keepalive = .ok p) ∧
    (∀ p body, decodeTransportPlaintext J p = .ok (.stream body) →
      encodeTransportPlaintext J (.stream body) = .ok p) ∧
    (∀ p frame, decodeTransportPlaintext J p = .ok frame ↔ WellFormed J p frame) ∧
    (∀ p, (∀ frame, ¬ WellFormed J p frame) → ∃ e, decodeTransportPlaintext J p = .error e) := by
  refine ⟨fun frame hf => ?_, fun p hp => ?_, fun p body hp => ?_, fun p frame => ?_, fun p hp => ?_⟩
  · obtain ⟨p, hp⟩ := encode_encodable hf
    exact ⟨p, hp, wellFormed_decode hnul (encode_wellFormed hparse hp)⟩
  · cases decode_wellFormed hp
    rfl
  · cases decode_wellFormed hp with
    | stream h => exact if_neg (not_lt.mpr h)
  · exact ⟨decode_wellFormed, wellFormed_decode hnul⟩
  · cases hd : decodeTransportPlaintext J p with
    | error e => exact ⟨e, rfl⟩
    | ok frame => exact absurd (decode_wellFormed hd) (hp frame)

theorem transport_codec_bijective_sample :
    ∃ p, encodeTransportPlaintext emptyObjectText (.control ()) = .ok p ∧
      decodeTransportPlaintext emptyObjectText p = .ok (.control ()) := by
  refine (transport_codec_bijective emptyObjectText (fun _ => rfl) (fun json hm => ?_)).1 (.control ())
    (show ([0x7b, 0x7d] : Bytes).length ≤ controlPayloadSize by decide)
  refine if_neg (fun he => ?_)
  rw [he] at hm
  revert hm
  decide

end Noise
end Dormouse

import Dormouse.NoiseStream
import Dormouse.Utf8Text
/-!
# Prologues — the bytes a handshake binds

`lengthPrefixedConcat` of `security/bytes.ts` and the end-to-end prologues of `security/noise-transport.ts` built from it.  A list of
parts is a stream of frames, so it has one cut into parts (`Framing.Format.Writer.stream_inj`); a prologue's parts are the UTF-8 of
its texts, which replaces unpaired surrogates (`Paced.utf8_eq_iff`).
-/
namespace Dormouse
namespace Noise

open Paced (utf8 toWellFormed)

/-! ## Length prefixes -/

def lengthPrefixedConcat (parts : List Bytes) : Bytes := parts.flatMap fun part => uint32BE part.length ++ part

/-- A big-endian `u32` before each part. -/
def prefixFormat : Framing.Format UInt8 where
  header    := 4
  size l    := readUint32BE (l.take 4) 0
  cap       := 2 ^ 32 - 1
  pos       := by decide
  size_take l := by rw [List.take_take, Nat.min_self]

theorem length_uint32BE (n : Nat) : (uint32BE n).length = prefixFormat.header := rfl

theorem size_uint32BE {n : Nat} (h : n ≤ prefixFormat.cap) : prefixFormat.size (uint32BE n) = n := by
  have hcap : prefixFormat.cap = 2 ^ 32 - 1 := rfl
  have hlt : n < 2 ^ 32 := by omega
  have hread := readUint32BE_uint32BE hlt []
  rwa [List.append_nil] at hread

def prefixWriter : prefixFormat.Writer where
  head        := uint32BE
  length_eq   := length_uint32BE
  size_eq _ h := size_uint32BE h

theorem lengthPrefixedConcat_inj {parts parts' : List Bytes} (h : ∀ p ∈ parts, p.length < 2 ^ 32)
    (h' : ∀ p ∈ parts', p.length < 2 ^ 32) (heq : lengthPrefixedConcat parts = lengthPrefixedConcat parts') : parts = parts' :=
  Framing.Format.Writer.stream_inj (W := prefixWriter) (fun p hp => Nat.le_sub_one_of_lt (h p hp))
    (fun p hp => Nat.le_sub_one_of_lt (h' p hp)) heq

/-! ## Prologues -/

def e2ePrologueDomain : JsString := units "dormouse/e2e/v1"

inductive PrologueKind where
  | connection | pairing | oneTime
  deriving DecidableEq

def PrologueKind.text : PrologueKind → JsString
  | .connection => units "connection"
  | .pairing    => units "pairing"
  | .oneTime    => units "one-time"

def e2ePrologue (kind : PrologueKind) (burrowId : JsString) (extra : List JsString) : Bytes :=
  lengthPrefixedConcat (utf8 e2ePrologueDomain :: utf8 kind.text :: utf8 burrowId :: extra.map utf8)

def e2eConnectionPrologue (burrowId connectionId : JsString) : Bytes := e2ePrologue .connection burrowId [connectionId]

def e2ePairingPrologue (burrowId : JsString) (invitationFields : List JsString) : Bytes :=
  e2ePrologue .pairing burrowId invitationFields

def e2eOneTimePrologue (roomId : JsString) (linkFields : List JsString) : Bytes := e2ePrologue .oneTime roomId linkFields

theorem kind_inj {k k' : PrologueKind} (h : utf8 k.text = utf8 k'.text) : k = k' := by
  revert h
  cases k <;> cases k' <;> decide +kernel

theorem length_kind (k : PrologueKind) : (utf8 e2ePrologueDomain).length < 2 ^ 32 ∧ (utf8 k.text).length < 2 ^ 32 := by
  cases k <;> decide +kernel

/-- Lists of texts have the same bytes when they are the same, unpaired surrogates replaced. -/
theorem map_utf8_eq_iff : ∀ {a b : List JsString}, a.map utf8 = b.map utf8 ↔ a.map toWellFormed = b.map toWellFormed
  | [], [] => by simp
  | [], _ :: _ => by simp
  | _ :: _, [] => by simp
  | s :: a, t :: b => by
    rw [List.map_cons, List.map_cons, List.map_cons, List.map_cons, List.cons.injEq, List.cons.injEq, Paced.utf8_eq_iff,
      map_utf8_eq_iff]

def Short (burrowId : JsString) (extra : List JsString) : Prop :=
  (utf8 burrowId).length < 2 ^ 32 ∧ ∀ field ∈ extra, (utf8 field).length < 2 ^ 32

instance (burrowId : JsString) (extra : List JsString) : Decidable (Short burrowId extra) := inferInstanceAs (Decidable (_ ∧ _))

theorem parts_lt {id : JsString} {extra : List JsString} (h : Short id extra) (k : PrologueKind) :
    ∀ p ∈ utf8 e2ePrologueDomain :: utf8 k.text :: utf8 id :: extra.map utf8, p.length < 2 ^ 32 := by
  refine List.forall_mem_cons.2 ⟨(length_kind k).1, List.forall_mem_cons.2 ⟨(length_kind k).2,
    List.forall_mem_cons.2 ⟨h.1, ?_⟩⟩⟩
  intro p hp
  obtain ⟨field, hf, rfl⟩ := List.mem_map.1 hp
  exact h.2 field hf

/-- **A prologue says what it was built from.**  Length-prefixed parts have one cut; two prologues are the same exactly when their
kinds, their ids and their fields, one by one, are, unpaired surrogates read as U+FFFD. -/
theorem prologues_differ :
    (∀ parts parts' : List Bytes, (∀ p ∈ parts, p.length < 2 ^ 32) → (∀ p ∈ parts', p.length < 2 ^ 32) →
      lengthPrefixedConcat parts = lengthPrefixedConcat parts' → parts = parts') ∧
    ∀ (k k' : PrologueKind) (id id' : JsString) (extra extra' : List JsString), Short id extra → Short id' extra' →
      (e2ePrologue k id extra = e2ePrologue k' id' extra' ↔
        k = k' ∧ toWellFormed id = toWellFormed id' ∧ extra.map toWellFormed = extra'.map toWellFormed) := by
  refine ⟨fun _ _ h h' heq => lengthPrefixedConcat_inj h h' heq, ?_⟩
  intro k k' id id' extra extra' hs hs'
  constructor
  · intro heq
    have hparts := lengthPrefixedConcat_inj (parts_lt hs k) (parts_lt hs' k') heq
    simp only [List.cons.injEq, true_and] at hparts
    obtain ⟨hkind, hid, hextra⟩ := hparts
    exact ⟨kind_inj hkind, Paced.utf8_eq_iff.1 hid, map_utf8_eq_iff.1 hextra⟩
  · rintro ⟨rfl, hid, hextra⟩
    rw [e2ePrologue, e2ePrologue, Paced.utf8_eq_iff.2 hid, map_utf8_eq_iff.2 hextra]

theorem prologues_differ_boundary :
    lengthPrefixedConcat [[0x61, 0x62], [0x63]] ≠ lengthPrefixedConcat [[0x61], [0x62, 0x63]] ∧
    e2ePairingPrologue (units "b") [units "ab", units "c"] ≠ e2ePairingPrologue (units "b") [units "a", units "bc"] := by
  refine ⟨fun h => absurd (prologues_differ.1 _ _ (by decide) (by decide) h) (by decide), fun h => ?_⟩
  have hfields := ((prologues_differ.2 _ _ _ _ _ _ (by decide +kernel) (by decide +kernel)).1 h).2.2
  revert hfields
  decide +kernel

theorem prologues_collide : ([0xd800] : JsString) ≠ [0xfffd] ∧
    e2eConnectionPrologue [0xd800] [] = e2eConnectionPrologue [0xfffd] [] := by
  decide +kernel

end Noise
end Dormouse

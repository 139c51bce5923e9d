import Mathlib.Data.List.Basic
/-!
# Framing — length-prefixed frames over any alphabet

A frame is a fixed-size header and the body whose length the header reads as.  `parse` takes the complete frames off the
front of what has arrived and keeps the rest; a header that reads over the cap is a failure.  What arrives later never
changes what was taken (`parse_append`), so parsing in pieces is parsing at once; and of a stream of frames every prefix
gives exactly the bodies it completes (`parse_prefix`).
-/
namespace Framing

variable {α : Type}

/-- How a header reads: as a length, from its own symbols alone. -/
structure Format (α : Type) where
  header    : Nat
  size      : List α → Nat
  cap       : Nat
  pos       : 0 < header
  size_take : ∀ l, size (l.take header) = size l

namespace Format

variable (F : Format α)

/-- The complete frames' bodies and what is left; `none` is a header over the cap. -/
def parse (l : List α) : Option (List (List α) × List α) :=
  if l.length < F.header then some ([], l)
  else if F.cap < F.size l then none
  else if l.length < F.header + F.size l then some ([], l)
  else (parse (l.drop (F.header + F.size l))).map (fun r => ((l.drop F.header).take (F.size l) :: r.1, r.2))
termination_by l.length
decreasing_by
  have := F.pos
  rw [List.length_drop]
  omega

variable {F}
variable {l : List α}

theorem size_append (h : F.header ≤ l.length) (b : List α) : F.size (l ++ b) = F.size l := by
  rw [← F.size_take (l ++ b), ← F.size_take l, List.take_append_of_le_length h]

theorem parse_complete (h : F.header ≤ l.length) (hc : F.size l ≤ F.cap) (hl : F.header + F.size l ≤ l.length) : F.parse l =
      (F.parse (l.drop (F.header + F.size l))).map (fun r => ((l.drop F.header).take (F.size l) :: r.1, r.2)) := by
  rw [parse, if_neg (by omega), if_neg (by omega), if_neg (by omega)]

theorem parse_incomplete (h : l.length < F.header ∨ (F.size l ≤ F.cap ∧ l.length < F.header + F.size l)) :
    F.parse l = some ([], l) := by
  rw [parse]
  split
  · rfl
  · rename_i hh
    rcases h with h | ⟨hc, hl⟩
    · exact absurd h hh
    · rw [if_neg (by omega), if_pos hl]

theorem parse_overCap (h : F.header ≤ l.length) (hc : F.cap < F.size l) : F.parse l = none := by
  rw [parse, if_neg (by omega), if_pos hc]

theorem parse_cases (l : List α) :
    (F.parse l = some ([], l) ∧ l.length < F.header + F.cap) ∨
    (F.header ≤ l.length ∧ F.cap < F.size l ∧ F.parse l = none) ∨
    (F.header ≤ l.length ∧ F.size l ≤ F.cap ∧ F.header + F.size l ≤ l.length) := by
  by_cases h : l.length < F.header
  · exact .inl ⟨parse_incomplete (.inl h), by omega⟩
  by_cases hc : F.cap < F.size l
  · exact .inr (.inl ⟨by omega, hc, parse_overCap (by omega) hc⟩)
  by_cases hl : l.length < F.header + F.size l
  · exact .inl ⟨parse_incomplete (.inr ⟨by omega, hl⟩), by omega⟩
  · exact .inr (.inr ⟨by omega, by omega, by omega⟩)

theorem drop_lt (h : F.header + F.size l ≤ l.length) :
    (l.drop (F.header + F.size l)).length < l.length := by
  have := F.pos
  rw [List.length_drop]
  omega

/-- **What is left is shorter than a header and a capped body, and completes nothing.** -/
theorem parse_rest (l : List α) {ms : List (List α)} {rest : List α} (h : F.parse l = some (ms, rest)) :
    rest.length < F.header + F.cap ∧ F.parse rest = some ([], rest) := by
  rcases parse_cases (F := F) l with ⟨hp, hl⟩ | ⟨_, _, hp⟩ | ⟨hh, hc, hl⟩
  · rw [hp] at h
    cases h
    exact ⟨hl, hp⟩
  · rw [hp] at h
    cases h
  · rw [parse_complete hh hc hl] at h
    obtain ⟨⟨ms', rest'⟩, hr, he⟩ := Option.map_eq_some_iff.1 h
    cases he
    exact parse_rest _ hr
termination_by l.length
decreasing_by exact drop_lt hl

theorem parse_suffix (l : List α) {ms : List (List α)} {rest : List α} (h : F.parse l = some (ms, rest)) :
    ∃ taken, l = taken ++ rest := by
  rcases parse_cases (F := F) l with ⟨hp, hl⟩ | ⟨_, _, hp⟩ | ⟨hh, hc, hl⟩
  · rw [hp] at h
    cases h
    exact ⟨[], rfl⟩
  · rw [hp] at h
    cases h
  · rw [parse_complete hh hc hl] at h
    obtain ⟨⟨ms', rest'⟩, hr, he⟩ := Option.map_eq_some_iff.1 h
    cases he
    obtain ⟨taken, ht⟩ := parse_suffix _ hr
    refine ⟨l.take (F.header + F.size l) ++ taken, ?_⟩
    rw [List.append_assoc, ← ht, List.take_append_drop]
termination_by l.length
decreasing_by exact drop_lt hl

/-- **Later symbols are parsed behind what is left.** -/
theorem parse_append (l : List α) {ms : List (List α)} {rest : List α} (b : List α) (h : F.parse l = some (ms, rest)) :
    F.parse (l ++ b) = (F.parse (rest ++ b)).map (fun r => (ms ++ r.1, r.2)) := by
  rcases parse_cases (F := F) l with ⟨hp, hl⟩ | ⟨_, _, hp⟩ | ⟨hh, hc, hl⟩
  · rw [hp] at h
    cases h
    cases F.parse (l ++ b) <;> rfl
  · rw [hp] at h
    cases h
  · rw [parse_complete hh hc hl] at h
    obtain ⟨⟨ms', rest'⟩, hr, he⟩ := Option.map_eq_some_iff.1 h
    cases he
    have hrec := parse_append _ b hr
    have hs := size_append hh b
    rw [parse_complete (by rw [List.length_append]; omega) (by rw [hs]; exact hc)
      (by rw [hs, List.length_append]; omega), hs, List.drop_append_of_le_length hl, List.drop_append_of_le_length hh,
      hrec, List.take_append_of_le_length (by rw [List.length_drop]; omega), Option.map_map]
    rfl
termination_by l.length
decreasing_by exact drop_lt hl

theorem parse_append_none (l : List α) (b : List α) (h : F.parse l = none) : F.parse (l ++ b) = none := by
  rcases parse_cases (F := F) l with ⟨hp, hl⟩ | ⟨hh, hc, _⟩ | ⟨hh, hc, hl⟩
  · rw [hp] at h
    cases h
  · exact parse_overCap (by rw [List.length_append]; omega) (by rw [size_append hh]; exact hc)
  · rw [parse_complete hh hc hl] at h
    have hrec := parse_append_none _ b (Option.map_eq_none_iff.1 h)
    have hs := size_append hh b
    rw [parse_complete (by rw [List.length_append]; omega) (by rw [hs]; exact hc)
      (by rw [hs, List.length_append]; omega), hs, List.drop_append_of_le_length hl, hrec]
    rfl
termination_by l.length
decreasing_by exact drop_lt hl

/-! ## A stream of frames -/

variable (F) in
/-- A writer of headers: of the header's size, and read back as the length. -/
structure Writer where
  head      : Nat → List α
  length_eq : ∀ n, (head n).length = F.header
  size_eq   : ∀ n, n ≤ F.cap → F.size (head n) = n

namespace Writer

variable (W : F.Writer)

def frame (m : List α) : List α := W.head m.length ++ m

def stream (ms : List (List α)) : List α := ms.flatMap W.frame

variable {W}

@[simp] theorem stream_nil : W.stream [] = [] := rfl
@[simp] theorem stream_cons (m : List α) (ms : List (List α)) : W.stream (m :: ms) = W.frame m ++ W.stream ms := rfl

theorem length_frame (m : List α) : (W.frame m).length = F.header + m.length := by
  rw [frame, List.length_append, W.length_eq]

theorem size_head {m : List α} (hm : m.length ≤ F.cap) (l : List α) : F.size (W.head m.length ++ l) = m.length := by
  rw [size_append (Nat.le_of_eq (W.length_eq _).symm), W.size_eq _ hm]

theorem parse_frame {m : List α} (hm : m.length ≤ F.cap) (l : List α) :
    F.parse (W.frame m ++ l) = (F.parse l).map (fun r => (m :: r.1, r.2)) := by
  have hs : F.size (W.frame m ++ l) = m.length := by rw [frame, List.append_assoc, size_head hm]
  have hlen : (W.frame m ++ l).length = F.header + m.length + l.length := by rw [List.length_append, length_frame]
  rw [parse_complete (by omega) (by omega) (by omega), hs, ← length_frame (W := W) m, List.drop_left]
  have hbody : ((W.frame m ++ l).drop F.header).take m.length = m := by
    rw [frame, List.append_assoc, List.drop_left' (W.length_eq _), List.take_left]
  rw [hbody]

theorem parse_stream : ∀ {ms : List (List α)}, (∀ m ∈ ms, m.length ≤ F.cap) → F.parse (W.stream ms) = some (ms, [])
  | [], _ => parse_incomplete (.inl F.pos)
  | m :: ms, hm => by
    rw [stream_cons, parse_frame (hm m (by simp)), parse_stream (fun x hx => hm x (by simp [hx]))]
    rfl

/-- **A stream has one cut into bodies.** -/
theorem stream_inj {ms ms' : List (List α)} (hm : ∀ m ∈ ms, m.length ≤ F.cap) (hm' : ∀ m ∈ ms', m.length ≤ F.cap)
    (h : W.stream ms = W.stream ms') : ms = ms' := by
  have hparse := parse_stream (W := W) hm
  rw [h, parse_stream hm'] at hparse
  cases hparse
  rfl

theorem parse_partial {m l : List α} (hm : m.length ≤ F.cap) (hp : l <+: W.frame m) (hl : l.length < (W.frame m).length) :
    F.parse l = some ([], l) := by
  refine parse_incomplete ?_
  by_cases h : l.length < F.header
  · exact .inl h
  · obtain ⟨t, ht⟩ := hp
    have hs : F.size l = m.length := by
      rw [← size_append (F := F) (by omega) t, ht, frame, size_head hm]
    rw [length_frame] at hl
    exact .inr ⟨by omega, by omega⟩

/-- **Of a stream of frames, what has arrived gives the bodies whose last symbol has arrived, and no others**, up to a
header that follows them. -/
theorem parse_prefix : ∀ {ms : List (List α)} {l x : List α}, (∀ m ∈ ms, m.length ≤ F.cap) → l <+: W.stream ms ++ x →
    l.length < (W.stream ms).length + F.header →
    ∃ done todo rest, ms = done ++ todo ∧ l = W.stream done ++ rest ∧ F.parse l = some (done, rest) ∧
      (todo = [] → rest.length < F.header) ∧ ∀ m todo', todo = m :: todo' → rest.length < (W.frame m).length
  | [], l, x, _, _, hlen => by
    rw [stream_nil, List.length_nil, Nat.zero_add] at hlen
    exact ⟨[], [], l, rfl, rfl, parse_incomplete (.inl hlen), fun _ => hlen, nofun⟩
  | m :: ms, l, x, hm, hp, hlen => by
    have hmc := hm m (by simp)
    rw [stream_cons, List.append_assoc] at hp
    by_cases hlt : l.length < (W.frame m).length
    · have hpm : l <+: W.frame m := List.prefix_of_prefix_length_le hp (List.prefix_append _ _) (by omega)
      refine ⟨[], m :: ms, l, rfl, rfl, parse_partial hmc hpm hlt, nofun, ?_⟩
      rintro m' todo' he
      cases he
      exact hlt
    · obtain ⟨l', rfl⟩ := List.prefix_of_prefix_length_le (List.prefix_append _ _) hp (by omega)
      have hp' : l' <+: W.stream ms ++ x := (List.prefix_append_right_inj _).1 hp
      rw [stream_cons, List.length_append, List.length_append] at hlen
      obtain ⟨done, todo, rest, rfl, rfl, hparse, hnil, hcons⟩ :=
        parse_prefix (fun y hy => hm y (by simp [hy])) hp' (by omega)
      refine ⟨m :: done, todo, rest, rfl, by rw [stream_cons, List.append_assoc], ?_, hnil, hcons⟩
      rw [parse_frame hmc, hparse]
      rfl

theorem parse_stream_overCap {l : List α} (hl : F.header ≤ l.length) (hc : F.cap < F.size l) :
    ∀ {ms : List (List α)}, (∀ m ∈ ms, m.length ≤ F.cap) → F.parse (W.stream ms ++ l) = none
  | [], _ => parse_overCap hl hc
  | m :: ms, hm => by
    rw [stream_cons, List.append_assoc, parse_frame (hm m (by simp)),
      parse_stream_overCap hl hc (fun x hx => hm x (by simp [hx]))]
    rfl

end Writer

end Format

end Framing

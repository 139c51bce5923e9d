import Mathlib.Data.Rat.Floor
/-!
# TokenBucket — a rate limit that reads a clock

`security/token-bucket.ts`.  Clock readings are any rationals, in any order; `takes` are its callers'.
-/
namespace Dormouse
namespace RateLimit

/-- A bucket as the constructor leaves it and every call keeps it. -/
structure TokenBucket where
  capacity     : Int
  interval     : Int
  tokens       : Int
  lastRefillAt : ℚ
  capacity_pos : 1 ≤ capacity
  interval_pos : 1 ≤ interval
  tokens_pos   : 0 ≤ tokens
  tokens_le    : tokens ≤ capacity

namespace TokenBucket

/-- `Number.isSafeInteger(x) && x >= 1`. -/
def IsCount (x : ℚ) : Prop := x.den = 1 ∧ 1 ≤ x.num ∧ x.num ≤ 9007199254740991

instance (x : ℚ) : Decidable (IsCount x) := inferInstanceAs (Decidable (_ ∧ _))

def create (capacity refillIntervalMs now : ℚ) : Except String TokenBucket :=
  if hc : IsCount capacity then
    if hi : IsCount refillIntervalMs then
      .ok ⟨capacity.num, refillIntervalMs.num, capacity.num, now, hc.2.1, hi.2.1, by have := hc.2.1; omega, le_refl _⟩
    else .error "token bucket refill interval must be a positive safe integer"
  else .error "token bucket capacity must be a positive safe integer"

def elapsed (b : TokenBucket) (now : ℚ) : ℚ := max 0 (now - b.lastRefillAt)

def refill (b : TokenBucket) (now : ℚ) : Int := ⌊b.elapsed now / b.interval⌋

theorem refill_nonneg (b : TokenBucket) (now : ℚ) : 0 ≤ b.refill now :=
  Int.floor_nonneg.2 (div_nonneg (le_max_left _ _) (by exact_mod_cast
    (by have := b.interval_pos; omega : (0 : Int) ≤ b.interval)))

def refilled (b : TokenBucket) (now : ℚ) : TokenBucket :=
  if 0 < b.refill now then
    { b with
      tokens       := min b.capacity (b.tokens + b.refill now)
      lastRefillAt := b.lastRefillAt + b.refill now * b.interval
      tokens_pos   := by have := b.capacity_pos; have := b.tokens_pos; have := b.refill_nonneg now; omega
      tokens_le    := min_le_left _ _ }
  else b

/-- Spend one token: none on success, or the wait until the next one. -/
def take (b : TokenBucket) (now : ℚ) : Option ℚ × TokenBucket :=
  if h : 0 < (b.refilled now).tokens then
    (none, { b.refilled now with
      tokens     := (b.refilled now).tokens - 1
      tokens_pos := by omega
      tokens_le  := by have := (b.refilled now).tokens_le; omega })
  else (some (max 1 (b.interval - b.elapsed now)), b.refilled now)

def after (b : TokenBucket) (readings : List ℚ) : TokenBucket := readings.foldl (fun b now => (b.take now).2) b

def success (b : TokenBucket) (now : ℚ) : Int := if (b.take now).1 = none then 1 else 0

def successes : TokenBucket → List ℚ → Int
  | _, []              => 0
  | b, now :: readings => b.success now + successes (b.take now).2 readings

/-! ## One call -/

/-- **A call adds whole intervals to the refill time and at most as many tokens**, and no further than its own reading. -/
theorem take_spec (b : TokenBucket) (now : ℚ) :
    (b.take now).2.capacity = b.capacity ∧ (b.take now).2.interval = b.interval ∧
      (b.take now).2.lastRefillAt = b.lastRefillAt + b.refill now * b.interval ∧
      (b.take now).2.tokens + b.success now ≤ min b.capacity (b.tokens + b.refill now) := by
  have hnonneg := b.refill_nonneg now
  have hrefilled : (b.refilled now).capacity = b.capacity ∧ (b.refilled now).interval = b.interval ∧
      (b.refilled now).lastRefillAt = b.lastRefillAt + b.refill now * b.interval ∧
      (b.refilled now).tokens = min b.capacity (b.tokens + b.refill now) := by
    unfold refilled
    split
    · exact ⟨rfl, rfl, rfl, rfl⟩
    · next h =>
      have hzero : b.refill now = 0 := by omega
      have := b.tokens_le
      refine ⟨rfl, rfl, ?_, by rw [hzero]; omega⟩
      rw [hzero, Int.cast_zero, zero_mul, add_zero]
  obtain ⟨hcap, hint, hlast, htokens⟩ := hrefilled
  unfold success take
  split
  · refine ⟨hcap, hint, hlast, ?_⟩
    rw [if_pos rfl, ← htokens]
    exact le_of_eq (Int.sub_add_cancel _ _)
  · refine ⟨hcap, hint, hlast, ?_⟩
    rw [if_neg (by exact fun h => (by cases h)), ← htokens, add_zero]

theorem interval_cast_pos (b : TokenBucket) : (0 : ℚ) < b.interval := by
  exact_mod_cast (by have := b.interval_pos; omega : (0 : Int) < b.interval)

theorem refill_mul_le (b : TokenBucket) (now : ℚ) : b.refill now = 0 ∨ b.lastRefillAt + b.refill now * b.interval ≤ now := by
  have hfloor : (b.refill now : ℚ) * b.interval ≤ b.elapsed now :=
    (le_div_iff₀ b.interval_cast_pos).1 (Int.floor_le (b.elapsed now / b.interval))
  rcases le_total (now - b.lastRefillAt) 0 with hback | hforth
  · left
    rw [refill, elapsed, max_eq_left hback, zero_div, Int.floor_zero]
  · right
    rw [elapsed, max_eq_right hforth] at hfloor
    linarith

theorem now_lt (b : TokenBucket) (now : ℚ) : now < b.lastRefillAt + b.refill now * b.interval + b.interval := by
  have hfloor : b.elapsed now < ((b.refill now : ℚ) + 1) * b.interval :=
    (div_lt_iff₀ b.interval_cast_pos).1 (Int.lt_floor_add_one (b.elapsed now / b.interval))
  have hle : now - b.lastRefillAt ≤ b.elapsed now := le_max_right _ _
  linarith

/-! ## Runs -/

/-- **What a run spends and keeps is what it had and the intervals refilled**, none past a reading of it. -/
theorem run_spec : ∀ (readings : List ℚ) (b : TokenBucket), (b.after readings).capacity = b.capacity ∧
    (b.after readings).interval = b.interval ∧ ∃ k : Int, 0 ≤ k ∧
    (b.after readings).lastRefillAt = b.lastRefillAt + k * b.interval ∧
      (b.after readings).tokens + b.successes readings ≤ b.tokens + k ∧
      (k = 0 ∨ ∃ now ∈ readings, b.lastRefillAt + k * b.interval ≤ now)
  | [], b => ⟨rfl, rfl, 0, le_refl 0, by rw [Int.cast_zero, zero_mul, add_zero]; rfl, le_refl _, Or.inl rfl⟩
  | now :: readings, b => by
    obtain ⟨hcap, hint, hlast, htokens⟩ := b.take_spec now
    obtain ⟨hcap', hint', k, hk, hlast', htokens', hreach⟩ := run_spec readings (b.take now).2
    have hnonneg := b.refill_nonneg now
    refine ⟨hcap'.trans hcap, hint'.trans hint, b.refill now + k, by omega, ?_, ?_, ?_⟩
    · refine hlast'.trans ?_
      rw [hlast, hint, Int.cast_add]
      ring
    · show ((b.take now).2.after readings).tokens + (b.success now + (b.take now).2.successes readings) ≤ _
      have hmin := min_le_right b.capacity (b.tokens + b.refill now)
      omega
    · rcases hreach with rfl | ⟨t, ht, hle⟩
      · rcases b.refill_mul_le now with hzero | hle
        · exact Or.inl (by omega)
        · refine Or.inr ⟨now, List.mem_cons_self, ?_⟩
          rwa [add_zero]
      · refine Or.inr ⟨t, List.mem_cons_of_mem now ht, ?_⟩
        rw [hlast, hint] at hle
        rw [Int.cast_add]
        linarith

def highest (created : ℚ) (readings : List ℚ) : ℚ := readings.foldl max created

theorem le_highest (created : ℚ) (readings : List ℚ) : created ≤ highest created readings ∧ ∀ t ∈ readings,
    t ≤ highest created readings := by
  unfold highest
  induction readings generalizing created with
  | nil => exact ⟨le_refl _, fun _ h => absurd h List.not_mem_nil⟩
  | cons t ts ih =>
    obtain ⟨hcreated, hall⟩ := ih (max created t)
    refine ⟨(le_max_left created t).trans hcreated, fun u hu => ?_⟩
    rcases List.mem_cons.1 hu with rfl | hu
    · exact (le_max_right created u).trans hcreated
    · exact hall u hu

/-- **Over a whole run no more calls succeed than the capacity and the intervals up to the highest reading.** -/
theorem successes_le (b : TokenBucket) (readings : List ℚ) :
    b.successes readings ≤ b.capacity + ⌊(highest b.lastRefillAt readings - b.lastRefillAt) / b.interval⌋ := by
  obtain ⟨_, _, k, hk, _, htokens, hreach⟩ := run_spec readings b
  obtain ⟨hcreated, hall⟩ := le_highest b.lastRefillAt readings
  have hkle : k ≤ ⌊(highest b.lastRefillAt readings - b.lastRefillAt) / b.interval⌋ := by
    rw [Int.le_floor, le_div_iff₀ b.interval_cast_pos]
    rcases hreach with rfl | ⟨t, ht, hle⟩
    · rw [Int.cast_zero, zero_mul]
      linarith
    · have := hall t ht
      linarith
  have := (b.after readings).tokens_pos
  have := b.tokens_le
  omega

theorem le_getLastD {t : ℚ} {readings : List ℚ} (h : (t :: readings).Pairwise (· ≤ ·)) :
    ∀ u ∈ readings, u ≤ readings.getLastD t := by
  induction readings generalizing t with
  | nil => exact fun _ h => absurd h List.not_mem_nil
  | cons v vs ih =>
    intro u hu
    have htail := (List.pairwise_cons.1 h).2
    rw [List.getLastD_cons]
    rcases List.mem_cons.1 hu with rfl | hu
    · cases vs with
      | nil => exact le_refl _
      | cons w ws =>
        refine le_trans ((List.pairwise_cons.1 htail).1 w List.mem_cons_self) (ih htail w List.mem_cons_self)
    · exact ih htail u hu

/-- **Over a stretch of readings that never goes back no more calls succeed than the capacity and the intervals begun in it.** -/
theorem successes_stretch_le (b : TokenBucket) (t : ℚ) (readings : List ℚ) (h : (t :: readings).Pairwise (· ≤ ·)) :
    b.successes (t :: readings) ≤ b.capacity + ⌈(readings.getLastD t - t) / b.interval⌉ := by
  obtain ⟨hcap, hint, hlast, htokens⟩ := b.take_spec t
  obtain ⟨_, _, k, hk, _, htokens', hreach⟩ := run_spec readings (b.take t).2
  have hkle : k ≤ ⌈(readings.getLastD t - t) / b.interval⌉ := by
    rcases hreach with rfl | ⟨u, hu, hle⟩
    · have hspan : t ≤ readings.getLastD t := by
        cases readings with
        | nil => exact le_refl _
        | cons v vs => exact ((List.pairwise_cons.1 h).1 v List.mem_cons_self).trans (le_getLastD h v List.mem_cons_self)
      exact Int.ceil_nonneg (div_nonneg (by linarith) b.interval_cast_pos.le)
    · have hend := le_getLastD h u hu
      have hnow := b.now_lt t
      rw [hlast, hint] at hle
      -- an interval that ends in the stretch begins in it, but for the one under way
      have hlt : (k : ℚ) - 1 < (readings.getLastD t - t) / b.interval := by
        rw [lt_div_iff₀ b.interval_cast_pos]
        linarith
      have hceil : (k : ℚ) - 1 < ⌈(readings.getLastD t - t) / b.interval⌉ := hlt.trans_le (Int.le_ceil _)
      have : k - 1 < ⌈(readings.getLastD t - t) / (b.interval : ℚ)⌉ := by exact_mod_cast hceil
      omega
  show b.success t + (b.take t).2.successes readings ≤ _
  have hmin := min_le_left b.capacity (b.tokens + b.refill t)
  have := ((b.take t).2.after readings).tokens_pos
  omega

/-- **No reading of the clock buys a token**: from its creation on, over any readings, a bucket holds between none and its capacity, a
whole run succeeds at most as often as its capacity and the intervals up to the highest reading, and a stretch that never goes back
at most as often as its capacity and the intervals begun in it. -/
theorem take_bounded (capacity interval created : ℚ) (b : TokenBucket) (h : create capacity interval created = .ok b) :
    (∀ readings, 0 ≤ (b.after readings).tokens ∧ ((b.after readings).tokens : ℚ) ≤ capacity) ∧
      (∀ readings, (b.successes readings : ℚ) ≤ capacity + ⌊(highest created readings - created) / interval⌋) ∧
      ∀ before t readings, (t :: readings).Pairwise (· ≤ ·) →
        ((b.after before).successes (t :: readings) : ℚ) ≤ capacity + ⌈(readings.getLastD t - t) / interval⌉ := by
  unfold create at h
  split at h
  · next hc =>
    split at h
    · next hi =>
      have hcap : ((capacity.num : Int) : ℚ) = capacity := Rat.den_eq_one_iff capacity |>.1 hc.1
      have hint : ((interval.num : Int) : ℚ) = interval := Rat.den_eq_one_iff interval |>.1 hi.1
      have hb := Except.ok.inj h
      have hbc : b.capacity = capacity.num := by rw [← hb]
      have hbi : b.interval = interval.num := by rw [← hb]
      have hbl : b.lastRefillAt = created := by rw [← hb]
      refine ⟨fun readings => ⟨(b.after readings).tokens_pos, ?_⟩, fun readings => ?_, fun before t readings hmono => ?_⟩
      · have hle := (b.after readings).tokens_le
        rw [(run_spec readings b).1, hbc] at hle
        rw [← hcap]
        exact_mod_cast hle
      · have hle := b.successes_le readings
        rw [hbc, hbi, hbl, hint] at hle
        conv => rhs; rw [← hcap]
        exact_mod_cast hle
      · have hle := (b.after before).successes_stretch_le t readings hmono
        rw [(run_spec before b).1, (run_spec before b).2.1, hbc, hbi, hint] at hle
        conv => rhs; rw [← hcap]
        exact_mod_cast hle
    · cases h
  · cases h

def fiveASecond : TokenBucket := ⟨5, 1000, 5, 0, by decide, by decide, by decide, by decide⟩

theorem take_bounded_five : (fiveASecond.successes [0, 0, 0, 0, 0, 0, 1000] : ℚ) ≤
    5 + ⌊(highest 0 [0, 0, 0, 0, 0, 0, 1000] - 0) / 1000⌋ :=
  (take_bounded 5 1000 0 fiveASecond (by rfl)).2.1 _

end TokenBucket
end RateLimit
end Dormouse

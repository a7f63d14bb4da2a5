import DependentWatch.Duration
/-! How long a retry waits: the base, doubled for each retry before it, up to the bound. Since the
factor has 32 bits, it is the bound from some retry on, however little the doubled base is. -/
namespace DependentWatch

namespace Duration

/-! Durations in machine words: 64 bits of seconds, and the nanoseconds below a second. -/

def words (d : Duration) : UInt64 × UInt64 := (.ofNat d.secs, .ofNat d.subsecNanos)

/-- The product of two words, where it fits into one. -/
def mulWords? (a b : UInt64) : Option UInt64 :=
  if a.toNat * b.toNat < UInt64.size then some (a * b) else none

def addWords? (a b : UInt64) : Option UInt64 :=
  if a.toNat + b.toNat < UInt64.size then some (a + b) else none

/-- The seconds and the nanoseconds are multiplied each by itself. The nanoseconds carry over. -/
def timesWords? (d : UInt64 × UInt64) (factor : UInt32) : Option (UInt64 × UInt64) := do
  let nanos := d.2 * factor.toUInt64
  let secs ← mulWords? d.1 factor.toUInt64
  let secs ← addWords? secs (nanos / 1000000000)
  return (secs, nanos % 1000000000)

/-- The seconds decide first. -/
def minWords (a b : UInt64 × UInt64) : UInt64 × UInt64 :=
  if a.1 < b.1 ∨ a.1 = b.1 ∧ a.2 ≤ b.2 then a else b

theorem secs_lt (d : Duration) : d.secs < UInt64.size := by
  have h := d.lt_limit
  simp only [limit, Nat.reducePow, Nat.pow_eq] at h
  simp only [secs, Nat.pow_eq, Nat.reducePow, UInt64.size]
  omega

theorem subsecNanos_lt (d : Duration) : d.subsecNanos < 1000000000 := Nat.mod_lt _ (by decide)

theorem secs_add_subsecNanos (d : Duration) : d.secs * 1000000000 + d.subsecNanos = d.nanos :=
  Nat.div_add_mod' d.nanos (Nat.pow 10 9)

theorem toNat_words_fst (d : Duration) : d.words.1.toNat = d.secs :=
  UInt64.toNat_ofNat_of_lt' d.secs_lt

theorem toNat_words_snd (d : Duration) : d.words.2.toNat = d.subsecNanos :=
  UInt64.toNat_ofNat_of_lt' (Nat.lt_trans d.subsecNanos_lt (by decide))

/-- What is a duration by its nanoseconds has room in the words for its seconds. -/
theorem map_words_ofNanos? {secs nanos : Nat} (h : nanos < 1000000000) :
    (ofNanos? (secs * 1000000000 + nanos)).map words =
      if secs < UInt64.size then some (.ofNat secs, .ofNat nanos) else none := by
  have hfits : secs * 1000000000 + nanos < limit ↔ secs < UInt64.size := by
    simp only [limit, Nat.pow_eq, Nat.reducePow, UInt64.size]
    omega
  unfold ofNanos?
  by_cases hs : secs < UInt64.size
  · rw [dif_pos (hfits.2 hs), if_pos hs]
    have hsecs : (secs * 1000000000 + nanos) / 1000000000 = secs := by omega
    have hnanos : (secs * 1000000000 + nanos) % 1000000000 = nanos := by omega
    simp only [Option.map_some, words, Duration.secs, subsecNanos, Nat.pow_eq, Nat.reducePow, hsecs,
      hnanos]
  · rw [dif_neg fun hl => hs (hfits.1 hl), if_neg hs]
    rfl

/-- No word wraps around, and none is too small for a product that is a duration. -/
theorem timesWords?_words (d : Duration) (factor : UInt32) :
    timesWords? d.words factor = (ofNanos? (d.nanos * factor.toNat)).map words := by
  have hfactor : factor.toNat < 4294967296 := factor.toNat_lt
  have hsub : d.subsecNanos * factor.toNat < 1000000000 * 4294967296 :=
    Nat.mul_lt_mul'' d.subsecNanos_lt hfactor
  have hnanos : (d.words.2 * factor.toUInt64).toNat = d.subsecNanos * factor.toNat := by
    rw [UInt64.toNat_mul, toNat_words_snd, UInt32.toNat_toUInt64]
    exact Nat.mod_eq_of_lt (by omega)
  have hproduct : d.nanos * factor.toNat =
      (d.secs * factor.toNat + d.subsecNanos * factor.toNat / 1000000000) * 1000000000 +
        d.subsecNanos * factor.toNat % 1000000000 := by
    calc
      d.nanos * factor.toNat
          = (d.secs * 1000000000 + d.subsecNanos) * factor.toNat := by rw [secs_add_subsecNanos]
      _ = d.secs * factor.toNat * 1000000000 + d.subsecNanos * factor.toNat := by
          rw [Nat.add_mul, Nat.mul_right_comm]
      _ = _ := by omega
  have hcarry : (d.words.2 * factor.toUInt64 / 1000000000).toNat =
      d.subsecNanos * factor.toNat / 1000000000 := by rw [UInt64.toNat_div, hnanos]; rfl
  have hrest : d.words.2 * factor.toUInt64 % 1000000000 =
      .ofNat (d.subsecNanos * factor.toNat % 1000000000) := by
    rw [← UInt64.ofNat_toNat (x := d.words.2 * factor.toUInt64 % 1000000000), UInt64.toNat_mod,
      hnanos]
    rfl
  rw [hproduct, map_words_ofNanos? (Nat.mod_lt _ (by decide))]
  simp only [timesWords?, mulWords?, addWords?, toNat_words_fst, UInt32.toNat_toUInt64, hrest]
  by_cases hsecs : d.secs * factor.toNat < UInt64.size
  · have hproductWord : (d.words.1 * factor.toUInt64).toNat = d.secs * factor.toNat := by
      rw [UInt64.toNat_mul, toNat_words_fst, UInt32.toNat_toUInt64]
      exact Nat.mod_eq_of_lt hsecs
    simp only [hsecs, if_true, Option.bind_eq_bind, Option.bind_some, hproductWord, hcarry]
    split
    · next hsum =>
      have hsumWord : d.words.1 * factor.toUInt64 + d.words.2 * factor.toUInt64 / 1000000000 =
          .ofNat (d.secs * factor.toNat + d.subsecNanos * factor.toNat / 1000000000) := by
        rw [← UInt64.toNat_inj, UInt64.toNat_add, hproductWord, hcarry,
          UInt64.toNat_ofNat_of_lt' hsum]
        exact Nat.mod_eq_of_lt hsum
      rw [hsumWord]
      rfl
    · rfl
  · rw [if_neg hsecs, if_neg (by omega)]
    rfl

theorem min_words (a b : Duration) : (a.min b).words = minWords a.words b.words := by
  have hle : a.words.1 < b.words.1 ∨ a.words.1 = b.words.1 ∧ a.words.2 ≤ b.words.2 ↔
      a.nanos ≤ b.nanos := by
    rw [UInt64.lt_iff_toNat_lt, ← UInt64.toNat_inj, UInt64.le_iff_toNat_le]
    simp only [toNat_words_fst, toNat_words_snd]
    have ha := a.secs_add_subsecNanos
    have hb := b.secs_add_subsecNanos
    have := a.subsecNanos_lt
    have := b.subsecNanos_lt
    omega
  simp only [minWords, hle, Duration.min]
  split <;> rfl

end Duration

namespace Backoff
open Duration

/-- The power of two in 32 bits, where it fits. -/
def factor? (attempt : Nat) : Option UInt32 :=
  if attempt < 32 then some (.ofNat (Nat.pow 2 attempt)) else none

/-- The delay before a retry, computed in words. -/
def delayWords (b : Backoff) (attempt : Nat) : UInt64 × UInt64 :=
  match (factor? attempt).bind (timesWords? b.base.words) with
  | some d => minWords d b.max.words
  | none => b.max.words

theorem toNat_pow_two {attempt : Nat} (h : attempt < 32) :
    (UInt32.ofNat (Nat.pow 2 attempt)).toNat = Nat.pow 2 attempt :=
  UInt32.toNat_ofNat_of_lt' (Nat.pow_lt_pow_right (by decide) h)

/-- The words hold the delay: nothing is lost in them. -/
theorem words_delay (b : Backoff) (attempt : Nat) :
    (b.delay attempt).words = b.delayWords attempt := by
  unfold delay delayWords factor?
  split
  · next h =>
    simp only [Option.bind_some, timesWords?_words, toNat_pow_two h]
    cases ofNanos? (b.base.nanos * Nat.pow 2 attempt) with
    | none => rfl
    | some d => exact d.min_words b.max
  · rfl

/-- A factor of 32 bits is exact. A product that is no duration is beyond the bound as well. -/
theorem nanos_delay_of_lt (b : Backoff) {attempt : Nat} (h : attempt < 32) :
    (b.delay attempt).nanos = min (b.base.nanos * Nat.pow 2 attempt) b.max.nanos := by
  rw [delay, if_pos h]
  by_cases hfits : b.base.nanos * Nat.pow 2 attempt < limit
  · simp only [ofNanos?, dif_pos hfits, Duration.min]
    split
    · next hle => exact (Nat.min_eq_left hle).symm
    · next hle => exact (Nat.min_eq_right (Nat.le_of_not_le hle)).symm
  · have hmax := b.max.lt_limit
    simp only [ofNanos?, dif_neg hfits]
    exact (Nat.min_eq_right (by omega)).symm

theorem delay_of_le (b : Backoff) {attempt : Nat} (h : 32 ≤ attempt) : b.delay attempt = b.max := by
  rw [delay, if_neg (by omega)]

theorem delay_le_max (b : Backoff) (attempt : Nat) : (b.delay attempt).nanos ≤ b.max.nanos := by
  by_cases h : attempt < 32
  · rw [b.nanos_delay_of_lt h]
    exact Nat.min_le_right ..
  · exact Nat.le_of_eq (congrArg Duration.nanos (b.delay_of_le (Nat.le_of_not_lt h)))

/-- No retry waits less long than one before it. -/
theorem delay_mono (b : Backoff) {k l : Nat} (h : k ≤ l) : (b.delay k).nanos ≤ (b.delay l).nanos := by
  by_cases hl : l < 32
  · have hk : k < 32 := Nat.lt_of_le_of_lt h hl
    have hdouble : b.base.nanos * Nat.pow 2 k ≤ b.base.nanos * Nat.pow 2 l :=
      Nat.mul_le_mul_left _ (Nat.pow_le_pow_right (by decide) h)
    rw [b.nanos_delay_of_lt hk, b.nanos_delay_of_lt hl]
    omega
  · rw [b.delay_of_le (Nat.le_of_not_lt hl)]
    exact b.delay_le_max k

theorem base_le_delay (b : Backoff) (h : b.base.nanos ≤ b.max.nanos) (attempt : Nat) :
    b.base.nanos ≤ (b.delay attempt).nanos := by
  have hfirst : (b.delay 0).nanos = b.base.nanos := by
    rw [b.nanos_delay_of_lt (by decide), Nat.pow_eq, Nat.pow_zero, Nat.mul_one]
    exact Nat.min_eq_left h
  rw [← hfirst]
  exact b.delay_mono (Nat.zero_le attempt)

/-- A delay is the doubled base, up to the bound, if and only if the factor fits into 32 bits or the
doubled base has reached the bound. Otherwise it is the bound all the same. -/
theorem delay_is_doubled_iff (b : Backoff) (attempt : Nat) :
    (b.delay attempt).words = b.delayWords attempt ∧
    (b.delay attempt).nanos =
      (if attempt < 32 then min (b.base.nanos * Nat.pow 2 attempt) b.max.nanos else b.max.nanos) ∧
    ((b.delay attempt).nanos = min (b.base.nanos * Nat.pow 2 attempt) b.max.nanos ↔
      attempt < 32 ∨ b.max.nanos ≤ b.base.nanos * Nat.pow 2 attempt) := by
  refine ⟨b.words_delay attempt, ?_⟩
  by_cases h : attempt < 32
  · rw [b.nanos_delay_of_lt h, if_pos h]
    exact ⟨rfl, by simp [h]⟩
  · rw [b.delay_of_le (Nat.le_of_not_lt h), if_neg h]
    generalize b.base.nanos * Nat.pow 2 attempt = doubled
    exact ⟨rfl, by omega⟩

/-- Where the base is nothing, no retry waits until the factor has no room any more. Then it waits
for the bound. -/
theorem no_delay_becomes_bound :
    let b : Backoff := ⟨.zero, .ofMillis 1000000⟩
    b.base.nanos ≤ b.max.nanos ∧ (b.delay 31).nanos = 0 ∧
      min (b.base.nanos * Nat.pow 2 32) b.max.nanos = 0 ∧
      (b.delay 32).nanos = 1000000000000 := by
  decide

end Backoff
end DependentWatch

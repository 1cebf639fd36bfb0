import ExtensionLock.Decimal.Binary64
import Mathlib.Algebra.Order.Field.Power
import Mathlib.Algebra.Order.Field.Rat
import Mathlib.Tactic.FieldSimp
import Mathlib.Tactic.Linarith
import Mathlib.Tactic.NormNum
import Mathlib.Tactic.Positivity
import Mathlib.Tactic.Ring

/-! Rounding to binary floating-point numbers. A positive ratio is put on the scale of the numbers
around it and rounded there once, to the nearest number and a half to the even one; so the error is
at most half a step of the scale, and only what rounds past the greatest number is infinite. -/

namespace ExtensionLock.Binary64

def magnitude (x : Binary64) : ℚ := x.mantissa * 2 ^ x.exponent

theorem magnitude_zero (negative : Bool) : (zero negative).magnitude = 0 := by
  rw [magnitude, zero, Nat.cast_zero, zero_mul]

theorem toRatio_pos (x : Binary64) : 0 < x.toRatio.2 := by
  rw [toRatio]
  split
  · exact Nat.one_pos
  · exact Nat.pow_pos (by decide)

theorem toRatio_div (x : Binary64) : (x.toRatio.1 : ℚ) / x.toRatio.2 = x.magnitude := by
  rw [toRatio, magnitude]
  split
  · rename_i whole
    obtain ⟨n, same⟩ := Int.eq_ofNat_of_zero_le whole
    simp [same]
  · rename_i part
    obtain ⟨n, same⟩ := Int.eq_ofNat_of_zero_le (by omega : 0 ≤ -x.exponent)
    have exponent : x.exponent = -(n : ℤ) := by omega
    simp [exponent, zpow_neg, div_eq_mul_inv]

theorem shiftRatio_pos {num den : Nat} (positive : 0 < den) (e : Int) :
    0 < (shiftRatio num den e).2 := by
  rw [shiftRatio]
  split
  · exact positive
  · exact Nat.mul_pos positive (Nat.pow_pos (by decide))

theorem shiftRatio_div (num den : Nat) (e : Int) :
    ((shiftRatio num den e).1 : ℚ) / (shiftRatio num den e).2 = num / den / 2 ^ e := by
  rw [shiftRatio]
  split
  · rename_i up
    obtain ⟨n, same⟩ := Int.eq_ofNat_of_zero_le (by omega : 0 ≤ -e)
    have exponent : e = -(n : ℤ) := by omega
    simp [exponent, zpow_neg, div_eq_mul_inv]
    ring
  · rename_i down
    obtain ⟨n, same⟩ := Int.eq_ofNat_of_zero_le (by omega : 0 ≤ e)
    simp [same, div_div]

/-- The scale on which a positive number is rounded: it gives the number as many digits as a
mantissa has, unless it is the least one. -/
structure Scaled (v : ℚ) (e : ℤ) : Prop where
  below : v < 2 ^ 53 * 2 ^ e
  above : 2 ^ 52 * 2 ^ e ≤ v ∨ e = leastExponent

theorem two_zpow_pos (e : ℤ) : (0 : ℚ) < 2 ^ e := zpow_pos (by norm_num) e

theorem two_zpow_mono {e e' : ℤ} (le : e ≤ e') : (2 : ℚ) ^ e ≤ 2 ^ e' :=
  zpow_le_zpow_right₀ (by norm_num) le

/-- The scale that the logarithms of numerator and denominator suggest is right, or one too high. -/
theorem ratio_between {num den : Nat} (filled : 0 < num) (positive : 0 < den) {guess : ℤ}
    (first : (Nat.log2 num : ℤ) - Nat.log2 den - 52 = guess) :
    2 ^ 51 * 2 ^ guess ≤ (num / den : ℚ) ∧ (num / den : ℚ) < 2 ^ 53 * 2 ^ guess := by
  have low : (2 : ℚ) ^ Nat.log2 num ≤ num := by exact_mod_cast Nat.log2_self_le filled.ne'
  have high : (num : ℚ) < 2 ^ (Nat.log2 num + 1) := by exact_mod_cast Nat.lt_log2_self
  have low' : (2 : ℚ) ^ Nat.log2 den ≤ den := by exact_mod_cast Nat.log2_self_le positive.ne'
  have high' : (den : ℚ) < 2 ^ (Nat.log2 den + 1) := by exact_mod_cast Nat.lt_log2_self
  have divisor : (0 : ℚ) < den := by exact_mod_cast positive
  have scale : (2 : ℚ) ^ guess = 2 ^ Nat.log2 num / 2 ^ Nat.log2 den / 2 ^ 52 := by
    rw [← first, zpow_sub₀ (by norm_num), zpow_sub₀ (by norm_num), zpow_natCast, zpow_natCast]
    rfl
  rw [scale]
  constructor
  · calc (2 ^ 51 * (2 ^ Nat.log2 num / 2 ^ Nat.log2 den / 2 ^ 52) : ℚ)
        = 2 ^ Nat.log2 num / 2 ^ (Nat.log2 den + 1) := by
          field_simp
          ring
      _ ≤ num / den := div_le_div₀ (Nat.cast_nonneg num) low divisor high'.le
  · calc (num / den : ℚ) < 2 ^ (Nat.log2 num + 1) / 2 ^ Nat.log2 den :=
          div_lt_div₀ high low' (by positivity) (by positivity)
      _ = 2 ^ 53 * (2 ^ Nat.log2 num / 2 ^ Nat.log2 den / 2 ^ 52) := by
          field_simp
          ring

theorem shiftRatio_lt_iff {num den : Nat} (positive : 0 < den) (e : Int) :
    (shiftRatio num den e).1 < (shiftRatio num den e).2 * leastMantissa ↔
      (num / den : ℚ) < 2 ^ 52 * 2 ^ e := by
  have divisor : (0 : ℚ) < (shiftRatio num den e).2 := by
    exact_mod_cast shiftRatio_pos positive e
  rw [← div_lt_iff₀ (two_zpow_pos e), ← shiftRatio_div, div_lt_iff₀ divisor, mul_comm]
  exact_mod_cast Iff.rfl

theorem scaled_scaleOf {num den : Nat} (filled : 0 < num) (positive : 0 < den) :
    Scaled (num / den) (scaleOf num den) := by
  obtain ⟨guess, first⟩ : ∃ guess : ℤ, (Nat.log2 num : ℤ) - Nat.log2 den - 52 = guess := ⟨_, rfl⟩
  obtain ⟨low, high⟩ := ratio_between filled positive first
  obtain ⟨exact, second, below, above⟩ : ∃ exact : ℤ,
      (if (num / den : ℚ) < 2 ^ 52 * 2 ^ guess then guess - 1 else guess) = exact ∧
        (num / den : ℚ) < 2 ^ 53 * 2 ^ exact ∧ 2 ^ 52 * 2 ^ exact ≤ (num / den : ℚ) := by
    by_cases less : (num / den : ℚ) < 2 ^ 52 * 2 ^ guess
    · have half : (2 : ℚ) ^ (guess - 1) = 2 ^ guess / 2 := by
        rw [zpow_sub_one₀ (by norm_num), div_eq_mul_inv]
      refine ⟨guess - 1, if_pos less, ?_, ?_⟩ <;> rw [half] <;> linarith
    · exact ⟨guess, if_neg less, high, not_lt.mp less⟩
  have whole : scaleOf num den = max exact leastExponent := by
    simp only [scaleOf, first, shiftRatio_lt_iff positive, second]
  rw [whole]
  rcases le_total leastExponent exact with le | le
  · rw [max_eq_left le]
    exact ⟨below, .inl above⟩
  · rw [max_eq_right le]
    refine ⟨below.trans_le ?_, .inr rfl⟩
    exact mul_le_mul_of_nonneg_left (two_zpow_mono le) (by norm_num)

/-- A natural number nearest to a positive number, and even where there are two. -/
structure Nearest (v : ℚ) (m : ℕ) : Prop where
  near : |m - v| ≤ 1 / 2
  even : |m - v| = 1 / 2 → m % 2 = 0

theorem quotient_add_rest (num : Nat) {den : Nat} (positive : 0 < den) :
    (num / den : ℚ) = (num / den : ℕ) + (num % den : ℕ) / den := by
  have divisor : (den : ℚ) ≠ 0 := by exact_mod_cast positive.ne'
  have whole : (num : ℚ) = den * (num / den : ℕ) + (num % den : ℕ) := by
    exact_mod_cast (Nat.div_add_mod num den).symm
  rw [div_eq_iff divisor, add_mul, div_mul_cancel₀ _ divisor, mul_comm]
  exact whole

theorem divideNearest_eq (num : Nat) {den : Nat} (positive : 0 < den) {q : Nat} {rest : ℚ}
    (quotient : num / den = q) (remainder : ((num % den : ℕ) / den : ℚ) = rest) :
    divideNearest num den = if rest < 1 / 2 ∨ (rest = 1 / 2 ∧ q % 2 = 0) then q else q + 1 := by
  have divisor : (0 : ℚ) < den := by exact_mod_cast positive
  have half : rest < 1 / 2 ↔ 2 * (num % den) < den := by
    rw [← remainder, div_lt_div_iff₀ divisor (by norm_num), mul_comm, one_mul]
    exact_mod_cast Iff.rfl
  have middle : rest = 1 / 2 ↔ 2 * (num % den) = den := by
    rw [← remainder, div_eq_div_iff divisor.ne' (by norm_num), mul_comm, one_mul]
    exact_mod_cast Iff.rfl
  simp only [divideNearest, quotient, half, middle]

theorem nearest_divideNearest (num : Nat) {den : Nat} (positive : 0 < den) :
    Nearest (num / den) (divideNearest num den) := by
  obtain ⟨q, quotient⟩ : ∃ q, num / den = q := ⟨_, rfl⟩
  obtain ⟨rest, remainder⟩ : ∃ rest : ℚ, ((num % den : ℕ) / den : ℚ) = rest := ⟨_, rfl⟩
  have least : 0 ≤ rest := by
    rw [← remainder]
    positivity
  have most : rest < 1 := by
    rw [← remainder, div_lt_one (by exact_mod_cast positive)]
    exact_mod_cast Nat.mod_lt num positive
  rw [divideNearest_eq num positive quotient remainder, quotient_add_rest num positive, quotient,
    remainder]
  split
  · rename_i down
    have off : |(q : ℚ) - (q + rest)| = rest := by
      rw [sub_add_cancel_left, abs_neg, abs_of_nonneg least]
    refine ⟨?_, fun tie => ?_⟩
    · rw [off]
      exact down.elim le_of_lt (fun tie => tie.1.le)
    · rw [off] at tie
      exact down.elim (fun less => absurd tie less.ne) And.right
  · rename_i up
    have off : |((q + 1 : ℕ) : ℚ) - (q + rest)| = 1 - rest := by
      rw [Nat.cast_add_one, add_sub_add_left_eq_sub, abs_of_nonneg (by linarith)]
    rw [not_or, not_and, not_lt] at up
    refine ⟨?_, fun tie => ?_⟩
    · rw [off]
      linarith [up.1]
    · rw [off] at tie
      have odd := up.2 (by linarith)
      omega

structure Rounds (v : ℚ) (m : ℕ) (e : ℤ) : Prop extends Scaled v e where
  nearest : Nearest (v / 2 ^ e) m

/-- What a number becomes that is rounded to a mantissa and a scale: as much, or infinite. -/
inductive Becomes (negative : Bool) (m : ℕ) (e : ℤ) : Extended → Prop
  | finite {x : Binary64} (sign : x.negative = negative) (value : x.magnitude = m * 2 ^ e)
      (bounded : e ≤ greatestExponent) : Becomes negative m e (.finite x)
  | infinite (past : greatestExponent ≤ e) : Becomes negative m e (.infinite negative)

theorem becomes_ofRatio (negative : Bool) {num den m : Nat} {e : Int} (filled : 0 < num)
    (scale : scaleOf num den = e)
    (mantissa : divideNearest (shiftRatio num den e).1 (shiftRatio num den e).2 = m) :
    Becomes negative m e (ofRatio negative num den) := by
  rw [ofRatio, if_neg filled.ne', scale]
  extract_lets e' scaled m'
  have same : m' = m := mantissa
  by_cases full : m' = 2 * leastMantissa
  · rw [if_pos full]
    dsimp only
    split
    · rename_i past
      exact .infinite (Int.lt_add_one_iff.mp past)
    · rename_i bounded
      refine .finite rfl ?_ (Int.le_of_lt (not_lt.mp bounded))
      rw [magnitude, ← same, full, zpow_add_one₀ (by norm_num)]
      push_cast
      ring
  · rw [if_neg full]
    dsimp only
    split
    · rename_i past
      exact .infinite past.le
    · rename_i bounded
      exact .finite rfl (by rw [magnitude, same]) (not_lt.mp bounded)

theorem rounds_ofRatio (negative : Bool) {num den : Nat} (filled : 0 < num) (positive : 0 < den) :
    ∃ m e result, Rounds (num / den) m e ∧ ofRatio negative num den = result ∧
      Becomes negative m e result := by
  have nearest := nearest_divideNearest (shiftRatio num den (scaleOf num den)).1
    (shiftRatio_pos positive (scaleOf num den) : 0 < (shiftRatio num den (scaleOf num den)).2)
  rw [shiftRatio_div] at nearest
  exact ⟨_, _, _, ⟨scaled_scaleOf filled positive, nearest⟩, rfl,
    becomes_ofRatio negative filled rfl rfl⟩

namespace Rounds

variable {v : ℚ} {m : ℕ} {e : ℤ}

theorem error (rounds : Rounds v m e) : |m * 2 ^ e - v| ≤ 2 ^ e / 2 := by
  have step := two_zpow_pos e
  have scaled : m * 2 ^ e - v = (m - v / 2 ^ e) * 2 ^ e := by
    rw [sub_mul, div_mul_cancel₀ _ step.ne']
  rw [scaled, abs_mul, abs_of_pos step]
  linarith [mul_le_mul_of_nonneg_right rounds.nearest.near step.le]

theorem relative (rounds : Rounds v m e) (enough : 1 / 2 ^ 100 ≤ v) :
    |m * 2 ^ e - v| ≤ v / 2 ^ 53 := by
  refine rounds.error.trans ?_
  rcases rounds.above with above | least
  · rw [div_le_div_iff₀ (by norm_num) (by norm_num)]
    linarith
  · have tiny : (2 : ℚ) ^ e ≤ 2 ^ (-152 : ℤ) := by
      rw [least]
      exact two_zpow_mono (by decide)
    calc (2 : ℚ) ^ e / 2 ≤ 2 ^ (-152 : ℤ) / 2 := div_le_div_of_nonneg_right tiny (by norm_num)
      _ = 1 / 2 ^ 100 / 2 ^ 53 := by norm_num
      _ ≤ v / 2 ^ 53 := div_le_div_of_nonneg_right enough (by norm_num)

theorem exponent_le (rounds : Rounds v m e) {n : ℤ} (least : leastExponent ≤ n)
    (less : v < 2 ^ 52 * 2 ^ (n + 1)) : e ≤ n := by
  rcases rounds.above with above | same
  · by_contra more
    have step := two_zpow_mono (by omega : n + 1 ≤ e)
    linarith
  · omega

theorem le_exponent (rounds : Rounds v m e) {n : ℤ} (enough : 2 ^ 52 * 2 ^ n ≤ v) : n ≤ e := by
  by_contra less
  have step := two_zpow_mono (by omega : e ≤ n - 1)
  rw [zpow_sub_one₀ (by norm_num)] at step
  linarith [rounds.below]

theorem below_top (rounds : Rounds v m e) {k : ℤ} (least : leastExponent ≤ k)
    (less : v < (2 ^ 53 - 1 / 2) * 2 ^ k) : e ≤ k ∧ m * 2 ^ e ≤ (2 ^ 53 - 1 : ℚ) * 2 ^ k := by
  have step := two_zpow_pos k
  have le : e ≤ k := by
    refine rounds.exponent_le least (less.trans ?_)
    rw [zpow_add_one₀ (by norm_num)]
    linarith
  refine ⟨le, ?_⟩
  have near := (abs_le.mp rounds.nearest.near).2
  rcases le.eq_or_lt with rfl | lower
  · have short : v / 2 ^ e < 2 ^ 53 - 1 / 2 := (div_lt_iff₀ step).mpr less
    have whole : m < 2 ^ 53 := by
      have real : (m : ℚ) < 2 ^ 53 := by linarith
      exact_mod_cast real
    have whole : (m : ℚ) ≤ 2 ^ 53 - 1 := by
      rw [le_sub_iff_add_le]
      exact_mod_cast whole
    exact mul_le_mul_of_nonneg_right whole step.le
  · have short : v / 2 ^ e < 2 ^ 53 := (div_lt_iff₀ (two_zpow_pos e)).mpr rounds.below
    have half := two_zpow_mono (by omega : e ≤ k - 1)
    rw [zpow_sub_one₀ (by norm_num)] at half
    calc (m : ℚ) * 2 ^ e ≤ (2 ^ 53 + 1) * 2 ^ e :=
          mul_le_mul_of_nonneg_right (by linarith) (two_zpow_pos e).le
      _ ≤ (2 ^ 53 + 1) * (2 ^ k * 2⁻¹) := mul_le_mul_of_nonneg_left half (by norm_num)
      _ ≤ (2 ^ 53 - 1) * 2 ^ k := by linarith

/-- A number that is not gets there: half a step below, the even mantissa is the next one. -/
theorem above_top (rounds : Rounds v m e) {k : ℤ} (least : leastExponent ≤ k)
    (enough : (2 ^ 53 - 1 / 2) * 2 ^ k ≤ v) : (2 ^ 53 : ℚ) * 2 ^ k ≤ m * 2 ^ e := by
  have step := two_zpow_pos k
  have le : k ≤ e := rounds.le_exponent (by linarith)
  have near := (abs_le.mp rounds.nearest.near).1
  rcases le.eq_or_lt with rfl | higher
  · have long : 2 ^ 53 - 1 / 2 ≤ v / 2 ^ k := (le_div_iff₀ step).mpr enough
    have whole : 2 ^ 53 ≤ m + 1 := by
      have real : (2 ^ 53 : ℚ) ≤ m + 1 := by linarith
      exact_mod_cast real
    have full : 2 ^ 53 ≤ m := by
      by_contra short
      have odd : m + 1 = 2 ^ 53 := by omega
      have last : (m : ℚ) + 1 = 2 ^ 53 := by exact_mod_cast odd
      have tie : |m - v / 2 ^ k| = 1 / 2 :=
        le_antisymm rounds.nearest.near (le_abs.mpr (.inr (by linarith)))
      have even := rounds.nearest.even tie
      omega
    refine mul_le_mul_of_nonneg_right ?_ step.le
    exact_mod_cast full
  · have long : 2 ^ 52 ≤ v / 2 ^ e := by
      rw [le_div_iff₀ (two_zpow_pos e)]
      exact rounds.above.resolve_right (by omega)
    have whole : 2 ^ 52 < m + 1 := by
      have real : (2 ^ 52 : ℚ) < m + 1 := by linarith
      exact_mod_cast real
    have full : (2 ^ 52 : ℚ) ≤ m := by exact_mod_cast Nat.lt_succ_iff.mp whole
    have double := two_zpow_mono (by omega : k + 1 ≤ e)
    rw [zpow_add_one₀ (by norm_num)] at double
    calc (2 ^ 53 : ℚ) * 2 ^ k = 2 ^ 52 * (2 ^ k * 2) := by ring
      _ ≤ m * 2 ^ e := mul_le_mul full double (by positivity) (by positivity)

end Rounds

section OfRatio

variable {num den : Nat}

theorem ofRatio_near (negative : Bool) (positive : 0 < den)
    (moderate : (num / den : ℚ) < 2 ^ (200 : ℤ))
    (apart : num = 0 ∨ (1 / 2 ^ 100 : ℚ) ≤ num / den) :
    ∃ x, ofRatio negative num den = .finite x ∧ x.negative = negative ∧
      |x.magnitude - num / den| ≤ num / den / 2 ^ 53 := by
  rcases Nat.eq_zero_or_pos num with rfl | filled
  · refine ⟨zero negative, if_pos rfl, rfl, ?_⟩
    rw [magnitude_zero, Nat.cast_zero, zero_div, zero_div, sub_zero, abs_zero]
  · obtain ⟨m, e, result, rounds, same, becomes⟩ := rounds_ofRatio negative filled positive
    have error := rounds.relative (apart.resolve_left filled.ne')
    have small : e ≤ 200 := by
      refine rounds.exponent_le (by decide) (moderate.trans ?_)
      have step := two_zpow_pos 200
      rw [zpow_add_one₀ (by norm_num)]
      linarith
    cases becomes with
    | @finite x sign value bounded =>
      rw [← value] at error
      exact ⟨x, same, sign, error⟩
    | infinite past => exact absurd (past.trans small) (by decide)

theorem ofRatio_below (negative : Bool) (positive : 0 < den) {k : ℤ} (least : leastExponent ≤ k)
    (most : k < greatestExponent) (less : (num / den : ℚ) < (2 ^ 53 - 1 / 2) * 2 ^ k) :
    ∃ x, ofRatio negative num den = .finite x ∧ x.negative = negative ∧
      x.magnitude ≤ (2 ^ 53 - 1) * 2 ^ k := by
  rcases Nat.eq_zero_or_pos num with rfl | filled
  · refine ⟨zero negative, if_pos rfl, rfl, ?_⟩
    rw [magnitude_zero]
    exact mul_nonneg (by norm_num) (two_zpow_pos k).le
  · obtain ⟨m, e, result, rounds, same, becomes⟩ := rounds_ofRatio negative filled positive
    obtain ⟨le, bound⟩ := rounds.below_top least less
    cases becomes with
    | @finite x sign value bounded =>
      rw [← value] at bound
      exact ⟨x, same, sign, bound⟩
    | infinite past => exact absurd (past.trans le) (not_le.mpr most)

theorem ofRatio_above (negative : Bool) (positive : 0 < den) {k : ℤ} (least : leastExponent ≤ k)
    (enough : ((2 ^ 53 - 1 / 2) * 2 ^ k : ℚ) ≤ num / den) :
    ofRatio negative num den = .infinite negative ∨
      ∃ x, ofRatio negative num den = .finite x ∧ x.negative = negative ∧
        2 ^ 53 * 2 ^ k ≤ x.magnitude := by
  have filled : 0 < num := by
    refine Nat.pos_of_ne_zero ?_
    rintro rfl
    rw [Nat.cast_zero, zero_div] at enough
    linarith [two_zpow_pos k]
  obtain ⟨m, e, result, rounds, same, becomes⟩ := rounds_ofRatio negative filled positive
  have bound := rounds.above_top least enough
  cases becomes with
  | @finite x sign value bounded =>
    rw [← value] at bound
    exact .inr ⟨x, same, sign, bound⟩
  | infinite past => exact .inl same

end OfRatio

end ExtensionLock.Binary64

import ExtensionLock.Config
import ExtensionLock.Extension.Context
import ExtensionLock.Proofs.Finish
import ExtensionLock.Proofs.Rounding

/-! Timeouts as implementations get them: the time that they ask for, in seconds, times the factor
of the configuration. A valid configuration makes sure that there is a product, but not that it is
short enough for a length of time; neither does a factor of one. -/

namespace ExtensionLock

open Binary64 (Nearest)

namespace Duration

def inSeconds (d : Duration) : ℚ := d.seconds + d.nanoseconds / perSecond

def total (d : Duration) : ℕ := d.seconds * perSecond + d.nanoseconds

variable {d r : Duration} {n : ℕ} {x s : Binary64}

theorem ofNanoseconds?_eq_none : ofNanoseconds? n = none ↔ 2 ^ 64 * perSecond ≤ n := by
  have fits : n / perSecond < UInt64.size ↔ n < 2 ^ 64 * perSecond :=
    Nat.div_lt_iff_lt_mul (by decide)
  rw [ofNanoseconds?, ← not_lt, ← fits]
  split
  · rename_i short
    exact ⟨fun none => (by cases none), fun long => absurd short long⟩
  · rename_i long
    exact ⟨fun _ => long, fun _ => rfl⟩

theorem ofNanoseconds?_eq_some (short : ofNanoseconds? n = some r) : r.total = n := by
  rw [ofNanoseconds?] at short
  split at short
  · cases short
    exact Nat.div_add_mod' n perSecond
  · cases short

theorem ofSeconds?_finite (sign : x.negative = false) :
    ∃ n, Nearest (x.magnitude * perSecond) n ∧ ofSeconds? (.finite x) = ofNanoseconds? n := by
  refine ⟨Binary64.divideNearest (x.toRatio.1 * perSecond) x.toRatio.2, ?_, ?_⟩
  · have nearest := Binary64.nearest_divideNearest (x.toRatio.1 * perSecond) x.toRatio_pos
    rwa [Nat.cast_mul, mul_div_right_comm, x.toRatio_div] at nearest
  · rw [ofSeconds?, sign, Bool.false_and, if_neg Bool.false_ne_true]

theorem perSecond_cast : (perSecond : ℚ) = 10 ^ 9 := by norm_num [perSecond]

/-- The greatest number below `2 ^ 64` is so far below that no rounding makes up for it. -/
theorem ofSeconds?_short (sign : x.negative = false) (short : x.magnitude ≤ 2 ^ 64 - 2 ^ 11) :
    ∃ r, ofSeconds? (.finite x) = some r ∧ Nearest (x.magnitude * perSecond) r.total := by
  obtain ⟨n, nearest, answer⟩ := ofSeconds?_finite sign
  have fits : n < 2 ^ 64 * perSecond := by
    have near := (abs_le.mp nearest.near).2
    rw [perSecond_cast] at near
    have real : (n : ℚ) < 2 ^ 64 * perSecond := by
      rw [perSecond_cast]
      linarith
    exact_mod_cast real
  cases found : ofNanoseconds? n with
  | none => exact absurd (ofNanoseconds?_eq_none.mp found) (not_le.mpr fits)
  | some r =>
    refine ⟨r, answer.trans found, ?_⟩
    rw [ofNanoseconds?_eq_some found]
    exact nearest

theorem ofSeconds?_long (sign : x.negative = false) (long : 2 ^ 64 ≤ x.magnitude) :
    ofSeconds? (.finite x) = none := by
  obtain ⟨n, nearest, answer⟩ := ofSeconds?_finite sign
  have near := (abs_le.mp nearest.near).1
  rw [perSecond_cast] at near
  have real : (2 ^ 64 * perSecond : ℚ) < n + 1 := by
    rw [perSecond_cast]
    linarith
  have past : 2 ^ 64 * perSecond < n + 1 := by exact_mod_cast real
  rw [answer]
  exact ofNanoseconds?_eq_none.mpr (Nat.le_of_lt_succ past)

end Duration

namespace Binary64

theorem sum_ratio (x y : Binary64) :
    ((x.toRatio.1 * y.toRatio.2 + y.toRatio.1 * x.toRatio.2 : ℕ) : ℚ) /
      (x.toRatio.2 * y.toRatio.2 : ℕ) = x.magnitude + y.magnitude := by
  have first : (x.toRatio.2 : ℚ) ≠ 0 := by exact_mod_cast x.toRatio_pos.ne'
  have second : (y.toRatio.2 : ℚ) ≠ 0 := by exact_mod_cast y.toRatio_pos.ne'
  rw [← x.toRatio_div, ← y.toRatio_div, div_add_div _ _ first second]
  push_cast
  ring

theorem product_ratio (x y : Binary64) :
    ((x.toRatio.1 * y.toRatio.1 : ℕ) : ℚ) / (x.toRatio.2 * y.toRatio.2 : ℕ) =
      x.magnitude * y.magnitude := by
  rw [← x.toRatio_div, ← y.toRatio_div, div_mul_div_comm]
  push_cast
  rfl

theorem mul_eq {x y : Binary64} (sign : x.negative = false) (sign' : y.negative = false) :
    x.mul y = ofRatio false (x.toRatio.1 * y.toRatio.1) (x.toRatio.2 * y.toRatio.2) := by
  rw [mul, sign, sign']
  rfl

end Binary64

namespace Duration

variable {n k : ℕ}

theorem apart_of_coarse (positive : 0 < k) (coarse : k ≤ 10 ^ 9) :
    n = 0 ∨ (1 / 10 ^ 9 : ℚ) ≤ n / k := by
  rcases Nat.eq_zero_or_pos n with none | some
  · exact .inl none
  · have divisor : (0 : ℚ) < k := by exact_mod_cast positive
    have one : (1 : ℚ) ≤ n := by exact_mod_cast some
    have bound : (k : ℚ) ≤ 10 ^ 9 := by exact_mod_cast coarse
    refine .inr ?_
    rw [div_le_div_iff₀ (by norm_num) divisor, one_mul]
    linarith

theorem ofRatio_reading (positive : 0 < k) (coarse : k ≤ 10 ^ 9) (short : n < 2 ^ 64) :
    ∃ x, Binary64.ofRatio false n k = .finite x ∧
      |x.magnitude - n / k| ≤ n / k / 2 ^ 53 := by
  have one : (1 : ℚ) ≤ k := by exact_mod_cast positive
  have bound : (n : ℚ) < 2 ^ 64 := by exact_mod_cast short
  have moderate : (n / k : ℚ) < 2 ^ (200 : ℤ) :=
    calc (n / k : ℚ) ≤ n := div_le_self (Nat.cast_nonneg n) one
      _ < 2 ^ 64 := bound
      _ ≤ 2 ^ (200 : ℤ) := by norm_num
  have apart : n = 0 ∨ (1 / 2 ^ 100 : ℚ) ≤ n / k :=
    (apart_of_coarse positive coarse).imp_right (fun enough => le_trans (by norm_num) enough)
  obtain ⟨x, same, -, near⟩ := Binary64.ofRatio_near false positive moderate apart
  exact ⟨x, same, near⟩

theorem inSeconds_coarse (d : Duration) : d.inSeconds = 0 ∨ 1 / 10 ^ 9 ≤ d.inSeconds := by
  have clock := apart_of_coarse (n := d.seconds) Nat.one_pos (by norm_num)
  have clock' := apart_of_coarse (n := d.nanoseconds) (k := perSecond) (by decide)
    (by norm_num [perSecond])
  have rest : (0 : ℚ) ≤ d.nanoseconds / perSecond := by positivity
  rw [Nat.cast_one, div_one] at clock
  rw [inSeconds]
  rcases clock with none | some
  · rw [none, Nat.cast_zero, zero_add]
    refine clock'.imp_left (fun none' => ?_)
    rw [none', Nat.cast_zero, zero_div]
  · exact .inr (by linarith)

theorem inSeconds_lt (d : Duration) : d.inSeconds < 2 ^ 65 := by
  have whole : (d.seconds : ℚ) < 2 ^ 64 := by exact_mod_cast d.fits.1
  have part : (d.nanoseconds / perSecond : ℚ) < 1 := by
    rw [div_lt_one (by norm_num [perSecond])]
    exact_mod_cast d.fits.2
  rw [inSeconds]
  linarith

theorem addMagnitudes_near {x y : Binary64} (d : Duration)
    (sum : |x.magnitude + y.magnitude - d.inSeconds| ≤ d.inSeconds / 2 ^ 53) :
    ∃ s, x.addMagnitudes y = .finite s ∧ s.negative = false ∧
      |s.magnitude - d.inSeconds| ≤ d.inSeconds / 2 ^ 51 := by
  obtain ⟨v, value⟩ : ∃ v, x.magnitude + y.magnitude = v := ⟨_, rfl⟩
  have ratio := Binary64.sum_ratio x y
  rw [value] at sum ratio
  have bounds := abs_le.mp sum
  have positive := Nat.mul_pos x.toRatio_pos y.toRatio_pos
  have apart : x.toRatio.1 * y.toRatio.2 + y.toRatio.1 * x.toRatio.2 = 0 ∨
      (1 / 2 ^ 100 : ℚ) ≤ v := by
    rcases d.inSeconds_coarse with nothing | some
    · have none : v = 0 := by
        rw [nothing, zero_div, neg_zero, sub_zero] at bounds
        exact le_antisymm bounds.2 bounds.1
      rw [none, div_eq_zero_iff, Nat.cast_eq_zero, Nat.cast_eq_zero] at ratio
      exact .inl (ratio.resolve_right positive.ne')
    · have far : (1 / 2 ^ 100 : ℚ) ≤ 1 / 10 ^ 9 / 2 := by norm_num
      exact .inr (by linarith [bounds.1])
  have moderate : v < 2 ^ (200 : ℤ) := by
    have far : (2 ^ 66 : ℚ) ≤ 2 ^ (200 : ℤ) := by norm_num
    linarith [bounds.2, d.inSeconds_lt]
  obtain ⟨s, rounded, sign, last⟩ :=
    Binary64.ofRatio_near false positive (ratio ▸ moderate) (ratio ▸ apart)
  rw [ratio] at last
  have bounds' := abs_le.mp last
  refine ⟨s, rounded, sign, abs_le.mpr ?_⟩
  constructor <;> linarith [bounds.1, bounds.2, bounds'.1, bounds'.2]

theorem toSeconds_near (d : Duration) : ∃ s, d.toSeconds = .finite s ∧ s.negative = false ∧
    |s.magnitude - d.inSeconds| ≤ d.inSeconds / 2 ^ 51 := by
  obtain ⟨whole, first, near⟩ := ofRatio_reading (n := d.seconds) Nat.one_pos (by norm_num)
    d.fits.1
  obtain ⟨part, second, near'⟩ := ofRatio_reading (n := d.nanoseconds) (k := perSecond)
    (by decide) (by norm_num [perSecond]) (d.fits.2.trans (by norm_num))
  rw [Nat.cast_one, div_one] at near
  have total : d.seconds + d.nanoseconds / perSecond = d.inSeconds := rfl
  have sum : |whole.magnitude + part.magnitude - d.inSeconds| ≤ d.inSeconds / 2 ^ 53 := by
    rw [abs_le] at near near' ⊢
    constructor <;> linarith [near.1, near.2, near'.1, near'.2]
  obtain ⟨s, added, rest⟩ := addMagnitudes_near d sum
  refine ⟨s, ?_, rest⟩
  rw [toSeconds, Binary64.ofNat, first, second]
  exact added

/-- What is asked for times a factor, and what becomes of it. The product is infinite or too long
just from the number on that is half a step below `2 ^ 64`. -/
theorem scaled_product {d : Duration} {x s : Binary64} (sign : x.negative = false)
    (seconds : d.toSeconds = .finite s) (sign' : s.negative = false) :
    (d.scaled (.finite x) = none ↔ 2 ^ 64 - 2 ^ 10 ≤ x.magnitude * s.magnitude) ∧
    ∀ r, d.scaled (.finite x) = some r → ∃ p, x.mul s = .finite p ∧
      Nearest (p.magnitude * perSecond) r.total := by
  have positive := Nat.mul_pos x.toRatio_pos s.toRatio_pos
  have ratio := Binary64.product_ratio x s
  have top : ((2 ^ 53 - 1 / 2) * 2 ^ (11 : ℤ) : ℚ) = 2 ^ 64 - 2 ^ 10 := by norm_num
  have whole : d.scaled (.finite x) = ofSeconds? (x.mul s) := by rw [scaled, seconds, product]
  rw [whole, Binary64.mul_eq sign sign']
  rcases lt_or_ge (x.magnitude * s.magnitude) (2 ^ 64 - 2 ^ 10) with less | enough
  · obtain ⟨p, same, positive, short⟩ := Binary64.ofRatio_below (k := 11) false positive
      (by decide) (by decide) (by rw [ratio, top]; exact less)
    obtain ⟨r, answer, nearest⟩ := ofSeconds?_short positive (short.trans (by norm_num))
    rw [same, answer]
    refine ⟨iff_of_false (Option.some_ne_none r) (not_le.mpr less), ?_⟩
    rintro _ ⟨⟩
    exact ⟨p, rfl, nearest⟩
  · have none : ofSeconds? (Binary64.ofRatio false (x.toRatio.1 * s.toRatio.1)
        (x.toRatio.2 * s.toRatio.2)) = none := by
      rcases Binary64.ofRatio_above (k := 11) false positive (by decide)
        (by rw [ratio, top]; exact enough) with same | ⟨p, same, positive, long⟩
      · rw [same]
        rfl
      · rw [same]
        exact ofSeconds?_long positive (le_trans (by norm_num) long)
    rw [none]
    exact ⟨iff_of_true rfl enough, fun r some => (by cases some)⟩

end Duration

theorem ResolverConfig.scaling_of_valid {c : ResolverConfig} (valid : c.validate = .ok ()) :
    ∃ x, c.options.timeoutScaling = .finite x ∧ x.negative = false ∧ 0 < x.magnitude := by
  rw [validate] at valid
  split at valid
  · cases valid
  · rename_i proper
    clear valid
    rw [Bool.not_eq_true, Bool.not_eq_false', Bool.and_eq_true] at proper
    obtain ⟨-, positive⟩ := proper
    cases scaling : c.options.timeoutScaling with
    | finite x =>
      rw [scaling, Extended.isPositive, Bool.and_eq_true, Bool.not_eq_true', Bool.not_eq_true',
        Binary64.isZero, beq_eq_false_iff_ne] at positive
      refine ⟨x, rfl, positive.1, mul_pos ?_ (Binary64.two_zpow_pos x.exponent)⟩
      exact_mod_cast Nat.pos_of_ne_zero positive.2
    | infinite negative =>
      rw [scaling] at positive
      cases positive
    | nan =>
      rw [scaling] at positive
      cases positive

/-- A time that is asked for is scaled in a valid configuration, and nothing else happens, exactly
if the product of the numbers for factor and seconds is below `2 ^ 64 - 2 ^ 10`. The answer is then
the length of time nearest to the rounded product. From there on there is no answer at all, however
valid the configuration is; with products up to `2 ^ 63` seconds there is one. -/
theorem timeout_answered (c : ResolverConfig) (valid : c.validate = .ok ()) (context : Context)
    (lent : context.capabilities.timeoutScaling = c.options.timeoutScaling) (d : Duration)
    (st : Context.Progress) :
    ∃ x s, c.options.timeoutScaling = .finite x ∧ 0 < x.magnitude ∧ d.toSeconds = .finite s ∧
      |s.magnitude - d.inSeconds| ≤ d.inSeconds / 2 ^ 51 ∧
      (context.perform st (.timeout d)).2 = st ∧
      ((context.perform st (.timeout d)).1 = none ↔
        2 ^ 64 - 2 ^ 10 ≤ x.magnitude * s.magnitude) ∧
      (∀ r, (context.perform st (.timeout d)).1 = some r → ∃ p, x.mul s = .finite p ∧
        Nearest (p.magnitude * Duration.perSecond) r.total) ∧
      (x.magnitude * d.inSeconds ≤ 2 ^ 63 → (context.perform st (.timeout d)).1 ≠ none) := by
  obtain ⟨x, scaling, sign, positive⟩ := ResolverConfig.scaling_of_valid valid
  obtain ⟨s, seconds, sign', near⟩ := d.toSeconds_near
  obtain ⟨none_iff, answers⟩ := Duration.scaled_product sign seconds sign'
  have performed : context.perform st (.timeout d) = (d.scaled (.finite x), st) := by
    rw [Context.perform, lent, scaling]
  rw [performed]
  refine ⟨x, s, scaling, positive, seconds, near, rfl, none_iff, answers, fun moderate none => ?_⟩
  have long := none_iff.mp none
  have bound : s.magnitude ≤ d.inSeconds + d.inSeconds / 2 ^ 51 := by
    linarith [(abs_le.mp near).2]
  have product := mul_le_mul_of_nonneg_left bound positive.le
  rw [mul_add, ← mul_div_assoc] at product
  linarith

section Longest

def scalingContext : Context :=
  ⟨depsId, [], .named ⟨"out"⟩ "_main~deps",
    ⟨.empty, .offline, ResolverConfig.default.options.timeoutScaling⟩,
    soleEngine bareLockfile.depGraph (.done (.ok .none))⟩

/-- With the default factor ten minutes are answered, and the longest time there is is not. -/
theorem longest_timeout_unanswered :
    (scalingContext.perform ⟨.ofFiles .empty, .empty⟩ (.timeout ⟨600, 0, by decide⟩)).1 ≠ none ∧
    (scalingContext.perform ⟨.ofFiles .empty, .empty⟩
      (.timeout ⟨18446744073709551615, 999999999, by decide⟩)).1 = none := by
  constructor
  · obtain ⟨x, s, same, -, -, -, -, -, -, answered⟩ := timeout_answered .default rfl
      scalingContext rfl ⟨600, 0, by decide⟩ ⟨.ofFiles .empty, .empty⟩
    cases same
    refine answered ?_
    norm_num [Binary64.magnitude, Binary64.one, Binary64.leastMantissa, Duration.inSeconds]
  · obtain ⟨x, s, same, -, seconds, -, -, unanswered, -⟩ := timeout_answered .default rfl
      scalingContext rfl ⟨18446744073709551615, 999999999, by decide⟩ ⟨.ofFiles .empty, .empty⟩
    have rounded : Duration.toSeconds ⟨18446744073709551615, 999999999, by decide⟩ =
        .finite ⟨false, Binary64.leastMantissa, 12⟩ := by decide +kernel
    cases same
    cases rounded.symm.trans seconds
    refine unanswered.mpr ?_
    norm_num [Binary64.magnitude, Binary64.one, Binary64.leastMantissa]

end Longest

end ExtensionLock

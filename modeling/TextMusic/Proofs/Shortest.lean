/-
The shortest decimal of a single.  It lies among the numbers that are rounded to the
single, no further from it than half a place of its own, and it has few digits.
-/
import Mathlib.Algebra.Order.Field.Power
import Mathlib.Tactic.FieldSimp
import Mathlib.Tactic.Linarith
import Mathlib.Tactic.LinearCombination
import Mathlib.Tactic.Ring
import TextMusic.Decimal.Shortest

namespace TextMusic

/-! ## Rounding to a whole number -/

/-- What a quotient is rounded to is one of the two whole numbers beside it, and no
further than a half from it. -/
theorem roundHalfEven_near (numerator : Nat) {denominator : Nat} (h : 0 < denominator) :
    (roundHalfEven numerator denominator = numerator / denominator ∨
      roundHalfEven numerator denominator = numerator / denominator + 1) ∧
    2 * numerator ≤
      2 * (roundHalfEven numerator denominator * denominator) + denominator ∧
    2 * (roundHalfEven numerator denominator * denominator) ≤
      2 * numerator + denominator := by
  have hrest := Nat.mod_lt numerator h
  have hsplit := Nat.div_add_mod' numerator denominator
  have hnext := Nat.succ_mul (numerator / denominator) denominator
  rw [roundHalfEven]
  split_ifs with hbelow habove
  · omega
  · rw [hnext]
    omega
  · rcases Nat.mod_two_eq_zero_or_one (numerator / denominator) with heven | hodd
    · rw [heven, Nat.add_zero]
      omega
    · rw [hodd, hnext]
      omega

/-- A quotient that is nearest to a whole number, or halfway and the number even, is
rounded to it. -/
theorem roundHalfEven_eq {numerator denominator whole : Nat} (h : 0 < denominator)
    (hlow : 2 * (whole * denominator) ≤ 2 * numerator + denominator)
    (hhigh : 2 * numerator ≤ 2 * (whole * denominator) + denominator)
    (htie : 2 * (whole * denominator) = 2 * numerator + denominator ∨
      2 * numerator = 2 * (whole * denominator) + denominator → whole % 2 = 0) :
    roundHalfEven numerator denominator = whole := by
  by_cases hbelow : whole * denominator ≤ numerator
  · obtain ⟨rest, rfl⟩ := Nat.exists_eq_add_of_le hbelow
    have hrest : rest < denominator := by omega
    have hquotient : (whole * denominator + rest) / denominator = whole := by
      rw [Nat.mul_comm, Nat.mul_add_div h, Nat.div_eq_of_lt hrest, Nat.add_zero]
    have hremainder : (whole * denominator + rest) % denominator = rest := by
      rw [Nat.mul_comm, Nat.mul_add_mod, Nat.mod_eq_of_lt hrest]
    rw [roundHalfEven, hquotient, hremainder]
    split_ifs with hless hmore
    · rfl
    · omega
    · rw [htie (.inr (by omega)), Nat.add_zero]
  · obtain ⟨below, rfl⟩ : ∃ below, whole = below + 1 := by
      refine Nat.exists_eq_add_one_of_ne_zero ?_
      rintro rfl
      omega
    have hnext := Nat.succ_mul below denominator
    rw [Nat.succ_eq_add_one] at hnext
    obtain ⟨rest, rfl⟩ : ∃ rest, numerator = below * denominator + rest :=
      Nat.exists_eq_add_of_le (by omega)
    have hrest : rest < denominator := by omega
    have hquotient : (below * denominator + rest) / denominator = below := by
      rw [Nat.mul_comm, Nat.mul_add_div h, Nat.div_eq_of_lt hrest, Nat.add_zero]
    have hremainder : (below * denominator + rest) % denominator = rest := by
      rw [Nat.mul_comm, Nat.mul_add_mod, Nat.mod_eq_of_lt hrest]
    rw [roundHalfEven, hquotient, hremainder]
    split_ifs with hless hmore
    · omega
    · rfl
    · have heven := htie (.inl (by omega))
      omega

/-! ## The number nearest to the value -/

namespace RoundingInterval

namespace Scaled

variable {scaled : Scaled}

/-- An interval that reaches as far below its value as above. -/
structure Symmetric (scaled : Scaled) (width : Nat) : Prop where
  positive : 0 < scaled.denominator
  low : scaled.low + width = scaled.value
  high : scaled.high = scaled.value + width

theorem contains_iff {n : Nat} : scaled.contains n = true ↔
    if scaled.closed then
      scaled.low ≤ n * scaled.denominator ∧ n * scaled.denominator ≤ scaled.high
    else scaled.low < n * scaled.denominator ∧ n * scaled.denominator < scaled.high := by
  rw [contains]
  split_ifs <;> simp

/-- The number that is found lies in the interval and is nearest to the value. -/
theorem nearest?_spec {width n : Nat} (h : scaled.Symmetric width)
    (hn : scaled.nearest? = some n) :
    scaled.contains n = true ∧
      2 * scaled.value ≤ 2 * (n * scaled.denominator) + scaled.denominator ∧
      2 * (n * scaled.denominator) ≤ 2 * scaled.value + scaled.denominator := by
  obtain ⟨hpositive, hlow, hhigh⟩ := h
  have hrest := Nat.mod_lt scaled.value hpositive
  have hsplit := Nat.div_add_mod' scaled.value scaled.denominator
  have hnext := Nat.succ_mul (scaled.value / scaled.denominator) scaled.denominator
  rw [Nat.succ_eq_add_one] at hnext
  obtain ⟨hcases, hnear⟩ := roundHalfEven_near scaled.value hpositive
  rw [nearest?] at hn
  cases hb : scaled.contains (scaled.value / scaled.denominator) <;>
    cases ha : scaled.contains (scaled.value / scaled.denominator + 1) <;>
      simp only [hb, ha, Option.some.injEq, reduceCtorEq] at hn
  · -- the number above alone: the one below is further from the value than the
    -- interval is wide
    subst hn
    refine ⟨ha, ?_⟩
    rw [← Bool.not_eq_true, contains_iff] at hb
    rw [contains_iff] at ha
    split_ifs at hb ha <;> omega
  · subst hn
    refine ⟨hb, ?_⟩
    rw [contains_iff] at hb
    rw [← Bool.not_eq_true, contains_iff] at ha
    split_ifs at hb ha <;> omega
  · subst hn
    refine ⟨?_, hnear⟩
    rcases hcases with hcase | hcase <;> rw [hcase]
    · exact hb
    · exact ha

/-- On a grid finer than the interval is wide some number lies in it. -/
theorem isSome_nearest? {width : Nat} (h : scaled.Symmetric width)
    (hfine : scaled.denominator ≤ width) : scaled.nearest?.isSome = true := by
  obtain ⟨hpositive, hlow, hhigh⟩ := h
  have hrest := Nat.mod_lt scaled.value hpositive
  have hsplit := Nat.div_add_mod' scaled.value scaled.denominator
  have hb : scaled.contains (scaled.value / scaled.denominator) = true := by
    rw [contains_iff]
    split_ifs <;> omega
  rw [nearest?, hb]
  cases scaled.contains (scaled.value / scaled.denominator + 1) <;> rfl

end Scaled

/-- How many units of the common denominator the unit of the interval has. -/
def unit (interval : RoundingInterval) (place : Int) : Nat :=
  Nat.pow 2 interval.exponent.toNat * Nat.pow 10 (-place).toNat

variable (interval : RoundingInterval) (place : Int)

theorem low_scale : (interval.scale place).low = interval.low * interval.unit place := rfl

theorem value_scale :
    (interval.scale place).value = interval.value * interval.unit place := rfl

theorem high_scale :
    (interval.scale place).high = interval.high * interval.unit place := rfl

theorem unit_pos : 0 < interval.unit place :=
  Nat.mul_pos (Nat.pow_pos two_pos) (Nat.pow_pos (by decide))

theorem denominator_pos : 0 < (interval.scale place).denominator :=
  Nat.mul_pos (Nat.pow_pos two_pos) (Nat.pow_pos (by decide))

theorem pow_neg_toNat_mul_zpow {base : ℚ} (h : base ≠ 0) (e : Int) :
    base ^ (-e).toNat * base ^ e = base ^ e.toNat := by
  have hsum : ((-e).toNat : Int) + e = e.toNat := by omega
  rw [← zpow_natCast, ← zpow_natCast, ← zpow_add₀ h, hsum]

/-- The units of the interval and of the grid have the same common denominator. -/
theorem denominator_mul :
    ((interval.scale place).denominator : ℚ) * 2 ^ interval.exponent =
    interval.unit place * 10 ^ place := by
  have htwo :=
    pow_neg_toNat_mul_zpow (show (2 : ℚ) ≠ 0 from two_ne_zero) interval.exponent
  have hten := pow_neg_toNat_mul_zpow (show (10 : ℚ) ≠ 0 by norm_num) place
  have hdenominator : ((interval.scale place).denominator : ℚ) =
      2 ^ (-interval.exponent).toNat * 10 ^ place.toNat := by
    exact_mod_cast rfl
  have hunit : (interval.unit place : ℚ) =
      2 ^ interval.exponent.toNat * 10 ^ (-place).toNat := by
    exact_mod_cast rfl
  rw [hdenominator, hunit, mul_right_comm, htwo, mul_assoc, hten]

/-- One factor takes whole multiples of both units to the numbers they stand for. -/
theorem exists_factor : ∃ factor : ℚ, 0 < factor ∧
    (∀ k : Nat, (k : ℚ) * 2 ^ interval.exponent =
      factor * (k * interval.unit place : Nat)) ∧
    ∀ n : Nat, (n : ℚ) * 10 ^ place =
      factor * (n * (interval.scale place).denominator : Nat) := by
  have hunit : (0 : ℚ) < interval.unit place := by exact_mod_cast interval.unit_pos place
  have hpower : (0 : ℚ) < 2 ^ interval.exponent := zpow_pos two_pos _
  have hcommon := interval.denominator_mul place
  refine ⟨2 ^ interval.exponent / interval.unit place, div_pos hpower hunit, ?_, ?_⟩
  · intro k
    push_cast
    field_simp
  · intro n
    push_cast
    rw [div_mul_eq_mul_div, eq_div_iff hunit.ne']
    linear_combination -(n : ℚ) * hcommon

end RoundingInterval

/-! ## Singles between two neighbours at the same distance -/

/-- The number is rounded to the mantissa among those with its exponent; halfway the even
one is taken. -/
structure Dyadic.Attracts (parts : Dyadic) (y : ℚ) : Prop where
  near : |y - parts.mantissa * 2 ^ parts.exponent| ≤ 2 ^ parts.exponent / 2
  tie : |y - parts.mantissa * 2 ^ parts.exponent| = 2 ^ parts.exponent / 2 →
    parts.mantissa % 2 = 0

/-- The neighbours of a positive single lie at the same distance. -/
structure Dyadic.Regular (parts : Dyadic) : Prop where
  positive : 0 < parts.mantissa
  mantissa_lt : parts.mantissa < 2 ^ 24
  floor : -149 ≤ parts.exponent
  ceiling : parts.exponent ≤ 104
  regular : parts.mantissa ≠ 2 ^ 23 ∨ parts.exponent = -149

namespace Dyadic.Regular

variable {parts : Dyadic} (h : parts.Regular)

include h

theorem roundingInterval_eq : parts.roundingInterval =
    ⟨4 * parts.mantissa - 2, 4 * parts.mantissa, 4 * parts.mantissa + 2,
      parts.exponent - 2, parts.mantissa % 2 == 0⟩ := by
  have hregular := h.regular
  have hnarrow : ¬ (parts.mantissa = Nat.pow 2 23 ∧ parts.exponent > -149) := by
    rintro ⟨hmantissa, hexponent⟩
    rcases hregular with hregular | hregular
    · exact hregular hmantissa
    · omega
  rw [roundingInterval, if_neg hnarrow]

theorem symmetric (place : Int) : (parts.roundingInterval.scale place).Symmetric
    (2 * parts.roundingInterval.unit place) := by
  have hpositive := h.positive
  refine ⟨RoundingInterval.denominator_pos _ _, ?_, ?_⟩
  · rw [RoundingInterval.low_scale, RoundingInterval.value_scale, ← Nat.add_mul,
      h.roundingInterval_eq]
    congr 1
    dsimp only
    omega
  · rw [RoundingInterval.high_scale, RoundingInterval.value_scale, ← Nat.add_mul,
      h.roundingInterval_eq]

/-- One factor takes the numerators to numbers: the single, half of its place, and the
grid. -/
theorem exists_factor (place : Int) : ∃ factor : ℚ, 0 < factor ∧
    (parts.mantissa : ℚ) * 2 ^ parts.exponent =
      factor * (parts.roundingInterval.scale place).value ∧
    2 ^ parts.exponent / 2 = factor * (2 * parts.roundingInterval.unit place : Nat) ∧
    10 ^ place = factor * (parts.roundingInterval.scale place).denominator ∧
    ∀ n : Nat, (n : ℚ) * 10 ^ place =
      factor * (n * (parts.roundingInterval.scale place).denominator : Nat) := by
  obtain ⟨factor, hfactor, hunits, hgrid⟩ :=
    RoundingInterval.exists_factor parts.roundingInterval place
  have hexponent :
      (2 : ℚ) ^ parts.roundingInterval.exponent = 2 ^ parts.exponent / 4 := by
    rw [h.roundingInterval_eq, zpow_sub₀ two_ne_zero]
    norm_num
  have hvalue : parts.roundingInterval.value = 4 * parts.mantissa := by
    rw [h.roundingInterval_eq]
  rw [hexponent] at hunits
  refine ⟨factor, hfactor, ?_, ?_, ?_, hgrid⟩
  · rw [RoundingInterval.value_scale, hvalue, ← hunits]
    push_cast
    ring
  · rw [← hunits]
    push_cast
    ring
  · have hone := hgrid 1
    rwa [Nat.cast_one, one_mul, Nat.one_mul] at hone

/-- What the nearest number of a grid comes to. -/
theorem spec_of_nearest? {place : Int} {n : Nat}
    (hn : (parts.roundingInterval.scale place).nearest? = some n) :
    parts.Attracts (n * 10 ^ place) ∧
      |n * 10 ^ place - (parts.mantissa : ℚ) * 2 ^ parts.exponent| ≤ 10 ^ place / 2 := by
  have hsymmetric := h.symmetric place
  obtain ⟨hcontains, hlow, hhigh⟩ := RoundingInterval.Scaled.nearest?_spec hsymmetric hn
  obtain ⟨factor, hfactor, hvalue, hwidth, hplace, hgrid⟩ := h.exists_factor place
  have hclosed :
      (parts.roundingInterval.scale place).closed = (parts.mantissa % 2 == 0) := by
    change parts.roundingInterval.closed = _
    rw [h.roundingInterval_eq]
  obtain ⟨-, hbelow, habove⟩ := hsymmetric
  rw [RoundingInterval.Scaled.contains_iff, hclosed, habove] at hcontains
  generalize (parts.roundingInterval.scale place).value = value at *
  generalize (parts.roundingInterval.scale place).denominator = denominator at *
  generalize 2 * parts.roundingInterval.unit place = width at *
  generalize (parts.roundingInterval.scale place).low = low at *
  have hdistance : |(n : ℚ) * 10 ^ place - parts.mantissa * 2 ^ parts.exponent| =
      factor * |(n * denominator : ℚ) - value| := by
    rw [hgrid, hvalue, ← mul_sub, abs_mul, abs_of_pos hfactor]
    push_cast
    rfl
  have hwide : |(n * denominator : ℚ) - value| ≤ width ∧
      (|(n * denominator : ℚ) - value| = width → parts.mantissa % 2 = 0) := by
    by_cases heven : (parts.mantissa % 2 == 0) = true
    · rw [if_pos heven] at hcontains
      refine ⟨?_, fun _ => beq_iff_eq.mp heven⟩
      have hfirst : (value : ℚ) ≤ n * denominator + width := by
        exact_mod_cast (show value ≤ n * denominator + width by omega)
      have hsecond : (n * denominator : ℚ) ≤ value + width := by
        exact_mod_cast hcontains.2
      exact abs_le.mpr ⟨by linarith, by linarith⟩
    · rw [if_neg heven] at hcontains
      have hfirst : (value : ℚ) < n * denominator + width := by
        exact_mod_cast (show value < n * denominator + width by omega)
      have hsecond : (n * denominator : ℚ) < value + width := by
        exact_mod_cast hcontains.2
      have hstrict : |(n * denominator : ℚ) - value| < width :=
        abs_lt.mpr ⟨by linarith, by linarith⟩
      exact ⟨hstrict.le, fun hequal => absurd hequal hstrict.ne⟩
  have hnear : |(n * denominator : ℚ) - value| ≤ denominator / 2 := by
    have hfirst : (2 * value : ℚ) ≤ 2 * (n * denominator) + denominator := by
      exact_mod_cast hlow
    have hsecond : (2 * (n * denominator) : ℚ) ≤ 2 * value + denominator := by
      exact_mod_cast hhigh
    exact abs_le.mpr ⟨by linarith, by linarith⟩
  refine ⟨⟨?_, ?_⟩, ?_⟩
  · rw [hdistance, hwidth]
    exact mul_le_mul_of_nonneg_left hwide.1 hfactor.le
  · rw [hdistance, hwidth]
    exact fun hequal => hwide.2 (mul_left_cancel₀ hfactor.ne' hequal)
  · rw [hdistance, hplace, mul_div_assoc]
    exact mul_le_mul_of_nonneg_left hnear hfactor.le

theorem scale_le_iff (place : Int) :
    decide ((parts.roundingInterval.scale place).denominator ≤
      (parts.roundingInterval.scale place).value) = true ↔
        (10 : ℚ) ^ place ≤ parts.mantissa * 2 ^ parts.exponent := by
  obtain ⟨factor, hfactor, hvalue, -, hplace, -⟩ := h.exists_factor place
  rw [hvalue, hplace, mul_le_mul_iff_right₀ hfactor, decide_eq_true_iff]
  exact_mod_cast Iff.rfl

theorem value_bounds : (2 : ℚ) ^ (-149 : Int) ≤ parts.mantissa * 2 ^ parts.exponent ∧
    (parts.mantissa : ℚ) * 2 ^ parts.exponent < 2 ^ 24 * 2 ^ parts.exponent ∧
    (2 : ℚ) ^ 24 * 2 ^ parts.exponent ≤ 2 ^ (128 : Int) := by
  have hpositive : (0 : ℚ) < 2 ^ parts.exponent := zpow_pos two_pos _
  have hone : (1 : ℚ) ≤ parts.mantissa := by exact_mod_cast h.positive
  have hmantissa : (parts.mantissa : ℚ) < 2 ^ 24 := by exact_mod_cast h.mantissa_lt
  have hfloor : (2 : ℚ) ^ (-149 : Int) ≤ 2 ^ parts.exponent :=
    zpow_le_zpow_right₀ one_le_two h.floor
  have hceiling : (2 : ℚ) ^ parts.exponent ≤ 2 ^ (104 : Int) :=
    zpow_le_zpow_right₀ one_le_two h.ceiling
  refine ⟨?_, mul_lt_mul_of_pos_right hmantissa hpositive, ?_⟩
  · exact hfloor.trans (le_mul_of_one_le_left hpositive.le hone)
  · refine (mul_le_mul_of_nonneg_left hceiling (by norm_num)).trans_eq ?_
    norm_num

/-- The place of the highest digit. -/
theorem leadingPlace_spec :
    (10 : ℚ) ^ parts.roundingInterval.leadingPlace ≤ parts.mantissa * 2 ^ parts.exponent ∧
      (parts.mantissa : ℚ) * 2 ^ parts.exponent <
        10 ^ (parts.roundingInterval.leadingPlace + 1) ∧
      -45 ≤ parts.roundingInterval.leadingPlace ∧
      parts.roundingInterval.leadingPlace ≤ 38 := by
  obtain ⟨hlow, hhigh, hceiling⟩ := h.value_bounds
  rw [RoundingInterval.leadingPlace]
  cases hfind : (List.range 84).find? fun (down : Nat) =>
      decide ((parts.roundingInterval.scale (38 - (down : Int))).denominator ≤
        (parts.roundingInterval.scale (38 - (down : Int))).value) with
  | none =>
      have hlast := List.find?_range_eq_none.mp hfind 83 (by decide)
      rw [Bool.not_eq_true', ← Bool.not_eq_true, h.scale_le_iff] at hlast
      refine absurd (le_trans ?_ hlow) hlast
      norm_num
  | some down =>
      obtain ⟨hfits, hdown, hbefore⟩ := List.find?_range_eq_some.mp hfind
      rw [List.mem_range] at hdown
      rw [h.scale_le_iff] at hfits
      refine ⟨hfits, ?_, ?_, ?_⟩
      · change _ < (10 : ℚ) ^ (38 - (down : Int) + 1)
        cases down with
        | zero =>
            refine (hhigh.trans_le hceiling).trans ?_
            norm_num
        | succ before =>
            have hmisses := hbefore before (Nat.lt_succ_self before)
            rw [Bool.not_eq_true', ← Bool.not_eq_true, h.scale_le_iff, not_le] at hmisses
            have hplace : 38 - ((before + 1 : Nat) : Int) + 1 = 38 - before := by omega
            rwa [hplace]
      · change -45 ≤ 38 - (down : Int)
        omega
      · change 38 - (down : Int) ≤ 38
        omega

/-- Nine places below the first grid the numbers are close enough for one to lie in the
interval. -/
theorem fine_of_leading {leading : Int}
    (hlow : (10 : ℚ) ^ leading ≤ parts.mantissa * 2 ^ parts.exponent) :
    (parts.roundingInterval.scale (leading + 1 - (9 : Nat))).denominator ≤
      2 * parts.roundingInterval.unit (leading + 1 - (9 : Nat)) := by
  obtain ⟨-, hmantissa, -⟩ := h.value_bounds
  obtain ⟨factor, hfactor, -, hwidth, hplace, -⟩ :=
    h.exists_factor (leading + 1 - (9 : Nat))
  have hgrid : (10 : ℚ) ^ (leading + 1 - (9 : Nat)) = 10 ^ leading / 10 ^ 8 := by
    rw [Nat.cast_ofNat, show leading + 1 - 9 = leading - 8 by omega,
      zpow_sub₀ (by norm_num)]
    norm_num
  have hpositive : (0 : ℚ) < 2 ^ parts.exponent := zpow_pos two_pos _
  have hfine : (10 : ℚ) ^ (leading + 1 - (9 : Nat)) ≤ 2 ^ parts.exponent / 2 := by
    rw [hgrid, div_le_div_iff₀ (by norm_num) two_pos]
    linarith
  rw [hplace, hwidth, mul_le_mul_iff_right₀ hfactor] at hfine
  exact_mod_cast hfine

/-- The shortest decimal of a single is rounded to it, lies no further from it than half
of its own place, and is one that is read. -/
theorem exists_shortest : ∃ n place, parts.shortest = ⟨n, place⟩ ∧
    parts.Attracts (n * 10 ^ place) ∧
    |n * 10 ^ place - (parts.mantissa : ℚ) * 2 ^ parts.exponent| ≤ 10 ^ place / 2 ∧
    -53 ≤ place ∧ place ≤ 39 ∧ n < 2 ^ 53 := by
  obtain ⟨hlow, hhigh, hfloor, hceiling⟩ := h.leadingPlace_spec
  obtain ⟨-, hmantissa, -⟩ := h.value_bounds
  have hshortest : parts.shortest = parts.roundingInterval.shortest :=
    if_neg h.positive.ne'
  rw [hshortest, RoundingInterval.shortest]
  generalize parts.roundingInterval.leadingPlace = leading at *
  dsimp only
  have hsome : ((List.range 10).findSome? fun (further : Nat) =>
      (parts.roundingInterval.scale (leading + 1 - (further : Int))).nearest?.map fun n =>
        Decimal.mk n (leading + 1 - (further : Int))).isSome = true := by
    rw [List.findSome?_isSome_iff]
    refine ⟨9, by decide, ?_⟩
    rw [Option.isSome_map]
    exact RoundingInterval.Scaled.isSome_nearest? (h.symmetric _) (h.fine_of_leading hlow)
  obtain ⟨decimal, hdecimal⟩ := Option.isSome_iff_exists.mp hsome
  rw [hdecimal, Option.getD_some]
  obtain ⟨further, hfurther, hfound⟩ := List.exists_of_findSome?_eq_some hdecimal
  obtain ⟨n, hn, rfl⟩ := Option.map_eq_some_iff.mp hfound
  rw [List.mem_range] at hfurther
  obtain ⟨hattracts, hnear⟩ := h.spec_of_nearest? hn
  refine ⟨n, _, rfl, hattracts, hnear, by omega, by omega, ?_⟩
  generalize hplace : leading + 1 - (further : Int) = place at *
  have hpositive : (0 : ℚ) < 10 ^ place := zpow_pos (by norm_num) _
  have hleading : (10 : ℚ) ^ (leading + 1) ≤ 10 ^ 9 * 10 ^ place := by
    rw [← zpow_natCast, ← zpow_add₀ (by norm_num)]
    exact zpow_le_zpow_right₀ (by norm_num) (by push_cast; omega)
  have hproduct : (n : ℚ) * 10 ^ place < (10 ^ 9 + 1) * 10 ^ place := by
    have habove := (abs_le.mp hnear).2
    linarith
  have hcast : (n : ℚ) < 10 ^ 9 + 1 := lt_of_mul_lt_mul_right hproduct hpositive.le
  have hbound : n < 10 ^ 9 + 1 := by exact_mod_cast hcast
  omega

end Dyadic.Regular

end TextMusic

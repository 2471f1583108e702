/-
Rounding of doubles.  Products and quotients of positive doubles, and whole numbers made
into doubles, lie within half a place of the exact value, where the place is the one that
leaves 53 bits before the point.
-/
import Mathlib.Algebra.Order.Field.Basic
import Mathlib.Algebra.Order.Field.Power
import Mathlib.Tactic.FieldSimp
import TextMusic.Proofs.FloatBits

namespace TextMusic

open Float.Model UnpackedFloat

namespace Double

/-! ## Mantissas with two more bits -/

/-- The mantissa is the whole part of a number, and its two bits tell how the rest of it
compares to a half. -/
structure Describes (extended : ExtendedMantissa) (y : ℚ) : Prop where
  floor : extended.mantissa ≤ y
  ceiling : y < extended.mantissa + 1
  half : extended.roundBit = true ↔ extended.mantissa + 1 / 2 ≤ y
  exact : extended.stickyBit = false →
    y = extended.mantissa ∨ y = extended.mantissa + 1 / 2

theorem describes_exact (mantissa : Nat) :
    Describes (.ofMantissaAndAccuracy mantissa .exact) mantissa := by
  refine ⟨le_rfl, lt_add_one _, ?_, fun _ => .inl rfl⟩
  refine iff_of_false Bool.false_ne_true ?_
  change ¬ (mantissa : ℚ) + 1 / 2 ≤ mantissa
  linarith

theorem describes_fraction (numerator : Nat) {denominator : Nat} (h : 0 < denominator) :
    Describes (.ofMantissaAndAccuracy (numerator / denominator)
      (accuracyOfFraction (numerator % denominator) denominator))
        ((numerator : ℚ) / denominator) := by
  have hdenominator : (0 : ℚ) < denominator := Nat.cast_pos.mpr h
  have hrest : numerator % denominator < denominator := Nat.mod_lt _ h
  have hvalue : (numerator : ℚ) / denominator =
      (numerator / denominator : Nat) +
        ((numerator % denominator : Nat) : ℚ) / denominator := by
    rw [eq_comm, add_div' _ _ _ hdenominator.ne']
    congr 1
    exact_mod_cast Nat.div_add_mod' numerator denominator
  rw [hvalue, accuracyOfFraction]
  generalize numerator / denominator = mantissa
  generalize numerator % denominator = rest at *
  have hbelow : ((rest : Nat) : ℚ) / denominator < 1 := by
    rw [div_lt_one hdenominator]
    exact_mod_cast hrest
  have habove : 0 ≤ ((rest : Nat) : ℚ) / denominator :=
    div_nonneg (Nat.cast_nonneg _) hdenominator.le
  have hceiling : (mantissa : ℚ) + (rest : Nat) / denominator < mantissa + 1 := by
    linarith
  by_cases hzero : rest = 0
  · rw [if_pos hzero, hzero, Nat.cast_zero, zero_div, add_zero]
    exact describes_exact mantissa
  have hhalf : 1 / 2 ≤ ((rest : Nat) : ℚ) / denominator ↔ denominator ≤ 2 * rest := by
    rw [div_le_div_iff₀ two_pos hdenominator, one_mul, mul_comm]
    exact_mod_cast Iff.rfl
  rw [if_neg hzero]
  rcases lt_trichotomy (2 * rest) denominator with hlt | heq | hgt
  · rw [Nat.compare_eq_lt.mpr hlt]
    refine ⟨le_add_of_nonneg_right habove, hceiling, iff_of_false Bool.false_ne_true ?_,
      fun h => absurd h.symm Bool.false_ne_true⟩
    rw [ExtendedMantissa.ofMantissaAndAccuracy, add_le_add_iff_left, hhalf]
    exact Nat.not_le_of_lt hlt
  · have hequal : ((rest : Nat) : ℚ) / denominator = 1 / 2 := by
      rw [div_eq_div_iff hdenominator.ne' two_ne_zero, one_mul, mul_comm]
      exact_mod_cast heq
    rw [Nat.compare_eq_eq.mpr heq]
    refine ⟨le_add_of_nonneg_right habove, hceiling, iff_of_true rfl ?_, fun _ => .inr ?_⟩
    · rw [hequal]
      exact le_rfl
    · rw [hequal]
      rfl
  · rw [Nat.compare_eq_gt.mpr hgt]
    refine ⟨le_add_of_nonneg_right habove, hceiling, iff_of_true rfl ?_,
      fun h => absurd h.symm Bool.false_ne_true⟩
    rw [ExtendedMantissa.ofMantissaAndAccuracy, add_le_add_iff_left, hhalf]
    exact hgt.le

theorem mantissa_ofMantissaAndAccuracy (mantissa : Nat) (accuracy : Accuracy) :
    (ExtendedMantissa.ofMantissaAndAccuracy mantissa accuracy).mantissa = mantissa := by
  cases accuracy with
  | exact => rfl
  | inexact relation => cases relation <;> rfl

theorem Describes.shiftRightOne {extended : ExtendedMantissa} {y : ℚ}
    (h : Describes extended y) : Describes extended.shiftRightOne (y / 2) := by
  obtain ⟨mantissa, roundBit, stickyBit⟩ := extended
  obtain ⟨hfloor, hceiling, hhalf, hexact⟩ := h
  dsimp only at hfloor hceiling hhalf hexact
  obtain ⟨half, rfl | rfl⟩ := mantissa.even_or_odd'
  · have hmantissa : 2 * half / 2 = half := Nat.mul_div_cancel_left half two_pos
    have heven : (2 * half % 2 != 0) = false := by simp
    push_cast at hfloor hceiling hhalf hexact
    refine ⟨?_, ?_, ?_, ?_⟩ <;> dsimp only [ExtendedMantissa.shiftRightOne] <;>
      rw [hmantissa]
    · linarith
    · linarith
    · rw [heven]
      exact iff_of_false Bool.false_ne_true (by linarith)
    · intro hsticky
      obtain ⟨hround, hsticky⟩ := Bool.or_eq_false_iff.mp hsticky
      left
      rcases hexact hsticky with hwhole | hmiddle
      · linarith
      · exact absurd (hhalf.mpr hmiddle.ge) (by rw [hround]; exact Bool.false_ne_true)
  · have hmantissa : (2 * half + 1) / 2 = half := by omega
    have hodd : ((2 * half + 1) % 2 != 0) = true := by simp
    push_cast at hfloor hceiling hhalf hexact
    refine ⟨?_, ?_, ?_, ?_⟩ <;> dsimp only [ExtendedMantissa.shiftRightOne] <;>
      rw [hmantissa]
    · linarith
    · linarith
    · rw [hodd]
      exact iff_of_true rfl (by linarith)
    · intro hsticky
      obtain ⟨hround, hsticky⟩ := Bool.or_eq_false_iff.mp hsticky
      right
      rcases hexact hsticky with hwhole | hmiddle
      · linarith
      · exact absurd (hhalf.mpr hmiddle.ge) (by rw [hround]; exact Bool.false_ne_true)

theorem Describes.shiftRight {extended : ExtendedMantissa} {y : ℚ}
    (h : Describes extended y) (n : Nat) : Describes (extended >>> n) (y / 2 ^ n) := by
  change Describes (Nat.repeat ExtendedMantissa.shiftRightOne n extended) _
  induction n with
  | zero => simpa [Nat.repeat] using h
  | succ n ih =>
      have hnext := ih.shiftRightOne
      rwa [div_div, ← pow_succ] at hnext

/-- The rounded mantissa is no further than a half from the number. -/
theorem Describes.abs_rounded_sub_le {extended : ExtendedMantissa} {y : ℚ}
    (h : Describes extended y) : |(extended.roundedMantissa : ℚ) - y| ≤ 1 / 2 := by
  obtain ⟨mantissa, roundBit, stickyBit⟩ := extended
  obtain ⟨hfloor, hceiling, hhalf, hexact⟩ := h
  dsimp only at hfloor hceiling hhalf hexact
  rw [abs_le]
  cases roundBit with
  | false =>
      have hround :
          ExtendedMantissa.roundedMantissa ⟨mantissa, false, stickyBit⟩ = mantissa := by
        cases stickyBit <;> rfl
      have hbelow : y < mantissa + 1 / 2 :=
        not_le.mp fun h => Bool.false_ne_true (hhalf.mpr h)
      rw [hround]
      constructor <;> linarith
  | true =>
      have habove := hhalf.mp rfl
      cases stickyBit with
      | false =>
          have hround : ExtendedMantissa.roundedMantissa ⟨mantissa, true, false⟩ =
              mantissa + mantissa % 2 := rfl
          have hmiddle : y = mantissa + 1 / 2 := (hexact rfl).resolve_left (by linarith)
          have hrest : ((mantissa % 2 : Nat) : ℚ) ≤ 1 := by
            exact_mod_cast Nat.le_of_lt_succ (Nat.mod_lt mantissa two_pos)
          have hnonneg : (0 : ℚ) ≤ (mantissa % 2 : Nat) := Nat.cast_nonneg _
          rw [hround, hmiddle, Nat.cast_add]
          constructor <;> linarith
      | true =>
          have hround : ExtendedMantissa.roundedMantissa ⟨mantissa, true, true⟩ =
              mantissa + 1 := rfl
          rw [hround, Nat.cast_add, Nat.cast_one]
          constructor <;> linarith

/-! ## Rounding to 53 bits -/

/-- The double is next to a number, on the grid that leaves 53 bits of it before the
point. -/
structure IsNearest (x : Float) (value : ℚ) (rounded : Nat) (place : Int) : Prop where
  floor : 2 ^ 52 * 2 ^ place ≤ value
  ceiling : value < 2 ^ 53 * 2 ^ place
  near : |(rounded : ℚ) * 2 ^ place - value| ≤ 2 ^ place / 2
  normal : ∃ mantissa exponent, IsNormal x mantissa exponent ∧
    (mantissa : ℚ) * 2 ^ exponent = rounded * 2 ^ place

theorem targetExponent_eq {mantissa : Nat} {exponent : Int} {shift : Nat}
    (hlog : mantissa.log2 = 52 + shift) (hfloor : -1074 ≤ exponent) :
    Format.targetExponent .binary64 (totalExponent mantissa exponent) =
      exponent + shift := by
  rw [Format.targetExponent, totalExponent, hlog]
  change max (((52 + shift : Nat) : Int) + 1 + exponent - 53) (-1074) = _
  omega

theorem shiftToTargetExponent_eq {mantissa : Nat} {exponent : Int} {shift : Nat}
    (hlog : mantissa.log2 = 52 + shift) (hfloor : -1074 ≤ exponent)
    (accuracy : Accuracy) :
    shiftToTargetExponent .binary64 mantissa exponent accuracy =
      (ExtendedMantissa.ofMantissaAndAccuracy mantissa accuracy >>> shift,
        exponent + shift) := by
  have hshift : (exponent + shift - exponent).toNat = shift := by omega
  delta shiftToTargetExponent shiftToExponent
  dsimp only
  rw [targetExponent_eq hlog hfloor, hshift]

/-- Rounding shifts twice, and the second shift only takes back a carry. -/
theorem roundWithAccuracy_eq {spec : Format} {sign : Sign} {mantissa : Nat}
    {exponent : Int} {accuracy : Accuracy} {first second : ExtendedMantissa × Int}
    (hfirst : shiftToTargetExponent spec mantissa exponent accuracy = first)
    (hsecond : shiftToTargetExponent spec first.1.roundedMantissa first.2 .exact = second)
    (hpositive : 0 < second.1.mantissa) :
    roundWithAccuracy spec sign mantissa exponent accuracy =
      .finite sign second.1.mantissa second.2 hpositive := by
  subst hfirst hsecond
  exact dif_neg hpositive.ne'

/-- The second shift makes a mantissa of 53 bits. -/
theorem exists_normal {mantissa : Nat} {exponent place : Int} {accuracy : Accuracy}
    {first : ExtendedMantissa}
    (hfirst : shiftToTargetExponent .binary64 mantissa exponent accuracy = (first, place))
    (hlow : 2 ^ 52 ≤ first.roundedMantissa) (hhigh : first.roundedMantissa ≤ 2 ^ 53)
    (hfloor : -1074 ≤ place) (hceiling : place ≤ 970) :
    ∃ final exponent', IsNormal
      (.ofModel
        (.pack (roundWithAccuracy .binary64 .positive mantissa exponent accuracy)))
      final exponent' ∧
        (final : ℚ) * 2 ^ exponent' = first.roundedMantissa * 2 ^ place := by
  by_cases hcarry : first.roundedMantissa = 2 ^ 53
  · have hlog : first.roundedMantissa.log2 = 52 + 1 := by rw [hcarry, Nat.log2_two_pow]
    have hsecond := shiftToTargetExponent_eq hlog hfloor .exact
    have hmantissa :
        (ExtendedMantissa.ofMantissaAndAccuracy first.roundedMantissa .exact >>>
          (1 : Nat)).mantissa = 2 ^ 52 := by
      change first.roundedMantissa / 2 = 2 ^ 52
      omega
    rw [roundWithAccuracy_eq hfirst hsecond (by rw [hmantissa]; exact Nat.two_pow_pos 52)]
    refine ⟨_, _, isNormal_pack _ hmantissa.ge ?_ (by omega) (by omega), ?_⟩
    · rw [hmantissa]
      decide
    · rw [hmantissa, hcarry, Nat.cast_one, zpow_add₀ two_ne_zero, zpow_one]
      push_cast
      ring
  · have hlog : first.roundedMantissa.log2 = 52 + 0 :=
      (Nat.log2_eq_iff (by omega)).mpr ⟨hlow, by omega⟩
    have hsecond := shiftToTargetExponent_eq hlog hfloor .exact
    have hmantissa :
        (ExtendedMantissa.ofMantissaAndAccuracy first.roundedMantissa .exact >>>
          (0 : Nat)).mantissa = first.roundedMantissa := rfl
    rw [roundWithAccuracy_eq hfirst hsecond (by rw [hmantissa]; omega)]
    refine ⟨_, _, isNormal_pack _ hlow ?_ (by omega) (by omega), ?_⟩
    · rw [hmantissa]
      omega
    · rw [hmantissa, Nat.cast_zero, add_zero]

/-- What a mantissa of at least 53 bits is rounded to. -/
theorem exists_roundWithAccuracy {mantissa : Nat} {exponent : Int} {accuracy : Accuracy}
    {y : ℚ} (hmantissa : 2 ^ 52 ≤ mantissa) (hfloor : -1074 ≤ exponent)
    (hceiling : mantissa.log2 + exponent ≤ 1000)
    (hdescribes : Describes (.ofMantissaAndAccuracy mantissa accuracy) y) :
    ∃ rounded place, IsNearest
      (.ofModel
        (.pack (roundWithAccuracy .binary64 .positive mantissa exponent accuracy)))
      (y * 2 ^ exponent) rounded place := by
  have hnonzero : mantissa ≠ 0 := by omega
  obtain ⟨shift, hshift⟩ : ∃ shift, mantissa.log2 = 52 + shift :=
    Nat.exists_eq_add_of_le ((Nat.le_log2 hnonzero).mpr hmantissa)
  obtain ⟨hlogLow, hlogHigh⟩ := (Nat.log2_eq_iff hnonzero).mp hshift
  have hfirst := shiftToTargetExponent_eq hshift hfloor accuracy
  have hshifted := (hdescribes.shiftRight shift).abs_rounded_sub_le
  have hlow := hdescribes.floor
  have hhigh := hdescribes.ceiling
  rw [mantissa_ofMantissaAndAccuracy] at hlow hhigh
  generalize ExtendedMantissa.ofMantissaAndAccuracy mantissa accuracy >>> shift =
    first at *
  have hpower : (0 : ℚ) < 2 ^ shift := by positivity
  obtain ⟨z, rfl⟩ : ∃ z, y = z * 2 ^ shift :=
    ⟨y / 2 ^ shift, (div_mul_cancel₀ y hpower.ne').symm⟩
  rw [mul_div_cancel_right₀ z hpower.ne', abs_le] at hshifted
  have hzLow : 2 ^ 52 ≤ z := by
    rw [← mul_le_mul_iff_left₀ hpower, ← pow_add]
    exact le_trans (by exact_mod_cast hlogLow) hlow
  have hzHigh : z < 2 ^ 53 := by
    rw [← mul_lt_mul_iff_left₀ hpower, ← pow_add]
    have hnext : mantissa + 1 ≤ 2 ^ (53 + shift) := by
      rwa [Nat.add_right_comm] at hlogHigh
    exact hhigh.trans_le (by exact_mod_cast hnext)
  have hroundedLow : 2 ^ 52 ≤ first.roundedMantissa := by
    apply Nat.le_of_lt_succ
    have hcast : ((2 ^ 52 : Nat) : ℚ) < (first.roundedMantissa : ℚ) + 1 := by
      push_cast
      linarith
    exact_mod_cast hcast
  have hroundedHigh : first.roundedMantissa ≤ 2 ^ 53 := by
    apply Nat.le_of_lt_succ
    have hcast : (first.roundedMantissa : ℚ) < (2 ^ 53 : Nat) + 1 := by
      push_cast
      linarith
    exact_mod_cast hcast
  have hplace : (2 : ℚ) ^ (exponent + (shift : Int)) = 2 ^ exponent * 2 ^ shift := by
    rw [zpow_add₀ two_ne_zero, zpow_natCast]
  have hpositive : (0 : ℚ) < 2 ^ (exponent + (shift : Int)) := zpow_pos two_pos _
  have hvalue : z * 2 ^ shift * 2 ^ exponent = z * 2 ^ (exponent + (shift : Int)) := by
    rw [hplace]
    ring
  refine ⟨first.roundedMantissa, exponent + shift, ?_, ?_, ?_, ?_⟩
  · rw [hvalue]
    exact mul_le_mul_of_nonneg_right hzLow hpositive.le
  · rw [hvalue]
    exact mul_lt_mul_of_pos_right hzHigh hpositive
  · rw [hvalue, ← sub_mul, abs_mul, abs_of_pos hpositive, div_eq_inv_mul, ← one_div]
    exact mul_le_mul_of_nonneg_right (abs_le.mpr hshifted) hpositive.le
  exact exists_normal hfirst hroundedLow hroundedHigh (by omega) (by omega)

/-- A number of at most 53 bits is not rounded. -/
theorem IsNearest.exact {x : Float} {c rounded : Nat} {j place : Int}
    (h : IsNearest x (c * 2 ^ j) rounded place) (hc : c < 2 ^ 53) :
    (rounded : ℚ) * 2 ^ place = c * 2 ^ j := by
  have hpositive : (0 : ℚ) < 2 ^ place := zpow_pos two_pos _
  have hplace : place ≤ j := by
    have hcast : (c : ℚ) < 2 ^ 53 := by exact_mod_cast hc
    have hbelow : (c : ℚ) * 2 ^ j < 2 ^ 53 * 2 ^ j :=
      mul_lt_mul_of_pos_right hcast (zpow_pos two_pos _)
    have hpower := h.floor.trans_lt hbelow
    rw [← zpow_natCast, ← zpow_natCast, ← zpow_add₀ two_ne_zero, ← zpow_add₀ two_ne_zero,
      zpow_lt_zpow_iff_right₀ one_lt_two] at hpower
    push_cast at hpower
    omega
  obtain ⟨shift, rfl⟩ := Int.le.dest hplace
  have hwhole :
      (c : ℚ) * 2 ^ (place + (shift : Int)) = (c * 2 ^ shift : Nat) * 2 ^ place := by
    rw [zpow_add₀ two_ne_zero, zpow_natCast]
    push_cast
    ring
  have hnear := h.near
  rw [hwhole, ← sub_mul, abs_mul, abs_of_pos hpositive, div_eq_inv_mul,
    mul_le_mul_iff_left₀ hpositive] at hnear
  have hequal : (rounded : Int) = (c * 2 ^ shift : Nat) := by
    rw [← sub_eq_zero, ← Int.abs_lt_one_iff]
    have hbelow : |(rounded : ℚ) - (c * 2 ^ shift : Nat)| < 1 :=
      hnear.trans_lt (by norm_num)
    exact_mod_cast hbelow
  rw [hwhole]
  congr 1
  exact_mod_cast hequal

/-! ## Products, quotients and whole numbers -/

section

variable {x y : Float} {m n : Nat} {d e : Int}

theorem IsNormal.mul (hx : IsNormal x m d) (hy : IsNormal y n e) (hfloor : -1074 ≤ d + e)
    (hceiling : d + e ≤ 800) :
    ∃ rounded place, IsNearest (x * y) ((m : ℚ) * 2 ^ d * (n * 2 ^ e)) rounded place := by
  obtain ⟨_, hxUnpack⟩ := hx.unpack
  obtain ⟨_, hyUnpack⟩ := hy.unpack
  have hmul : x * y =
      .ofModel
        (.pack (roundWithAccuracy .binary64 .positive (m * n) (d + e) .exact)) := by
    change Float.ofModel (.pack (UnpackedFloat.mul .binary64 x.toModel.unpack
      y.toModel.unpack)) = _
    rw [hxUnpack, hyUnpack]
    rfl
  have hlow : 2 ^ 52 * 2 ^ 52 ≤ m * n := Nat.mul_le_mul hx.low hy.low
  have hhigh : m * n < 2 ^ 53 * 2 ^ 53 := Nat.mul_lt_mul'' hx.high hy.high
  have hlog : (m * n).log2 < 106 := (Nat.log2_lt (by omega)).mpr hhigh
  have hvalue : (m : ℚ) * 2 ^ d * (n * 2 ^ e) = (m * n : Nat) * 2 ^ (d + e) := by
    rw [zpow_add₀ two_ne_zero, Nat.cast_mul]
    ring
  rw [hmul, hvalue]
  exact exists_roundWithAccuracy (by omega) hfloor (by omega) (describes_exact _)

theorem IsNormal.div (hx : IsNormal x m d) (hy : IsNormal y n e) (hfloor : -1000 ≤ d - e)
    (hceiling : d - e ≤ 800) :
    ∃ rounded place, IsNearest (x / y) ((m : ℚ) * 2 ^ d / (n * 2 ^ e)) rounded place := by
  obtain ⟨_, hxUnpack⟩ := hx.unpack
  obtain ⟨hpositive, hyUnpack⟩ := hy.unpack
  have hxLog : m.log2 = 52 :=
    (Nat.log2_eq_iff (by have := hx.low; omega)).mpr ⟨hx.low, hx.high⟩
  have hyLog : n.log2 = 52 := (Nat.log2_eq_iff hpositive.ne').mpr ⟨hy.low, hy.high⟩
  have htarget : min (d - e) (Format.targetExponent .binary64
      (totalExponent m d - totalExponent n e)) = d - e - 53 := by
    rw [Format.targetExponent, totalExponent, totalExponent, hxLog, hyLog]
    change min (d - e) (max (_ - 53) (-1074)) = _
    omega
  have hshift : (d - e - (d - e - 53)).toNat = 53 := by omega
  have hcore : divCore .binary64 m d n e =
      (m * 2 ^ 53 / n, d - e - 53, accuracyOfFraction (m * 2 ^ 53 % n) n) := by
    delta divCore
    dsimp only
    rw [htarget, hshift, Nat.shiftLeft_eq]
  have hdiv : x / y = .ofModel (.pack (roundWithAccuracy .binary64 .positive
      (m * 2 ^ 53 / n) (d - e - 53) (accuracyOfFraction (m * 2 ^ 53 % n) n))) := by
    change Float.ofModel (.pack (UnpackedFloat.div .binary64 x.toModel.unpack
      y.toModel.unpack)) = _
    rw [hxUnpack, hyUnpack]
    change Float.ofModel (.pack (roundWithAccuracy .binary64 .positive
      (divCore .binary64 m d n e).1 (divCore .binary64 m d n e).2.1
      (divCore .binary64 m d n e).2.2)) = _
    rw [hcore]
  have hlow : 2 ^ 52 ≤ m * 2 ^ 53 / n := by
    rw [Nat.le_div_iff_mul_le hpositive]
    exact Nat.mul_le_mul hx.low hy.high.le
  have hhigh : m * 2 ^ 53 / n < 2 ^ 54 := by
    rw [Nat.div_lt_iff_lt_mul hpositive]
    have hm := hx.high
    have hn := hy.low
    omega
  have hlog : (m * 2 ^ 53 / n).log2 < 54 := (Nat.log2_lt (by omega)).mpr hhigh
  have hvalue : (m : ℚ) * 2 ^ d / (n * 2 ^ e) =
      (m * 2 ^ 53 : Nat) / (n : ℚ) * 2 ^ (d - e - 53) := by
    rw [zpow_sub₀ two_ne_zero, zpow_sub₀ two_ne_zero]
    push_cast
    have hn : (n : ℚ) ≠ 0 := Nat.cast_ne_zero.mpr hpositive.ne'
    have he : (2 : ℚ) ^ e ≠ 0 := zpow_ne_zero _ two_ne_zero
    field_simp
  rw [hdiv, hvalue]
  exact exists_roundWithAccuracy hlow (by omega) (by omega)
    (describes_fraction _ hpositive)

/-- A positive number of at most 53 bits is a double. -/
theorem exists_isNormal_toFloat (hpositive : 0 < n) (hhigh : n < 2 ^ 53) :
    ∃ mantissa exponent, IsNormal (UInt64.ofNat n).toFloat mantissa exponent ∧
      (mantissa : ℚ) * 2 ^ exponent = n := by
  have hword : (UInt64.ofNat n).toNat = n :=
    UInt64.toNat_ofNat_of_lt' (hhigh.trans (by decide))
  obtain ⟨hlogLow, hlogHigh⟩ := (Nat.log2_eq_iff hpositive.ne').mp rfl
  have hlog : n.log2 < 53 := (Nat.log2_lt hpositive.ne').mpr hhigh
  obtain ⟨shift, hshift⟩ : ∃ shift, n.log2 + shift = 52 := ⟨52 - n.log2, by omega⟩
  have htarget : Format.targetExponent .binary64 (totalExponent n 0) = -shift := by
    rw [Format.targetExponent, totalExponent]
    change max ((n.log2 : Int) + 1 + 0 - 53) (-1074) = _
    omega
  have hamount : (0 - -(shift : Int)).toNat = shift := by omega
  have hround : UnpackedFloat.round .binary64 .positive n 0 =
      roundWithAccuracy .binary64 .positive (n * 2 ^ shift) (-shift) .exact := by
    delta UnpackedFloat.round decreaseExponent
    dsimp only
    rw [htarget, hamount, Nat.shiftLeft_eq, zero_sub]
  have hfloat : (UInt64.ofNat n).toFloat = .ofModel (.pack
      (roundWithAccuracy .binary64 .positive (n * 2 ^ shift) (-shift) .exact)) := by
    have hcompare : compare (n : Int) 0 = .gt := by
      rw [compare_gt_iff_gt]
      exact_mod_cast hpositive
    change Float.ofModel (.pack (UnpackedFloat.ofNat .binary64 (UInt64.ofNat n).toNat)) =
      _
    rw [hword, ← hround]
    delta UnpackedFloat.ofNat UnpackedFloat.ofInt UnpackedFloat.normalize
    rw [hcompare]
    rfl
  have hlow : 2 ^ 52 ≤ n * 2 ^ shift := by
    rw [← hshift, Nat.pow_add]
    exact Nat.mul_le_mul_right _ hlogLow
  have hhigh' : n * 2 ^ shift < 2 ^ 53 := by
    have hsum : 53 = n.log2 + 1 + shift := by omega
    rw [hsum, Nat.pow_add]
    exact Nat.mul_lt_mul_of_pos_right hlogHigh (Nat.two_pow_pos _)
  have hlogShifted : (n * 2 ^ shift).log2 = 52 :=
    (Nat.log2_eq_iff (by omega)).mpr ⟨hlow, hhigh'⟩
  have hfloor : -1074 ≤ -(shift : Int) := by omega
  obtain ⟨rounded, place, hnearest⟩ :=
    exists_roundWithAccuracy hlow hfloor (by omega) (describes_exact (n * 2 ^ shift))
  obtain ⟨mantissa, exponent, hnormal, hvalue⟩ := hnearest.normal
  refine ⟨mantissa, exponent, hfloat ▸ hnormal, ?_⟩
  rw [hvalue, hnearest.exact hhigh', zpow_neg, zpow_natCast]
  push_cast
  exact mul_inv_cancel_right₀ (by positivity) _

end

end Double

end TextMusic

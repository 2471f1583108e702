/-
Significands scaled by powers of ten.  A significand is scaled by one product or one
quotient of doubles; the double that comes out is rounded to the single whose shortest
decimal the significand and the power of ten are.
-/
import TextMusic.Proofs.Halfway
import TextMusic.Proofs.Narrowing

namespace TextMusic

open Json

theorem Double.IsNormal.isInf_eq_false {x : Float} {mantissa : Nat} {exponent : Int}
    (h : IsNormal x mantissa exponent) : x.isInf = false := by
  obtain ⟨hpositive, hunpack⟩ := h.unpack
  change x.toModel.unpack.isInf = false
  rw [hunpack]
  rfl

/-! ## The scaled significand -/

/-- A whole number of at most 53 bits is made into a double without an error, whose
exponent lies in a range of 53 places. -/
theorem exists_isNormal_significand {n : Nat} (hn : 0 < n) (hbits : n < 2 ^ 53) :
    ∃ mantissa exponent, Double.IsNormal (UInt64.ofNat n).toFloat mantissa exponent ∧
      (mantissa : ℚ) * 2 ^ exponent = n ∧ -52 ≤ exponent ∧ exponent ≤ 0 := by
  obtain ⟨mantissa, exponent, hnormal, hvalue⟩ := Double.exists_isNormal_toFloat hn hbits
  have hpositive : (0 : ℚ) < 2 ^ exponent := zpow_pos two_pos _
  have hlow : ((2 ^ 52 : Nat) : ℚ) ≤ mantissa := by exact_mod_cast hnormal.low
  have hhigh : (mantissa : ℚ) < (2 ^ 53 : Nat) := by exact_mod_cast hnormal.high
  have hone : ((1 : Nat) : ℚ) ≤ n := by exact_mod_cast hn
  have hlimit : (n : ℚ) < (2 ^ 53 : Nat) := by exact_mod_cast hbits
  have hfloor : (2 : ℚ) ^ (0 : Int) < 2 ^ (53 + exponent) := by
    rw [zpow_zero, zpow_add₀ two_ne_zero]
    refine lt_of_lt_of_eq (lt_of_le_of_lt (hone.trans_eq hvalue.symm) ?_) rfl
    exact mul_lt_mul_of_pos_right hhigh hpositive
  have hceiling : (2 : ℚ) ^ (52 + exponent) < 2 ^ (53 : Int) := by
    rw [zpow_add₀ two_ne_zero]
    refine lt_of_le_of_lt ?_ hlimit
    rw [← hvalue]
    exact mul_le_mul_of_nonneg_right hlow hpositive.le
  rw [zpow_lt_zpow_iff_right₀ one_lt_two] at hfloor hceiling
  exact ⟨mantissa, exponent, hnormal, hvalue, by omega, by omega⟩

/-- A significand of at most 53 bits is scaled to a double next to the product with the
scale. -/
theorem exists_toDouble? {n place : Nat} (hn : 0 < n) (hbits : n < 2 ^ 53)
    (hplace : place < 93) :
    ∃ x rounded lowest, (Scientific.mk n ((place : Int) - 53)).toDouble? = some x ∧
      Double.IsNearest x (n * scale place) rounded lowest := by
  obtain ⟨m, d, hm, hmValue, hmFloor, hmCeiling⟩ := exists_isNormal_significand hn hbits
  rw [Scientific.toDouble?, if_neg (by dsimp only; omega)]
  dsimp only
  by_cases hbelow : place < 53
  · obtain ⟨p, e, hp, hpValue, hpFloor, hpCeiling⟩ :=
      exists_isNormal_powerOfTen (show 53 - place < 55 by omega)
    have hpower : (-((place : Int) - 53)).toNat = 53 - place := by omega
    obtain ⟨rounded, lowest, hnearest⟩ := hm.div hp (by omega) (by omega)
    have hscale : (n : ℚ) * scale place = m * 2 ^ d / (p * 2 ^ e) := by
      rw [hmValue, hpValue, scale, scaleNumerator, scaleDenominator, if_pos hbelow,
        if_pos hbelow, Nat.cast_one, mul_one_div]
    rw [if_neg (by omega), if_pos (by omega), hpower, hscale]
    exact ⟨_, rounded, lowest, rfl, hnearest⟩
  · obtain ⟨p, e, hp, hpValue, hpFloor, hpCeiling⟩ :=
      exists_isNormal_powerOfTen (show place - 53 < 55 by omega)
    have hpower : ((place : Int) - 53).toNat = place - 53 := by omega
    obtain ⟨rounded, lowest, hnearest⟩ := hm.mul hp (by omega) (by omega)
    have hscale : (n : ℚ) * scale place = m * 2 ^ d * (p * 2 ^ e) := by
      rw [hmValue, hpValue, scale, scaleNumerator, scaleDenominator, if_neg hbelow,
        if_neg hbelow, Nat.cast_one, div_one]
    obtain ⟨mantissa, exponent, hnormal, -⟩ := hnearest.normal
    rw [if_pos (by omega), hpower, hscale, hnormal.isInf_eq_false,
      if_neg Bool.false_ne_true]
    exact ⟨_, rounded, lowest, rfl, hnearest⟩

/-! ## How far the double is from the decimal -/

theorem half_eq_zpow (field : Nat) : half field = 2 ^ ((field : Int) - 150) := by
  rw [half, zpow_sub₀ two_ne_zero]
  norm_num

/-- Half of the place of a single. -/
theorem half_eq {exponent : Int} (hfloor : -149 ≤ exponent) :
    half (exponent + 149).toNat = 2 ^ exponent / 2 := by
  have hfield : (((exponent + 149).toNat : Nat) : Int) - 150 = exponent - 1 := by omega
  rw [half_eq_zpow, hfield, zpow_sub₀ two_ne_zero, zpow_one]

theorem grid_eq_zpow (place : Nat) : grid place = 10 ^ ((place : Int) - 53) := by
  rw [grid, zpow_sub₀ (by norm_num)]
  norm_num

/-- A double is rounded by little against half a place of singles. -/
theorem Double.IsNearest.near_half {x : Float} {value : ℚ} {rounded : Nat} {lowest : Int}
    (h : Double.IsNearest x value rounded lowest) {field bits : Nat}
    (hvalue : value < 2 ^ bits * half field) :
    |(rounded : ℚ) * 2 ^ lowest - value| ≤ 2 ^ bits * half field / 2 ^ 54 := by
  have hpower : (2 : ℚ) ^ (52 + lowest) < 2 ^ (bits + ((field : Int) - 150)) := by
    rw [zpow_add₀ two_ne_zero, zpow_add₀ two_ne_zero, ← half_eq_zpow, zpow_natCast]
    exact h.floor.trans_lt hvalue
  rw [zpow_lt_zpow_iff_right₀ one_lt_two] at hpower
  have hplace : (2 : ℚ) ^ lowest ≤ 2 ^ (bits + ((field : Int) - 150) - 53) :=
    zpow_le_zpow_right₀ one_le_two (by omega)
  have hsplit : (2 : ℚ) ^ (bits + ((field : Int) - 150) - 53) =
      2 ^ bits * half field / 2 ^ 53 := by
    rw [half_eq_zpow, zpow_sub₀ two_ne_zero, zpow_add₀ two_ne_zero, zpow_natCast]
    norm_num
  rw [hsplit] at hplace
  have hnear := h.near
  linarith only [hplace, hnear]

section

variable {field place n rounded : Nat} {x : Float} {lowest : Int} {value : ℚ}

/-- On a grid finer than the places of singles there is room for both errors between the
decimal and the next place halfway. -/
theorem lt_half_of_fine (hfield : field < 254) (hplace : place < 93)
    (hfine : grid place < 2 * half field) (hbelow : n * grid place < 2 ^ 25 * half field)
    (hx : Double.IsNearest x (n * scale place) rounded lowest)
    (hnear : |n * grid place - value| ≤ grid place / 2) :
    |(rounded : ℚ) * 2 ^ lowest - value| < half field := by
  have hgap := fine_grid hfield hfine
  have hhalf := half_pos field
  have hmissed : |n * scale place - n * grid place| ≤ n * grid place / 2 ^ 52 := by
    rw [← mul_sub, abs_mul, Nat.abs_cast, mul_div_assoc]
    exact mul_le_mul_of_nonneg_left (abs_scale_sub_grid_le hplace) (Nat.cast_nonneg n)
  have hscaled : n * scale place < 2 ^ 26 * half field := by
    have habove := (abs_le.mp hmissed).2
    linarith only [habove, hbelow, hhalf]
  have hrounded := hx.near_half hscaled
  calc |(rounded : ℚ) * 2 ^ lowest - value|
      ≤ |(rounded : ℚ) * 2 ^ lowest - n * scale place| + |n * scale place - value| :=
        abs_sub_le _ _ _
    _ ≤ |(rounded : ℚ) * 2 ^ lowest - n * scale place| +
          (|n * scale place - n * grid place| + |n * grid place - value|) :=
        add_le_add_right (abs_sub_le _ _ _) _
    _ < half field := by linarith only [hrounded, hmissed, hnear, hgap, hbelow, hhalf]

/-- On a grid no finer than the places of singles both errors end before the next place
halfway, and none is made where the decimal lies there. -/
theorem not_past_halfway (hfield : field < 254) (hcoarse : 2 * half field ≤ grid place)
    (hn : 0 < n) (hbelow : n * grid place < 2 ^ 25 * half field)
    (hx : Double.IsNearest x (n * scale place) rounded lowest) {c : Nat}
    (hc : c < 2 ^ 53) :
    (n * scale place = n * grid place ∧ (rounded : ℚ) * 2 ^ lowest = n * scale place) ∨
    (|n * scale place - n * grid place| < |n * scale place - c * half field| ∧
      |(rounded : ℚ) * 2 ^ lowest - n * scale place| <
        |n * scale place - c * half field|) := by
  have hroom : n * grid place < 2 ^ 24 * (2 * half field) := by linarith only [hbelow]
  have hclear := clear_of_halfway hfield hcoarse hn hroom
  have hscaled : n * scale place < 2 ^ 25 * half field := by
    have htop : (((2 : Int) ^ 25 : Int) : ℚ) = 2 ^ 25 := by norm_num
    rcases hclear (2 ^ 25) with ⟨hequal, -⟩ | ⟨hapart, -⟩
    · rwa [hequal]
    · by_contra habove
      rw [htop] at hapart
      rw [abs_of_nonneg (a := n * scale place - 2 ^ 25 * half field)
        (by linarith only [habove])] at hapart
      have habs := le_abs_self (n * scale place - n * grid place)
      linarith only [hapart, habs, hbelow]
  have hrounded := hx.near_half hscaled
  rcases hclear c with ⟨hequal, htie⟩ | ⟨hapart, hfar⟩
  · left
    refine ⟨hequal, ?_⟩
    rw [Int.cast_natCast, half_eq_zpow] at htie
    rw [htie] at hx ⊢
    exact hx.exact hc
  · right
    rw [Int.cast_natCast] at hapart hfar
    exact ⟨hapart, by linarith only [hrounded, hfar]⟩

end

namespace Dyadic.Regular

variable {parts : Dyadic} (h : parts.Regular)

include h

/-- The double that the shortest decimal is scaled to is rounded to the single. -/
theorem attracts_scaled {n place rounded : Nat} {x : Float} {lowest : Int} (hn : 0 < n)
    (hplace : place < 93) (hattracts : parts.Attracts (n * 10 ^ ((place : Int) - 53)))
    (hnear : |n * 10 ^ ((place : Int) - 53) - (parts.mantissa : ℚ) * 2 ^ parts.exponent| ≤
      10 ^ ((place : Int) - 53) / 2)
    (hx : Double.IsNearest x (n * scale place) rounded lowest) :
    parts.Attracts (rounded * 2 ^ lowest) := by
  have hpositive := h.positive
  have hmantissa := h.mantissa_lt
  have hfloor := h.floor
  have hceiling := h.ceiling
  have hhalf := half_eq h.floor
  have hfield : (parts.exponent + 149).toNat < 254 := by omega
  rw [← grid_eq_zpow] at hattracts hnear
  generalize (parts.exponent + 149).toNat = field at hfield hhalf
  have hbelow : n * grid place < 2 ^ 25 * half field := by
    have hlimit : (parts.mantissa : ℚ) * 2 ^ parts.exponent ≤
        (2 ^ 24 - 1) * (2 * half field) := by
      have hcast : (parts.mantissa : ℚ) ≤ 2 ^ 24 - 1 := by
        rw [le_sub_iff_add_le]
        exact_mod_cast hmantissa
      rw [hhalf, mul_div_cancel₀ _ two_ne_zero]
      exact mul_le_mul_of_nonneg_right hcast (zpow_pos two_pos _).le
    have hreach := (abs_le.mp hattracts.near).2
    have hpos := half_pos field
    rw [← hhalf] at hreach
    linarith only [hlimit, hreach, hpos]
  by_cases hfine : grid place < 2 * half field
  · have hstrict := lt_half_of_fine hfield hplace hfine hbelow hx hnear
    rw [hhalf] at hstrict
    exact ⟨hstrict.le, fun hequal => absurd hequal hstrict.ne⟩
  · have hcoarse := not_lt.mp hfine
    have hlow := not_past_halfway hfield hcoarse hn hbelow hx
      (show 2 * parts.mantissa - 1 < 2 ^ 53 by omega)
    have hhigh := not_past_halfway hfield hcoarse hn hbelow hx
      (show 2 * parts.mantissa + 1 < 2 ^ 53 by omega)
    rw [hhalf] at hlow hhigh
    have hminus : ((2 * parts.mantissa - 1 : Nat) : ℚ) = 2 * parts.mantissa - 1 := by
      rw [Nat.cast_sub (by omega)]
      push_cast
      rfl
    have hplus : ((2 * parts.mantissa + 1 : Nat) : ℚ) = 2 * parts.mantissa + 1 := by
      push_cast
      rfl
    rw [hminus] at hlow
    rw [hplus] at hhigh
    exact hattracts.follow hlow hhigh

end Dyadic.Regular

end TextMusic

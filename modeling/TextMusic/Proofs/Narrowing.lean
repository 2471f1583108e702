/-
Doubles rounded to singles.  Every double between the places halfway to the neighbours of
a single is rounded to it, and a double that is made of a decimal lies between them where
the decimal does.
-/
import TextMusic.Proofs.Rounding
import TextMusic.Proofs.Shortest

namespace TextMusic

open Json

/-- The bits of the magnitude of a single. -/
def Dyadic.bits (parts : Dyadic) : Nat :=
  (parts.exponent + 149).toNat * 2 ^ 23 + parts.mantissa

/-- The highest bit of the mantissa of a regular single is missing only at the lowest
exponent. -/
structure Dyadic.Canonical (parts : Dyadic) : Prop extends parts.Regular where
  canonical : 2 ^ 23 ≤ parts.mantissa ∨ parts.exponent = -149

namespace Dyadic.Canonical

variable {parts : Dyadic} (h : parts.Canonical) {x : Float} {mantissa : Nat}
    {exponent : Int}

include h

/-- The exponent that a double is given as a single. -/
theorem exponent_eq (hx : Double.IsNormal x mantissa exponent)
    (hattracts : parts.Attracts (mantissa * 2 ^ exponent)) :
    max (-149) (exponent + 29) = parts.exponent ∧ exponent + 29 ≤ parts.exponent := by
  have hpositive : (0 : ℚ) < 2 ^ parts.exponent := zpow_pos two_pos _
  have hpositive' : (0 : ℚ) < 2 ^ exponent := zpow_pos two_pos _
  obtain ⟨hbelow, habove⟩ := abs_le.mp hattracts.near
  have hlow : (2 : ℚ) ^ 52 ≤ mantissa := by exact_mod_cast hx.low
  have hhigh : (mantissa : ℚ) < 2 ^ 53 := by exact_mod_cast hx.high
  have hmantissa : (parts.mantissa : ℚ) + 1 ≤ 2 ^ 24 := by exact_mod_cast h.mantissa_lt
  have hceiling : exponent + 29 ≤ parts.exponent := by
    have hpower :
        (2 : ℚ) ^ (52 : Int) * 2 ^ exponent < 2 ^ (24 : Int) * 2 ^ parts.exponent := by
      rw [zpow_ofNat, zpow_ofNat]
      nlinarith
    rw [← zpow_add₀ two_ne_zero, ← zpow_add₀ two_ne_zero,
      zpow_lt_zpow_iff_right₀ one_lt_two] at hpower
    omega
  refine ⟨?_, hceiling⟩
  by_cases hlowest : parts.exponent = -149
  · omega
  · have hregular : 2 ^ 23 + 1 ≤ parts.mantissa :=
      Nat.lt_of_le_of_ne (h.canonical.resolve_right hlowest)
        (Ne.symm (h.regular.resolve_right hlowest))
    have hregular' : (2 : ℚ) ^ 23 + 1 ≤ parts.mantissa := by exact_mod_cast hregular
    have hpower :
        (2 : ℚ) ^ (23 : Int) * 2 ^ parts.exponent < 2 ^ (53 : Int) * 2 ^ exponent := by
      rw [zpow_ofNat, zpow_ofNat]
      nlinarith
    rw [← zpow_add₀ two_ne_zero, ← zpow_add₀ two_ne_zero,
      zpow_lt_zpow_iff_right₀ one_lt_two] at hpower
    have hfloor := h.floor
    omega

/-- A double that a single attracts is rounded to it. -/
theorem narrow_eq (hx : Double.IsNormal x mantissa exponent)
    (hattracts : parts.Attracts (mantissa * 2 ^ exponent)) :
    narrow x = Float32.ofBits (UInt32.ofNat parts.bits) := by
  obtain ⟨hexponent, hceiling⟩ := h.exponent_eq hx hattracts
  obtain ⟨shift, hshift⟩ := Int.le.dest (show exponent ≤ parts.exponent by omega)
  have hpositive : (0 : ℚ) < 2 ^ exponent := zpow_pos two_pos _
  have hplace : (2 : ℚ) ^ parts.exponent = 2 ^ shift * 2 ^ exponent := by
    rw [← hshift, zpow_add₀ two_ne_zero, zpow_natCast, mul_comm]
  have hdistance : |(mantissa : ℚ) * 2 ^ exponent - parts.mantissa * 2 ^ parts.exponent| =
      |(mantissa : ℚ) - parts.mantissa * 2 ^ shift| * 2 ^ exponent := by
    rw [hplace, ← mul_assoc, ← sub_mul, abs_mul, abs_of_pos hpositive]
  have hpower : (0 : ℚ) < 2 ^ shift := by positivity
  obtain ⟨hnear, htie⟩ := hattracts
  rw [hdistance, hplace, mul_div_right_comm] at hnear htie
  have hnear' := le_of_mul_le_mul_right hnear hpositive
  obtain ⟨hbelow, habove⟩ := abs_le.mp hnear'
  have hrounded : roundHalfEven mantissa (Nat.pow 2 (parts.exponent - exponent).toNat) =
      parts.mantissa := by
    have hamount : (parts.exponent - exponent).toNat = shift := by omega
    rw [hamount]
    apply roundHalfEven_eq (Nat.pow_pos two_pos)
    · have hcast : 2 * ((parts.mantissa : ℚ) * 2 ^ shift) ≤ 2 * mantissa + 2 ^ shift := by
        linarith
      exact_mod_cast hcast
    · have hcast : 2 * (mantissa : ℚ) ≤ 2 * (parts.mantissa * 2 ^ shift) + 2 ^ shift := by
        linarith
      exact_mod_cast hcast
    · intro htied
      apply htie
      congr 1
      rcases htied with htied | htied
      · have hcast :
            2 * ((parts.mantissa : ℚ) * 2 ^ shift) = 2 * mantissa + 2 ^ shift := by
          exact_mod_cast htied
        rw [abs_of_nonpos (by linarith [hpower])]
        linarith
      · have hcast :
            2 * (mantissa : ℚ) = 2 * (parts.mantissa * 2 ^ shift) + 2 ^ shift := by
          exact_mod_cast htied
        rw [abs_of_nonneg (by linarith [hpower])]
        linarith
  have hfinite : min singleInfinityBits ((parts.exponent + 149).toNat * Nat.pow 2 23 +
      parts.mantissa) = parts.bits := by
    have hmantissa := h.mantissa_lt
    have hhighest := h.ceiling
    change min (255 * 2 ^ 23) ((parts.exponent + 149).toNat * 2 ^ 23 + parts.mantissa) =
      (parts.exponent + 149).toNat * 2 ^ 23 + parts.mantissa
    omega
  rw [narrow, hx.parts]
  dsimp only
  rw [hexponent, hrounded, hfinite, if_neg Bool.false_ne_true]

end Dyadic.Canonical

/-- A number that follows another one past no place halfway to a neighbour is attracted
where that one is. -/
theorem Dyadic.Attracts.follow {parts : Dyadic} {y z w : ℚ} (h : parts.Attracts y)
    (hbelow : (z = y ∧ w = z) ∨
      (|z - y| < |z - (2 * parts.mantissa - 1) * (2 ^ parts.exponent / 2)| ∧
        |w - z| < |z - (2 * parts.mantissa - 1) * (2 ^ parts.exponent / 2)|))
    (habove : (z = y ∧ w = z) ∨
      (|z - y| < |z - (2 * parts.mantissa + 1) * (2 ^ parts.exponent / 2)| ∧
        |w - z| < |z - (2 * parts.mantissa + 1) * (2 ^ parts.exponent / 2)|)) :
    parts.Attracts w := by
  rcases hbelow with ⟨rfl, rfl⟩ | ⟨hybelow, hwbelow⟩
  · exact h
  rcases habove with ⟨rfl, rfl⟩ | ⟨hyabove, hwabove⟩
  · exact h
  have hlow : (2 * (parts.mantissa : ℚ) - 1) * (2 ^ parts.exponent / 2) =
      parts.mantissa * 2 ^ parts.exponent - 2 ^ parts.exponent / 2 := by ring
  have hhigh : (2 * (parts.mantissa : ℚ) + 1) * (2 ^ parts.exponent / 2) =
      parts.mantissa * 2 ^ parts.exponent + 2 ^ parts.exponent / 2 := by ring
  have hnear := abs_le.mp h.near
  suffices hstrict :
      |w - parts.mantissa * 2 ^ parts.exponent| < 2 ^ parts.exponent / 2 from
    ⟨hstrict.le, fun hequal => absurd hequal hstrict.ne⟩
  rw [hlow] at hybelow hwbelow
  rw [hhigh] at hyabove hwabove
  generalize (parts.mantissa : ℚ) * 2 ^ parts.exponent = value at *
  generalize (2 : ℚ) ^ parts.exponent / 2 = reach at *
  have hzlow : value - reach < z := by
    by_contra hz
    rw [abs_of_nonpos (a := z - (value - reach)) (by linarith only [hz])] at hybelow
    have habs := neg_abs_le (z - y)
    linarith only [habs, hybelow, hnear.1]
  have hzhigh : z < value + reach := by
    by_contra hz
    rw [abs_of_nonneg (a := z - (value + reach)) (by linarith only [hz])] at hyabove
    have habs := le_abs_self (z - y)
    linarith only [habs, hyabove, hnear.2]
  rw [abs_of_pos (a := z - (value - reach)) (by linarith only [hzlow])] at hwbelow
  rw [abs_of_neg (a := z - (value + reach)) (by linarith only [hzhigh])] at hwabove
  obtain ⟨hwlow, -⟩ := abs_lt.mp hwbelow
  obtain ⟨-, hwhigh⟩ := abs_lt.mp hwabove
  exact abs_lt.mpr ⟨by linarith only [hwlow], by linarith only [hwhigh]⟩

end TextMusic

/-
Scaled significands and the places halfway between singles.  A significand of few digits,
scaled by a power of ten that is rounded to a double, stays on its side of every such
place: the distance is computed from convergents, once for each power of two that a single
can have and each power of ten with room for a significand.
-/
import Mathlib.Algebra.Order.AbsoluteValue.Basic
import Mathlib.Algebra.Order.Field.Power
import Mathlib.Tactic.FieldSimp
import TextMusic.Proofs.Convergents
import TextMusic.Proofs.Rounding

namespace TextMusic

open Json

/-! ## Powers of ten -/

/-- A power of ten, rounded to 53 bits. -/
def roundedPower (e : Nat) : Nat :=
  let place := (10 ^ e).log2 - 52
  roundHalfEven (10 ^ e) (2 ^ place) * 2 ^ place

/-- The parts of a natural number of 53 bits as a double. -/
def wholeParts (n : Nat) : Dyadic :=
  ⟨false, n * 2 ^ (52 - n.log2) / 2 ^ (n.log2 - 52), (n.log2 : Int) - 52⟩

def isPower (e : Nat) : Bool :=
  let parts := wholeParts (roundedPower e)
  Dyadic.ofDouble? (powerOfTen e) == some parts &&
    parts.mantissa * 2 ^ parts.exponent.toNat ==
      roundedPower e * 2 ^ (-parts.exponent).toNat &&
    2 ^ 52 ≤ parts.mantissa && parts.mantissa < 2 ^ 53 && parts.exponent ≤ 130 &&
    -52 ≤ parts.exponent

theorem isPower_upTo : ∀ e < 55, isPower e = true := by
  decide +kernel

/-- A power of ten is read as the whole number that it is rounded to. -/
theorem exists_isNormal_powerOfTen {e : Nat} (h : e < 55) :
    ∃ mantissa exponent, Double.IsNormal (powerOfTen e) mantissa exponent ∧
      (mantissa : ℚ) * 2 ^ exponent = roundedPower e ∧ -52 ≤ exponent ∧
      exponent ≤ 130 := by
  have hpower := isPower_upTo e h
  simp only [isPower, Bool.and_eq_true, beq_iff_eq, decide_eq_true_eq] at hpower
  obtain ⟨⟨⟨⟨⟨hparts, hvalue⟩, hlow⟩, hhigh⟩, hceiling⟩, hfloor⟩ := hpower
  refine ⟨(wholeParts (roundedPower e)).mantissa, (wholeParts (roundedPower e)).exponent,
    ⟨hlow, hhigh, hparts⟩, ?_, hfloor, hceiling⟩
  have hcast : ((wholeParts (roundedPower e)).mantissa : ℚ) *
      2 ^ (wholeParts (roundedPower e)).exponent.toNat =
        roundedPower e * 2 ^ (-(wholeParts (roundedPower e)).exponent).toNat := by
    exact_mod_cast hvalue
  generalize (wholeParts (roundedPower e)).exponent = exponent at *
  have hpositive : (0 : ℚ) < 2 ^ (-exponent).toNat := by positivity
  have hsum : exponent + ((-exponent).toNat : Int) = exponent.toNat := by omega
  rw [← mul_left_inj' hpositive.ne', ← hcast, mul_assoc, ← zpow_natCast, ← zpow_natCast,
    ← zpow_add₀ two_ne_zero, hsum]

/-! ## Fractions that keep away from each other -/

theorem cast_dist (x y : Nat) : ((x - y + (y - x) : Nat) : ℚ) = |(x : ℚ) - y| := by
  rcases le_total x y with h | h
  · have hcast : (x : ℚ) ≤ y := by exact_mod_cast h
    rw [Nat.sub_eq_zero_of_le h, Nat.zero_add, Nat.cast_sub h, abs_sub_comm,
      abs_of_nonneg (sub_nonneg.mpr hcast)]
  · have hcast : (y : ℚ) ≤ x := by exact_mod_cast h
    rw [Nat.sub_eq_zero_of_le h, Nat.add_zero, Nat.cast_sub h,
      abs_of_nonneg (sub_nonneg.mpr hcast)]

/-- Whether the multiples of `a / b` below the limit keep away from those of `c / d`: by
more than a `2 ^ 29`th of it, and by more than they differ from the multiples of `u / v`
that they stand for.  Where they do not differ from these they may also be multiples of
both. -/
def keepsAway (a b u v c d limit : Nat) : Bool :=
  let missed := (a * v - b * u) + (b * u - a * v)
  let gap := max (b * c / 2 ^ 29) (b * c * 2 ^ 25 * missed / (b * u)) + 1
  (Convergents.expand limit 60 (a * d) (b * c) 1 0 0 1).isolate
    (a * d) (b * c) (missed == 0) limit gap

theorem lt_mul_of_div_lt {x y z : Nat} (hy : 0 < y) (h : x / y < z) :
    (x : ℚ) < y * z := by
  rw [Nat.div_lt_iff_lt_mul hy, Nat.mul_comm] at h
  exact_mod_cast h

theorem away_of_keepsAway {a b u v c d limit : Nat} (hb : 0 < b) (hu : 0 < u) (hv : 0 < v)
    (hc : 0 < c) (hd : 0 < d) (h : keepsAway a b u v c d limit = true) {n : Nat}
    (hn : 0 < n) (hlimit : n < limit) (hroom : n * (u / v : ℚ) < 2 ^ 25 * (c / d))
    (k : Int) :
    (n * (a / b : ℚ) = n * (u / v) ∧ n * (a / b : ℚ) = k * (c / d)) ∨
    (|n * (a / b : ℚ) - n * (u / v)| < |n * (a / b : ℚ) - k * (c / d)| ∧
      (c / d : ℚ) / 2 ^ 29 < |n * (a / b : ℚ) - k * (c / d)|) := by
  have hbQ : (0 : ℚ) < b := by exact_mod_cast hb
  have huQ : (0 : ℚ) < u := by exact_mod_cast hu
  have hvQ : (0 : ℚ) < v := by exact_mod_cast hv
  have hcQ : (0 : ℚ) < c := by exact_mod_cast hc
  have hdQ : (0 : ℚ) < d := by exact_mod_cast hd
  have hhalfway :
      n * (a / b : ℚ) - k * (c / d) = (n * (a * d) - k * (b * c)) / (b * d) := by
    field_simp
  have hmissed : n * (a / b : ℚ) - n * (u / v) = n * (a * v - b * u) / (b * v) := by
    field_simp
  have hdist := cast_dist (a * v) (b * u)
  rw [keepsAway] at h
  generalize a * v - b * u + (b * u - a * v) = missed at *
  push_cast at hdist
  rcases Convergents.isolated h hn hlimit k with ⟨hwhole, hequal⟩ | hgap
  · left
    rw [beq_iff_eq] at hwhole
    rw [hwhole, Nat.cast_zero, eq_comm, abs_eq_zero] at hdist
    have hequalQ : (n * (a * d) : ℚ) = k * (b * c) := by exact_mod_cast hequal
    constructor
    · rw [← sub_eq_zero, hmissed, hdist, mul_zero, zero_div]
    · rw [← sub_eq_zero, hhalfway, hequalQ, sub_self, zero_div]
  · right
    obtain ⟨z, hz⟩ : ∃ z : Nat, |(n * (a * d : Nat) : Int) - k * (b * c : Nat)| = z :=
      Int.eq_ofNat_of_zero_le (abs_nonneg _)
    have hzQ : |(n * (a * d) : ℚ) - k * (b * c)| = z := by exact_mod_cast hz
    rw [hz] at hgap
    have hgap' : max (b * c / 2 ^ 29) (b * c * 2 ^ 25 * missed / (b * u)) < z := by
      exact_mod_cast hgap
    obtain ⟨hrounding, hscale⟩ := max_lt_iff.mp hgap'
    have hrounding' := lt_mul_of_div_lt (Nat.two_pow_pos 29) hrounding
    have hscale' := lt_mul_of_div_lt (Nat.mul_pos hb hu) hscale
    push_cast at hrounding' hscale'
    have hvalue : |(n * (a * d) - k * (b * c) : ℚ) / (b * d)| = z / (b * d) := by
      rw [abs_div, hzQ, abs_of_pos (mul_pos hbQ hdQ)]
    have herror : |(n * (a * v - b * u) : ℚ) / (b * v)| = n * missed / (b * v) := by
      rw [abs_div, abs_mul, Nat.abs_cast, ← hdist, abs_of_pos (mul_pos hbQ hvQ)]
    rw [hhalfway, hmissed, hvalue, herror]
    constructor
    · rw [div_lt_div_iff₀ (mul_pos hbQ hvQ) (mul_pos hbQ hdQ)]
      rw [← mul_div_assoc, ← mul_div_assoc, div_lt_div_iff₀ hvQ hdQ] at hroom
      have hnonneg : (0 : ℚ) ≤ missed * b := by positivity
      have hleft := mul_le_mul_of_nonneg_right hroom.le hnonneg
      have hright := mul_lt_mul_of_pos_right hscale' hvQ
      refine lt_of_mul_lt_mul_right ?_ huQ.le
      linarith
    · rw [div_div, div_lt_div_iff₀ (by positivity) (mul_pos hbQ hdQ)]
      have hboth := mul_lt_mul_of_pos_right hrounding' hdQ
      linarith

/-! ## Scales -/

/-- The numerator and the denominator of what a significand is multiplied by where the
power of ten is `10 ^ (place - 53)`. -/
def scaleNumerator (place : Nat) : Nat :=
  if place < 53 then 1 else roundedPower (place - 53)

def scaleDenominator (place : Nat) : Nat :=
  if place < 53 then roundedPower (53 - place) else 1

def scale (place : Nat) : ℚ :=
  scaleNumerator place / scaleDenominator place

/-- The power of ten itself. -/
def grid (place : Nat) : ℚ :=
  (10 ^ place : Nat) / (10 ^ 53 : Nat)

/-- Half a place of the singles whose exponent is `field - 149`. -/
def half (field : Nat) : ℚ :=
  (2 ^ field : Nat) / (2 ^ 150 : Nat)

theorem roundedPower_pos {e : Nat} (h : e < 55) : 0 < roundedPower e := by
  obtain ⟨mantissa, exponent, hnormal, hvalue, -⟩ := exists_isNormal_powerOfTen h
  have hmantissa : (0 : ℚ) < mantissa := by
    exact_mod_cast (Nat.two_pow_pos 52).trans_le hnormal.low
  have hpositive : (0 : ℚ) < roundedPower e := by
    rw [← hvalue]
    positivity
  exact_mod_cast hpositive

theorem scaleDenominator_pos (place : Nat) : 0 < scaleDenominator place := by
  rw [scaleDenominator]
  split_ifs with hplace
  · exact roundedPower_pos (by omega)
  · exact Nat.one_pos

theorem grid_pos (place : Nat) : 0 < grid place := by
  rw [grid]
  positivity

theorem half_pos (field : Nat) : 0 < half field := by
  rw [half]
  positivity

theorem common_pos : (0 : ℚ) < (10 ^ 53 * 2 ^ 149 : Nat) := by
  positivity

theorem grid_eq (place : Nat) :
    grid place = (10 ^ place * 2 ^ 149 : Nat) / ((10 ^ 53 * 2 ^ 149 : Nat) : ℚ) := by
  have hpower : ((2 ^ 149 : Nat) : ℚ) ≠ 0 := by positivity
  rw [grid, Nat.cast_mul, Nat.cast_mul, mul_div_mul_right _ _ hpower]

theorem two_half_eq (field : Nat) :
    2 * half field = (2 ^ field * 10 ^ 53 : Nat) / ((10 ^ 53 * 2 ^ 149 : Nat) : ℚ) := by
  have hten : ((10 ^ 53 : Nat) : ℚ) ≠ 0 := by positivity
  have htwo : 2 ^ 150 = 2 ^ 149 * 2 := pow_succ 2 149
  rw [half, htwo, Nat.cast_mul, Nat.cast_mul, Nat.cast_mul, Nat.cast_two,
    mul_comm ((10 ^ 53 : Nat) : ℚ), mul_div_mul_right _ _ hten, ← div_div,
    mul_div_cancel₀ _ two_ne_zero]

/-- Whether a power of ten is rounded by no more than a `2 ^ 52`th of it. -/
def isClose (place : Nat) : Bool :=
  let rounded := scaleNumerator place * 10 ^ 53
  let exact := scaleDenominator place * 10 ^ place
  2 ^ 52 * (rounded - exact + (exact - rounded)) ≤ exact

theorem isClose_upTo : ∀ place < 93, isClose place = true := by
  decide +kernel

theorem abs_scale_sub_grid_le {place : Nat} (h : place < 93) :
    |scale place - grid place| ≤ grid place / 2 ^ 52 := by
  have hclose := isClose_upTo place h
  have hdenominator : (0 : ℚ) < scaleDenominator place := by
    exact_mod_cast scaleDenominator_pos place
  have hten : (0 : ℚ) < (10 ^ 53 : Nat) := by positivity
  simp only [isClose, decide_eq_true_eq] at hclose
  have hcast : (2 : ℚ) ^ 52 * |(scaleNumerator place : ℚ) * (10 ^ 53 : Nat) -
      scaleDenominator place * (10 ^ place : Nat)| ≤
        scaleDenominator place * (10 ^ place : Nat) := by
    rw [← Nat.cast_mul, ← Nat.cast_mul, ← cast_dist]
    exact_mod_cast hclose
  have hdifference : scale place - grid place =
      ((scaleNumerator place : ℚ) * (10 ^ 53 : Nat) -
        scaleDenominator place * (10 ^ place : Nat)) /
        (scaleDenominator place * (10 ^ 53 : Nat)) := by
    rw [scale, grid, div_sub_div _ _ hdenominator.ne' hten.ne']
  have hgrid : grid place = scaleDenominator place * (10 ^ place : Nat) /
      (scaleDenominator place * (10 ^ 53 : Nat)) := by
    rw [grid, mul_div_mul_left _ _ hdenominator.ne']
  rw [hdifference, hgrid, abs_div, abs_of_pos (mul_pos hdenominator hten), div_right_comm,
    div_le_div_iff_of_pos_right (mul_pos hdenominator hten),
    le_div_iff₀ (by positivity), mul_comm]
  exact hcast

/-! ## Halfway between singles -/

/-- The lowest power of ten that is not below `2 ^ (field - 149)`, counted from `10 ^
(-53)`. -/
def coarsest (field : Nat) : Nat :=
  (field * 30103 + 914652) / 100000

/-- Whether the next lower power of ten is below that by more than a thousandth of it. -/
def isAmple (field : Nat) : Bool :=
  let power := 2 ^ field * 10 ^ 53
  let coarse := 10 ^ coarsest field * 2 ^ 149
  let fine := 10 ^ (coarsest field - 1) * 2 ^ 149
  power ≤ coarse && 0 < coarsest field && 2 ^ 10 * fine + power ≤ 2 ^ 10 * power

/-- Whether scaled significands keep away from the places halfway between singles. -/
def isClear (field place : Nat) : Bool :=
  keepsAway (scaleNumerator place) (scaleDenominator place) (10 ^ place)
    (10 ^ 53) (2 ^ field) (2 ^ 150)
    (2 ^ 24 * (2 ^ field * 10 ^ 53) / (10 ^ place * 2 ^ 149) + 1)

theorem isAmple_upTo : ∀ field < 254, isAmple field = true := by
  decide +kernel

theorem isClear_upTo : ∀ field < 254, ∀ further < 8,
    isClear field (coarsest field + further) = true := by
  decide +kernel

variable {field place : Nat}

/-- A grid finer than the places of singles is finer by more than a thousandth. -/
theorem fine_grid (hfield : field < 254) (h : grid place < 2 * half field) :
    2 ^ 10 * grid place + 2 * half field ≤ 2 ^ 10 * (2 * half field) := by
  have hample := isAmple_upTo field hfield
  simp only [isAmple, Bool.and_eq_true, decide_eq_true_eq] at hample
  obtain ⟨⟨hcoarse, hpositive⟩, hfine⟩ := hample
  rw [grid_eq, two_half_eq, div_lt_div_iff_of_pos_right common_pos, Nat.cast_lt] at h
  have hbelow : place < coarsest field := by
    by_contra habove
    have hpower : 10 ^ coarsest field ≤ 10 ^ place :=
      Nat.pow_le_pow_right (by decide) (not_lt.mp habove)
    have hproduct := Nat.mul_le_mul_right (2 ^ 149) hpower
    omega
  have hpower : 10 ^ place ≤ 10 ^ (coarsest field - 1) :=
    Nat.pow_le_pow_right (by decide) (by omega)
  have hproduct := Nat.mul_le_mul_right (2 ^ 149) hpower
  rw [grid_eq, two_half_eq, ← mul_div_assoc, ← mul_div_assoc, ← add_div,
    div_le_div_iff_of_pos_right common_pos]
  have hnat : 2 ^ 10 * (10 ^ place * 2 ^ 149) + 2 ^ field * 10 ^ 53 ≤
      2 ^ 10 * (2 ^ field * 10 ^ 53) :=
    (Nat.add_le_add_right (Nat.mul_le_mul_left _ hproduct) _).trans hfine
  exact_mod_cast hnat

/-- Where the grid is coarser than the places of singles and leaves room for a
significand, it is one of eight. -/
theorem exists_further (hfield : field < 254) (hcoarse : 2 * half field ≤ grid place)
    (hroom : grid place < 2 ^ 24 * (2 * half field)) :
    ∃ further < 8, place = coarsest field + further := by
  have hample := isAmple_upTo field hfield
  simp only [isAmple, Bool.and_eq_true, decide_eq_true_eq] at hample
  obtain ⟨⟨hcoarsest, hpositive⟩, hfine⟩ := hample
  rw [grid_eq, two_half_eq, div_le_div_iff_of_pos_right common_pos, Nat.cast_le]
    at hcoarse
  rw [grid_eq, two_half_eq, ← mul_div_assoc, div_lt_div_iff_of_pos_right common_pos]
    at hroom
  have hroom' : 10 ^ place * 2 ^ 149 < 2 ^ 24 * (2 ^ field * 10 ^ 53) := by
    exact_mod_cast hroom
  have hpower : 0 < 2 ^ field * 10 ^ 53 := by positivity
  have hlow : coarsest field ≤ place := by
    by_contra hbelow
    have hpower : 10 ^ place ≤ 10 ^ (coarsest field - 1) :=
      Nat.pow_le_pow_right (by decide) (by omega)
    have hproduct := Nat.mul_le_mul_right (2 ^ 149) hpower
    omega
  have hhigh : place < coarsest field + 8 := by
    by_contra habove
    have hpower : 10 ^ (coarsest field + 8) ≤ 10 ^ place :=
      Nat.pow_le_pow_right (by decide) (not_lt.mp habove)
    have hproduct := Nat.mul_le_mul_right (2 ^ 149) hpower
    rw [Nat.pow_add] at hproduct
    omega
  exact ⟨place - coarsest field, by omega, by omega⟩

/-- A significand on a grid no finer than the places of singles is scaled to a number
halfway between singles only without an error, and is otherwise further from there than
the errors. -/
theorem clear_of_halfway (hfield : field < 254) (hcoarse : 2 * half field ≤ grid place)
    {n : Nat} (hn : 0 < n) (hbelow : n * grid place < 2 ^ 24 * (2 * half field))
    (c : Int) :
    (n * scale place = n * grid place ∧ n * scale place = c * half field) ∨
    (|n * scale place - n * grid place| < |n * scale place - c * half field| ∧
      half field / 2 ^ 29 < |n * scale place - c * half field|) := by
  have hroom : grid place < 2 ^ 24 * (2 * half field) := by
    refine lt_of_le_of_lt (le_mul_of_one_le_left (grid_pos place).le ?_) hbelow
    exact_mod_cast hn
  obtain ⟨further, hfurther, rfl⟩ := exists_further hfield hcoarse hroom
  have hclear := isClear_upTo field hfield further hfurther
  generalize coarsest field + further = place at *
  have hlimit : n < 2 ^ 24 * (2 ^ field * 10 ^ 53) / (10 ^ place * 2 ^ 149) + 1 := by
    rw [Nat.lt_add_one_iff, Nat.le_div_iff_mul_le (by positivity)]
    rw [grid_eq, two_half_eq, ← mul_div_assoc, ← mul_div_assoc,
      div_lt_div_iff_of_pos_right common_pos] at hbelow
    have hnat : n * (10 ^ place * 2 ^ 149) < 2 ^ 24 * (2 ^ field * 10 ^ 53) := by
      exact_mod_cast hbelow
    exact hnat.le
  have hroom' : (n : ℚ) * grid place < 2 ^ 25 * half field := by
    refine hbelow.trans_eq ?_
    ring
  exact away_of_keepsAway (scaleDenominator_pos place) (by positivity) (by positivity)
    (by positivity) (by positivity) hclear hn hlimit hroom' c

end TextMusic

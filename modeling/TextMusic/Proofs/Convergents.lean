/-
Multiples of a fraction next to whole numbers.  No multiple below a limit comes nearer to
a whole number than a convergent of the fraction does, unless it is one, so that two
neighbouring convergents show what distance all of them keep.
-/
import Mathlib.Algebra.Order.Ring.Abs
import Mathlib.Tactic.Linarith
import Mathlib.Tactic.LinearCombination
import Mathlib.Tactic.Ring

namespace TextMusic

/-- Two neighbouring convergents of a fraction. -/
structure Convergents where
  denominator : Nat
  numerator : Nat
  nextDenominator : Nat
  nextNumerator : Nat

namespace Convergents

/-- The first convergents of a fraction of which the second has a denominator at or above
the limit, or is the fraction.  What is left to expand is `divisor / rest`. -/
def expand (limit : Nat) : Nat → Nat → Nat → Nat → Nat → Nat → Nat → Convergents
  | 0, _, _, q, p, q', p' => ⟨q, p, q', p'⟩
  | fuel + 1, divisor, rest, q, p, q', p' =>
      bif rest.beq 0 || limit.ble q' then ⟨q, p, q', p'⟩
      else expand limit fuel rest (divisor % rest) q' p' (divisor / rest * q' + q)
        (divisor / rest * p' + p)

/-- Whether the convergents show that every multiple of `a / b` below the limit is at
least `gap / b` from all whole numbers or, if that is allowed, one of them. -/
def isolate (convergents : Convergents) (a b : Nat) (whole : Bool) (limit gap : Nat) :
    Bool :=
  let ⟨q, p, q', p'⟩ := convergents
  ((p' * q == p * q' + 1 && p * b + gap ≤ q * a && q' * a ≤ p' * b) ||
    (p' * q + 1 == p * q' && q * a + gap ≤ p * b && p' * b ≤ q' * a)) &&
  ((whole && q' * a == p' * b) || limit ≤ q')

/-- The convergents of a fraction lie on different sides of it, and far enough from it. -/
structure Isolating (convergents : Convergents) (error nextError : Int) (gap : Nat) :
    Prop where
  unit : ((convergents.nextNumerator : Int) * convergents.denominator -
    convergents.numerator * convergents.nextDenominator) ^ 2 = 1
  opposite : error * nextError ≤ 0
  far : (gap : Int) ≤ |error|

theorem isolating {convergents : Convergents} {a b : Nat} {whole : Bool} {limit gap : Nat}
    (h : convergents.isolate a b whole limit gap = true) :
    convergents.Isolating (convergents.denominator * a - convergents.numerator * b)
        (convergents.nextDenominator * a - convergents.nextNumerator * b) gap ∧
      ((whole = true ∧
          convergents.nextDenominator * a = convergents.nextNumerator * b) ∨
        limit ≤ convergents.nextDenominator) := by
  obtain ⟨q, p, q', p'⟩ := convergents
  simp only [isolate, Bool.and_eq_true, Bool.or_eq_true, beq_iff_eq, decide_eq_true_eq]
    at h
  refine ⟨?_, h.2⟩
  rcases h.1 with ⟨⟨hunit, hfar⟩, hnext⟩ | ⟨⟨hunit, hfar⟩, hnext⟩
  · have hunit' : (p' : Int) * q = p * q' + 1 := by exact_mod_cast hunit
    have hfar' : (p : Int) * b + gap ≤ q * a := by exact_mod_cast hfar
    have hnext' : (q' : Int) * a ≤ p' * b := by exact_mod_cast hnext
    refine ⟨?_, ?_, ?_⟩
    · dsimp only
      rw [hunit', add_sub_cancel_left, one_pow]
    · exact mul_nonpos_of_nonneg_of_nonpos (by dsimp only; linarith)
        (sub_nonpos.mpr hnext')
    · refine le_trans ?_ (le_abs_self _)
      dsimp only
      linarith
  · have hunit' : (p' : Int) * q + 1 = p * q' := by exact_mod_cast hunit
    have hfar' : (q : Int) * a + gap ≤ p * b := by exact_mod_cast hfar
    have hnext' : (p' : Int) * b ≤ q' * a := by exact_mod_cast hnext
    refine ⟨?_, ?_, ?_⟩
    · dsimp only
      rw [← hunit', sub_add_cancel_left, neg_one_sq]
    · exact mul_nonpos_of_nonpos_of_nonneg (by dsimp only; linarith)
        (sub_nonneg.mpr hnext')
    · refine le_trans ?_ (neg_le_abs _)
      dsimp only
      linarith

/-- Every pair of whole numbers is a combination of the convergents. -/
theorem exists_combination {convergents : Convergents}
    (h : ((convergents.nextNumerator : Int) * convergents.denominator -
      convergents.numerator * convergents.nextDenominator) ^ 2 = 1) (a b n m : Int) :
    ∃ s t : Int, n = s * convergents.denominator + t * convergents.nextDenominator ∧
      n * a - m * b = s * (convergents.denominator * a - convergents.numerator * b) +
        t * (convergents.nextDenominator * a - convergents.nextNumerator * b) := by
  obtain ⟨q, p, q', p'⟩ := convergents
  dsimp only at h ⊢
  refine ⟨(p' * q - p * q') * (n * p' - m * q'),
    (p' * q - p * q') * (m * q - n * p), ?_, ?_⟩
  · linear_combination -n * h
  · linear_combination (m * b - n * a) * h

/-- A number below the denominators cannot be combined of them with coefficients of one
sign. -/
theorem coefficients_opposite {s t q q' : Int} (hq : 0 ≤ q) (hlow : 0 < s * q + t * q')
    (hhigh : s * q + t * q' < q') : s ≠ 0 ∧ s * t ≤ 0 := by
  rcases lt_trichotomy t 0 with ht | rfl | ht
  · have hs : 0 < s := by
      by_contra hs
      nlinarith [mul_nonneg (neg_nonneg.mpr (not_lt.mp hs)) hq]
    exact ⟨hs.ne', mul_nonpos_of_nonneg_of_nonpos hs.le ht.le⟩
  · refine ⟨?_, (mul_zero s).le⟩
    rintro rfl
    rw [zero_mul, zero_mul, add_zero] at hlow
    exact lt_irrefl _ hlow
  · have hs : s < 0 := by
      by_contra hs
      nlinarith [mul_nonneg (not_lt.mp hs) hq]
    exact ⟨hs.ne, mul_nonpos_of_nonpos_of_nonneg hs.le ht.le⟩

/-- Multiples of a fraction below the limit keep the distance from whole numbers. -/
theorem isolated {convergents : Convergents} {a b : Nat} {whole : Bool} {limit gap : Nat}
    (h : convergents.isolate a b whole limit gap = true) {n : Nat} (hn : 0 < n)
    (hlimit : n < limit) (m : Int) :
    (whole = true ∧ (n * a : Int) = m * b) ∨ (gap : Int) ≤ |(n * a : Int) - m * b| := by
  obtain ⟨⟨hunit, hopposite, hfar⟩, hbeyond⟩ := isolating h
  obtain ⟨s, t, hcombination, herror⟩ := exists_combination hunit a b n m
  have hwhole : (n * a : Int) = m * b ↔ (n * a : Int) - m * b = 0 := sub_eq_zero.symm
  rw [hwhole, herror]
  -- a multiple of the first error is either zero or no nearer than the error
  have hmultiple (hs : s ≠ 0) : (gap : Int) ≤
      |s * (convergents.denominator * a - convergents.numerator * b)| := by
    rw [abs_mul]
    exact hfar.trans (le_mul_of_one_le_left (abs_nonneg _) (Int.one_le_abs hs))
  rcases hbeyond with ⟨hallowed, hexact⟩ | hbeyond
  · have hzero : ((convergents.nextDenominator : Int) * a -
        convergents.nextNumerator * b) = 0 := by
      rw [sub_eq_zero]
      exact_mod_cast hexact
    rw [hzero, mul_zero, add_zero]
    rcases eq_or_ne s 0 with rfl | hs
    · exact .inl ⟨hallowed, zero_mul _⟩
    · exact .inr (hmultiple hs)
  · right
    have hlow : (0 : Int) < n := by exact_mod_cast hn
    have hhigh : (n : Int) < convergents.nextDenominator := by
      exact_mod_cast hlimit.trans_le hbeyond
    rw [hcombination] at hlow hhigh
    obtain ⟨hs, hsigns⟩ := coefficients_opposite (Int.natCast_nonneg _) hlow hhigh
    have hproduct := mul_nonneg_of_nonpos_of_nonpos hsigns hopposite
    rw [mul_mul_mul_comm] at hproduct
    rw [(abs_add_eq_add_abs_iff _ _).mpr (mul_nonneg_iff.mp hproduct)]
    exact (hmultiple hs).trans (le_add_of_nonneg_right (abs_nonneg _))

end Convergents

end TextMusic

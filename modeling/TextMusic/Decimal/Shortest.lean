/-
The shortest decimal of a single: among the decimals that are read back as the
number, those with the fewest digits, and of these the nearest.  All arithmetic
is exact, on natural numbers.
-/
import TextMusic.Binary
import TextMusic.Decimal.Digits

namespace TextMusic

/-- The number `coefficient` · 10 ^ `exponent`. -/
structure Decimal where
  coefficient : Nat
  exponent : Int
deriving DecidableEq, Repr

/-- The reals that round to a positive number, on a grid of quarters of its last
place: the ends `low` and `high`, the number `value`, all three in units of
2 ^ `exponent`, and whether the ends belong to it. -/
structure RoundingInterval where
  low : Nat
  value : Nat
  high : Nat
  exponent : Int
  closed : Bool

/-- Halfway to either neighbour.  Below a power of two the neighbour is only
half a place away, unless the exponent cannot become smaller.  The ends round
to the number when its mantissa is even. -/
def Dyadic.roundingInterval (parts : Dyadic) : RoundingInterval :=
  let m := parts.mantissa
  let narrowBelow := m = Nat.pow 2 23 ∧ parts.exponent > -149
  { low := if narrowBelow then 4 * m - 1 else 4 * m - 2
    value := 4 * m
    high := 4 * m + 2
    exponent := parts.exponent - 2
    closed := m % 2 == 0 }

namespace RoundingInterval

/-- The interval measured in units of 10 ^ `place`: numerators of its ends and
its value over a common denominator. -/
structure Scaled where
  low : Nat
  value : Nat
  high : Nat
  denominator : Nat
  closed : Bool

def scale (interval : RoundingInterval) (place : Int) : Scaled :=
  let up := Nat.pow 2 interval.exponent.toNat * Nat.pow 10 (-place).toNat
  { low := interval.low * up
    value := interval.value * up
    high := interval.high * up
    denominator := Nat.pow 2 (-interval.exponent).toNat * Nat.pow 10 place.toNat
    closed := interval.closed }

/-- Whether a whole number of units lies in the interval. -/
def Scaled.contains (scaled : Scaled) (n : Nat) : Bool :=
  let point := n * scaled.denominator
  if scaled.closed then scaled.low ≤ point && point ≤ scaled.high
  else scaled.low < point && point < scaled.high

/-- The whole number of units in the interval that is nearest to the value, the
even one of two at the same distance.  If any lies in it, one of the two
beside the value does. -/
def Scaled.nearest? (scaled : Scaled) : Option Nat :=
  let below := scaled.value / scaled.denominator
  let above := below + 1
  match scaled.contains below, scaled.contains above with
  | true, true => some (roundHalfEven scaled.value scaled.denominator)
  | true, false => some below
  | false, true => some above
  | false, false => none

/-- The place of the highest digit of the value, sought downwards from the
highest that a single can have. -/
def leadingPlace (interval : RoundingInterval) : Int :=
  let fits (down : Nat) : Bool :=
    let scaled := interval.scale (38 - (down : Int))
    scaled.denominator ≤ scaled.value
  38 - ((((List.range 84).find? fits).getD 84 : Nat) : Int)

/-- The decimal of an interval on the coarsest grid that has one.  The first
grid is one place above the value, which may lie just below a power of ten. -/
def shortest (interval : RoundingInterval) : Decimal :=
  let top := interval.leadingPlace + 1
  let onGrid (further : Nat) : Option Decimal :=
    let place := top - (further : Int)
    (interval.scale place).nearest?.map fun n => ⟨n, place⟩
  ((List.range 10).findSome? onGrid).getD ⟨0, 0⟩

end RoundingInterval

/-- The shortest decimal that is read back as the positive number. -/
def Dyadic.shortest (parts : Dyadic) : Decimal :=
  if parts.mantissa = 0 then ⟨0, 0⟩ else parts.roundingInterval.shortest

example : (Dyadic.mk false 15728640 (-17)).shortest = ⟨12, 1⟩ := by
  decide +kernel

/-- Of two decimals at the same distance the even one is taken. -/
example : (Dyadic.mk false 8388609 (-2)).shortest = ⟨20971522, -1⟩ := by
  decide +kernel

end TextMusic

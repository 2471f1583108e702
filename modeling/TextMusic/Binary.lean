/-
Binary floating point, taken apart.  A finite number is an integer times a
power of two; from these parts a single is widened to a double exactly, and a
double is rounded to the nearest single.
-/

namespace TextMusic

/-- The number ± `mantissa` · 2 ^ `exponent`; zero keeps its sign. -/
structure Dyadic where
  negative : Bool
  mantissa : Nat
  exponent : Int
deriving DecidableEq, Repr

/-- The parts of a finite single.  A normal number has a mantissa of 24 bits,
and no exponent is below -149. -/
def Dyadic.ofSingle? (x : Float32) : Option Dyadic :=
  let bits : Nat := x.toBits.toNat
  let negative := bits / Nat.pow 2 31 == 1
  let field : Nat := bits / Nat.pow 2 23 % Nat.pow 2 8
  let fraction : Nat := bits % Nat.pow 2 23
  if field = 255 then none
  else if field = 0 then some ⟨negative, fraction, -149⟩
  else some ⟨negative, Nat.pow 2 23 + fraction, (field : Int) - 150⟩

/-- The parts of a finite double. -/
def Dyadic.ofDouble? (x : Float) : Option Dyadic :=
  let bits : Nat := x.toBits.toNat
  let negative := bits / Nat.pow 2 63 == 1
  let field : Nat := bits / Nat.pow 2 52 % Nat.pow 2 11
  let fraction : Nat := bits % Nat.pow 2 52
  if field = 2047 then none
  else if field = 0 then some ⟨negative, fraction, -1074⟩
  else some ⟨negative, Nat.pow 2 52 + fraction, (field : Int) - 1075⟩

/-- The bits of the largest finite single, and one more: infinity. -/
def singleInfinityBits : Nat := 0x7F800000

/-- The quotient of two numbers as the nearest integer, a half going to the
even one. -/
def roundHalfEven (numerator denominator : Nat) : Nat :=
  let quotient := numerator / denominator
  let remainder := numerator % denominator
  if 2 * remainder < denominator then quotient
  else if denominator < 2 * remainder then quotient + 1
  else quotient + quotient % 2

/-- The double with the value of a single. -/
def widen (x : Float32) : Float :=
  match Dyadic.ofSingle? x with
  | some parts =>
      let scale :=
        Float.ofBits (UInt64.ofNat ((parts.exponent + 1023).toNat * Nat.pow 2 52))
      let magnitude := (UInt64.ofNat parts.mantissa).toFloat * scale
      if parts.negative then -magnitude else magnitude
  | none =>
      if x < 0 then Float.ofBits 0xFFF0000000000000
      else if 0 < x then Float.ofBits 0x7FF0000000000000
      else Float.ofBits 0x7FF8000000000000

/-- The single nearest to a double, a half going to the even one.  The bits of
singles of one sign are numbered in the order of their values, so that a carry
out of the mantissa leads to the next exponent, and at last to infinity. -/
def narrow (x : Float) : Float32 :=
  match Dyadic.ofDouble? x with
  | some parts =>
      let exponent := max (-149) (parts.exponent + 29)
      let mantissa :=
        roundHalfEven parts.mantissa (Nat.pow 2 (exponent - parts.exponent).toNat)
      let bits :=
        min singleInfinityBits ((exponent + 149).toNat * Nat.pow 2 23 + mantissa)
      let magnitude := Float32.ofBits (UInt32.ofNat bits)
      if parts.negative then -magnitude else magnitude
  | none =>
      if x < 0 then Float32.ofBits 0xFF800000
      else if 0 < x then Float32.ofBits 0x7F800000
      else Float32.ofBits 0x7FC00000

example : widen 120.0 = 120.0 := by
  decide +kernel

example : (narrow 16777217.0).toBits = (16777216.0 : Float32).toBits := by
  decide +kernel

end TextMusic

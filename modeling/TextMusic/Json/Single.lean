/-
Singles as JSON numbers.  They are written with the fewest digits that are read
back as the same single.  A number is read as a 64 bit significand that is
scaled once by a power of ten, in double precision, and then rounded.
-/
import TextMusic.Json.Basic
import TextMusic.Decimal.Shortest

namespace TextMusic

namespace Json

/-! ## Writing -/

/-- The places of the highest digit for which no power of ten is written. -/
def isPositional (leading : Int) : Bool :=
  -6 ≤ leading && leading ≤ 12

/-- The spelling of a decimal.  Without a power of ten there is at least one
digit on each side of the point; with one, a single digit stands before it. -/
def Number.ofDecimal (negative : Bool) (decimal : Decimal) : Number :=
  let digits := digitsOf decimal.coefficient
  let leading := decimal.exponent + digits.length - 1
  if !isPositional leading then
    ⟨negative, digits.take 1, digits.drop 1, some (leading < 0, digitsOf leading.natAbs)⟩
  else if leading < 0 then
    ⟨negative, [Digit.zero], List.replicate (-leading - 1).toNat Digit.zero ++ digits,
      none⟩
  else
    let padded := digits ++ List.replicate decimal.exponent.toNat Digit.zero
    let fraction := padded.drop (leading + 1).toNat
    ⟨negative, padded.take (leading + 1).toNat,
      if fraction.isEmpty then [Digit.zero] else fraction, none⟩

/-- A single as a number; what is not finite has none and becomes `null`. -/
def ofSingle (x : Float32) : Json :=
  match Dyadic.ofSingle? x with
  | some parts => .number (Number.ofDecimal parts.negative parts.shortest)
  | none => .null

/-! ## Reading -/

/-- A significand below 2 ^ 64 and the power of ten that it is multiplied by. -/
structure Scientific where
  significand : Nat
  exponent : Int
deriving DecidableEq, Repr

/-- Take a digit into the significand, if there is room for it. -/
def Scientific.push? (s : Scientific) (digit : Digit) : Option Nat :=
  let significand := s.significand * 10 + digit.val
  if significand < Nat.pow 2 64 then some significand else none

/-- Digits before the point.  From the first that finds no room on, each only
raises the exponent. -/
def Scientific.takeWhole : Scientific → List Digit → Scientific
  | s, [] => s
  | s, digit :: rest =>
      match s.push? digit with
      | some significand => takeWhole ⟨significand, s.exponent⟩ rest
      | none => ⟨s.significand, s.exponent + (rest.length + 1)⟩

/-- Digits behind the point.  From the first that finds no room on they are
passed over. -/
def Scientific.takeFraction : Scientific → List Digit → Scientific
  | s, [] => s
  | s, digit :: rest =>
      match s.push? digit with
      | some significand => takeFraction ⟨significand, s.exponent - 1⟩ rest
      | none => s

/-- The significand and exponent of a number, without its sign. -/
def Number.scientific (number : Number) : Scientific :=
  let digits := (Scientific.takeWhole ⟨0, 0⟩ number.whole).takeFraction number.fraction
  match number.exponent with
  | none => digits
  | some (negative, power) =>
      let power : Int := digitsValue power
      ⟨digits.significand,
        if negative then digits.exponent - power else digits.exponent + power⟩

/-- A power of ten as the nearest double. -/
def powerOfTen (n : Nat) : Float :=
  Float.ofScientific 1 false n

/-- The double of a significand and exponent: one product or quotient with a
power of ten, or two quotients where a double holds no such power.  Smaller
numbers vanish, and larger ones than a double holds have none. -/
def Scientific.toDouble? (s : Scientific) : Option Float :=
  let significand := (UInt64.ofNat s.significand).toFloat
  if 308 < s.exponent then
    if s.significand = 0 then some 0.0 else none
  else if 0 ≤ s.exponent then
    let value := significand * powerOfTen s.exponent.toNat
    if value.isInf then none else some value
  else if -308 ≤ s.exponent then
    some (significand / powerOfTen (-s.exponent).toNat)
  else if -616 ≤ s.exponent then
    some (significand / powerOfTen 308 / powerOfTen (-s.exponent - 308).toNat)
  else some 0.0

/-- The natural number behind the sign of a number spelled without point and
exponent. -/
def Number.magnitude? (number : Number) : Option Nat :=
  if number.fraction.isEmpty && number.exponent.isNone then
    some (digitsValue number.whole)
  else none

/-- The integers that are rounded to a single directly, not by way of a double. -/
def isWord (negative : Bool) (magnitude : Nat) : Bool :=
  if negative then 0 < magnitude && magnitude ≤ Nat.pow 2 63 else magnitude < Nat.pow 2 64

def negateIf (negative : Bool) (x : Float32) : Float32 :=
  if negative then -x else x

/-- The single that a number is read as, if it lies in the range of doubles. -/
def Number.toSingle? (number : Number) : Option Float32 :=
  let throughDouble :=
    (number.scientific.toDouble?).map fun x => negateIf number.negative (narrow x)
  match number.magnitude? with
  | some n =>
      if isWord number.negative n then
        some (negateIf number.negative (UInt64.ofNat n).toFloat32)
      else throughDouble
  | none => throughDouble

end Json

end TextMusic

/-
JSON values.  Numbers are kept as they are spelled and strings as they are
meant, so that a reader decides what a number is worth and nothing is lost.
-/
import TextMusic.Decimal.Digits

namespace TextMusic

namespace Json

/-- A number as spelled: digits before the point, after it, and of the power of
ten with its sign. -/
structure Number where
  negative : Bool
  whole : List Digit
  fraction : List Digit
  exponent : Option (Bool × List Digit)
deriving DecidableEq, Repr

/-- One element of a string.  A string may name half of a surrogate pair, which
is no character. -/
inductive Symbol where
  | scalar (c : Char)
  | half (unit : Nat)
deriving DecidableEq, Repr

/-- The characters of a string, if all its elements are characters. -/
def characters? : List Symbol → Option (List Char)
  | [] => some []
  | .scalar c :: rest => (characters? rest).map (c :: ·)
  | .half _ :: _ => none

theorem characters?_map_scalar (cs : List Char) :
    characters? (cs.map Symbol.scalar) = some cs := by
  induction cs with
  | nil => rfl
  | cons c cs ih => simp [characters?, ih]

end Json

/-- A JSON value.  The members of an object are in the order of the text, and a
name may come twice. -/
inductive Json where
  | null
  | bool (value : Bool)
  | number (value : Json.Number)
  | text (value : List Json.Symbol)
  | array (items : List Json)
  | object (members : List (List Json.Symbol × Json))

namespace Json

/-- The value of a text. -/
def ofString (s : String) : Json :=
  .text (s.toList.map Symbol.scalar)

/-- The value of a natural number. -/
def ofNat (n : Nat) : Json :=
  .number ⟨false, digitsOf n, [], none⟩

/-- One member of an object. -/
def member (name : String) (value : Json) : List Symbol × Json :=
  (name.toList.map Symbol.scalar, value)

/-- The text that a value is, if it is one. -/
def string? : Json → Option String
  | .text symbols => (characters? symbols).map String.ofList
  | _ => none

/-- The natural number that a number spells with digits alone. -/
def Number.natural? (number : Number) : Option Nat :=
  if !number.negative && number.fraction.isEmpty && number.exponent.isNone then
    some (digitsValue number.whole)
  else none

end Json

end TextMusic

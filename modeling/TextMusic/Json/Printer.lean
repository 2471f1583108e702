/-
Writing JSON: no blanks, members and items in their order, and of the
characters only quote, backslash and the control characters escaped.
-/
import TextMusic.Json.Basic

namespace TextMusic

namespace Json

/-- A hexadecimal digit in lower case. -/
def hexChar (n : Nat) : Char :=
  if n < 10 then Char.ofNat (48 + n) else Char.ofNat (87 + n)

/-- A 16 bit unit as an escape. -/
def writeUnit (unit : Nat) : List Char :=
  ['\\', 'u', hexChar (unit / 4096 % 16), hexChar (unit / 256 % 16),
    hexChar (unit / 16 % 16), hexChar (unit % 16)]

def writeSymbol : Symbol → List Char
  | .scalar '"' => ['\\', '"']
  | .scalar '\\' => ['\\', '\\']
  | .scalar '\x08' => ['\\', 'b']
  | .scalar '\t' => ['\\', 't']
  | .scalar '\n' => ['\\', 'n']
  | .scalar '\x0c' => ['\\', 'f']
  | .scalar '\r' => ['\\', 'r']
  | .scalar c => if c.toNat < 0x20 then writeUnit c.toNat else [c]
  | .half unit => writeUnit unit

def writeText (symbols : List Symbol) : List Char :=
  '"' :: symbols.flatMap writeSymbol ++ ['"']

/-- The sign of an exponent is always written. -/
def Number.write (number : Number) : List Char :=
  let sign := if number.negative then ['-'] else []
  let fraction :=
    if number.fraction.isEmpty then [] else '.' :: number.fraction.map digitChar
  let exponent := match number.exponent with
    | none => []
    | some (negative, digits) =>
        'e' :: (if negative then '-' else '+') :: digits.map digitChar
  sign ++ number.whole.map digitChar ++ fraction ++ exponent

/-- Put a comma between written items. -/
def separated : List (List Char) → List Char
  | [] => []
  | [item] => item
  | item :: rest => item ++ ',' :: separated rest

mutual

/-- The text of a value. -/
def write : Json → List Char
  | .null => ['n', 'u', 'l', 'l']
  | .bool true => ['t', 'r', 'u', 'e']
  | .bool false => ['f', 'a', 'l', 's', 'e']
  | .number value => value.write
  | .text value => writeText value
  | .array items => '[' :: separated (writeItems items) ++ [']']
  | .object members => '\x7b' :: separated (writeMembers members) ++ ['\x7d']

def writeItems : List Json → List (List Char)
  | [] => []
  | item :: rest => write item :: writeItems rest

def writeMembers : List (List Symbol × Json) → List (List Char)
  | [] => []
  | (name, value) :: rest => (writeText name ++ ':' :: write value) :: writeMembers rest

end

/-- The text of a value as a string. -/
def render (value : Json) : String :=
  String.ofList value.write

end Json

end TextMusic

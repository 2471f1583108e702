/-
Quoted texts: between quotes, and with escapes for what would not be seen.
-/
import TextMusic.Text.Hidden

namespace TextMusic

namespace Quoted

/-- The hexadecimal digits of a number in lower case, the highest first. -/
def hexDigits (n : Nat) : List Char :=
  Nat.toDigits 16 n

/-- Whether a character is written by its number. -/
def isNumbered (c : Char) : Bool :=
  c.toNat < 0x20 || c.toNat == 0x7F || isHidden c

/-- A character as it is written between quotes. -/
def escape (c : Char) : List Char :=
  match c with
  | '\x00' => ['\\', '0']
  | '\t' => ['\\', 't']
  | '\n' => ['\\', 'n']
  | '\r' => ['\\', 'r']
  | '"' => ['\\', '"']
  | '\\' => ['\\', '\\']
  | c =>
      if isNumbered c then ['\\', 'u', '\x7b'] ++ hexDigits c.toNat ++ ['\x7d'] else [c]

/-- A text between quotes. -/
def quote (text : String) : String :=
  String.ofList ('"' :: text.toList.flatMap escape ++ ['"'])

end Quoted

end TextMusic

/-
The actions that characters are bound to, and a binding: an action together
with what was known when its character was read.
-/
import TextMusic.Pitch

namespace TextMusic

/-- What a character can do to a performance. -/
inductive Action where
  /-- Play the note that the character names. -/
  | newNote
  | doubleVolume
  | increaseOctave
  | decreaseOctave
  /-- Play the last note again, or ring when there is none just before. -/
  | repeatNote
  | randomNote
  | newInstrument
  /-- Hold a silent note. -/
  | rest
deriving DecidableEq, Repr

/-- The table of bound characters. -/
def Action.ofChar? : Char → Option Action
  | 'A' | 'B' | 'C' | 'D' | 'E' | 'F' | 'G' | 'H' => some .newNote
  | 'a' | 'b' | 'c' | 'd' | 'e' | 'f' | 'g' | 'h' => some .newNote
  | 'O' | 'o' | 'I' | 'i' | 'U' | 'u' => some .repeatNote
  | ' ' => some .doubleVolume
  | '+' => some .increaseOctave
  | '-' => some .decreaseOctave
  | '?' => some .randomNote
  | '\n' => some .newInstrument
  | ';' => some .rest
  | _ => none

/-- An action with the arguments that it was bound with.  Carrying it out later
uses these, whatever has been read since. -/
structure Binding where
  action : Action
  character : Char
  /-- The character just before, `'\x00'` at the start. -/
  previousCharacter : Char
  /-- The semitone of the last note letter before the character. -/
  previousPitch : Option UInt8
deriving DecidableEq, Repr

example : Action.ofChar? 'h' = some .newNote ∧ Action.ofChar? 'J' = none := by
  decide

end TextMusic

/-
Note letters and pitches.  A letter names a step of the scale, an octave lifts
it to one of the 128 pitches that the wire can carry.
-/

namespace TextMusic

/-- The highest pitch; anything above it is played at it. -/
def maxPitch : UInt8 := 127

/-- Every note is held for this many ticks. -/
def noteLength : Nat := 4

/-- The semitone played where a note is needed and no letter has been read. -/
def fallbackSemitone : UInt8 := 0

/-- The semitone of a note letter above the C of its octave, in either case.
`B` is the flattened seventh and `H` the natural one. -/
def semitone? : Char → Option UInt8
  | 'C' | 'c' => some 0
  | 'D' | 'd' => some 2
  | 'E' | 'e' => some 4
  | 'F' | 'f' => some 5
  | 'G' | 'g' => some 7
  | 'A' | 'a' => some 9
  | 'B' | 'b' => some 10
  | 'H' | 'h' => some 11
  | _ => none

/-- Whether a character names a note. -/
def isNoteLetter (c : Char) : Bool :=
  (semitone? c).isSome

/-- The pitch of a semitone in an octave, where octave -1 starts at pitch 0.
What lies outside the 128 pitches goes to the nearest of them. -/
def pitchOf (octave : Int) (semitone : UInt8) : UInt8 :=
  let pitch := 12 * (octave + 1) + semitone.toNat
  if pitch > maxPitch.toNat then maxPitch else UInt8.ofNat pitch.toNat

/-- The letters among which a random note is drawn. -/
def noteLetters : Vector Char 8 :=
  #v['A', 'B', 'C', 'D', 'E', 'F', 'G', 'H']

/-- Every letter that can be drawn names a note. -/
theorem isNoteLetter_noteLetters (i : Fin 8) : isNoteLetter noteLetters[i] = true := by
  revert i
  decide

example : pitchOf 4 0 = 60 ∧ pitchOf 9 7 = 127 ∧ pitchOf 9 11 = 127 ∧
    pitchOf (-2) 3 = 0 := by
  decide

end TextMusic

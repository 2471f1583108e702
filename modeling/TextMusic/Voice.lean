/-
The voice: what a performance is set to at a moment, and how the actions that
make no sound change it.
-/
import TextMusic.Binary
import TextMusic.Config
import TextMusic.Event

namespace TextMusic

def lowestOctave : Int := -1
def highestOctave : Int := 9
def loudest : UInt8 := 127

/-- What a performance is set to. -/
structure Voice where
  octave : Int
  volume : UInt8
  instrument : UInt8
  channel : UInt8
  /-- Quarter notes per minute. -/
  bpm : Float32

namespace Voice

/-- A performance starts in the lowest octave, with everything else as
configured. -/
def ofConfig (config : Config) : Voice :=
  ⟨lowestOctave, config.volume, config.instrument, config.channel, config.bpm⟩

/-- Above the highest octave comes the lowest. -/
def increaseOctave (voice : Voice) : Voice :=
  let octave := voice.octave + 1
  { voice with octave := if octave > highestOctave then lowestOctave else octave }

/-- Below the lowest octave comes the highest. -/
def decreaseOctave (voice : Voice) : Voice :=
  let octave := voice.octave - 1
  { voice with octave := if octave < lowestOctave then highestOctave else octave }

/-- Nothing is played louder than the loudest volume. -/
def doubleVolume (voice : Voice) : Voice :=
  { voice with volume := UInt8.ofNat (min (2 * voice.volume.toNat) loudest.toNat) }

/-- The length of a quarter note, cut to whole microseconds and to what 32 bits
hold. -/
def microsPerQuarter (voice : Voice) : UInt32 :=
  (60000000.0 / widen voice.bpm).toUInt32

/-- The tempo change that announces the tempo; a tempo at or below zero is not
announced. -/
def tempoEvent? (voice : Voice) (tick : Nat) : Option Event :=
  if voice.bpm ≤ 0.0 then none else some (.tempoChange voice.microsPerQuarter tick)

end Voice

end TextMusic

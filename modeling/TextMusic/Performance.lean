/-
The performance: a voice, the timeline that it has filled so far and the dice it
draws from, and what each action does to them.
-/
import TextMusic.Dice
import TextMusic.Memory
import TextMusic.Timeline
import TextMusic.Voice

namespace TextMusic

variable {σ : Type}

/-- The instrument on which a repeat rings that has no note to repeat. -/
def ringingInstrument : UInt8 := 124

/-- A performance under way. -/
structure Performance (σ : Type) where
  voice : Voice
  timeline : Timeline
  dice : σ

namespace Performance

/-! ## What the actions are made of -/

/-- Put an event that happens at the cursor into the timeline. -/
def append (performance : Performance σ) (event : Event) : Performance σ :=
  { performance with timeline := performance.timeline.append event }

/-- Switch to an instrument.  The voice takes it even when the wire cannot carry
the change. -/
def setInstrument (performance : Performance σ) (instrument : UInt8) : Performance σ :=
  let asked := performance.append
    (.programChange performance.voice.channel instrument performance.timeline.cursor)
  { asked with voice := { asked.voice with instrument := instrument } }

/-- Announce the tempo of the voice at the cursor. -/
def writeTempo (performance : Performance σ) : Performance σ :=
  match performance.voice.tempoEvent? performance.timeline.cursor with
  | some event => performance.append event
  | none => performance

/-- Whether announcing the tempo puts an event into the timeline. -/
def tempoIsKept (performance : Performance σ) : Bool :=
  (performance.voice.tempoEvent? performance.timeline.cursor).any Event.fits

/-- Raise the tempo and announce it. -/
def increaseTempo (performance : Performance σ) (delta : Float32) : Performance σ :=
  { performance with
    voice := { performance.voice with bpm := performance.voice.bpm + delta } }.writeTempo

/-- Play a note at a volume, in the octave and on the channel of the voice. -/
def playAt (performance : Performance σ) (volume semitone : UInt8) : Performance σ :=
  let voice := performance.voice
  { performance with
    timeline := performance.timeline.emitNote voice.channel
      (pitchOf voice.octave semitone) volume noteLength }

/-- Play a note at the volume of the voice. -/
def play (performance : Performance σ) (semitone : UInt8) : Performance σ :=
  performance.playAt performance.voice.volume semitone

/-- Play the note that a letter names; other characters name none. -/
def playLetter (performance : Performance σ) (letter : Char) : Performance σ :=
  match semitone? letter with
  | some semitone => performance.play semitone
  | none => performance

/-! ## The actions -/

/-- Play the note of the last letter, if the character just before was one.
Otherwise, in the rich variant, ring on an instrument of its own and go back to
the current one. -/
def repeatNote (rules : Rules) (binding : Binding) (performance : Performance σ) :
    Performance σ :=
  if isNoteLetter binding.previousCharacter then
    performance.play (binding.previousPitch.getD fallbackSemitone)
  else match rules.variant with
    | .rich =>
        ((performance.setInstrument ringingInstrument).play
          fallbackSemitone).setInstrument performance.voice.instrument
    | .plain => performance.play fallbackSemitone

/-- The semitone of the silent note that a rest holds, if it holds one. -/
def restSemitone? (rules : Rules) (binding : Binding) : Option UInt8 :=
  match binding.previousPitch, rules.restPolicy with
  | some semitone, _ => some semitone
  | none, .sentinel => some fallbackSemitone
  | none, .skip => none

/-- Hold a silent note. -/
def rest (rules : Rules) (binding : Binding) (performance : Performance σ) :
    Performance σ :=
  match restSemitone? rules binding with
  | some semitone => performance.playAt 0 semitone
  | none => performance

variable [Dice σ]

/-- Play a note that the dice choose. -/
def randomNote (performance : Performance σ) : Performance σ :=
  let (i, dice) := Dice.letter performance.dice
  { performance with dice := dice }.playLetter noteLetters[i]

/-- Switch to an instrument that the dice choose, or ask for the current one
again in the plain variant, which draws nothing. -/
def newInstrument (rules : Rules) (performance : Performance σ) : Performance σ :=
  match rules.variant with
  | .rich =>
      let (program, dice) := Dice.program performance.dice
      { performance with dice := dice }.setInstrument (UInt8.ofNat program)
  | .plain => performance.setInstrument performance.voice.instrument

/-- Carry out a binding with the arguments that it holds. -/
def carryOut (rules : Rules) (binding : Binding) (performance : Performance σ) :
    Performance σ :=
  match binding.action with
  | .newNote => performance.playLetter binding.character
  | .doubleVolume => { performance with voice := performance.voice.doubleVolume }
  | .increaseOctave => { performance with voice := performance.voice.increaseOctave }
  | .decreaseOctave => { performance with voice := performance.voice.decreaseOctave }
  | .repeatNote => performance.repeatNote rules binding
  | .randomNote => performance.randomNote
  | .newInstrument => performance.newInstrument rules
  | .rest => performance.rest rules binding

/-- Do what a character stands for. -/
def respond (rules : Rules) (performance : Performance σ) : Reaction → Performance σ
  | .trigger => performance.increaseTempo rules.tempoStep
  | .bound binding | .replay binding => performance.carryOut rules binding
  | .ignored => performance

end Performance

end TextMusic

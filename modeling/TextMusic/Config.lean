/-
The configuration of a performance, with its defaults.
-/

namespace TextMusic

/-- Which flavour of the actions that choose instruments is used. -/
inductive Variant where
  /-- A new instrument is drawn at random, and a repeat without a note just
  before it rings on an instrument of its own. -/
  | rich
  /-- The current instrument is asked for again, and nothing rings. -/
  | plain
deriving DecidableEq, Repr

/-- What a rest does before any note letter has been read. -/
inductive RestPolicy where
  /-- It takes no time. -/
  | skip
  /-- It takes the time of a note. -/
  | sentinel
deriving DecidableEq, Repr

/-- The parts of a configuration that the actions depend on. -/
structure Rules where
  variant : Variant
  restPolicy : RestPolicy
  /-- By how many beats per minute a tempo trigger raises the tempo. -/
  tempoStep : Float32

structure Config where
  volume : UInt8 := 100
  instrument : UInt8 := 0
  channel : UInt8 := 0
  startTick : Nat := 24
  /-- Beats, which are quarter notes, per minute. -/
  bpm : Float32 := 120.0
  tempoStep : Float32 := 80.0
  /-- Ticks per quarter note. -/
  resolution : UInt16 := 4
  variant : Variant := .rich
  restPolicy : RestPolicy := .skip
  /-- Where the random draws start. -/
  seed : Option UInt64 := none
deriving BEq

def Config.rules (config : Config) : Rules :=
  ⟨config.variant, config.restPolicy, config.tempoStep⟩

/-- A quarter note lasts at least a tick. -/
def Config.isValid (config : Config) : Bool :=
  config.resolution != 0

end TextMusic

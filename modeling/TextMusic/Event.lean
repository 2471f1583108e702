/-
Events of a performance: what happens at which tick.
-/

namespace TextMusic

/-- One event of a performance.  Its fields are as the performance asked for
them; whether the wire can carry them is decided by `Event.encode`. -/
inductive Event where
  | noteOn (channel pitch velocity : UInt8) (tick : Nat)
  | noteOff (channel pitch velocity : UInt8) (tick : Nat)
  | programChange (channel instrument : UInt8) (tick : Nat)
  | tempoChange (microsPerQuarter : UInt32) (tick : Nat)
deriving DecidableEq, Repr

/-- When the event happens. -/
def Event.tick : Event → Nat
  | noteOn _ _ _ tick | noteOff _ _ _ tick => tick
  | programChange _ _ tick | tempoChange _ tick => tick

/-- The short name of an event's kind. -/
def Event.tag : Event → String
  | noteOn .. => "note_on"
  | noteOff .. => "note_off"
  | programChange .. => "program"
  | tempoChange .. => "tempo"

end TextMusic

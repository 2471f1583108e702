/-
The schedule: each event of a timeline as a message and the moment at which it
is due.  Time runs from tick zero, at the tempo in effect.
-/
import TextMusic.Duration
import TextMusic.Timeline

namespace TextMusic

/-- A message that is due at a moment. -/
structure Scheduled where
  due : Duration
  tick : Nat
  message : Message
deriving DecidableEq, Repr

/-- The length of ticks in milliseconds, where a quarter note takes `micros`
microseconds and `resolution` ticks. -/
def ticksToMillis (ticks : Nat) (micros : UInt32) (resolution : UInt16) : Float :=
  (UInt64.ofNat ticks).toFloat * micros.toFloat / 1000.0 / resolution.toFloat

/-- How far time has come: the tempo in effect, the latest tick and the
milliseconds up to it. -/
structure Clock where
  micros : UInt32
  latest : Nat
  elapsed : Float

namespace Clock

/-- The tempo before the first tempo change: 120 quarter notes per minute. -/
def defaultMicros : UInt32 := 500000

def zero : Clock := ⟨defaultMicros, 0, 0.0⟩

/-- Let time run on to a tick.  A tick in the past takes no time. -/
def advance (clock : Clock) (resolution : UInt16) (tick : Nat) : Clock :=
  { clock with
    latest := max clock.latest tick
    elapsed :=
      clock.elapsed + ticksToMillis (tick - clock.latest) clock.micros resolution }

/-- A tempo message changes the tempo from now on. -/
def hear (clock : Clock) (message : Message) : Clock :=
  { clock with micros := message.tempo?.getD clock.micros }

end Clock

namespace Schedule

/-- The schedule of events from a state of the clock on; events that the wire
cannot carry are passed over.  There is none when a moment is too far away for a
span of time. -/
def from? (resolution : UInt16) : Clock → List Event → Option (List Scheduled)
  | _, [] => some []
  | clock, event :: rest =>
      match event.encode with
      | .error _ => from? resolution clock rest
      | .ok message => do
          let clock := clock.advance resolution event.tick
          let due ← Duration.ofMillis? clock.elapsed
          let later ← from? resolution (clock.hear message) rest
          return ⟨due, event.tick, message⟩ :: later

/-- The schedule of a timeline. -/
def ofTimeline? (timeline : Timeline) (resolution : UInt16) : Option (List Scheduled) :=
  from? resolution Clock.zero timeline.events.toList

end Schedule

end TextMusic

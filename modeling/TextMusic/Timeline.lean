/-
The timeline: the events that the wire can carry, in the order in which they
were asked for, and the cursor at which the next one goes.
-/
import TextMusic.Message.Encoding

namespace TextMusic

/-- A growing list of events.  Nothing is ever removed from it, and the cursor
moves only when a note is emitted. -/
structure Timeline where
  events : Array Event
  /-- The tick of the next event. -/
  cursor : Nat
  /-- How many events the wire could not carry. -/
  dropped : Nat
deriving DecidableEq, Repr

namespace Timeline

def startingAt (tick : Nat) : Timeline :=
  ⟨#[], tick, 0⟩

/-- Keep an event, or count it as dropped when the wire cannot carry it. -/
def append (timeline : Timeline) (event : Event) : Timeline :=
  if event.fits then { timeline with events := timeline.events.push event }
  else { timeline with dropped := timeline.dropped + 1 }

/-- Start a note at the cursor, end it `length` ticks later and move the cursor
there, whether or not the wire can carry the note. -/
def emitNote (timeline : Timeline) (channel pitch velocity : UInt8) (length : Nat) :
    Timeline :=
  let onset := timeline.cursor
  let sounded := (timeline.append (.noteOn channel pitch velocity onset)).append
    (.noteOff channel pitch velocity (onset + length))
  { sounded with cursor := onset + length }

@[simp] theorem cursor_append (timeline : Timeline) (event : Event) :
    (timeline.append event).cursor = timeline.cursor := by
  unfold append
  split <;> rfl

@[simp] theorem cursor_emitNote (timeline : Timeline) (channel pitch velocity : UInt8)
    (length : Nat) :
    (timeline.emitNote channel pitch velocity length).cursor = timeline.cursor + length :=
      rfl

end Timeline

example : ((Timeline.startingAt 24).emitNote 16 60 100 4) = ⟨#[], 28, 2⟩ := by
  decide

end TextMusic

/-
Events and messages as JSON, and the document that describes a whole rendering.
-/
import TextMusic.Config.Text
import TextMusic.Timeline

namespace TextMusic

/-- An object whose one member names the kind of the event. -/
def Event.toJson : Event → Json
  | noteOn channel pitch velocity tick =>
      .object [Json.member "NoteOn" (note channel pitch velocity tick)]
  | noteOff channel pitch velocity tick =>
      .object [Json.member "NoteOff" (note channel pitch velocity tick)]
  | programChange channel instrument tick =>
      .object [Json.member "ProgramChange" (.object
        [ Json.member "channel" (.ofNat channel.toNat),
          Json.member "instrument" (.ofNat instrument.toNat),
          Json.member "tick" (.ofNat tick) ])]
  | tempoChange micros tick =>
      .object [Json.member "TempoChange" (.object
        [ Json.member "micros_per_quarter" (.ofNat micros.toNat),
          Json.member "tick" (.ofNat tick) ])]
where
  note (channel pitch velocity : UInt8) (tick : Nat) : Json :=
    .object
      [ Json.member "channel" (.ofNat channel.toNat),
        Json.member "pitch" (.ofNat pitch.toNat),
        Json.member "velocity" (.ofNat velocity.toNat),
        Json.member "tick" (.ofNat tick) ]

def Message.toJson : Message → Json
  | short status data1 data2 =>
      .object [Json.member "Short" (numbers [status, data1, data2])]
  | metadata kind high middle low =>
      .object
        [Json.member "Meta" (.array [.ofNat kind.toNat, numbers [high, middle, low]])]
where
  numbers (bytes : List UInt8) : Json :=
    .array (bytes.map fun byte => .ofNat byte.toNat)

/-- What came of a program under a configuration. -/
structure Document where
  program : String
  config : Config
  timeline : Timeline
  /-- The messages of the events, one for each. -/
  messages : List Message

namespace Document

/-- Describe a timeline.  A timeline holds only events that the wire can carry,
so that each has a message. -/
def ofTimeline (program : String) (config : Config) (timeline : Timeline) :
    Except Error Document := do
  let messages ← (timeline.events.toList.mapM Event.encode).mapError .encode
  return ⟨program, config, timeline, messages⟩

def toJson (document : Document) : Json :=
  .object
    [ Json.member "program" (.ofString document.program),
      Json.member "config" document.config.toJson,
      Json.member "cursor" (.ofNat document.timeline.cursor),
      Json.member "dropped" (.ofNat document.timeline.dropped),
      Json.member "events" (.array (document.timeline.events.toList.map Event.toJson)),
      Json.member "messages" (.array (document.messages.map Message.toJson)) ]

end Document

end TextMusic

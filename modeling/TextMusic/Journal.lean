/-
The journal: one line of JSON for each event, written to something that may run
out of room.
-/
import TextMusic.Document
import TextMusic.Text.Utf8

namespace TextMusic

/-! ## Writers -/

/-- Something that takes bytes. -/
structure Writer where
  /-- How many more bytes it takes; `none` is no limit. -/
  room : Option Nat
  /-- Whether it fails when it is asked to pass on what it has taken. -/
  flushFails : Bool
  written : Array UInt8
deriving DecidableEq, Repr

namespace Writer

/-- A writer without limits. -/
def unlimited : Writer := ⟨none, false, #[]⟩

/-- Write all of some bytes.  Where there is not enough room, what fits is
written before the failure. -/
def writeAll (writer : Writer) (bytes : List UInt8) : Except Error Unit × Writer :=
  match writer.room with
  | none => (.ok (), { writer with written := writer.written ++ bytes })
  | some room =>
      let writer := { writer with
        room := some (room - bytes.length)
        written := writer.written ++ bytes.take room }
      if bytes.length ≤ room then (.ok (), writer) else (.error (.io "disk full"), writer)

def flush (writer : Writer) : Except Error Unit :=
  if writer.flushFails then .error (.io "flush failed") else .ok ()

end Writer

/-! ## Lines -/

namespace Journal

/-- What is written of an event: its tick, its kind and the event itself. -/
def entry (event : Event) : Json :=
  .object
    [ Json.member "tick" (.ofNat event.tick),
      Json.member "tag" (.ofString event.tag),
      Json.member "data" event.toJson ]

def line (event : Event) : List Char :=
  (entry event).write ++ ['\n']

/-- The whole journal of events. -/
def text (events : List Event) : List Char :=
  events.flatMap line

/-- Write the line of an event. -/
def log (writer : Writer) (event : Event) : Except Error Unit × Writer :=
  writer.writeAll (utf8Bytes (line event))

/-- Write the lines of events up to the first failure. -/
def logAll (writer : Writer) : List Event → Except Error Unit × Writer
  | [] => (.ok (), writer)
  | event :: rest =>
      match log writer event with
      | (.ok (), writer) => logAll writer rest
      | (.error failure, writer) => (.error failure, writer)

/-- Write the lines of a timeline and pass them on. -/
def logTimeline (writer : Writer) (timeline : Timeline) : Except Error Unit × Writer :=
  match logAll writer timeline.events.toList with
  | (.ok (), writer) => (writer.flush, writer)
  | (.error failure, writer) => (.error failure, writer)

end Journal

end TextMusic

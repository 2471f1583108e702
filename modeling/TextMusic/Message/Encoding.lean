/-
Encoding: an event becomes a message, or the first field that the wire cannot
carry is named.
-/
import TextMusic.Event
import TextMusic.Message

namespace TextMusic

/-- Why the wire cannot carry an event, with the offending value. -/
inductive EncodeError where
  | invalidChannel (channel : UInt8)
  | invalidData (value : UInt8)
  | tempoOutOfRange (microsPerQuarter : UInt32)
deriving DecidableEq, Repr

def EncodeError.message : EncodeError → String
  | invalidChannel channel => "channel " ++ toString channel ++ " outside of 0-15"
  | invalidData value => "data byte " ++ toString value ++ " outside of 0-127"
  | tempoOutOfRange micros =>
      "tempo of " ++ toString micros ++ " microseconds does not fit 3 bytes"

/-- There are sixteen channels. -/
def checkChannel (channel : UInt8) : Except EncodeError UInt8 :=
  if channel ≤ 15 then .ok channel else .error (.invalidChannel channel)

/-- A data byte has its high bit clear, so that it is no status byte. -/
def checkData (value : UInt8) : Except EncodeError UInt8 :=
  if value ≤ 127 then .ok value else .error (.invalidData value)

/-- A channel message; channel, first and second data byte are checked in this
order. -/
def channelMessage (status channel data1 data2 : UInt8) : Except EncodeError Message := do
  let channel ← checkChannel channel
  let data1 ← checkData data1
  let data2 ← checkData data2
  return .short (status + channel) data1 data2

/-- The message of an event.  The tick is not part of it. -/
def Event.encode : Event → Except EncodeError Message
  | noteOn channel pitch velocity _ =>
      channelMessage Message.noteOnStatus channel pitch velocity
  | noteOff channel pitch velocity _ =>
      channelMessage Message.noteOffStatus channel pitch velocity
  | programChange channel instrument _ =>
      channelMessage Message.programStatus channel instrument 0
  | tempoChange micros _ =>
      if micros ≤ 0xFFFFFF then
        .ok (.metadata Message.tempoKind (UInt8.ofNat (micros.toNat / 65536))
          (UInt8.ofNat (micros.toNat / 256)) (UInt8.ofNat micros.toNat))
      else .error (.tempoOutOfRange micros)

/-- Whether the wire can carry the event. -/
def Event.fits (event : Event) : Bool :=
  event.encode.isOk

example : (Event.tempoChange 500000 24).encode = .ok (.metadata 0x51 0x07 0xA1 0x20) :=
  rfl

example : (Event.noteOn 16 200 200 0).encode = .error (.invalidChannel 16) := rfl

end TextMusic

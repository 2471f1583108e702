/-
Wire messages: the form in which a sequenced synthesizer takes events, and the
bytes of that form.
-/

namespace TextMusic

/-- A message on the wire. -/
inductive Message where
  /-- A channel message: status and two data bytes. -/
  | short (status data1 data2 : UInt8)
  /-- A message about the piece: its kind and three bytes, the highest first. -/
  | metadata (kind high middle low : UInt8)
deriving DecidableEq, Repr

namespace Message

def noteOffStatus : UInt8 := 0x80
def noteOnStatus : UInt8 := 0x90
def programStatus : UInt8 := 0xC0
def metadataStatus : UInt8 := 0xFF
def tempoKind : UInt8 := 0x51

/-- The bytes of a message.  A program change has one data byte, the other
channel messages have two. -/
def bytes : Message → List UInt8
  | short status data1 data2 =>
      if status &&& 0xF0 = programStatus then [status, data1]
      else [status, data1, data2]
  | metadata kind high middle low => [metadataStatus, kind, 3, high, middle, low]

/-- The microseconds per quarter note that a tempo message carries. -/
def tempo? : Message → Option UInt32
  | short .. => none
  | metadata kind high middle low =>
      if kind = tempoKind then
        some (UInt32.ofNat (high.toNat * 65536 + middle.toNat * 256 + low.toNat))
      else none

/-- The message as a line for people: its kind and its numbers. -/
def describe : Message → String
  | short status data1 data2 =>
      "Short(" ++ ", ".intercalate [toString status, toString data1, toString data2] ++
        ")"
  | metadata kind high middle low =>
      "Meta(" ++ toString kind ++ ", [" ++
        ", ".intercalate [toString high, toString middle, toString low] ++ "])"

end Message

end TextMusic

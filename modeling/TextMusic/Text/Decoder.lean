/-
The decoder turns signals into characters, one signal at a time.  A byte
sequence that is not well-formed UTF-8 comes out as one malformed item for each
longest part of it that begins a well-formed sequence, or for a byte that
begins none.
-/
import TextMusic.Text.Source

namespace TextMusic

/-- The character that stands for malformed bytes. -/
def replacement : Char := '\ufffd'

/-- What comes out of the decoder. -/
inductive Item where
  | char (c : Char)
  | malformed
  | failure (text : String)
  | stop
deriving DecidableEq, Repr

/-- The character that an item is heard as. -/
def Item.character? : Item → Option Char
  | char c => some c
  | malformed => some replacement
  | failure _ | stop => none

namespace Decoder

/-- How many bytes the sequences have that start with a byte; none start with
a byte of width 0. -/
def width (lead : UInt8) : Nat :=
  if lead ≤ 0x7F then 1
  else if 0xC2 ≤ lead ∧ lead ≤ 0xDF then 2
  else if 0xE0 ≤ lead ∧ lead ≤ 0xEF then 3
  else if 0xF0 ≤ lead ∧ lead ≤ 0xF4 then 4
  else 0

/-- The range of the second byte, which keeps out what a shorter sequence
spells, surrogates, and what lies above the last character. -/
def secondRange (lead : UInt8) : UInt8 × UInt8 :=
  if lead = 0xE0 then (0xA0, 0xBF)
  else if lead = 0xED then (0x80, 0x9F)
  else if lead = 0xF0 then (0x90, 0xBF)
  else if lead = 0xF4 then (0x80, 0x8F)
  else (0x80, 0xBF)

/-- The bits of the character that are in the first byte of a sequence. -/
def leadPayload (lead : UInt8) : Nat :=
  match width lead with
  | 2 => lead.toNat % 32
  | 3 => lead.toNat % 16
  | 4 => lead.toNat % 8
  | _ => lead.toNat

/-- Where the decoder is. -/
inductive State where
  | start
  /-- Inside a sequence of which `missing + 1` bytes are still to come, the next
  one between `low` and `high`. -/
  | inside (missing : Nat) (low high : UInt8) (payload : Nat)
deriving DecidableEq, Repr

/-- Take a byte that starts a sequence. -/
def takeLead (byte : UInt8) : List Item × State :=
  match width byte with
  | 0 => ([.malformed], .start)
  | 1 => ([.char (Char.ofNat (leadPayload byte))], .start)
  | n + 2 =>
      let (low, high) := secondRange byte
      ([], .inside n low high (leadPayload byte))

/-- Take a byte that goes on with a sequence. -/
def takeNext (missing payload : Nat) (byte : UInt8) : List Item × State :=
  let payload := 64 * payload + byte.toNat % 64
  match missing with
  | 0 => ([.char (Char.ofNat payload)], .start)
  | n + 1 => ([], .inside n 0x80 0xBF payload)

/-- Take a signal.  A byte that breaks a sequence starts the next one; a failure
inside a sequence leaves nothing of it; an end there leaves it malformed and is
not told again. -/
def take : State → Signal → List Item × State
  | .start, .byte byte => takeLead byte
  | .start, .failure text => ([.failure text], .start)
  | .start, .stop => ([.stop], .start)
  | .inside missing low high payload, .byte byte =>
      if low ≤ byte ∧ byte ≤ high then takeNext missing payload byte
      else (.malformed :: (takeLead byte).1, (takeLead byte).2)
  | .inside .., .failure text => ([.failure text], .start)
  | .inside .., .stop => ([.malformed], .start)

/-- The items of signals up to the end behind the last of them. -/
def decodeFrom : State → List Signal → List Item
  | .start, [] => []
  | .inside .., [] => [.malformed]
  | state, signal :: rest =>
      (take state signal).1 ++ decodeFrom (take state signal).2 rest

/-- The items of signals; behind them comes the end, however often it is asked
for. -/
def decode (signals : List Signal) : List Item :=
  decodeFrom .start signals

/-- The items up to the `n`-th end. -/
def untilStop : Nat → List Item → List Item
  | 0, _ => []
  | n + 1, [] => .stop :: untilStop n []
  | n + 1, .stop :: rest => .stop :: untilStop n rest
  | n + 1, item :: rest => item :: untilStop (n + 1) rest

/-- What is heard of items up to the first failure or end: the characters, and
the text of the failure if it was one. -/
def hear : List Item → List Char × Option String
  | [] => ([], none)
  | .stop :: _ => ([], none)
  | .failure text :: _ => ([], some text)
  | .char c :: rest => (c :: (hear rest).1, (hear rest).2)
  | .malformed :: rest => (replacement :: (hear rest).1, (hear rest).2)

/-- The characters that bytes spell, if they are well-formed throughout. -/
def characters? (bytes : List UInt8) : Option (List Char) :=
  (decode (bytes.map .byte)).mapM fun
    | .char c => some c
    | _ => none

end Decoder

example : Decoder.decode ([0xE9, 0x43, 0xC3, 0xA9].map .byte) =
    [.malformed, .char 'C', .char 'é'] := by
  decide

example : Decoder.decode [.byte 0xF0, .byte 0x9F, .failure "gone", .byte 0x41, .stop] =
    [.failure "gone", .char 'A', .stop] := by
  decide

end TextMusic

/-
Spans of wall-clock time, counted in nanoseconds, and their exchange with
milliseconds in double precision.
-/

namespace TextMusic

def nanosPerSecond : Nat := 1000000000

/-- A span of time. -/
structure Duration where
  /-- The whole span in nanoseconds. -/
  total : Nat
deriving DecidableEq, Repr

namespace Duration

def zero : Duration := ⟨0⟩

def seconds (span : Duration) : Nat :=
  span.total / nanosPerSecond

/-- The nanoseconds beyond the whole seconds. -/
def nanos (span : Duration) : Nat :=
  span.total % nanosPerSecond

/-- The span of seconds and nanoseconds, of which a second or more may be given.
The whole seconds have to fit 64 bits. -/
def ofParts? (seconds nanos : Nat) : Option Duration :=
  let total := seconds * nanosPerSecond + nanos
  if total < UInt64.size * nanosPerSecond then some ⟨total⟩ else none

/-- The whole part of a double that is not negative; from 2 ^ 63 on doubles have
nothing else. -/
def floorOf (x : Float) : Float :=
  if x < 9223372036854775808.0 then x.toUInt64.toFloat else x

/-- A double as the nearest whole number, a half going up.  What is below zero
becomes zero and what 32 bits do not hold the highest that they do. -/
def roundToWord (x : Float) : UInt32 :=
  if x < 4294967295.0 then
    let whole := x.toUInt32
    if x - whole.toFloat ≥ 0.5 then whole + 1 else whole
  else x.toUInt32

/-- The span of milliseconds: the whole seconds, and what is left over rounded
to nanoseconds. -/
def ofMillis? (millis : Float) : Option Duration :=
  let seconds := floorOf (millis / 1000.0)
  let nanos := (millis - seconds * 1000.0) * 1000000.0
  ofParts? seconds.toUInt64.toNat (roundToWord nanos).toNat

/-- A span in milliseconds. -/
def toMillis (span : Duration) : Float :=
  (UInt64.ofNat span.seconds).toFloat * 1000.0 +
    (UInt32.ofNat span.nanos).toFloat / 1000000.0

/-- The time from an earlier moment to this one, if it is not later. -/
def since? (moment earlier : Duration) : Option Duration :=
  if earlier.total ≤ moment.total then some ⟨moment.total - earlier.total⟩ else none

end Duration

example : Duration.ofMillis? 1500.0 = some ⟨1500000000⟩ := by
  decide +kernel

end TextMusic

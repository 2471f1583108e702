/-
Playback: the messages of a schedule are handed to a listener, one after the
other, from a position that survives pauses.
-/
import TextMusic.Schedule

namespace TextMusic

/-- A schedule and how far it has been played. -/
structure Playback where
  schedule : Array Scheduled
  position : Nat
  paused : Bool
deriving DecidableEq, Repr

/-- Why no playback can be made, or why a run cannot go on. -/
inductive TimingError where
  /-- A moment is too far away for a span of time. -/
  | tooLong
  /-- A message is due before the one that a timed run started with. -/
  | backwards
deriving DecidableEq, Repr

namespace Playback

def ofTimeline (timeline : Timeline) (resolution : UInt16) :
    Except TimingError Playback :=
  match Schedule.ofTimeline? timeline resolution with
  | some schedule => .ok ⟨schedule.toArray, 0, false⟩
  | none => .error .tooLong

def isFinished (playback : Playback) : Bool :=
  playback.schedule.size ≤ playback.position

/-- The moment of the last message. -/
def duration (playback : Playback) : Duration :=
  match playback.schedule.back? with
  | some last => last.due
  | none => .zero

/-! ## Pause and position -/

def pause (playback : Playback) : Playback :=
  { playback with paused := true }

/-- Go on from the current position. -/
def resume (playback : Playback) : Playback :=
  { playback with paused := false }

/-- Go back to the first message. -/
def restart (playback : Playback) : Playback :=
  { playback with position := 0, paused := false }

/-! ## Runs -/

/-- How a run spaces its messages. -/
inductive Pace where
  | immediate
  /-- Each message waits for its moment.  `clock n` is the time since the start
  of the run just before message `n`. -/
  | timed (clock : Nat → Duration)

/-- How long a run that started at a moment waits before message `n`.  A timed
run cannot wait for what was due before its start. -/
def Pace.wait? (pace : Pace) (start : Duration) (n : Nat) (due : Duration) :
    Option Duration :=
  match pace with
  | immediate => some .zero
  | timed clock => (due.since? start).map fun span => (span.since? (clock n)).getD .zero

variable {β : Type}

/-- What came of handing over messages. -/
structure Delivered (β : Type) where
  listener : β
  paused : Bool
  /-- The wait before each message that was handed over. -/
  waits : List Duration
  failure? : Option TimingError

/-- Hand over messages, of which `n` have been handed over before, until there
is none left, a pause is asked for, or one was due before the start.  A listener
that hears a message may ask for a pause. -/
def handOver (hear : β → Message → β × Bool) (pace : Pace) (start : Duration) :
    Nat → Bool → β → List Scheduled → Delivered β
  | _, paused, listener, [] => ⟨listener, paused, [], none⟩
  | _, true, listener, _ :: _ => ⟨listener, true, [], none⟩
  | n, false, listener, item :: rest =>
      match pace.wait? start n item.due with
      | none => ⟨listener, false, [], some .backwards⟩
      | some wait =>
          let (listener, paused) := hear listener item.message
          let later := handOver hear pace start (n + 1) paused listener rest
          { later with waits := wait :: later.waits }

/-- What came of a run. -/
structure Outcome (β : Type) where
  playback : Playback
  listener : β
  /-- The wait before each message that was handed over. -/
  waits : List Duration
  failure? : Option TimingError

/-- How many messages a run handed over. -/
def Outcome.sent (outcome : Outcome β) : Nat :=
  outcome.waits.length

/-- The messages from the current position on. -/
def remaining (playback : Playback) : List Scheduled :=
  playback.schedule.toList.drop playback.position

/-- The moment at which a run from the current position starts: that of its
first message. -/
def start (playback : Playback) : Duration :=
  (playback.remaining.head?.map (·.due)).getD .zero

/-- The moments of the remaining messages, counted from the start. -/
def moments (playback : Playback) : List Duration :=
  playback.remaining.map fun item => (item.due.since? playback.start).getD .zero

/-- Hand over the messages from the current position on. -/
def run (playback : Playback) (hear : β → Message → β × Bool) (pace : Pace)
    (listener : β) : Outcome β :=
  let delivered :=
    handOver hear pace playback.start 0 playback.paused listener playback.remaining
  { playback :=
      { playback with
        position := playback.position + delivered.waits.length
        paused := delivered.paused }
    listener := delivered.listener
    waits := delivered.waits
    failure? := delivered.failure? }

end Playback

end TextMusic

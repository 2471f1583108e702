/-
A session: one performance of one text.  It opens with its tempo and instrument
and then takes characters, one at a time or as a source delivers them.
-/
import TextMusic.Performance
import TextMusic.Text.Decoder

namespace TextMusic

variable {σ : Type}

structure Session (σ : Type) where
  config : Config
  memory : Memory
  performance : Performance σ

namespace Session

/-- Open a session: announce the tempo and the instrument at the start tick. -/
def start (config : Config) (dice : σ) : Session σ where
  config := config
  memory := Memory.empty
  performance :=
    (Performance.mk (Voice.ofConfig config) (Timeline.startingAt config.startTick)
      dice).writeTempo.setInstrument config.instrument

def timeline (session : Session σ) : Timeline :=
  session.performance.timeline

def voice (session : Session σ) : Voice :=
  session.performance.voice

/-- Switch to an instrument between characters. -/
def setInstrument (session : Session σ) (instrument : UInt8) : Session σ :=
  { session with performance := session.performance.setInstrument instrument }

/-- What becomes of the next character. -/
def stepOf (session : Session σ) (c : Char) : Step :=
  (session.memory.react c).step

variable [Dice σ]

/-- Take the next character. -/
def feed (session : Session σ) (c : Char) : Session σ where
  config := session.config
  memory := session.memory.observe c
  performance := session.performance.respond session.config.rules (session.memory.react c)

/-- Take the characters of a text. -/
def feedAll (session : Session σ) (text : List Char) : Session σ :=
  text.foldl feed session

/-- The steps of the characters of a text. -/
def steps : Session σ → List Char → List Step
  | _, [] => []
  | session, c :: rest => session.stepOf c :: steps (session.feed c) rest

/-- Take what a source delivers up to its first failure or end, and count the
characters.  What came before a failure stays. -/
def readFrom (session : Session σ) (source : List Delivery) :
    Except String Nat × Session σ :=
  let (text, failure?) := Decoder.hear (Decoder.decode (signals source))
  (match failure? with
    | some failure => .error failure
    | none => .ok text.length,
   session.feedAll text)

end Session

/-- What can be done to a session. -/
inductive Operation where
  | feed (c : Char)
  | feedText (text : List Char)
  | setInstrument (instrument : UInt8)
  | readFrom (source : List Delivery)
deriving DecidableEq, Repr

namespace Session

variable [Dice σ]

def perform (session : Session σ) : Operation → Session σ
  | .feed c => session.feed c
  | .feedText text => session.feedAll text
  | .setInstrument instrument => session.setInstrument instrument
  | .readFrom source => (session.readFrom source).2

/-- Do several things one after the other. -/
def performAll (session : Session σ) (operations : List Operation) : Session σ :=
  operations.foldl perform session

end Session

end TextMusic

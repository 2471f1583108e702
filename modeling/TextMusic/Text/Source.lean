/-
Sources of bytes.  A source hands its bytes over in portions, may fail between
them, and may seem to end and then go on.
-/

namespace TextMusic

/-- The kinds of failure that a source may report. -/
inductive FailureKind where
  | other
  | interrupted
  | unexpectedEnd
  | brokenPipe
  | invalidData
  | notFound
  | permissionDenied
  | timedOut
deriving DecidableEq, Repr

/-- What is said of a failure that has no text of its own. -/
def FailureKind.description : FailureKind → String
  | other => "other error"
  | interrupted => "operation interrupted"
  | unexpectedEnd => "unexpected end of file"
  | brokenPipe => "broken pipe"
  | invalidData => "invalid data"
  | notFound => "entity not found"
  | permissionDenied => "permission denied"
  | timedOut => "timed out"

/-- What a source answers when it is asked for bytes.  A portion without any
byte says that there are no more for now. -/
inductive Delivery where
  | bytes (portion : List UInt8)
  | failure (kind : FailureKind) (text : Option String)
deriving DecidableEq, Repr

/-- What a reader that asks for one byte at a time gets to see. -/
inductive Signal where
  | byte (value : UInt8)
  | failure (text : String)
  | stop
deriving DecidableEq, Repr

/-- An interrupted request is made again, so that it is not seen. -/
def Delivery.signals : Delivery → List Signal
  | bytes [] => [.stop]
  | bytes portion => portion.map .byte
  | failure .interrupted _ => []
  | failure kind text => [.failure (text.getD kind.description)]

/-- The signals of a whole source.  Behind the last of them every request meets
the end. -/
def signals (source : List Delivery) : List Signal :=
  source.flatMap Delivery.signals

end TextMusic

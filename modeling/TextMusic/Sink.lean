/-
Sinks: where messages go.  A sink may print them, keep them or drop them, and a
list of sinks gives each message to each of them in order.
-/
import TextMusic.Error
import TextMusic.Text.Blank

namespace TextMusic

/-- A sink with what it has kept. -/
inductive Sink where
  | console
  | null
  | memory (kept : Array Message)
  | composite (inner : List Sink)

namespace Sink

/-- Write names with a comma and a blank between them. -/
def joinNames (names : List String) : String :=
  ", ".intercalate names

mutual

def name : Sink → String
  | .console => "console"
  | .null => "null"
  | .memory _ => "memory"
  | .composite inner => joinNames (names inner)

def names : List Sink → List String
  | [] => []
  | sink :: rest => name sink :: names rest

end

/-! ## Messages -/

/-- A byte as two hexadecimal digits in upper case. -/
def hexByte (byte : UInt8) : String :=
  String.ofList [hexDigit (byte.toNat / 16), hexDigit (byte.toNat % 16)]
where
  hexDigit (n : Nat) : Char :=
    if n < 10 then Char.ofNat (48 + n) else Char.ofNat (55 + n)

/-- The line that a message is printed as: its description and its bytes. -/
def line (message : Message) : String :=
  message.describe ++ " [" ++ " ".intercalate (message.bytes.map hexByte) ++ "]\n"

mutual

/-- Give a message to a sink: the sink behind it, and what is printed. -/
def process (message : Message) : Sink → Sink × String
  | .console => (.console, line message)
  | .null => (.null, "")
  | .memory kept => (.memory (kept.push message), "")
  | .composite inner =>
      let (inner, printed) := processAll message inner
      (.composite inner, printed)

/-- Give a message to each of several sinks. -/
def processAll (message : Message) : List Sink → List Sink × String
  | [] => ([], "")
  | sink :: rest =>
      let (sink, printed) := process message sink
      let (rest, printedLater) := processAll message rest
      (sink :: rest, printed ++ printedLater)

end

/-- Give messages to a sink in order: the sink behind them, and what is printed
for each of them. -/
def processEach : Sink → List Message → Sink × List String
  | sink, [] => (sink, [])
  | sink, message :: rest =>
      let (sink, printed) := process message sink
      let (sink, printedLater) := processEach sink rest
      (sink, printed :: printedLater)

mutual

/-- What the memories in a sink have kept, in the order in which they appear. -/
def memories : Sink → List (List Message)
  | .console => []
  | .null => []
  | .memory kept => [kept.toList]
  | .composite inner => memoriesAll inner

def memoriesAll : List Sink → List (List Message)
  | [] => []
  | sink :: rest => memories sink ++ memoriesAll rest

end

/-! ## Names -/

/-- The sink of a name.  No name at all is the console's. -/
def ofName (name : String) : Except SystemError Sink :=
  if name = "console" ∨ name = "" then .ok .console
  else if name = "null" then .ok .null
  else if name = "memory" then .ok (.memory #[])
  else .error .unknownSink

/-- The parts of a text between its commas; there is always at least one. -/
def splitAtCommas : List Char → List (List Char)
  | [] => [[]]
  | c :: rest =>
      if c = ',' then [] :: splitAtCommas rest
      else match splitAtCommas rest with
        | [] => [[c]]
        | part :: parts => (c :: part) :: parts

/-- The names in a list of names, without the blanks around them. -/
def listedNames (names : String) : List String :=
  (splitAtCommas names.toList).map fun part => String.ofList (trimBlanks part)

/-- The sink of a list of names. -/
def ofNames (names : String) : Except SystemError Sink := do
  let sinks ← (listedNames names).mapM ofName
  match sinks with
  | [sink] => return sink
  | sinks => return .composite sinks

end Sink

end TextMusic

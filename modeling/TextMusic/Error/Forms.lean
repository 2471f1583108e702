/-
Errors for programs and for people who look for their cause: as JSON values, and
as descriptions that show how they are built.
-/
import TextMusic.Error
import TextMusic.Json.Basic
import TextMusic.Text.Quoted

namespace TextMusic

def EncodeError.kind : EncodeError → String
  | invalidChannel _ => "InvalidChannel"
  | invalidData _ => "InvalidData"
  | tempoOutOfRange _ => "TempoOutOfRange"

/-- The value that the wire cannot carry. -/
def EncodeError.value : EncodeError → Nat
  | invalidChannel channel => channel.toNat
  | invalidData value => value.toNat
  | tempoOutOfRange micros => micros.toNat

def SystemError.kind : SystemError → String
  | unknownSink => "UnknownSink"
  | invalidConfig => "InvalidConfig"

namespace Error

def kind : Error → String
  | encode _ => "Encode"
  | system _ => "Sys"
  | io _ => "Io"
  | json _ => "Json"

/-- An object whose one member names the kind of the error. -/
def toJson (error : Error) : Json :=
  .object [Json.member error.kind content]
where
  content : Json :=
    match error with
    | encode cause => .object [Json.member cause.kind (.ofNat cause.value)]
    | system cause => .ofString cause.kind
    | io text | json text => .ofString text

/-- The kind of the error with its cause in parentheses. -/
def describe (error : Error) : String :=
  error.kind ++ "(" ++ content ++ ")"
where
  content : String :=
    match error with
    | encode cause => cause.kind ++ "(" ++ toString cause.value ++ ")"
    | system cause => cause.kind
    | io text | json text => Quoted.quote text

end Error

end TextMusic

/-
What can go wrong, by cause, and the text that tells it.
-/
import TextMusic.Message.Encoding

namespace TextMusic

/-- Requests that cannot be met. -/
inductive SystemError where
  | unknownSink
  | invalidConfig
deriving DecidableEq, Repr

def SystemError.message : SystemError → String
  | unknownSink => "unknown sink"
  | invalidConfig => "invalid configuration"

/-- A failure of any part of the program. -/
inductive Error where
  | encode (cause : EncodeError)
  | system (cause : SystemError)
  /-- Reading or writing failed, with the text of the failure. -/
  | io (text : String)
  /-- A text is no configuration, with what is wrong with it. -/
  | json (text : String)
deriving DecidableEq, Repr

namespace Error

def message : Error → String
  | encode cause => "Encoding error " ++ cause.message
  | system cause => "System error " ++ cause.message
  | io text => "IO error " ++ text
  | json text => "JSON error " ++ text

/-- The text of the cause, where the failure has one of its own. -/
def cause? : Error → Option String
  | encode cause => some cause.message
  | system cause => some cause.message
  | io _ | json _ => none

end Error

end TextMusic

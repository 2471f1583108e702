/-
Reading JSON: the tokens of a text are folded into a value.  Open arrays and
objects are kept on a stack, so that they may be nested to any depth.
-/
import TextMusic.Json.Lexer

namespace TextMusic

namespace Json

/-- An array or object whose closing bracket is still to come; what has been
read of it is kept with the last first. -/
inductive Frame where
  | array (items : List Json)
  /-- An object in which the value of `name` is being read. -/
  | object (members : List (List Symbol × Json)) (name : List Symbol)

/-- What has been read so far and what may come next. -/
inductive Progress where
  /-- A value. -/
  | value (stack : List Frame)
  /-- Behind an opening bracket: an item or the closing bracket. -/
  | firstItem (stack : List Frame)
  /-- Behind an opening brace: a name or the closing brace. -/
  | firstName (stack : List Frame)
  /-- Behind a comma in an object: a name. -/
  | name (members : List (List Symbol × Json)) (stack : List Frame)
  /-- A colon. -/
  | colon (members : List (List Symbol × Json)) (name : List Symbol) (stack : List Frame)
  /-- Behind a complete value: what goes on or closes the innermost frame, and
  outside of all frames nothing. -/
  | complete (value : Json) (stack : List Frame)

/-- Take a token where a value is due. -/
def Progress.takeValue (stack : List Frame) : Token → Option Progress
  | .null => some (.complete .null stack)
  | .bool b => some (.complete (.bool b) stack)
  | .number n => some (.complete (.number n) stack)
  | .text t => some (.complete (.text t) stack)
  | .openArray => some (.firstItem stack)
  | .openObject => some (.firstName stack)
  | _ => none

/-- Take the next token, if it may stand here. -/
def Progress.take : Progress → Token → Option Progress
  | .value stack, token => takeValue stack token
  | .firstItem stack, .closeArray => some (.complete (.array []) stack)
  | .firstItem stack, token => takeValue (.array [] :: stack) token
  | .firstName stack, .closeObject => some (.complete (.object []) stack)
  | .firstName stack, .text t => some (.colon [] t stack)
  | .name members stack, .text t => some (.colon members t stack)
  | .colon members t stack, .colon => some (.value (.object members t :: stack))
  | .complete v (.array items :: stack), .comma =>
      some (.value (.array (v :: items) :: stack))
  | .complete v (.array items :: stack), .closeArray =>
      some (.complete (.array (v :: items).reverse) stack)
  | .complete v (.object members t :: stack), .comma =>
      some (.name ((t, v) :: members) stack)
  | .complete v (.object members t :: stack), .closeObject =>
      some (.complete (.object ((t, v) :: members).reverse) stack)
  | _, _ => none

/-- The value that tokens spell, if they spell one and no more. -/
def ofTokens? (tokens : List Token) : Option Json :=
  match tokens.foldlM Progress.take (.value []) with
  | some (.complete value []) => some value
  | _ => none

/-- The value that a text spells. -/
def read? (text : List Char) : Option Json :=
  (tokens? text).bind ofTokens?

end Json

end TextMusic

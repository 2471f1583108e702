/-
The files that a run finds: what a path delivers when it is read, which names a
journal may not take, and what takes the journal.
-/
import TextMusic.Config.Text
import TextMusic.Journal

namespace TextMusic

/-- The files around a run. -/
structure Files where
  /-- What reading a path delivers.  A path that cannot be opened fails at
  once. -/
  source : List Char → List Delivery
  /-- The paths in use, as far as a journal may want them. -/
  used : List (List Char)
  /-- What takes the bytes of a new file, or why it cannot be made. -/
  create : List Char → Except String Writer

/-- The bytes of signals up to their end, if none of them is a failure. -/
def wholeBytes : List Signal → Except String (List UInt8)
  | [] => .ok []
  | .stop :: _ => .ok []
  | .failure text :: _ => .error text
  | .byte value :: rest => (wholeBytes rest).map (value :: ·)

namespace Files

/-- The text of the file that a path leads to. -/
def readText (files : Files) (path : List Char) : Except Error String :=
  match wholeBytes (signals (files.source path)) with
  | .error failure => .error (.io failure)
  | .ok content =>
      match textOfBytes? content with
      | some text => .ok text
      | none => .error (.io "stream did not contain valid UTF-8")

/-- The configuration in the file that a path leads to. -/
def readConfig (files : Files) (path : List Char) : Except Error Config := do
  let text ← files.readText path
  Config.ofText text

end Files

end TextMusic

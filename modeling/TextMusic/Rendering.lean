/-
Rendering: a fresh session takes a whole source or text, and its timeline is the
result.
-/
import TextMusic.Document
import TextMusic.Random.Stream
import TextMusic.Session
import TextMusic.Text.Utf8

namespace TextMusic

/-- The random words of a configuration: those of its seed, or other ones where
it has none. -/
def Config.stream (config : Config) (unseeded : RandomStream) : RandomStream :=
  match config.seed with
  | some seed => .ofSeed seed
  | none => unseeded

/-- The timeline of a source, if it can be read to its end. -/
def render {σ : Type} [Dice σ] (source : List Delivery) (config : Config) (dice : σ) :
    Except Error Timeline :=
  match (Session.start config dice).readFrom source with
  | (.ok _, session) => .ok session.timeline
  | (.error failure, _) => .error (.io failure)

/-- The document of a text: its events and their messages. -/
def simulate {σ : Type} [Dice σ] (program : String) (config : Config) (dice : σ) :
    Except Error Document := do
  let timeline ← render (sourceOfText program) config dice
  Document.ofTimeline program config timeline

end TextMusic

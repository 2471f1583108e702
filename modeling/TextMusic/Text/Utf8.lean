/-
Texts as bytes, and bytes as texts where they spell one throughout.
-/
import TextMusic.Text.Decoder

namespace TextMusic

/-- The bytes of a text in UTF-8. -/
def utf8Bytes (text : List Char) : List UInt8 :=
  text.flatMap String.utf8EncodeChar

/-- The text of bytes that are well-formed UTF-8 throughout. -/
def textOfBytes? (bytes : List UInt8) : Option String :=
  (Decoder.characters? bytes).map String.ofList

/-- The source that hands over a text in one portion. -/
def sourceOfText (text : String) : List Delivery :=
  if text.isEmpty then [] else [.bytes (utf8Bytes text.toList)]

example : Decoder.characters? (utf8Bytes ['d', 'ó', '€', '🎵']) =
    some ['d', 'ó', '€', '🎵'] := by
  decide

end TextMusic

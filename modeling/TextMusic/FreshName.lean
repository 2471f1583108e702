/-
Fresh names: the first of a pattern and its numbered variants that is not in use.
The numbers have 32 bits, so that a search can run out of them.
-/
import TextMusic.Path

namespace TextMusic

namespace FreshName

/-- The name `stem-i.ext`, with stem and extension of the pattern, or `textune`
and `log` where it has none. -/
def numbered (pattern : List Char) (i : Int32) : List Char :=
  let stem := (Path.stem? pattern).getD ['t', 'e', 'x', 't', 'u', 'n', 'e']
  let extension := (Path.extension? pattern).getD ['l', 'o', 'g']
  stem ++ '-' :: (toString i).toList ++ '.' :: extension

/-- The pattern itself, and behind it its variants, each made of the one
before.  Behind the variant with the highest number come those with the negative
ones, from the lowest on. -/
def candidate (pattern : List Char) : Nat → List Char
  | 0 => pattern
  | i + 1 =>
      Path.setFileName (candidate pattern i) (numbered pattern (Int32.ofNat (i + 1)))

/-- How many candidates a search looks at before it runs out of numbers.  It
counts on as soon as it has made a variant, so that it stops at the one with the
highest number without looking at it. -/
def reach : Nat := 2147483647

/-- The first candidate that is not among the paths in use, if the search does
not run out of numbers.  One candidate more than there are paths is enough to
find it. -/
def fresh? (used : List (List Char)) (pattern : List Char) : Option (List Char) :=
  let candidates := (List.range (min (used.length + 1) reach)).map (candidate pattern)
  candidates.find? fun path => path ∉ used

end FreshName

end TextMusic

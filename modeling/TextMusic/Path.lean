/-
Paths as texts: the last component of a path, its stem and extension, and its
replacement by another name.
-/

namespace TextMusic

namespace Path

/-- The parts of a path between its slashes; there is always at least one. -/
def segments : List Char → List (List Char)
  | [] => [[]]
  | c :: rest =>
      if c = '/' then [] :: segments rest
      else match segments rest with
        | [] => [[c]]
        | part :: parts => (c :: part) :: parts

/-- Put parts together with slashes between them. -/
def join : List (List Char) → List Char
  | [] => []
  | [part] => part
  | part :: rest => part ++ '/' :: join rest

/-- A slash or a single dot at the front of a path, which belongs to it for
good, and the rest. -/
def splitAnchor : List Char → List Char × List Char
  | '/' :: rest => (['/'], rest)
  | ['.'] => (['.'], [])
  | '.' :: '/' :: rest => (['.'], '/' :: rest)
  | path => ([], path)

/-- Empty parts and single dots lead nowhere. -/
def isIdle (part : List Char) : Bool :=
  part = [] || part = ['.']

/-- Drop the parts at the end that lead nowhere. -/
def dropIdleEnd (parts : List (List Char)) : List (List Char) :=
  (parts.reverse.dropWhile isIdle).reverse

/-- The last component of a path, if it is the name of a file. -/
def fileName? (path : List Char) : Option (List Char) :=
  match (dropIdleEnd (segments (splitAnchor path).2)).getLast? with
  | none => none
  | some name => if name = ['.', '.'] then none else some name

/-- The path without its last component. -/
def parent (path : List Char) : List Char :=
  let (anchor, rest) := splitAnchor path
  anchor ++ join (dropIdleEnd (dropIdleEnd (segments rest)).dropLast)

/-- Put a name behind a path, with a slash where one is needed. -/
def push (path name : List Char) : List Char :=
  match path.getLast? with
  | none => name
  | some '/' => path ++ name
  | some _ => path ++ '/' :: name

/-- Replace the last component by a name, or add the name where the last
component is no name of a file. -/
def setFileName (path name : List Char) : List Char :=
  match fileName? path with
  | some _ => push (parent path) name
  | none => push path name

/-- A name split at its last dot.  A dot at the front splits nothing. -/
def splitAtDot (name : List Char) : List Char × Option (List Char) :=
  let reversed := name.reverse
  let extension := (reversed.takeWhile (· ≠ '.')).reverse
  match (reversed.dropWhile (· ≠ '.')).drop 1 with
  | [] => (name, none)
  | stem => (stem.reverse, some extension)

/-- The name of the file without its extension. -/
def stem? (path : List Char) : Option (List Char) :=
  (fileName? path).map fun name => (splitAtDot name).1

/-- What stands behind the last dot of the file's name. -/
def extension? (path : List Char) : Option (List Char) :=
  (fileName? path).bind fun name => (splitAtDot name).2

end Path

end TextMusic

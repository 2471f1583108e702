/-
File trees: the files and directories below the working directory, and what a
path leads to.
-/
import TextMusic.Files
import TextMusic.FreshName

namespace TextMusic

/-- What an entry of a directory is. -/
inductive Entry where
  | file (content : List UInt8)
  | directory
deriving DecidableEq, Repr

/-- The entries below the working directory, each with the names that lead to
it. -/
structure FileTree where
  entries : List (List (List Char) × Entry)
deriving DecidableEq, Repr

/-- Why a path leads to no file. -/
inductive PathError where
  | notFound
  | notDirectory
  | isDirectory
  | nameTooLong
  | zeroCharacter
deriving DecidableEq, Repr

def PathError.message : PathError → String
  | notFound => "No such file or directory (os error 2)"
  | notDirectory => "Not a directory (os error 20)"
  | isDirectory => "Is a directory (os error 21)"
  | nameTooLong => "File name too long (os error 36)"
  | zeroCharacter => "file name contained an unexpected NUL byte"

namespace FileTree

/-- Where a path has led so far.  Nothing is known of what else lies above the
working directory. -/
inductive Place where
  | below (names : List (List Char))
  | above
  | file (content : List UInt8)
deriving DecidableEq, Repr

/-- The directory that holds a directory. -/
def Place.up : Place → Place
  | below [] => .above
  | below names => .below names.dropLast
  | place => place

def lookup? (tree : FileTree) (names : List (List Char)) : Option Entry :=
  (tree.entries.find? fun entry => entry.1 = names).map Prod.snd

/-- The bytes that a name takes. -/
def nameSize (name : List Char) : Nat :=
  (String.ofList name).utf8ByteSize

/-- The most bytes that the name of an entry takes. -/
def maxNameSize : Nat := 255

/-- The most bytes that a path takes. -/
def maxPathSize : Nat := 4095

/-- Go on along the parts of a path.  From a file no part leads on. -/
def walk (tree : FileTree) : Place → List (List Char) → Except PathError Place
  | place, [] => .ok place
  | .file _, _ :: _ => .error .notDirectory
  | .above, part :: rest =>
      if Path.isIdle part ∨ part = ['.', '.'] then walk tree .above rest
      else .error .notFound
  | .below names, part :: rest =>
      if Path.isIdle part then walk tree (.below names) rest
      else if part = ['.', '.'] then walk tree (Place.below names).up rest
      else if nameSize part > maxNameSize then .error .nameTooLong
      else match tree.lookup? (names ++ [part]) with
        | some (.file content) => walk tree (.file content) rest
        | some .directory => walk tree (.below (names ++ [part])) rest
        | none => .error .notFound

/-- What a path leads to. -/
def resolve (tree : FileTree) (path : List Char) : Except PathError Place :=
  if '\x00' ∈ path then .error .zeroCharacter
  else if nameSize path > maxPathSize then .error .nameTooLong
  else match path with
    | [] => .error .notFound
    | '/' :: rest => walk tree .above (Path.segments rest)
    | path => walk tree (.below []) (Path.segments path)

def exists? (tree : FileTree) (path : List Char) : Bool :=
  (tree.resolve path).isOk

/-- The content of the file that a path leads to. -/
def read (tree : FileTree) (path : List Char) : Except PathError (List UInt8) :=
  match tree.resolve path with
  | .ok (.file content) => .ok content
  | .ok _ => .error .isDirectory
  | .error failure => .error failure

/-- The candidates for a fresh name that are in use. -/
def usedCandidates (tree : FileTree) (pattern : List Char) : List (List Char) :=
  ((List.range (tree.entries.length + 2)).map (FreshName.candidate pattern)).filter
    tree.exists?

/-- A name made from a pattern that leads to nothing yet, if there is a number
for it. -/
def freshName? (tree : FileTree) (pattern : List Char) : Option (List Char) :=
  FreshName.fresh? (tree.usedCandidates pattern) pattern

/-- A file delivers its content in one portion. -/
def source (tree : FileTree) (path : List Char) : List Delivery :=
  match tree.read path with
  | .ok content => [.bytes content]
  | .error failure => [.failure .other (some failure.message)]

/-- The files of a tree, in which a journal may take a name made from a
pattern. -/
def files (tree : FileTree) (pattern : List Char) : Files where
  source := tree.source
  used := tree.usedCandidates pattern
  create _ := .ok .unlimited

end FileTree

end TextMusic

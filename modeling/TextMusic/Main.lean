/-
The command: it gathers the files that a run needs, and prints and writes what
comes of the run.
-/
import TextMusic.CommandLine.Run
import TextMusic.FileTree

namespace TextMusic

namespace CommandLine

/-- The number and the sentence of a failure.  Some failures carry their number
negated. -/
def systemText (code : UInt32) (details : String) : String :=
  let number := min code (0 - code)
  if number = 36 then PathError.nameTooLong.message
  else details.capitalize ++ " (os error " ++ toString number ++ ")"

/-- What the system says of a failure. -/
def failureText : IO.Error → String
  | .noFileOrDirectory .. => PathError.notFound.message
  | .inappropriateType _ code details => systemText code details
  | .permissionDenied _ code details => systemText code details
  | .resourceExhausted _ code details => systemText code details
  | .invalidArgument _ code details => systemText code details
  | .otherError code details => systemText code details
  | failure => toString failure

/-- What reading a path delivers. -/
def gather (path : List Char) : IO (List Delivery) := do
  try
    let content ← IO.FS.readBinFile (String.ofList path)
    return [.bytes content.toList]
  catch failure =>
    return [.failure .other (some (failureText failure))]

/-- The names in the working directory. -/
def gatherNames : IO FileTree := do
  let entries ← (← IO.currentDir).readDir
  return ⟨entries.toList.map fun entry => ([entry.fileName.toList], .file [])⟩

/-- The files of a run. -/
def gatherFiles (options : Options) : IO Files := do
  let paths := options.file :: options.config?.toList
  let sources ← paths.mapM fun path => return (path, ← gather path)
  let tree ← gatherNames
  return {
    source path := ((sources.find? fun found => found.1 = path).map Prod.snd).getD []
    used := tree.usedCandidates journalPattern
    create _ := .ok .unlimited }

/-- Print what a run prints; in real time each piece at its moment. -/
def printAll (realtime : Bool) (printed : List (Duration × String)) : IO Unit := do
  let started ← IO.monoNanosNow
  for (due, text) in printed do
    if realtime then
      let elapsed := (← IO.monoNanosNow) - started
      IO.sleep (UInt32.ofNat ((due.total - elapsed) / 1000000))
    IO.print text

/-- Do what a run does, and answer its exit code. -/
def carryOut (options : Options) : IO UInt32 := do
  let seed ← IO.rand 0 (UInt64.size - 1)
  let result := run (← gatherFiles options) options (.ofSeed (UInt64.ofNat seed))
  if let some (name, content) := result.journal? then
    IO.FS.writeBinFile (String.ofList name) (ByteArray.mk content)
  printAll options.realtime result.printed
  if let some line := result.errorLine? then
    IO.eprintln line
  return result.code.toUInt32

end CommandLine

end TextMusic

open TextMusic.CommandLine in
/-- The command with its arguments. -/
def main (arguments : List String) : IO UInt32 := do
  match request? (arguments.map String.toList) with
  | none =>
      IO.eprint usage
      return 1
  | some .help =>
      IO.print usage
      return 0
  | some .version =>
      IO.print version
      return 0
  | some (.run options) =>
      try
        carryOut options
      catch failure =>
        IO.eprintln ("Error: IO error " ++ failureText failure)
        return 1

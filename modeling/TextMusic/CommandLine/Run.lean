/-
A run of the command: what it prints, what it writes and how it ends, for the
files that it finds.
-/
import TextMusic.CommandLine.Options
import TextMusic.Files
import TextMusic.FreshName
import TextMusic.Playback
import TextMusic.Rendering
import TextMusic.Sink

namespace TextMusic

namespace CommandLine

/-- How a run ends. -/
inductive Ending where
  | success
  /-- It fails and tells why. -/
  | failure (error : Error)
  /-- It breaks off for want of a moment that it could keep. -/
  | brokenOff (error : TimingError)
  /-- It breaks off for want of a number for the name of its journal. -/
  | outOfNumbers
deriving DecidableEq, Repr

/-- What comes of a run. -/
structure Result where
  ending : Ending
  /-- What is printed, each piece with the moment at which it is due. -/
  printed : List (Duration × String)
  /-- The journal that is written, by its name. -/
  journal? : Option (List Char × Array UInt8)
  /-- The sink behind all messages that were sent to it, if it came to that. -/
  sink? : Option Sink

namespace Result

def fail (error : Error) : Result :=
  ⟨.failure error, [], none, none⟩

def code (result : Result) : UInt8 :=
  match result.ending with
  | .success => 0
  | .failure _ => 1
  | .brokenOff _ => 101
  | .outOfNumbers => 101

def output (result : Result) : String :=
  String.join (result.printed.map Prod.snd)

/-- The line that tells why a run fails. -/
def errorLine? (result : Result) : Option String :=
  match result.ending with
  | .failure error => some ("Error: " ++ error.message)
  | _ => none

end Result

/-- The name that a journal is made from. -/
def journalPattern : List Char :=
  ['t', 'e', 'x', 't', 'u', 'n', 'e', '.', 'l', 'o', 'g']

/-- The configuration of a run: that of the file, with the seed of the command
line before that of the file. -/
def configOf (files : Files) (options : Options) : Except Error Config := do
  let config ← match options.config? with
    | some path => files.readConfig path
    | none => pure {}
  return { config with seed := options.seed?.or config.seed }

/-- The document of the file, as one line. -/
def documentLine (files : Files) (options : Options) (config : Config)
    (dice : RandomStream) : Except Error String := do
  let text ← files.readText options.file
  let document ← simulate text config dice
  return document.toJson.render ++ "\n"

/-- Write the journal of a timeline under a name. -/
def writeJournal (files : Files) (name : List Char) (timeline : Timeline) :
    Except Error Unit × Option (List Char × Array UInt8) :=
  match files.create name with
  | .error failure => (.error (.io failure), none)
  | .ok writer =>
      let (outcome, writer) := Journal.logTimeline writer timeline
      (outcome, some (name, writer.written))

/-- Collect what a sink prints.  A sink never asks for a pause. -/
def listen (heard : Sink × Array String) (message : Message) :
    (Sink × Array String) × Bool :=
  let (sink, printed) := heard.1.process message
  ((sink, heard.2.push printed), false)

/-- How a run spaces its messages.  The waits themselves are left to whoever
prints, so the clock stands still here. -/
def Options.pace (options : Options) : Playback.Pace :=
  if options.realtime then .timed fun _ => .zero else .immediate

/-- Play to a sink.  What was printed before a run breaks off stays printed. -/
def play (playback : Playback) (pace : Playback.Pace) (sink : Sink)
    (journal? : Option (List Char × Array UInt8)) : Result :=
  let outcome := playback.run listen pace (sink, #[])
  let printed := playback.moments.zip outcome.listener.2.toList
  let ending := match outcome.failure? with
    | some error => .brokenOff error
    | none => .success
  ⟨ending, printed, journal?, some outcome.listener.1⟩

/-- Play a timeline to the sinks that the options name.  The journal has been
written before they are sought. -/
def playTo (options : Options) (resolution : UInt16) (timeline : Timeline)
    (journal? : Option (List Char × Array UInt8)) : Result :=
  match Sink.ofNames (String.ofList options.sink) with
  | .error error => ⟨.failure (.system error), [], journal?, none⟩
  | .ok sink =>
      match Playback.ofTimeline timeline resolution with
      | .error error => ⟨.brokenOff error, [], journal?, none⟩
      | .ok playback => play playback options.pace sink journal?

/-- Read the whole file, write the journal under a fresh name if one is asked
for, and play. -/
def perform (files : Files) (options : Options) (config : Config) (dice : RandomStream) :
    Result :=
  match render (files.source options.file) config dice with
  | .error error => .fail error
  | .ok timeline =>
      if options.journal then
        match FreshName.fresh? files.used journalPattern with
        | none => ⟨.outOfNumbers, [], none, none⟩
        | some name =>
            match writeJournal files name timeline with
            | (.error error, journal?) => ⟨.failure error, [], journal?, none⟩
            | (.ok (), journal?) => playTo options config.resolution timeline journal?
      else playTo options config.resolution timeline none

/-- A run with its options.  Where no seed is given, `unseeded` is drawn from. -/
def run (files : Files) (options : Options) (unseeded : RandomStream) : Result :=
  match configOf files options with
  | .error error => .fail error
  | .ok config =>
      let dice := config.stream unseeded
      if options.json then
        match documentLine files options config dice with
        | .error error => .fail error
        | .ok line => ⟨.success, [(.zero, line)], none, none⟩
      else perform files options config dice

end CommandLine

end TextMusic

/-
The command line: which arguments are options and which are the file, and what
they ask for.
-/
import TextMusic.Text.Blank

namespace TextMusic

namespace CommandLine

/-- The help text. -/
def usage : String :=
"Textune.

Turns any text file into a performance.

Usage:
  textune [options] <file>
  textune (-h | --help)
  textune --version

Options:
  -h --help          Show this screen.
  --version          Show version.
  --config=FILE      Read settings from a JSON file.
  --sink=NAMES       Where to send messages: 'console', 'null' or 'memory',
                     or several separated by commas.
  --realtime         Send messages at their scheduled time.
  --json             Print the rendered events as JSON instead of playing.
  --journal          Write every event to a textune.log file.
  --seed=N           Seed for random notes and instruments.
"

def version : String := "v0.1.0\n"

/-- The options of the help text. -/
inductive Flag where
  | help
  | version
  | config
  | sink
  | realtime
  | json
  | journal
  | seed
deriving DecidableEq, Repr

namespace Flag

/-- The flag of a long option's name. -/
def ofName? : List Char → Option Flag
  | ['h', 'e', 'l', 'p'] => some help
  | ['v', 'e', 'r', 's', 'i', 'o', 'n'] => some version
  | ['c', 'o', 'n', 'f', 'i', 'g'] => some config
  | ['s', 'i', 'n', 'k'] => some sink
  | ['r', 'e', 'a', 'l', 't', 'i', 'm', 'e'] => some realtime
  | ['j', 's', 'o', 'n'] => some json
  | ['j', 'o', 'u', 'r', 'n', 'a', 'l'] => some journal
  | ['s', 'e', 'e', 'd'] => some seed
  | _ => none

def takesValue : Flag → Bool
  | config | sink | seed => true
  | _ => false

end Flag

/-! ## Arguments -/

/-- The arguments sorted into options, with their values, and others. -/
structure Arguments where
  flags : List (Flag × Option (List Char))
  files : List (List Char)
deriving DecidableEq, Repr

/-- A single dash and letters behind it without a blank. -/
def isShort : List Char → Bool
  | '-' :: c :: rest => c ≠ '-' && rest.all fun c => !isBlank c
  | _ => false

/-- Two dashes and a name behind them.  A blank may stand only in a value. -/
def isLong : List Char → Bool
  | '-' :: '-' :: c :: rest =>
      let name := (c :: rest).takeWhile fun c => !isBlank c
      let behind := (c :: rest).dropWhile fun c => !isBlank c
      behind.isEmpty || ((name.drop 1).contains '=' && !behind.contains '\n')
  | _ => false

/-- The name of a long option and the value that it is given. -/
def splitLong (body : List Char) : List Char × Option (List Char) :=
  match body.dropWhile (· ≠ '=') with
  | [] => (body, none)
  | _ :: value => (body.takeWhile (· ≠ '='), some value)

namespace Arguments

def empty : Arguments := ⟨[], []⟩

def addFile (sorted : Arguments) (file : List Char) : Arguments :=
  { sorted with files := sorted.files ++ [file] }

def addFlag (sorted : Arguments) (flag : Flag) (value : Option (List Char)) : Arguments :=
  { sorted with flags := sorted.flags ++ [(flag, value)] }

/-- Sort arguments.  Behind `--` there are no options any more.  The only option
of one letter is `h`.  A value that is not given with its option is the next
argument, whatever that is. -/
def sort? (sorted : Arguments) : List (List Char) → Option Arguments
  | [] => some sorted
  | ['-', '-'] :: rest => some (rest.foldl addFile sorted)
  | argument :: rest =>
      if isShort argument then
        if argument = ['-', 'h'] then sort? (sorted.addFlag .help none) rest else none
      else if isLong argument then
        let (name, value?) := splitLong (argument.drop 2)
        match Flag.ofName? name, value? with
        | none, _ => none
        | some flag, some value =>
            if flag.takesValue then sort? (sorted.addFlag flag (some value)) rest
            else none
        | some flag, none =>
            if flag.takesValue then
              match rest with
              | [] => none
              | value :: rest => sort? (sorted.addFlag flag (some value)) rest
            else sort? (sorted.addFlag flag none) rest
      else sort? (sorted.addFile argument) rest

def has (sorted : Arguments) (flag : Flag) : Bool :=
  sorted.flags.any fun given => given.1 = flag

def value? (sorted : Arguments) (flag : Flag) : Option (List Char) :=
  (sorted.flags.find? fun given => given.1 = flag).bind Prod.snd

end Arguments

/-! ## Requests -/

/-- What a run is asked to do. -/
structure Options where
  config? : Option (List Char)
  /-- The names of the sinks. -/
  sink : List Char
  realtime : Bool
  json : Bool
  journal : Bool
  seed? : Option UInt64
  file : List Char
deriving DecidableEq, Repr

inductive Request where
  | help
  | version
  | run (options : Options)
deriving DecidableEq, Repr

/-- The seed that a value spells, in digits behind an optional plus sign.  A
blank value spells zero. -/
def seed? (value : List Char) : Option UInt64 :=
  if (trimBlanks value).isEmpty then some 0
  else
    let digits := match value with
      | '+' :: rest => rest
      | value => value
    if digits.isEmpty || digits.any (fun c => !c.isDigit) then none
    else
      let n := digits.foldl (fun n c => 10 * n + (c.toNat - 48)) 0
      if n < UInt64.size then some (UInt64.ofNat n) else none

/-- The options of a run. -/
def options? (sorted : Arguments) (file : List Char) : Option Options := do
  let seed ← match sorted.value? .seed with
    | none => some none
    | some value => (seed? value).map some
  return {
    config? := sorted.value? .config
    sink := (sorted.value? .sink).getD []
    realtime := sorted.has .realtime
    json := sorted.has .json
    journal := sorted.has .journal
    seed? := seed
    file := file }

/-- What arguments ask for, if they have one of the forms in the help text.  No
option may come twice.  With a file any options may come, of which those for
help and version go before the rest. -/
def request? (arguments : List (List Char)) : Option Request := do
  let sorted ← Arguments.empty.sort? arguments
  if !(sorted.flags.map Prod.fst).Nodup then none
  else match sorted.files, sorted.flags with
    | [file], _ =>
        if sorted.has .help then return .help
        else if sorted.has .version then return .version
        else (options? sorted file).map .run
    | [], [(.help, _)] => return .help
    | [], [(.version, _)] => return .version
    | _, _ => none

end CommandLine

end TextMusic

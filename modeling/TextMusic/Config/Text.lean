/-
The text of a configuration: an object with a member for each field, or an array
of the fields in their order.  Fields that are left out keep their defaults.
-/
import TextMusic.Config
import TextMusic.Error
import TextMusic.Json.Printer
import TextMusic.Json.Reader
import TextMusic.Json.Single

namespace TextMusic

/-! ## Names -/

def Variant.name : Variant → String
  | rich => "Rich"
  | plain => "Plain"

def RestPolicy.name : RestPolicy → String
  | skip => "Skip"
  | sentinel => "Sentinel"

/-- The name that a value chooses: a text, or an object with one member of that
name and the value `null`. -/
def Json.choice? : Json → Option String
  | .text symbols => Json.string? (.text symbols)
  | .object [(name, .null)] => Json.string? (.text name)
  | _ => none

def Variant.ofJson? (value : Json) : Option Variant :=
  [rich, plain].find? fun variant => value.choice? == some variant.name

def RestPolicy.ofJson? (value : Json) : Option RestPolicy :=
  [skip, sentinel].find? fun policy => value.choice? == some policy.name

/-! ## Numbers -/

/-- A natural number below a bound, spelled with digits alone. -/
def Json.naturalBelow? (bound : Nat) : Json → Option Nat
  | .number spelled =>
      match spelled.natural? with
      | some n => if n < bound then some n else none
      | none => none
  | _ => none

def Json.single? : Json → Option Float32
  | .number spelled => spelled.toSingle?
  | _ => none

namespace Config

/-! ## Fields -/

/-- A field of a configuration: its name, how it is written, and how a value is
put into it. -/
structure Field where
  name : String
  toJson : Config → Json
  put? : Config → Json → Option Config

/-- A field that holds a natural number below a bound. -/
def Field.natural (name : String) (bound : Nat) (get : Config → Nat)
    (set : Config → Nat → Config) : Field where
  name := name
  toJson config := .ofNat (get config)
  put? config value := (value.naturalBelow? bound).map (set config)

/-- The fields in their order. -/
def fields : List Field :=
  [ .natural "volume" UInt8.size (·.volume.toNat)
      fun config n => { config with volume := UInt8.ofNat n },
    .natural "instrument" UInt8.size (·.instrument.toNat)
      fun config n => { config with instrument := UInt8.ofNat n },
    .natural "channel" UInt8.size (·.channel.toNat)
      fun config n => { config with channel := UInt8.ofNat n },
    .natural "start_tick" UInt64.size (·.startTick)
      fun config n => { config with startTick := n },
    { name := "bpm"
      toJson config := .ofSingle config.bpm
      put? config value := value.single?.map fun x => { config with bpm := x } },
    { name := "tempo_step"
      toJson config := .ofSingle config.tempoStep
      put? config value := value.single?.map fun x => { config with tempoStep := x } },
    .natural "resolution" UInt16.size (·.resolution.toNat)
      fun config n => { config with resolution := UInt16.ofNat n },
    { name := "variant"
      toJson config := .ofString config.variant.name
      put? config value :=
        (Variant.ofJson? value).map fun v => { config with variant := v } },
    { name := "rest_policy"
      toJson config := .ofString config.restPolicy.name
      put? config value :=
        (RestPolicy.ofJson? value).map fun p => { config with restPolicy := p } },
    { name := "seed"
      toJson config := match config.seed with
        | some seed => .ofNat seed.toNat
        | none => .null
      put? config value := match value with
        | .null => some { config with seed := none }
        | value => (value.naturalBelow? UInt64.size).map fun n =>
            { config with seed := some (UInt64.ofNat n) } } ]

/-- A configuration as an object with all its fields. -/
def toJson (config : Config) : Json :=
  .object (fields.map fun field => Json.member field.name (field.toJson config))

/-- Put the items of an array into the first fields. -/
def ofItems? (items : List Json) : Option Config :=
  if items.length ≤ fields.length then
    (fields.zip items).foldlM (fun config (field, value) => field.put? config value) {}
  else none

/-- Put one member of an object into its field.  A member that names no field
is passed over. -/
def putMember? (config : Config) (name : String) (value : Json) : Option Config :=
  match fields.find? fun field => field.name == name with
  | some field => field.put? config value
  | none => some config

/-- The members of an object by name; every name has to be a text. -/
def namedMembers? (members : List (List Json.Symbol × Json)) :
    Option (List (String × Json)) :=
  members.mapM fun (name, value) => (Json.characters? name).map fun cs =>
    (String.ofList cs, value)

/-- The names of the members that name a field, in their order. -/
def fieldNames (members : List (String × Json)) : List String :=
  (members.map Prod.fst).filter fun name => fields.any fun field => field.name == name

/-- Put the members of an object into their fields.  No field is put twice. -/
def ofMembers? (members : List (List Json.Symbol × Json)) : Option Config := do
  let named ← namedMembers? members
  if (fieldNames named).Nodup then
    named.foldlM (fun config (name, value) => putMember? config name value) {}
  else none

def ofJson? : Json → Option Config
  | .array items => ofItems? items
  | .object members => ofMembers? members
  | _ => none

/-- The configuration that a text spells.  Only a text that spells one is asked
whether it is valid. -/
def ofText (text : String) : Except Error Config :=
  match (Json.read? text.toList).bind ofJson? with
  | none => .error (.json "not a configuration")
  | some config =>
      if config.isValid then .ok config else .error (.system .invalidConfig)

end Config

end TextMusic

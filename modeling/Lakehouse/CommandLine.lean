import Lakehouse.Sync.Mode
import Lakehouse.Text.Cut

/-!
# The command line

A run is told by options where its documents are, in which mode to synchronise and how to log. Each
option takes one value and may be given once. Its value is the next argument, or it is attached:
behind an equals sign, and after a single letter also without one. An argument that starts with a
hyphen is never the value of the option before it, unless it is a hyphen alone.

* `Arguments.parse` — the arguments of a run. Nothing runs where help is asked for or an argument is
  not understood.

Model of `SyncArgs` and `parse_args`. Left out: the usage that is printed, the environment variable
that may name the log format, and arguments that are not Unicode.
-/

namespace Lakehouse

/-- How log lines are written. -/
inductive LogFormat where
  | text
  | json
  deriving DecidableEq, Repr

/-- The log format of that name. -/
def LogFormat.ofName? : String → Option LogFormat
  | "text" => some .text
  | "json" => some .json
  | _ => none

/-- What a run is told. -/
structure Arguments where
  /-- The path of the dataset. -/
  dataset : String
  /-- The path of the storage configuration. -/
  storage : Option String
  /-- The path of the provider configuration. -/
  providers : Option String
  /-- The path of the catalog configuration. -/
  catalog : Option String
  mode : SyncMode
  logFormat : LogFormat
  deriving DecidableEq

/-- The options. -/
inductive CommandOption where
  | dataset
  | storage
  | providers
  | catalog
  | mode
  | logFormat
  deriving DecidableEq, Repr

namespace CommandOption

/-- Every option. -/
def all : List CommandOption := [.dataset, .storage, .providers, .catalog, .mode, .logFormat]

/-- The long name of an option. -/
def name : CommandOption → String
  | dataset => "datasetConfig"
  | storage => "hadoopConfig"
  | providers => "convertersConfig"
  | catalog => "icebergCatalogConfig"
  | mode => "syncMode"
  | logFormat => "log-format"

/-- The letter of an option. -/
def letter? : CommandOption → Option Char
  | dataset => some 'd'
  | storage => some 'p'
  | providers => some 'c'
  | catalog => some 'i'
  | mode => none
  | logFormat => none

/-- The option of that name. -/
def ofName? (name : String) : Option CommandOption := all.find? fun o => o.name = name

/-- The option of that letter. -/
def ofLetter? (c : Char) : Option CommandOption := all.find? fun o => o.letter? = some c

/-- What is attached to a letter, without an equals sign in front. -/
def attached : List Char → Option String
  | [] => none
  | '=' :: value => some (String.ofList value)
  | value => some (String.ofList value)

/-- The option that an argument names, and the value attached to it. -/
def ofArgument? (argument : String) : Option (CommandOption × Option String) :=
  match argument.toList with
  | '-' :: '-' :: rest =>
    let (name, value) := Text.cut '=' rest
    (ofName? (String.ofList name)).map fun o => (o, value.map String.ofList)
  | '-' :: c :: rest => (ofLetter? c).map fun o => (o, attached rest)
  | _ => none

end CommandOption

namespace Arguments

/-- Whether an argument can only be an option, not the value of one. -/
def isOption (argument : String) : Bool :=
  argument.toList.head? == some '-' && argument != "-"

/-- The options and their values; two hyphens may end the arguments. -/
def options : List String → Option (List (CommandOption × String))
  | [] => some []
  | ["--"] => some []
  | [argument] => do
    match ← CommandOption.ofArgument? argument with
    | (o, some value) => some [(o, value)]
    | (_, none) => none
  | argument :: next :: rest => do
    match ← CommandOption.ofArgument? argument with
    | (o, some value) => return (o, value) :: (← options (next :: rest))
    | (o, none) => if isOption next then none else return (o, next) :: (← options rest)

/-- The value of an option, read if it was given. -/
def readOption {α : Type} (given : List (CommandOption × String)) (o : CommandOption)
    (read : String → Option α) : Option (Option α) :=
  (given.lookup o).mapM read

/-- A path is any text but the empty one. -/
def readPath (text : String) : Option String := if text = "" then none else some text

/-- The arguments of a run. The first argument is the name of the program. -/
def parse (arguments : List String) : Option Arguments := do
  let given ← options (arguments.drop 1)
  guard (given.map (·.1)).Nodup
  return {
    dataset := ← ← readOption given .dataset readPath
    storage := ← readOption given .storage readPath
    providers := ← readOption given .providers readPath
    catalog := ← readOption given .catalog readPath
    mode := (← readOption given .mode fun t => (SyncMode.parse t).toOption).getD .incremental
    logFormat := (← readOption given .logFormat LogFormat.ofName?).getD .text }

end Arguments

end Lakehouse

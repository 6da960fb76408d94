import Descent.Budget
import Descent.Decimal.Read

namespace Descent.CommandLine

inductive Command where
  | parse
  | validate
  | stats
  deriving DecidableEq

@[ext] structure Options where
  command : Command
  file : String
  json : Bool
  verbose : Bool
  limits : Limits
  deriving DecidableEq

/-- What a list of arguments asks for. -/
inductive Request where
  | help
  | version
  | run (o : Options)
  deriving DecidableEq

/-- The options as far as the arguments were read. -/
structure Draft where
  command : Command
  file : Option String
  json : Bool
  verbose : Bool
  limits : Limits

def Draft.blank : Draft := ⟨.parse, none, false, false, .standard⟩

def Draft.finish (d : Draft) : Except String Request :=
  match d.file with
  | some file => .ok (.run ⟨d.command, file, d.json, d.verbose, d.limits⟩)
  | none => .error "no input file specified"

def readCount (option : String) (value : String) : Except String Nat :=
  match Decimal.readCount value.toList with
  | .ok n => .ok n
  | .error _ => .error ("invalid value for " ++ option ++ ": " ++ value)

/-- Reads the arguments in order. Asking for help or the version ends the reading, and so does the
first mistake. -/
def readArguments (d : Draft) : List String → Except String Request
  | [] => d.finish
  | "-h" :: _ | "--help" :: _ => .ok .help
  | "-V" :: _ | "--version" :: _ => .ok .version
  | "-v" :: args | "--verbose" :: args => readArguments { d with verbose := true } args
  | "-j" :: args | "--json" :: args => readArguments { d with json := true } args
  | ["--max-depth"] => .error "--max-depth requires a value"
  | ["--max-steps"] => .error "--max-steps requires a value"
  | "--max-depth" :: value :: args => do
    let n ← readCount "--max-depth" value
    readArguments { d with limits := d.limits.withMaxDepth n } args
  | "--max-steps" :: value :: args => do
    let n ← readCount "--max-steps" value
    readArguments { d with limits := d.limits.withMaxSteps n } args
  | "parse" :: args => readArguments { d with command := .parse } args
  | "validate" :: args => readArguments { d with command := .validate } args
  | "stats" :: args => readArguments { d with command := .stats } args
  | arg :: args =>
    if arg.toList.head? = some '-' then .error ("unknown option: " ++ arg)
    else match d.file with
      | some _ => .error "multiple files specified"
      | none => readArguments { d with file := some arg } args

def Request.ofArguments (args : List String) : Except String Request := readArguments .blank args

end Descent.CommandLine

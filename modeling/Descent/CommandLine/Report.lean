import Descent.CommandLine.Options
import Descent.Json.Printer
import Descent.Stylesheet.Grammar
import Descent.Stylesheet.Statistics
import Descent.Text.Lines
import Descent.Value.Json

namespace Descent.CommandLine

/-- What a run of the program leaves. -/
@[ext] structure Report where
  exit : UInt32
  stdout : String
  stderr : String
  deriving DecidableEq

/-- Why a file could not be read. -/
inductive FileError where
  | notFound
  | isDirectory
  | notDirectory
  | invalidUtf8
  | other (message : String)
  deriving DecidableEq

def FileError.message : FileError → String
  | .notFound => "No such file or directory (os error 2)"
  | .isDirectory => "Is a directory (os error 21)"
  | .notDirectory => "Not a directory (os error 20)"
  | .invalidUtf8 => "stream did not contain valid UTF-8"
  | .other message => message

/-- The text of a file's bytes. -/
def decodeFile (bytes : ByteArray) : Except FileError String :=
  match String.fromUTF8? bytes with
  | some text => .ok text
  | none => .error .invalidUtf8

namespace Report

def failed (message : String) : Report := ⟨1, "", "error: " ++ message ++ "\n"⟩

def printed (text : String) : Report := ⟨0, text, ""⟩

def printedJson (j : Json) : Report := printed (j.pretty ++ "\n")

end Report

def helpText : String :=
"rkcli - stylesheet parser built on rulekit

USAGE:
    rkcli [OPTIONS] [COMMAND] <FILE>

COMMANDS:
    parse       Parse and display rule structure (default)
    validate    Check stylesheet for errors without output
    stats       Show stylesheet statistics

OPTIONS:
    -v, --verbose        Show every declaration
    -j, --json           Output in JSON format
        --max-depth N    Abort when rules nest deeper than N
        --max-steps N    Abort after N rule applications
    -h, --help           Print help information
    -V, --version        Print version information

EXAMPLES:
    rkcli site.css              Parse a stylesheet
    rkcli -v site.css           Parse with verbose output
    rkcli -j site.css           Output rules as JSON
    rkcli validate site.css     Validate without output
    rkcli stats site.css        Show stylesheet statistics

"

def versionText : String := "rkcli 0.1.0\n"

def textUnder (key : String) (v : Value) : String := ((v.get? key).bind Value.asText?).getD "?"

def declarationLine (d : Value) : String :=
  let mark := if Stylesheet.isImportant d then " !important" else ""
  "      " ++ textUnder "property" d ++ ": " ++ textUnder "value" d ++ mark ++ "\n"

/-- A rule with its number, and its declarations if `verbose`. -/
def ruleLines (verbose : Bool) (number : Nat) (rule : Value) : String :=
  let selectors := (Stylesheet.listUnder "selectors" rule).filterMap Value.asText?
  let declarations := Stylesheet.listUnder "declarations" rule
  let joined := ", ".intercalate selectors
  let head := s!"  [{number}] {joined} ({declarations.length} declarations)\n"
  head ++ if verbose then String.join (declarations.map declarationLine) else ""

def sheetLines (verbose : Bool) (sheet : Value) : String :=
  let rules := sheet.asList?.getD []
  s!"Rules: {rules.length}\n"
    ++ String.join (rules.zipIdx.map fun (rule, i) => ruleLines verbose (i+1) rule)

def showSheet (o : Options) : Except ParseError Value → Report
  | .error e => .failed e.describe
  | .ok sheet => if o.json then .printedJson sheet.toJson else .printed (sheetLines o.verbose sheet)

def errorJson (e : ParseError) : Json := .object [
  ("message", .string e.describe), ("line", .int e.position.line),
  ("column", .int e.position.column), ("offset", .int e.position.offset),
  ("fault", .bool e.fault?.isSome)]

def validityJson (errors : List Json) : Json := .object [
  ("valid", .bool errors.isEmpty), ("errors", .array errors)]

/-- The line of an error, with a caret under the place. -/
def caretLines (text : List Char) (p : Position) : String :=
  match (Text.lines text)[p.line-1]? with
  | some line => "  | " ++ String.ofList line ++ "\n  | "
      ++ String.ofList (List.replicate (p.column-1) ' ') ++ "^\n"
  | none => ""

def invalidLine : String := "error: stylesheet is invalid\n"

def validate (o : Options) (text : String) : Except ParseError Value → Report
  | .ok _ => if o.json then .printedJson (validityJson []) else .printed "Valid: no errors found\n"
  | .error e =>
    if o.json then ⟨1, (validityJson [errorJson e]).pretty ++ "\n", invalidLine⟩
    else ⟨1, "", "Invalid: " ++ e.describe ++ "\n" ++
      caretLines text.toList e.position ++ invalidLine⟩

def statisticsLines (s : Stylesheet.Statistics) (text : String) : String :=
  "Stylesheet Statistics\n---------------------\n"
    ++ s!"Rules:          {s.rules}\n"
    ++ s!"Selectors:      {s.selectors}\n"
    ++ s!"Declarations:   {s.declarations}\n"
    ++ s!"  !important:   {s.important}\n"
    ++ "\nSize:\n"
    ++ s!"  Characters:   {text.length}\n"
    ++ s!"  Lines:        {(Text.lines text.toList).length}\n"

def showStatistics (o : Options) (text : String) : Except ParseError Value → Report
  | .error e => .failed e.describe
  | .ok sheet =>
    let s := Stylesheet.Statistics.ofSheet sheet
    if o.json then .printedJson s.toJson else .printed (statisticsLines s text)

/-- Carries out a command on the text of a file. The limits bound the depth, so the parse has a
result. -/
def perform (o : Options) (text : String) : Report :=
  match Stylesheet.parse text o.limits with
  | none => .failed "the parse does not end"
  | some result =>
    match o.command with
    | .parse => showSheet o result
    | .validate => validate o text result
    | .stats => showStatistics o text result

/-- The program: `read` gives the text of a file. -/
def run {m : Type → Type} [Monad m] (read : String → m (Except FileError String))
    (args : List String) : m Report := do
  match Request.ofArguments args with
  | .error message => return .failed message
  | .ok .help => return ⟨0, "", helpText⟩
  | .ok .version => return .printed versionText
  | .ok (.run o) =>
    match ← read o.file with
    | .error e => return .failed ("failed to read '" ++ o.file ++ "': " ++ e.message)
    | .ok text => return perform o text

end Descent.CommandLine

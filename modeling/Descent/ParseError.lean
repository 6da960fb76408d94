import Descent.Failure
import Descent.Fault
import Descent.Position

namespace Descent

/-- A report on a parse that gave no value. -/
inductive ParseError where
  /-- The rule did not match. `found` is the text that stands at the position, or none at the
  end. -/
  | mismatch (position : Position) (expected : List Expected) (found : Option String)
  /-- The rule matched and left text over. -/
  | incomplete (position : Position)
  | fault (position : Position) (fault : Fault)
  deriving DecidableEq

namespace ParseError

/-- The most characters of the source that a report quotes. -/
def excerptLength : Nat := 16

/-- The start of the first line of a text; three dots stand for what is left out, and `\n` for an
empty line. -/
def excerpt? (text : List Char) : Option String :=
  let line := text.takeWhile (· ≠ '\n')
  if text.isEmpty then none
  else if line.isEmpty then some "\\n"
  else if excerptLength < line.length then some (String.ofList (line.take excerptLength) ++ "...")
  else some (String.ofList line)

def ofFailure (source : List Char) (f : Failure) : ParseError :=
  let c := (Cursor.start source).advance f.offset
  .mismatch c.position f.expected (excerpt? c.after)

def ofLeftover (source : List Char) (offset : Nat) : ParseError :=
  .incomplete (Position.locate source offset)

def ofFault (source : List Char) (f : Fault) : ParseError :=
  .fault (Position.locate source f.offset) f

def position : ParseError → Position
  | .mismatch p _ _ => p
  | .incomplete p => p
  | .fault p _ => p

def fault? : ParseError → Option Fault
  | .fault _ f => some f
  | _ => none

def describe : ParseError → String
  | .mismatch p expected (some found) =>
    Expected.describeAll expected ++ ", found `" ++ found ++ "` at " ++ p.describe
  | .mismatch p expected none =>
    Expected.describeAll expected ++ ", found end of input at " ++ p.describe
  | .incomplete p => "unconsumed input at " ++ p.describe
  | .fault p f => f.message ++ " at " ++ p.describe

end ParseError

end Descent

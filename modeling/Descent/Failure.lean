import Descent.Pool
import Descent.Text.Quoted

namespace Descent

inductive Expected where
  | literal (text : String)
  /-- A regular expression, by its source. -/
  | pattern (source : String)
  | label (name : String)
  | endOfInput
  deriving DecidableEq

namespace Expected

def describe : Expected → String
  | .literal s => "`" ++ String.ofList (Text.Quoted.escape s.toList) ++ "`"
  | .pattern s => "pattern /" ++ s ++ "/"
  | .label name => name
  | .endOfInput => "end of input"

def alternatives : List Expected → String
  | [] => ""
  | [e] => e.describe
  | [e, f] => e.describe ++ " or " ++ f.describe
  | e :: es => e.describe ++ ", " ++ alternatives es

def describeAll : List Expected → String
  | [] => "no match"
  | es => "expected " ++ alternatives es

end Expected

/-- Where matching stopped, and what would have been accepted there. -/
@[ext] structure Failure where
  /-- In bytes. -/
  offset : Nat
  expected : List Expected
  deriving DecidableEq

namespace Failure

/-- A failure that expects nothing yet. -/
def bare (offset : Nat) : Failure := ⟨offset, []⟩

/-- The failure that got further. Two at one offset pool their expectations. -/
def merge (f g : Failure) : Failure :=
  if f.offset < g.offset then g
  else if g.offset = f.offset then ⟨f.offset, pool f.expected g.expected⟩
  else f

/-- Pools the expectations of another failure, wherever it is. -/
def adopt (f g : Failure) : Failure := ⟨f.offset, pool f.expected g.expected⟩

@[simp] theorem offset_merge (f g : Failure) : (f.merge g).offset = max f.offset g.offset := by
  unfold merge
  grind

def describe (f : Failure) : String := s!"{Expected.describeAll f.expected} at byte {f.offset}"

end Failure

end Descent

import Descent.Budget
import Descent.Cursor
import Descent.Pattern
import Descent.Value.Basic

namespace Descent

/-- A success: what the rule yields, the text it consumed, and the cursor behind that text. -/
@[ext] structure Match where
  value : Value
  span : Span
  rest : Cursor

def Match.spanning (value : Value) (c d : Cursor) : Match := ⟨value, c.spanTo d, d⟩

/-- What comes of a rule that was not aborted. -/
inductive Outcome where
  | success (m : Match)
  | failure (f : Failure)

/-- What comes of applying a rule: an outcome, or a fault that aborts the parse. -/
abbrev Step := Except Fault Outcome

abbrev CellId := Nat

abbrev RegistryId := Nat

inductive Rule where
  | token (p : Pattern)
  /-- The first alternative that matches. -/
  | choice (rules : List Rule)
  /-- All rules one after the other; yields the list of their values. -/
  | sequence (rules : List Rule)
  /-- The rule as often as it matches and consumes something. -/
  | repeated (r : Rule)
  /-- The rule once or more with a delimiter in between, and one at the end if `trailing`. -/
  | separated (r delimiter : Rule) (trailing : Bool)
  /-- Three rules in order; yields the value of the second. -/
  | enclosed (left r right : Rule)
  /-- Two rules with a delimiter in between; yields the list of both values. -/
  | pair (first second delimiter : Rule)
  /-- The rule, its value passed through a transform. A transform that refuses raises a fault. -/
  | mapped (r : Rule) (transform : Value → Except String Value)
  | discard (r : Rule)
  | optional (r : Rule)
  /-- The rule; a failure at its start is said to expect `name`. -/
  | label (r : Rule) (name : String)
  | endOfInput
  /-- The rule in a cell. A handle does not keep the cell alive. -/
  | handle (cell : CellId)
  /-- The rule in a cell, which it keeps alive. -/
  | recursive (cell : CellId)
  /-- The rule bound to a name when it is applied. A reference does not keep the registry alive. -/
  | reference (registry : RegistryId) (name : String)
  /-- A rule that was bound to a name, with the registry it comes from, which it keeps alive. -/
  | registered (registry : RegistryId) (r : Rule)
  /-- A rule written by hand that applies no other rule. -/
  | primitive (run : Cursor → Budget → Step)
  /-- A rule whose outcome is adapted by hand. -/
  | adapt (r : Rule) (change : Cursor → Outcome → Outcome)

namespace Rule

def literal (text : String) : Rule := .token (.literal text)

/-- The delimiter of lists and pairs that name none. -/
def comma : Rule := literal ","

mutual

/-- The number of rules in a rule. -/
def size : Rule → Nat
  | .choice rs => sizeList rs+1
  | .sequence rs => sizeList rs+1
  | .repeated r => r.size+1
  | .separated r d _ => r.size+d.size+1
  | .enclosed l r t => l.size+r.size+t.size+1
  | .pair a b d => a.size+b.size+d.size+1
  | .mapped r _ => r.size+1
  | .discard r => r.size+1
  | .optional r => r.size+1
  | .label r _ => r.size+1
  | .registered _ r => r.size+1
  | .adapt r _ => r.size+1
  | _ => 1

def sizeList : List Rule → Nat
  | [] => 0
  | r :: rs => r.size+sizeList rs

end

end Rule

end Descent

import Descent.Position
import Descent.Rule.Basic

namespace Descent.Rule

def count (n : Nat) : Value := .int (Int64.ofNat n)

/-- Matches the empty text and yields where the parse stands: the position, the account, and what is
left. -/
def probe : Rule := .primitive fun c b =>
  let p := c.position
  let value : Value := .map [
    ("offset", count p.offset), ("line", count p.line), ("column", count p.column),
    ("depth", count b.depth), ("steps", count b.steps), ("eof", .bool c.atEnd),
    ("rest", .text c.rest),
    ("furthest", match b.furthest with
      | some f => .text f.describe
      | none => .unit)]
  .ok (.success (.spanning value c c))

/-- The rule, its value set beside the span and the text that it consumed. -/
def spanned (r : Rule) : Rule := .adapt r fun c o => match o with
  | .success m =>
    let text := String.ofList ((m.span.slice? c.source).getD [])
    let value : Value := .map [
      ("start", count m.span.start), ("end", count m.span.stop), ("text", .text text),
      ("value", m.value)]
    .success { m with value }
  | .failure f => .failure f

/-- Consumes `n` bytes, or what is left if that is less. -/
def skip (n : Nat) : Rule := .primitive fun c _ =>
  .ok (.success (.spanning (.bool true) c (c.advance n)))

/-- Fails `ahead` bytes behind the cursor. -/
def failing (ahead : Nat) (expected : List Expected) : Rule := .primitive fun c _ =>
  .ok (.failure ⟨c.offset+ahead, expected⟩)

def faulting (kind : FaultKind) (message : String) : Rule := .primitive fun c _ =>
  .error ⟨.stated kind message, c.offset⟩

/-- Matches where the rule does, and consumes nothing. -/
def peek (r : Rule) : Rule := .adapt r fun c o => match o with
  | .success m => .success (.spanning m.value c c)
  | .failure _ => .failure ⟨c.offset, [.label "peek"]⟩

/-- Matches where the rule does not, and consumes nothing. -/
def absent (r : Rule) : Rule := .adapt r fun c o => match o with
  | .success _ => .failure ⟨c.offset, [.label "not"]⟩
  | .failure _ => .success (.spanning .unit c c)

end Descent.Rule

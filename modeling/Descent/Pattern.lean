import Descent.Cursor
import Descent.Failure
import Descent.Regex.Match
import Descent.Regex.Parser

namespace Descent

/-- What a token matches. A regular expression begins at the cursor and sees the text before it. -/
inductive Pattern where
  | literal (text : String)
  /-- The expression `regex` is what `source` writes. -/
  | regex (source : String) (regex : Regex) (written : Regex.parse? source.toList = some regex)

namespace Pattern

/-- The pattern of a regular expression, if it is well formed. -/
def ofRegex? (source : String) : Option Pattern :=
  match h : Regex.parse? source.toList with
  | some r => some (.regex source r h)
  | none => none

/-- The pattern of a regular expression that is known to be well formed. -/
def ofRegex (source : String) (h : (Regex.parse? source.toList).isSome = true) : Pattern :=
  .regex source ((Regex.parse? source.toList).get h) (Option.some_get h).symm

/-- The number of characters from the cursor on that match. -/
def matchLength? (p : Pattern) (c : Cursor) : Option Nat :=
  match p with
  | .literal text => if text.toList.isPrefixOf c.after then some text.toList.length else none
  | .regex _ r _ => r.matchLength? c.before.head? c.after

/-- The number of bytes from the cursor on that match. -/
def matchBytes? (p : Pattern) (c : Cursor) : Option Nat :=
  (p.matchLength? c).map fun n => Text.byteLength (c.after.take n)

def expected : Pattern → Expected
  | .literal text => .literal text
  | .regex source _ _ => .pattern source

end Pattern

end Descent

import Descent.Decimal.Style
import Descent.Text.Quoted
import Descent.Value.Basic

namespace Descent.Value

/-- Numbers are shown without an exponent and whole numbers without a point; a tie goes up. -/
def floatStyle : Decimal.Style := ⟨.up, fun _ => true, false, false⟩

mutual

def displayChars : Value → List Char
  | .unit => ['(', ')']
  | .text s => '"' :: Text.Quoted.escape s.toList ++ ['"']
  | .bool b => (if b then "true" else "false").toList
  | .int n => Decimal.integer n.toInt
  | .float x => floatStyle.writeFloat x
  | .list [] => ['[', ']']
  | .list (v :: vs) => '[' :: v.displayChars ++ displayItems vs ++ [']']
  | .map [] => ['\x7b', '\x7d']
  | .map ((k, v) :: es) =>
    '\x7b' :: k.toList ++ ':' :: ' ' :: v.displayChars ++ displayEntries es ++ ['\x7d']

/-- The items of a list after the first one. -/
def displayItems : List Value → List Char
  | [] => []
  | v :: vs => ',' :: ' ' :: v.displayChars ++ displayItems vs

/-- The entries of a map after the first one. -/
def displayEntries : List (String × Value) → List Char
  | [] => []
  | (k, v) :: es => ',' :: ' ' :: k.toList ++ ':' :: ' ' :: v.displayChars ++ displayEntries es

end

def display (v : Value) : String := String.ofList v.displayChars

end Descent.Value

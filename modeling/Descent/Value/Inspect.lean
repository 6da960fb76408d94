import Descent.Decimal.Style
import Descent.Text.Quoted
import Descent.Value.Basic

namespace Descent.Value

/-- Whole numbers keep a point, and small or large numbers have an exponent; a tie goes up. -/
def inspectStyle : Decimal.Style := ⟨.up, fun e => -4 ≤ e && e ≤ 15, true, false⟩

mutual

/-- A value for a reader who debugs, with its kind. -/
def inspectChars : Value → List Char
  | .unit => "Unit".toList
  | .text s => "Text(".toList ++ Text.Quoted.debug s.toList ++ [')']
  | .list vs => "List([".toList ++ inspectItems vs ++ "])".toList
  | .bool b => "Bool(".toList ++ (if b then "true" else "false").toList ++ [')']
  | .int n => "Int(".toList ++ Decimal.integer n.toInt ++ [')']
  | .float x => "Float(".toList ++ inspectStyle.writeFloat x ++ [')']
  | .map es => "Map([".toList ++ inspectEntries es ++ "])".toList

def inspectItems : List Value → List Char
  | [] => []
  | [v] => v.inspectChars
  | v :: vs => v.inspectChars ++ ',' :: ' ' :: inspectItems vs

def inspectEntries : List (String × Value) → List Char
  | [] => []
  | [(k, v)] => '(' :: Text.Quoted.debug k.toList ++ ',' :: ' ' :: v.inspectChars ++ [')']
  | (k, v) :: es =>
    '(' :: Text.Quoted.debug k.toList ++ ',' :: ' ' :: v.inspectChars ++ ')' :: ',' :: ' ' ::
      inspectEntries es

end

def inspectOption : Option Value → String
  | some v => String.ofList ("Some(".toList ++ v.inspectChars ++ [')'])
  | none => "None"

end Descent.Value

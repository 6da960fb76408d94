import Descent.Decimal.Read
import Descent.Text.Space
import Descent.Value.Display

namespace Descent

inductive Transform where
  | int
  | float
  | bool
  | const (v : Value)
  | id
  | fail (message : String)
  /-- Refuses one text. -/
  | failIf (text : String)
  | intoList
  | wrap
  | display
  | content
  | count
  | trim
  | lower
  | increment
  | get (key : String)
  /-- Gives keys to the items of a list. -/
  | zip (keys : List String)
  /-- Works out an operand followed by operators and operands. -/
  | calculate
  | unknown (name : String)

namespace Transform

/-- The text of a value; any other value counts as empty text. -/
def textOf (v : Value) : List Char := (v.asText?.getD "").toList

def operand (v : Value) : Except String Int64 :=
  match v.asInt? with
  | some n => .ok n
  | none => .error ("expected an integer, got " ++ v.display)

/-- A result that fits into 64 bits. -/
def checked (n : Int) : Except String Int64 :=
  if Int64.minValue.toInt ≤ n ∧ n ≤ Int64.maxValue.toInt then .ok
    (Int64.ofInt n) else .error "overflow"

def operate (op : String) (a b : Int64) : Except String Int64 :=
  match op with
  | "+" => checked (a.toInt+b.toInt)
  | "-" => checked (a.toInt-b.toInt)
  | "*" => checked (a.toInt*b.toInt)
  | "/" => if b = 0 then .error "division by zero" else checked (a.toInt.tdiv b.toInt)
  | op => .error ("unknown operator " ++ op)

/-- Applies the operations in order, each a list of an operator and its right operand. -/
def calculateSteps : Int64 → List Value → Except String Int64
  | a, [] => .ok a
  | a, step :: steps =>
    match step.toList with
    | [op, rhs] => do
      let b ← operand rhs
      let a ← operate (op.asText?.getD "") a b
      calculateSteps a steps
    | _ => .error "malformed operation"

def runCalculation (v : Value) : Except String Value :=
  match v.toList with
  | [] => .error "missing left operand"
  | left :: steps => do
    let a ← operand left
    let b ← calculateSteps a (steps.flatMap Value.toList)
    return .int b

def zipKeys (keys : List String) (v : Value) : Except String Value :=
  let items := v.toList
  if items.length = keys.length then .ok (.map (keys.zip items))
  else .error s!"{items.length} items for {keys.length} keys"

def apply : Transform → Value → Except String Value
  | .int, v => ((Decimal.readInt (textOf v)).map Value.int).mapError Decimal.ReadError.message
  | .float, v => ((Decimal.readFloat (textOf v)).map Value.float).mapError Decimal.ReadError.message
  | .bool, v =>
    if textOf v = "true".toList then .ok (.bool true)
    else if textOf v = "false".toList then .ok (.bool false)
    else .error "provided string was not `true` or `false`"
  | .const w, _ => .ok w
  | .id, v => .ok v
  | .fail message, _ => .error message
  | .failIf text, v =>
    if v.asText? = some text then .error ("rejected " ++ v.display) else .ok v
  | .intoList, v => .ok (.list v.toList)
  | .wrap, v => .ok (.list [v])
  | .display, v => .ok (.text v.display)
  | .content, v => .ok (.text v.textContent)
  | .count, v => .ok (.int (Int64.ofNat v.toList.length))
  | .trim, v => .ok (.text (String.ofList (Text.trim (textOf v))))
  | .lower, v => .ok (.text (String.ofList ((textOf v).map Char.toLower)))
  | .increment, v => .ok (.int (v.asInt?.getD 0+1))
  | .get key, v => .ok ((v.get? key).getD .unit)
  | .zip keys, v => zipKeys keys v
  | .calculate, v => runCalculation v
  | .unknown name, _ => .error ("no transform " ++ name)

end Transform

end Descent

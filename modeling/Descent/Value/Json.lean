import Descent.Decimal.Binary
import Descent.Json.Basic
import Descent.Value.Basic

namespace Descent.Value

/-- A number JSON cannot write becomes `null`. -/
def floatToJson (x : Float) : Json :=
  match Decimal.Exact.ofFloat x with
  | .finite .. => .float x
  | _ => .null

mutual

def toJson : Value → Json
  | .unit => .null
  | .text s => .string s
  | .bool b => .bool b
  | .int n => .int n.toInt
  | .float x => floatToJson x
  | .list vs => .array (toJsonList vs)
  | .map es => .ofMembers (toJsonEntries es)

def toJsonList : List Value → List Json
  | [] => []
  | v :: vs => v.toJson :: toJsonList vs

def toJsonEntries : List (String × Value) → List (String × Json)
  | [] => []
  | (k, v) :: es => (k, v.toJson) :: toJsonEntries es

end

end Descent.Value

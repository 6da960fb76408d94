import Descent.Keyed

namespace Descent

inductive Json where
  | null
  | bool (b : Bool)
  | int (n : Int)
  /-- A finite number. -/
  | float (x : Float)
  | string (s : String)
  | array (items : List Json)
  | object (members : List (String × Json))
  deriving Inhabited

namespace Json

/-- An object by ascending key. Of members with one key the last is kept. -/
def ofMembers (ms : Entries Json) : Json := .object (Keyed.ofList ms).entries

/-- The member of an object. -/
def get? (key : String) : Json → Option Json
  | .object ms => Entries.get? key ms
  | _ => none

end Json

end Descent

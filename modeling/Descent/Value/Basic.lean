import Descent.Keyed

namespace Descent

inductive Value where
  /-- Nothing worth keeping. -/
  | unit
  | text (content : String)
  | list (items : List Value)
  | bool (b : Bool)
  | int (n : Int64)
  | float (x : Float)
  /-- Entries in the order of their insertion; a key may occur more than once. -/
  | map (entries : List (String × Value))
  deriving Inhabited

namespace Value

def isUnit : Value → Bool
  | .unit => true
  | _ => false

def asText? : Value → Option String
  | .text s => some s
  | _ => none

def asList? : Value → Option (List Value)
  | .list vs => some vs
  | _ => none

def asInt? : Value → Option Int64
  | .int n => some n
  | _ => none

def asBool? : Value → Option Bool
  | .bool b => some b
  | _ => none

/-- The members of a list, none for `unit`, and any other value as the only member. -/
def toList : Value → List Value
  | .list vs => vs
  | .unit => []
  | v => [v]

/-- The value of the first entry with the key. -/
def get? (key : String) : Value → Option Value
  | .map es => Entries.get? key es
  | _ => none

/-- Adds a value to those collected so far, latest first. `unit` is not collected. -/
def collect (v : Value) (vs : List Value) : List Value := if v.isUnit then vs else v :: vs

mutual

def contentChars : Value → List Char
  | .text s => s.toList
  | .list vs => contentCharsList vs
  | .map es => contentCharsEntries es
  | _ => []

def contentCharsList : List Value → List Char
  | [] => []
  | v :: vs => v.contentChars ++ contentCharsList vs

def contentCharsEntries : List (String × Value) → List Char
  | [] => []
  | (_, v) :: es => v.contentChars ++ contentCharsEntries es

end

/-- All texts inside the value, joined in order. -/
def textContent (v : Value) : String := String.ofList v.contentChars

@[simp] theorem contentCharsList_append (vs ws : List Value) :
    contentCharsList (vs ++ ws) = contentCharsList vs ++ contentCharsList ws := by
  induction vs with
  | nil => rfl
  | cons v vs ih => simp [contentCharsList, ih]

end Value

end Descent

import Descent.Json.Basic
import Descent.Value.Basic

namespace Descent.Stylesheet

@[ext] structure Statistics where
  rules : Nat
  selectors : Nat
  declarations : Nat
  important : Nat
  deriving DecidableEq

/-- The items of the list under a key; none if there is no such list. -/
def listUnder (key : String) (v : Value) : List Value := (((v.get? key).bind Value.asList?)).getD []

def isImportant (declaration : Value) : Bool :=
  (declaration.get? "important").bind Value.asBool? = some true

namespace Statistics

def zero : Statistics := ⟨0, 0, 0, 0⟩

def add (s t : Statistics) : Statistics :=
  ⟨s.rules+t.rules, s.selectors+t.selectors, s.declarations+t.declarations, s.important+t.important⟩

def ofRule (rule : Value) : Statistics :=
  let ds := listUnder "declarations" rule
  ⟨1, (listUnder "selectors" rule).length, ds.length, ds.countP isImportant⟩

def ofSheet (sheet : Value) : Statistics :=
  (sheet.asList?.getD []).foldl (fun s rule => s.add (ofRule rule)) zero

def toJson (s : Statistics) : Json := .object [
  ("rules", .int s.rules), ("selectors", .int s.selectors),
  ("declarations", .int s.declarations), ("important", .int s.important)]

end Statistics

end Descent.Stylesheet

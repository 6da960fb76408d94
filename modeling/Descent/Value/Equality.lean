import Descent.Value.Basic

namespace Descent.Value

mutual

/-- Floating-point numbers are compared as numbers, so one that is no number differs from itself and
the two zeros are equal. Entries of maps are compared in order. -/
def beq : Value → Value → Bool
  | .unit, .unit => true
  | .text s, .text t => s == t
  | .list vs, .list ws => beqList vs ws
  | .bool a, .bool b => a == b
  | .int m, .int n => m == n
  | .float x, .float y => x == y
  | .map es, .map fs => beqEntries es fs
  | _, _ => false

def beqList : List Value → List Value → Bool
  | [], [] => true
  | v :: vs, w :: ws => v.beq w && beqList vs ws
  | _, _ => false

def beqEntries : List (String × Value) → List (String × Value) → Bool
  | [], [] => true
  | (k, v) :: es, (l, w) :: fs => k == l && v.beq w && beqEntries es fs
  | _, _ => false

end

instance : BEq Value := ⟨beq⟩

end Descent.Value

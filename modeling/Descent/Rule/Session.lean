import Descent.Rule.Parse

namespace Descent

structure Session where
  text : List Char
  budget : Budget
  /-- The rest of the latest success, at first the start of the text. -/
  rest : Cursor

namespace Session

def start (text : List Char) (limits : Limits) : Session := ⟨text, .fresh limits, .start text⟩

/-- Applies a rule at a byte offset, or at the rest of the latest success. None if the rule does not
end. -/
def apply (x : Session) (s : Store) (r : Rule) (place : Option Nat) : Option (Step × Session) :=
  let c := match place with
    | some offset => (Cursor.start x.text).advance offset
    | none => x.rest
  (r.apply s (r.room s x.text x.budget.limits) c x.budget).map fun (step, budget) =>
    match step with
    | .ok (.success m) => (step, { x with budget, rest := m.rest })
    | _ => (step, { x with budget })

end Session

end Descent

import Descent.Grammar.Store

namespace Descent

inductive Hold where
  | cell (c : CellId)
  | registry (g : RegistryId)
  deriving DecidableEq

namespace Rule

mutual

/-- What a rule keeps alive: its cell if it is a finished recursive rule, its registry if it was
taken from one. -/
def holds : Rule → List Hold
  | .choice rs => holdsList rs
  | .sequence rs => holdsList rs
  | .repeated r => r.holds
  | .separated r d _ => r.holds ++ d.holds
  | .enclosed l r t => l.holds ++ r.holds ++ t.holds
  | .pair a b d => a.holds ++ b.holds ++ d.holds
  | .mapped r _ => r.holds
  | .discard r => r.holds
  | .optional r => r.holds
  | .label r _ => r.holds
  | .recursive c => [.cell c]
  | .registered g r => .registry g :: r.holds
  | .adapt r _ => r.holds
  | .token _ | .endOfInput | .handle _ | .reference .. | .primitive _ => []

def holdsList : List Rule → List Hold
  | [] => []
  | r :: rs => r.holds ++ holdsList rs

end

end Rule

namespace Store

def holdsOf (s : Store) : Hold → List Hold
  | .cell c => ((s.cell? c).map Rule.holds).getD []
  | .registry g => (s.registry g).entries.flatMap fun e => e.2.holds

def all (s : Store) : List Hold :=
  (List.range s.cells.length).map .cell ++ (List.range s.registries.length).map .registry

def isFilled (s : Store) : Hold → Bool
  | .cell c => (s.cell? c).isSome
  | .registry g => !(s.registry g).isEmpty

/-- Whether a root or a rule in the store holds `h`. -/
def isHeld (s : Store) (roots : List Hold) (h : Hold) : Bool :=
  roots.contains h || s.all.any fun k => (s.holdsOf k).contains h

def release (s : Store) : Hold → Store
  | .cell c => { s with cells := s.cells.set c none }
  | .registry g => { s with registries := s.registries.set g .empty }

/-- Lets die what nothing holds, one after the other, in at most `turns` turns. -/
def sweepTurns (roots : List Hold) : Nat → Store → Store
  | 0, s => s
  | turns+1, s =>
    match s.all.find? fun h => s.isFilled h && !s.isHeld roots h with
    | some h => sweepTurns roots turns (s.release h)
    | none => s

/-- The store without what neither a root nor anything alive holds; a cycle of holders keeps itself
alive. Each turn empties a cell or registry. -/
def sweep (s : Store) (roots : List Hold) : Store := sweepTurns roots s.all.length s

end Store

end Descent

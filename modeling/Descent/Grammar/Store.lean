import Descent.Keyed
import Descent.Rule.Basic

namespace Descent

/-- Rules by name. -/
abbrev Registry := Keyed Rule

/-- All cells and registries. An empty cell has not got its rule yet, or has died with all that held
it; a registry that died is empty. -/
@[ext] structure Store where
  cells : List (Option Rule)
  registries : List Registry

namespace Store

def empty : Store := ⟨[], []⟩

def cell? (s : Store) (c : CellId) : Option Rule := (s.cells[c]?).join

def registry (s : Store) (g : RegistryId) : Registry := (s.registries[g]?).getD .empty

/-- The rule that a name is bound to. -/
def bound? (s : Store) (g : RegistryId) (name : String) : Option Rule := (s.registry g).get? name

/-- The rules in all cells and registries. -/
def rules (s : Store) : List Rule :=
  s.cells.filterMap id ++ s.registries.flatMap (·.entries.map Prod.snd)

/-- The number of all rules, with the rules inside them. -/
def size (s : Store) : Nat := Rule.sizeList s.rules

def newRegistry (s : Store) : RegistryId × Store :=
  (s.registries.length, { s with registries := s.registries ++ [.empty] })

def newCell (s : Store) : CellId × Store :=
  (s.cells.length, { s with cells := s.cells ++ [none] })

def fillCell (s : Store) (c : CellId) (r : Rule) : Store :=
  { s with cells := s.cells.set c (some r) }

/-- Binds a rule to a name, in place of the one bound before. -/
def define (s : Store) (g : RegistryId) (name : String) (r : Rule) : Store :=
  { s with registries := s.registries.modify g (Keyed.insert name r) }

/-- The rule bound to a name as it is now, with a hold on its registry. -/
def get? (s : Store) (g : RegistryId) (name : String) : Option Rule :=
  (s.bound? g name).map (.registered g)

/-- The names that rules are bound to. -/
def names (s : Store) (g : RegistryId) : List String := (s.registry g).keys

def len (s : Store) (g : RegistryId) : Nat := (s.registry g).length

def contains (s : Store) (g : RegistryId) (name : String) : Bool :=
  (s.registry g).entries.any fun e => e.1 = name

/-- A rule that may refer to itself: `body` gets the handle that stands for the finished rule. -/
def tie (s : Store) (body : Rule → Rule) : Rule × Store :=
  let (c, s) := s.newCell
  (.recursive c, s.fillCell c (body (.handle c)))

theorem bound?_define {s : Store} {g : RegistryId} (h : g < s.registries.length) (name n : String)
    (r : Rule) : (s.define g name r).bound? g n = if name = n then some r else s.bound? g n := by
  have hg : (s.define g name r).registry g = (s.registry g).insert name r := by
    simp [define, registry, h]
  rw [bound?, hg, Keyed.get?_insert]
  rfl

end Store

end Descent

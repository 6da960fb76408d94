import Descent.Grammar.Lifetime
import Descent.Rule.Parse

namespace Descent

/-- A store with the grammars and rules that someone holds by name. -/
structure Workspace where
  store : Store
  /-- The registry that each grammar is a handle of. Several grammars may share one. -/
  grammars : Keyed RegistryId
  slots : Keyed Rule

namespace Workspace

def empty : Workspace := ⟨.empty, .empty, .empty⟩

def grammar? (w : Workspace) (name : String) : Option RegistryId := w.grammars.get? name

def slot? (w : Workspace) (name : String) : Option Rule := w.slots.get? name

def roots (w : Workspace) : List Hold :=
  w.grammars.entries.map (fun e => .registry e.2) ++ w.slots.entries.flatMap fun e => e.2.holds

/-- Lets die what no name leads to any more. -/
def settle (w : Workspace) : Workspace := { w with store := w.store.sweep w.roots }

/-- A new grammar; the one that had the name before is dropped. -/
def newGrammar (w : Workspace) (name : String) : Workspace :=
  let (g, store) := w.store.newRegistry
  { w with store, grammars := w.grammars.insert name g }.settle

def shareGrammar (w : Workspace) (g : RegistryId) (name : String) : Workspace :=
  { w with grammars := w.grammars.insert name g }.settle

def dropGrammar (w : Workspace) (name : String) : Workspace :=
  { w with grammars := w.grammars.erase name }.settle

def setSlot (w : Workspace) (name : String) (r : Rule) : Workspace :=
  { w with slots := w.slots.insert name r }.settle

def dropSlot (w : Workspace) (name : String) : Workspace :=
  { w with slots := w.slots.erase name }.settle

/-- Binds a rule to a name, and gives the rule that was bound before. That one is put into `slot` if
there is one to put. -/
def define (w : Workspace) (g : RegistryId) (name : String) (r : Rule) (slot : Option String) :
    Option Rule × Workspace :=
  let replaced := w.store.bound? g name
  let w := { w with store := w.store.define g name r }
  match slot, replaced with
  | some slot, some old => (replaced, w.setSlot slot old)
  | _, _ => (replaced, w.settle)

/-- Begins a rule that refers to itself: its cell, still empty, has the handle to build the rule
with. -/
def openCell (w : Workspace) : CellId × Workspace :=
  let (c, store) := w.store.newCell
  (c, { w with store })

def closeCell (w : Workspace) (c : CellId) (body : Rule) : Rule × Workspace :=
  (.recursive c, { w with store := w.store.fillCell c body })

end Workspace

end Descent

import Descent.Grammar.Recipe
import Descent.Grammar.Workspace

namespace Descent

/-- Where a program takes a rule from to build others with. -/
inductive Source where
  | slot (slot : String)
  | reference (grammar name : String)
  /-- The rule bound to a name as it is now. -/
  | get (grammar name : String)

inductive Action where
  | newGrammar (grammar : String)
  /-- Makes another handle of a grammar. -/
  | share (grammar other : String)
  | dropGrammar (grammar : String)
  /-- Builds a rule and binds it to a name. The rule bound before is kept in a slot, or dropped. -/
  | define (grammar name : String) (sources : List Source) (recipe : Recipe) (slot : Option String)
  /-- Builds a rule and keeps it. -/
  | keep (slot : String) (sources : List Source) (recipe : Recipe)
  | dropSlot (slot : String)

namespace Workspace

def source? (w : Workspace) : Source → Option Rule
  | .slot slot => w.slot? slot
  | .reference grammar name => (w.grammar? grammar).map fun g => .reference g name
  | .get grammar name => (w.grammar? grammar).bind fun g => w.store.get? g name

/-- Builds a rule out of others, if there are all of them. -/
def build? (w : Workspace) (sources : List Source) (recipe : Recipe) : Option (Rule × Workspace) :=
  (sources.mapM w.source?).map fun rs =>
    let (r, store) := recipe.build w.store (.ofList rs)
    (r, { w with store })

/-- What an action makes of the workspace. Without the grammar or the rules that it asks for, it
makes nothing. -/
def perform (w : Workspace) : Action → Workspace
  | .newGrammar grammar => w.newGrammar grammar
  | .share grammar other =>
    match w.grammar? grammar with
    | some g => w.shareGrammar g other
    | none => w
  | .dropGrammar grammar => w.dropGrammar grammar
  | .define grammar name sources recipe slot =>
    match w.grammar? grammar, w.build? sources recipe with
    | some g, some (r, w) => (w.define g name r slot).2
    | _, _ => w
  | .keep slot sources recipe =>
    match w.build? sources recipe with
    | some (r, w) => w.setSlot slot r
    | none => w
  | .dropSlot slot => w.dropSlot slot

/-- What a program has made in the end. -/
def run (actions : List Action) : Workspace := actions.foldl perform .empty

end Workspace

end Descent

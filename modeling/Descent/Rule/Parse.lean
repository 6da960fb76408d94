import Descent.ParseError
import Descent.Rule.Apply

namespace Descent

/-- The result of a parse, or none if it does not end. -/
abbrev Parsed (α : Type) := Option (Except ParseError α)

namespace Rule

/-- Room for all nested applications of a parse that ends. Within limits no more are admitted, with
one that is refused. Without limits, a rule applied inside itself at the same cursor is applied
there again and again. -/
def room (s : Store) (r : Rule) (text : List Char) (limits : Limits) : Nat :=
  match limits.deepest? with
  | some deepest => deepest+1
  | none => (s.size+r.size)*(text.length+1)+1

/-- Applies the rule at the start of a text with a fresh budget. -/
def run (s : Store) (r : Rule) (text : List Char) (limits : Limits) : Applied :=
  r.apply s (r.room s text limits) (.start text) (.fresh limits)

/-- The failure that explains a mismatch: the furthest one of the parse, if it got further than the
rule's. -/
def deeper (f : Failure) : Option Failure → Failure
  | some g => if f.offset < g.offset then g else f
  | none => f

/-- The match of a run and the furthest failure on the way, or the report on it. -/
def conclude (text : List Char) : Step × Budget → Except ParseError (Match × Option Failure)
  | (.ok (.success m), b) => .ok (m, b.furthest)
  | (.ok (.failure f), b) => .error (.ofFailure text (deeper f b.furthest))
  | (.error f, _) => .error (.ofFault text f)

/-- Requires a match to reach the end. What stopped it from going on explains the text left over. -/
def complete (text : List Char) (m : Match) (furthest : Option Failure) : Except ParseError Value :=
  if m.rest.atEnd then .ok m.value
  else match furthest with
    | some f =>
      if m.rest.offset ≤ f.offset then .error (.ofFailure text f)
      else .error (.ofLeftover text m.rest.offset)
    | none => .error (.ofLeftover text m.rest.offset)

/-- Parses a prefix of a text; gives the value and what is left. -/
def parseWith (s : Store) (r : Rule) (text : String) (limits : Limits) : Parsed (Value × String) :=
  (r.run s text.toList limits).map fun x => do
    let (m, _) ← conclude text.toList x
    return (m.value, m.rest.rest)

/-- Parses all of a text. -/
def parseAllWith (s : Store) (r : Rule) (text : String) (limits : Limits) : Parsed Value :=
  (r.run s text.toList limits).map fun x => do
    let (m, furthest) ← conclude text.toList x
    complete text.toList m furthest

def parse (s : Store) (r : Rule) (text : String) : Parsed (Value × String) :=
  r.parseWith s text .standard

def parseAll (s : Store) (r : Rule) (text : String) : Parsed Value :=
  r.parseAllWith s text .standard

end Rule

namespace Store

/-- The rule to start from; a name that nothing is bound to is a fault at the start of the text. -/
def startRule (s : Store) (g : RegistryId) (name text : String) : Except ParseError Rule :=
  match s.get? g name with
  | some r => .ok r
  | none => .error (.ofFault text.toList ⟨.unbound name, 0⟩)

def parseWith (s : Store) (g : RegistryId) (start text : String) (limits : Limits) :
    Parsed (Value × String) :=
  match s.startRule g start text with
  | .ok r => r.parseWith s text limits
  | .error e => some (.error e)

def parseAllWith (s : Store) (g : RegistryId) (start text : String) (limits : Limits) :
    Parsed Value :=
  match s.startRule g start text with
  | .ok r => r.parseAllWith s text limits
  | .error e => some (.error e)

def parse (s : Store) (g : RegistryId) (start text : String) : Parsed (Value × String) :=
  s.parseWith g start text .standard

def parseAll (s : Store) (g : RegistryId) (start text : String) : Parsed Value :=
  s.parseAllWith g start text .standard

end Store

end Descent

import Descent.Grammar.Store

namespace Descent

/-- How to build a rule out of given rules, which go by number. Inside the body of a rule that
refers to itself, number 0 is its handle and the others move up by one. -/
inductive Recipe where
  | given (n : Nat)
  | token (p : Pattern)
  | choice (es : List Recipe)
  | sequence (es : List Recipe)
  | repeated (e : Recipe)
  | separated (e delimiter : Recipe) (trailing : Bool)
  | enclosed (left e right : Recipe)
  | pair (first second delimiter : Recipe)
  | mapped (e : Recipe) (transform : Value → Except String Value)
  | discard (e : Recipe)
  | optional (e : Recipe)
  | label (e : Recipe) (name : String)
  | endOfInput
  | recursive (body : Recipe)

/-- The rules that a recipe is given. -/
abbrev Supply := Nat → Rule

def Supply.push (given : Supply) (r : Rule) : Supply
  | 0 => r
  | n+1 => given n

/-- Rules to build with; any number beyond them stands for the end of input. -/
def Supply.ofList (rs : List Rule) : Supply := fun n => rs[n]?.getD .endOfInput

namespace Recipe

mutual

/-- Builds the rule. A rule that refers to itself gets its cell before its body is built. -/
def build (s : Store) (given : Supply) : Recipe → Rule × Store
  | .given n => (given n, s)
  | .token p => (.token p, s)
  | .choice es =>
    let (rs, s) := buildList s given es
    (.choice rs, s)
  | .sequence es =>
    let (rs, s) := buildList s given es
    (.sequence rs, s)
  | .repeated e =>
    let (r, s) := e.build s given
    (.repeated r, s)
  | .separated e delimiter trailing =>
    let (r, s) := e.build s given
    let (d, s) := delimiter.build s given
    (.separated r d trailing, s)
  | .enclosed left e right =>
    let (l, s) := left.build s given
    let (r, s) := e.build s given
    let (t, s) := right.build s given
    (.enclosed l r t, s)
  | .pair first second delimiter =>
    let (a, s) := first.build s given
    let (b, s) := second.build s given
    let (d, s) := delimiter.build s given
    (.pair a b d, s)
  | .mapped e transform =>
    let (r, s) := e.build s given
    (.mapped r transform, s)
  | .discard e =>
    let (r, s) := e.build s given
    (.discard r, s)
  | .optional e =>
    let (r, s) := e.build s given
    (.optional r, s)
  | .label e name =>
    let (r, s) := e.build s given
    (.label r name, s)
  | .endOfInput => (.endOfInput, s)
  | .recursive body =>
    let (c, s) := s.newCell
    let (r, s) := body.build s (given.push (.handle c))
    (.recursive c, s.fillCell c r)

def buildList (s : Store) (given : Supply) : List Recipe → List Rule × Store
  | [] => ([], s)
  | e :: es =>
    let (r, s) := e.build s given
    let (rs, s) := buildList s given es
    (r :: rs, s)

end

/-- A new registry in which a name is bound to a rule that may refer to itself by that name. Rule
number 0 is the reference to the name. -/
def buildNamed (s : Store) (given : Supply) (name : String) (body : Recipe) : RegistryId × Store :=
  let (g, s) := s.newRegistry
  let (r, s) := body.build s (given.push (.reference g name))
  (g, s.define g name r)

end Recipe

end Descent

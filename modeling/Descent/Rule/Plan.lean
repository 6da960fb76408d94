import Descent.Grammar.Store

namespace Descent

/-- What a rule does, apart from its account: which rules it applies where, and what it makes of
their outcomes. An operator never sees a fault, so none can be recovered from. -/
inductive Plan where
  | done (s : Step)
  /-- The end of a rule that looks at the account of the parse. -/
  | observe (run : Budget → Step)
  | apply (r : Rule) (c : Cursor) (next : Outcome → Plan)

namespace Plan

def fail (f : Failure) : Plan := .done (.ok (.failure f))

def expect (c : Cursor) (e : Expected) : Plan := fail ⟨c.offset, [e]⟩

def fault (c : Cursor) (cause : Cause) : Plan := .done (.error ⟨cause, c.offset⟩)

def succeed (m : Match) : Plan := .done (.ok (.success m))

def consume (value : Value) (c d : Cursor) : Plan := succeed (.spanning value c d)

/-- The list of the collected values, latest first. -/
def gather (values : List Value) (c d : Cursor) : Plan := consume (.list values.reverse) c d

/-- Applies a rule and goes on with its match; its failure is the failure of all. -/
def require (r : Rule) (c : Cursor) (next : Match → Plan) : Plan :=
  .apply r c fun
    | .success m => next m
    | .failure f => fail f

def forward (r : Rule) (c : Cursor) : Plan := .apply r c fun o => .done (.ok o)

def token (p : Pattern) (c : Cursor) : Plan :=
  match p.matchLength? c with
  | some n => consume (.text (String.ofList (c.after.take n))) c (c.forward n)
  | none => expect c p.expected

/-- Tries the alternatives in order. `f` pools what those before them expected. -/
def choice (c : Cursor) (f : Failure) : List Rule → Plan
  | [] => fail f
  | r :: rs => .apply r c fun
    | .success m => succeed m
    | .failure g => choice c (f.adopt g) rs

/-- The rules that are left of a sequence begun at `start`. -/
def sequence (start : Cursor) (values : List Value) (c : Cursor) : List Rule → Plan
  | [] => gather values start c
  | r :: rs => require r c fun m => sequence start (m.value.collect values) m.rest rs

/-- Repetition begun at `start`. An iteration that consumes nothing is left out and is the last one.
`turns` bounds the iterations that consume something; the characters left after `c` are enough. -/
def repeated (r : Rule) (start : Cursor) : Nat → List Value → Cursor → Plan
  | 0, values, c => .apply r c fun _ => gather values start c
  | turns+1, values, c => .apply r c fun
    | .success m =>
      if m.rest.offset ≤ c.offset then gather values start c
      else repeated r start turns (m.value.collect values) m.rest
    | .failure _ => gather values start c

/-- A delimiter and the element behind it, in a list begun at `start`; `next` goes on behind an
element that advances. A delimiter without an element behind it is consumed if `trailing`. -/
def round (r delimiter : Rule) (trailing : Bool) (start : Cursor)
    (next : List Value → Cursor → Plan) (values : List Value) (c : Cursor) : Plan :=
  .apply delimiter c fun
    | .failure _ => gather values start c
    | .success d => .apply r d.rest fun
      | .failure _ => gather values start (if trailing then d.rest else c)
      | .success m =>
        if m.rest.offset ≤ c.offset then gather values start c
        else next (m.value.collect values) m.rest

/-- What follows an element of a list begun at `start`. `turns` is as for `repeated`. -/
def elements (r delimiter : Rule) (trailing : Bool) (start : Cursor) :
    Nat → List Value → Cursor → Plan
  | 0, values, c => round r delimiter trailing start (fun _ _ => gather values start c) values c
  | turns+1, values, c =>
    round r delimiter trailing start (elements r delimiter trailing start turns) values c

def separated (r delimiter : Rule) (trailing : Bool) (c : Cursor) : Plan :=
  require r c fun m =>
    elements r delimiter trailing c m.rest.after.length (m.value.collect []) m.rest

def enclosed (left r right : Rule) (c : Cursor) : Plan :=
  require left c fun l => require r l.rest fun m => require right m.rest fun n =>
    consume m.value c n.rest

def pair (first second delimiter : Rule) (c : Cursor) : Plan :=
  require first c fun a => require delimiter a.rest fun d => require second d.rest fun b =>
    consume (.list [a.value, b.value]) c b.rest

def mapped (r : Rule) (transform : Value → Except String Value) (c : Cursor) : Plan :=
  require r c fun m => match transform m.value with
    | .ok v => succeed { m with value := v }
    | .error e => .done (.error ⟨.transform e, m.span.start⟩)

def discard (r : Rule) (c : Cursor) : Plan :=
  require r c fun m => succeed { m with value := .unit }

def optional (r : Rule) (c : Cursor) : Plan :=
  .apply r c fun
    | .success m => succeed m
    | .failure _ => consume .unit c c

def label (r : Rule) (name : String) (c : Cursor) : Plan :=
  .apply r c fun
    | .success m => succeed m
    | .failure f => if f.offset = c.offset then expect c (.label name) else fail f

def endOfInput (c : Cursor) : Plan :=
  if c.atEnd then consume .unit c c else expect c .endOfInput

/-- A late-bound rule, known to messages as `name`. -/
def bound (found : Option Rule) (name : String) (c : Cursor) : Plan :=
  match found with
  | some r => forward r c
  | none => fault c (.unbound name)

def recursiveName : String := "<recursive>"

end Plan

def Rule.plan (s : Store) : Rule → Cursor → Plan
  | .token p, c => .token p c
  | .choice rs, c => .choice c (.bare c.offset) rs
  | .sequence rs, c => .sequence c [] c rs
  | .repeated r, c => .repeated r c c.after.length [] c
  | .separated r d trailing, c => .separated r d trailing c
  | .enclosed l r t, c => .enclosed l r t c
  | .pair a b d, c => .pair a b d c
  | .mapped r f, c => .mapped r f c
  | .discard r, c => .discard r c
  | .optional r, c => .optional r c
  | .label r name, c => .label r name c
  | .endOfInput, c => .endOfInput c
  | .handle cell, c => .bound (s.cell? cell) Plan.recursiveName c
  | .recursive cell, c => .bound (s.cell? cell) Plan.recursiveName c
  | .reference g name, c => .bound (s.bound? g name) name c
  | .registered _ r, c => .forward r c
  | .primitive run, c => .observe (run c)
  | .adapt r change, c => .apply r c fun o => .done (.ok (change c o))

end Descent

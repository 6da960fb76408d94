import Descent.Regex.Brackets

namespace Descent.Regex

/-- A count in a repetition, blanks around it allowed. -/
def readDecimal (f : Flags) (cs : List Char) : Option Nat × List Char :=
  let (ds, rest) := f.run Char.isDigit cs.length (cs.dropWhile Text.isSpace)
  let n := ds.foldl (fun n c => 10*n+(c.toNat-48)) 0
  (if ds.isEmpty ∨ UInt32.size ≤ n then none else some n, rest.dropWhile Text.isSpace)

/-- A repetition operator: its bounds, where no upper bound means any number. -/
structure Repetition where
  least : Nat
  most : Option Nat
  greedy : Bool
  deriving DecidableEq

def Repetition.apply (p : Repetition) (a : Regex) : Regex :=
  match p.most with
  | none => atLeast p.greedy a p.least
  | some most => times a (upTo p.greedy a (most-p.least)) p.least

def readLazy (f : Flags) : List Char → Bool × List Char
  | '?' :: cs => (f.swapGreed, cs)
  | cs => (!f.swapGreed, cs)

def readBounds (f : Flags) (cs : List Char) : Option (Repetition × List Char) := do
  let (least, cs) := readDecimal f (f.skip cs)
  let (most, cs) ← match cs with
    | ',' :: cs =>
      match f.skip cs with
      | '\x7d' :: cs => some (none, '\x7d' :: cs)
      | cs =>
        let (most, cs) := readDecimal f cs
        (most.map some).map (·, cs)
    | cs => some (least, cs)
  let least ← least
  match cs with
  | '\x7d' :: cs =>
    let (greedy, cs) := readLazy f (f.skip cs)
    if most.all (least ≤ ·) then some (⟨least, most, greedy⟩, cs) else none
  | _ => none

def readRepetition (f : Flags) : Char → List Char → Option (Option (Repetition × List Char))
  | '?', cs => let (greedy, cs) := readLazy f cs; some (some (⟨0, some 1, greedy⟩, cs))
  | '*', cs => let (greedy, cs) := readLazy f cs; some (some (⟨0, none, greedy⟩, cs))
  | '+', cs => let (greedy, cs) := readLazy f cs; some (some (⟨1, none, greedy⟩, cs))
  | '\x7b', cs => some (readBounds f cs)
  | _, _ => none

inductive Opening where
  /-- Flags for the rest of the group around it. -/
  | flags (f : Flags)
  /-- A group, with the flags inside it and the names of groups known by then. -/
  | group (f : Flags) (names : List (List Char))

/-- The flags after `(?`, up to a colon or a closing parenthesis, which comes with them. -/
def readFlags (f : Flags) (negated dangling : Bool) (seen : List Char) :
    List Char → Option (Flags × Bool × Char × List Char)
  | [] => none
  | c :: cs =>
    if c = ':' ∨ c = ')' then if dangling then none else some (f, seen.isEmpty, c, cs)
    else if c = '-' then if negated then none else readFlags f true true seen cs
    else if c ∈ seen then none
    else match f.set? (!negated) c with
      | some f => readFlags f negated false (c :: seen) cs
      | none => none

def isName : List Char → Bool
  | [] => false
  | c :: cs =>
    (c = '_' || Text.isAlphabetic c) &&
      cs.all fun c => c = '_' || c = '.' || c = '[' || c =
        ']' || Text.isAlphabetic c || Text.isNumber c

/-- The name of a group, up to the closing angle bracket. No two groups have one name. -/
def readName (names : List (List Char)) (cs : List Char) : Option (List Char × List Char) :=
  let name := cs.takeWhile (· ≠ '>')
  match cs.dropWhile (· ≠ '>') with
  | '>' :: rest => if isName name ∧ name ∉ names then some (name, rest) else none
  | _ => none

/-- What follows an opening parenthesis. Looking around is not supported. -/
def readOpening (f : Flags) (names : List (List Char)) (cs : List Char) :
    Option (Opening × List Char) := do
  match f.skip cs with
  | '?' :: '=' :: _ | '?' :: '!' :: _ | '?' :: '<' :: '=' :: _ | '?' :: '<' :: '!' :: _ => none
  | '?' :: 'P' :: '<' :: cs | '?' :: '<' :: cs =>
    let (name, cs) ← readName names cs
    some (.group f (name :: names), cs)
  | '?' :: cs =>
    let (g, isEmpty, c, cs) ← readFlags f false false [] cs
    if c = ':' then some (.group g names, cs)
    else if isEmpty then none
    else some (.flags g, cs)
  | cs => some (.group f names, cs)

/-- A character outside of brackets that begins no group, set or repetition. -/
def readPrimitive (f : Flags) (c : Char) (cs : List Char) : Option (Regex × List Char) := do
  match c with
  | '\\' =>
    let (p, cs) ← readEscape f cs
    match p with
    | .literal c => some (.set (f.literal c), cs)
    | .set s => some (.set s, cs)
    | .look a => some (.look a, cs)
  | '.' =>
    let ends : CharSet := if f.crlf then .union (.single '\r') (.single '\n') else .single '\n'
    some (.set (if f.dotAll then .all else .compl ends), cs)
  | '^' =>
    some (.look (if f.multiLine then if f.crlf then .lineStartCrlf else .lineStart else .textStart),
      cs)
  | '$' =>
    some (.look (if f.multiLine then if f.crlf then .lineEndCrlf else .lineEnd else .textEnd), cs)
  | c => some (.set (f.literal c), cs)

structure Reading where
  flags : Flags
  names : List (List Char)
  rest : List Char

/-- The expressions one after the other, the latest first. -/
def joinReversed (rs : List Regex) : Regex := rs.foldl (fun acc r => r.followedBy acc) .empty

mutual

def readAlternatives : Nat → Reading → Option (Regex × Reading)
  | 0, _ => none
  | fuel+1, st => do
    let (a, st) ← readSequence fuel [] none st
    match st.rest with
    | '|' :: cs =>
      let (b, st) ← readAlternatives fuel { st with rest := cs }
      some (.alt a b, st)
    | _ => some (a, st)

/-- One alternative. `done` holds what was read, latest first, without `last`, to which a repetition
would apply. -/
def readSequence : Nat → List Regex → Option Regex → Reading → Option (Regex × Reading)
  | 0, _, _, _ => none
  | fuel+1, done, last, st =>
    let sofar := last.toList ++ done
    match st.flags.skip st.rest with
    | [] => some (joinReversed sofar, { st with rest := [] })
    | c :: cs =>
      if c = '|' ∨ c = ')' then some (joinReversed sofar, { st with rest := c :: cs })
      else if c = '(' then do
        match ← readOpening st.flags st.names cs with
        | (.flags f, cs) => readSequence fuel sofar none { st with flags := f, rest := cs }
        | (.group f names, cs) =>
          let (r, inner) ← readAlternatives fuel ⟨f, names, cs⟩
          match inner.rest with
          | ')' :: cs => readSequence fuel sofar (some r) ⟨st.flags, inner.names, cs⟩
          | _ => none
      else if c = '[' then do
        let (s, cs) ← readSet st.flags cs
        readSequence fuel sofar (some (.set s)) { st with rest := cs }
      else match readRepetition st.flags c cs with
        | some repetition => do
          let (p, cs) ← repetition
          readSequence fuel done (some (p.apply (← last))) { st with rest := cs }
        | none => do
          let (r, cs) ← readPrimitive st.flags c cs
          readSequence fuel sofar (some r) { st with rest := cs }

end

/-- The expression that a pattern writes, or none if the pattern is malformed. -/
def parse? (cs : List Char) : Option Regex :=
  match readAlternatives (2*cs.length+2) ⟨.none, [], cs⟩ with
  | some (r, ⟨_, _, []⟩) => some r
  | _ => none

end Descent.Regex

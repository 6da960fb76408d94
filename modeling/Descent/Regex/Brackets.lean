import Descent.Regex.Escape

namespace Descent.Regex

/-- How two sets in one pair of brackets are joined. -/
inductive SetOperator where
  | inter
  | diff
  | symmDiff
  deriving DecidableEq

def SetOperator.apply : SetOperator → CharSet → CharSet → CharSet
  | .inter => CharSet.inter
  | .diff => CharSet.diff
  | .symmDiff => CharSet.symmDiff

namespace Flags

def foldSet (f : Flags) (s : CharSet) : CharSet := if f.ignoreCase then .fold s else s

/-- A set that is complete: case is folded before the set is negated. -/
def closeSet (f : Flags) (negated : Bool) (s : CharSet) : CharSet :=
  if negated then .compl (f.foldSet s) else f.foldSet s

/-- The set so far, joined to the operand that waits on its left. -/
def join (f : Flags) (pending : Option (SetOperator × CharSet)) (s : CharSet) : CharSet :=
  match pending with
  | some (op, left) => op.apply (f.foldSet left) (f.foldSet s)
  | Option.none => s

end Flags

/-- A named class after its opening bracket, such as `:alpha:]` or `:^alpha:]`. -/
def readNamed? (f : Flags) : List Char → Option (CharSet × List Char)
  | ':' :: cs =>
    let (negated, cs) := match cs with
      | '^' :: r => (true, r)
      | r => (false, r)
    match cs.dropWhile (· ≠ ':') with
    | ':' :: ']' :: rest =>
      (CharSet.ascii? (cs.takeWhile (· ≠ ':'))).map fun s => (f.closeSet negated s, rest)
    | _ => none
  | _ => none

/-- What follows an opening bracket before the members: a mark of negation, and dashes or a closing
bracket that stand for themselves. -/
def openBracket (f : Flags) (cs : List Char) : Bool × CharSet × List Char :=
  let (negated, cs) := match f.skip cs with
    | '^' :: r => (true, f.skip r)
    | r => (false, r)
  let (dashes, rest) := f.run (· = '-') cs.length cs
  if dashes.isEmpty then
    match rest with
    | ']' :: r => (negated, .single ']', f.skip r)
    | r => (negated, .none, r)
  else (negated, .single '-', rest)

def readSetItem (f : Flags) : List Char → Option (Primitive × List Char)
  | [] => none
  | '\\' :: cs => readEscape f cs
  | c :: cs => some (.literal c, cs)

/-- A single member or a range. A dash before the closing bracket or before another dash makes no
range. -/
def readSetRange (f : Flags) (cs : List Char) : Option (CharSet × List Char) := do
  let (first, cs) ← readSetItem f cs
  let cs := f.skip cs
  let alone : Option (CharSet × List Char) := match first with
    | .literal c => some (.single c, cs)
    | .set s => some (s, cs)
    | .look _ => none
  match cs with
  | '-' :: r =>
    if f.peek? r = some ']' ∨ f.peek? r = some '-' then alone
    else
      let (last, rest) ← readSetItem f (f.skip r)
      match first, last with
      | .literal a, .literal b => if a ≤ b then some (.range a b, rest) else none
      | _, _ => none
  | _ => alone

/-- The members up to the closing bracket. `s` holds those read so far, since the last operator if
there was one. -/
def readMembers (f : Flags) :
    Nat → Option (SetOperator × CharSet) → CharSet → List Char → Option (CharSet × List Char)
  | 0, _, _, _ => none
  | fuel+1, pending, s, cs =>
    match f.skip cs with
    | [] => none
    | ']' :: r => some (f.join pending s, r)
    | '[' :: r =>
      match readNamed? f r with
      | some (t, r) => readMembers f fuel pending (.union s t) r
      | none => do
        let (negated, t, r) := openBracket f r
        let (t, r) ← readMembers f fuel none t r
        readMembers f fuel pending (.union s (f.closeSet negated t)) r
    | '&' :: '&' :: r => readMembers f fuel (some (.inter, f.join pending s)) .none r
    | '-' :: '-' :: r => readMembers f fuel (some (.diff, f.join pending s)) .none r
    | '~' :: '~' :: r => readMembers f fuel (some (.symmDiff, f.join pending s)) .none r
    | c :: r => do
      let (t, r) ← readSetRange f (c :: r)
      readMembers f fuel pending (.union s t) r

/-- A set after its opening bracket. -/
def readSet (f : Flags) (cs : List Char) : Option (CharSet × List Char) := do
  let (negated, s, r) := openBracket f cs
  let (s, r) ← readMembers f (r.length+1) none s r
  some (f.closeSet negated s, r)

end Descent.Regex

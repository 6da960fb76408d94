import Descent.Failure
import Descent.Fault

namespace Descent

/-- Bounds on a parse; none means no bound. -/
@[ext] structure Limits where
  maxDepth : Option Nat
  maxSteps : Option Nat
  deriving DecidableEq

namespace Limits

def unbounded : Limits := ⟨none, none⟩

def standardDepth : Nat := 512

/-- The limits of a parse that asks for none: a bound on the depth alone. -/
def standard : Limits := ⟨some standardDepth, none⟩

def withMaxDepth (l : Limits) (depth : Nat) : Limits := { l with maxDepth := some depth }

def withMaxSteps (l : Limits) (steps : Nat) : Limits := { l with maxSteps := some steps }

/-- A bound on the depth that any run within the limits reaches: each level takes a step of its
own. -/
def deepest? (l : Limits) : Option Nat :=
  match l.maxDepth, l.maxSteps with
  | some d, some s => some (min d s)
  | some d, none => some d
  | none, s => s

end Limits

/-- The account of one parse. -/
@[ext] structure Budget where
  limits : Limits
  /-- How many rules are being applied, one inside the other. -/
  depth : Nat
  /-- How many rules were applied so far. -/
  steps : Nat
  /-- The failure that got furthest, also if a rule around it recovered. -/
  furthest : Option Failure
  deriving DecidableEq

namespace Budget

def fresh (limits : Limits) : Budget := ⟨limits, 0, 0, none⟩

/-- The bound that `n` goes past. -/
def exceeded? : Option Nat → Nat → Option Nat
  | some max, n => if max < n then some max else none
  | none, _ => none

/-- Begins the application of a rule at `offset`. An application refused for its number leaves no
trace, and one refused for its depth has taken its step. -/
def enter (b : Budget) (offset : Nat) : Except Fault Unit × Budget :=
  match exceeded? b.limits.maxSteps (b.steps+1) with
  | some max => (.error ⟨.stepLimit max, offset⟩, b)
  | none =>
    match exceeded? b.limits.maxDepth (b.depth+1) with
    | some max => (.error ⟨.depthLimit max, offset⟩, { b with steps := b.steps+1 })
    | none => (.ok (), { b with steps := b.steps+1, depth := b.depth+1 })

/-- Ends the application of a rule. -/
def leave (b : Budget) : Budget := { b with depth := b.depth-1 }

/-- Takes note of a failure, unless one that got further is noted. Two at one offset are merged. -/
def record (b : Budget) (f : Failure) : Budget :=
  { b with furthest := some (match b.furthest with
      | some g => if f.offset < g.offset then g else if g.offset = f.offset then g.merge f else f
      | none => f) }

theorem enter_refused_step {b : Budget} {max : Nat} (offset : Nat)
    (h : b.limits.maxSteps = some max) (hs : max ≤ b.steps) :
    b.enter offset = (.error ⟨.stepLimit max, offset⟩, b) := by
  have : max < b.steps+1 := by omega
  simp [enter, exceeded?, h, this]

end Budget

end Descent

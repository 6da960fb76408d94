import Descent.Decimal.Binary

namespace Descent.Decimal

/-- Which of two equally near decimals is taken. -/
inductive Tie where
  | up
  | even
  deriving DecidableEq

/-- The decimal `digits * 10 ^ exponent`. -/
@[ext] structure Digits where
  digits : Nat
  exponent : Int
  deriving DecidableEq

/-- The number of the point on the grid of multiples of `10 ^ k` that is nearest to `m * 2 ^ q`,
among those that round to it. All is measured in a common unit in which the number is `4 * m` steps
long. -/
def onGrid? (tie : Tie) (m : Nat) (q k : Int) : Option Nat :=
  let step := Nat.pow 2 (q-2).toNat*Nat.pow 10 (-k).toNat
  let unit := Nat.pow 10 k.toNat*Nat.pow 2 (2-q).toNat
  let value := 4*m*step
  let low := (4*m-if m = leadingBit ∧ leastExponent < q then 1 else 2)*step
  let high := (4*m+2)*step
  let reads := fun n : Nat =>
    if m%2 = 0 then low ≤ n*unit && n*unit ≤ high else low < n*unit && n*unit < high
  let below := value/unit
  let twice := 2*(value%unit)
  match reads below, reads (below+1) with
  | true, true =>
    if twice < unit then some below
    else if unit < twice then some (below+1)
    else if tie = .even ∧ below%2 = 0 then some below
    else some (below+1)
  | true, false => some below
  | false, true => some (below+1)
  | false, false => none

/-- The first of the grids of `10 ^ k`, `10 ^ (k-1)`, … that has a point, with that point. -/
def firstGrid (tie : Tie) (m : Nat) (q : Int) : Nat → Int → Digits
  | 0, k => ⟨0, k⟩
  | grids+1, k =>
    match onGrid? tie m q k with
    | some n => ⟨n, k⟩
    | none => firstGrid tie m q grids (k-1)

/-- The shortest decimal for the positive number `m * 2 ^ q`: seventeen digits always suffice, and
the start is at most two grids too coarse. -/
def shortest (tie : Tie) (m : Nat) (q : Int) : Digits :=
  firstGrid tie m q 21 ((m.log2+1+q)*30103/100000+1)

end Descent.Decimal

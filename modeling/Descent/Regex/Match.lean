import Descent.Pool
import Descent.Regex.Basic

namespace Descent.Regex

/-- What a way to match does next: it ends, or it reads a character of a set and goes on with the
rest of the expression. -/
inductive Branch where
  | accept
  | read (s : CharSet) (rest : Regex)
  deriving DecidableEq

namespace Branch

def isRead : Branch → Bool
  | .accept => false
  | .read .. => true

/-- The branches of an expression that goes on with another one, whose own branches are `bs`. -/
def followedBy (r : Regex) (bs : List Branch) : Branch → List Branch
  | .accept => bs
  | .read s rest => [.read s (rest.followedBy r)]

end Branch

/-- The ways to match between the characters `prev` and `next`, the preferred one first. An
iteration that reads nothing ends its repetition. -/
def branches (prev next : Option Char) : Regex → List Branch
  | .empty => [.accept]
  | .set s => [.read s .empty]
  | .look a => if a.holds prev next then [.accept] else []
  | .seq a b => (a.branches prev next).flatMap (Branch.followedBy b (b.branches prev next))
  | .alt a b => pool (a.branches prev next) (b.branches prev next)
  | .plus greedy a => (a.branches prev next).flatMap (Branch.followedBy (.more greedy a) [.accept])
  | .more greedy a =>
    let again := ((a.branches prev next).filter Branch.isRead).flatMap
      (Branch.followedBy (.more greedy a) [])
    if greedy then again ++ [.accept] else .accept :: again

/-- The branches of several ways to match, each once, up to the first one that ends: what comes
after it is never preferred. -/
def frontier (prev next : Option Char) (ways : List Regex) : List Branch × Bool :=
  let bs := ways.foldl (fun acc r => pool acc (r.branches prev next)) []
  (bs.takeWhile Branch.isRead, bs.contains .accept)

/-- The ways that remain after reading a character. -/
def afterChar (c : Char) (bs : List Branch) : List Regex :=
  pool [] (bs.filterMap fun
    | .read s rest => if s.contains c then some rest else none
    | .accept => none)

/-- Follows all ways to match side by side, in order of preference, and reads on while some way
remains. `best` is the length of the preferred match found so far, `n` the number of characters
read. -/
def scan (prev : Option Char) (ways : List Regex) (n : Nat) (best : Option Nat) :
    List Char → Option Nat
  | [] => if (frontier prev none ways).2 then some n else best
  | c :: cs =>
    let (bs, accepted) := frontier prev (some c) ways
    let best := if accepted then some n else best
    match afterChar c bs with
    | [] => best
    | ways => scan (some c) ways (n+1) best cs

/-- The number of characters of the preferred match at the start of `cs`, where `prev` stands before
it. -/
def matchLength? (r : Regex) (prev : Option Char) (cs : List Char) : Option Nat :=
  scan prev [r] 0 none cs

end Descent.Regex

import Descent.Regex.CharSet

namespace Descent

inductive Assertion where
  | textStart
  | textEnd
  | lineStart
  | lineEnd
  /-- A line start where a return counts as the end of a line, alone or before a line feed. -/
  | lineStartCrlf
  | lineEndCrlf
  | wordBoundary
  | notWordBoundary
  | wordStart
  | wordEnd
  | wordStartHalf
  | wordEndHalf
  deriving DecidableEq

/-- Of two ways to match, a regular expression prefers the one that stands first. -/
inductive Regex where
  | empty
  | set (s : CharSet)
  | look (a : Assertion)
  | seq (a b : Regex)
  /-- Either; `a` is preferred. -/
  | alt (a b : Regex)
  /-- One iteration or more; a greedy one prefers to go on. -/
  | plus (greedy : Bool) (a : Regex)
  /-- What is left of `plus greedy a` after an iteration. A further iteration must not be empty. -/
  | more (greedy : Bool) (a : Regex)
  deriving DecidableEq

namespace Assertion

def isWordAt (c : Option Char) : Bool := c.any Text.isWord

/-- Whether the condition holds between the characters `prev` and `next`; none stands for an end of
the text. -/
def holds (prev next : Option Char) : Assertion → Bool
  | .textStart => prev.isNone
  | .textEnd => next.isNone
  | .lineStart => prev.isNone || prev = some '\n'
  | .lineEnd => next.isNone || next = some '\n'
  | .lineStartCrlf => prev.isNone || prev = some '\n' || (prev = some '\r' && next ≠ some '\n')
  | .lineEndCrlf => next.isNone || next = some '\r' || (next = some '\n' && prev ≠ some '\r')
  | .wordBoundary => isWordAt prev != isWordAt next
  | .notWordBoundary => isWordAt prev == isWordAt next
  | .wordStart => !isWordAt prev && isWordAt next
  | .wordEnd => isWordAt prev && !isWordAt next
  | .wordStartHalf => !isWordAt prev
  | .wordEndHalf => !isWordAt next

end Assertion

namespace Regex

def followedBy : Regex → Regex → Regex
  | .empty, b => b
  | a, .empty => a
  | a, b => .seq a b

/-- Of a greedy choice the first way is preferred, of a lazy one the second. -/
def prefer (greedy : Bool) (a b : Regex) : Regex := if greedy then .alt a b else .alt b a

def optional (greedy : Bool) (a : Regex) : Regex := prefer greedy a .empty

def star (greedy : Bool) (a : Regex) : Regex := optional greedy (.plus greedy a)

/-- Exactly `n` iterations, then `b`. -/
def times (a : Regex) (b : Regex) : Nat → Regex
  | 0 => b
  | n+1 => a.followedBy (times a b n)

/-- At most `n` iterations. -/
def upTo (greedy : Bool) (a : Regex) : Nat → Regex
  | 0 => .empty
  | n+1 => optional greedy (a.followedBy (upTo greedy a n))

/-- At least `n` iterations. -/
def atLeast (greedy : Bool) (a : Regex) : Nat → Regex
  | 0 => star greedy a
  | n+1 => times a (.plus greedy a) n

end Regex

end Descent

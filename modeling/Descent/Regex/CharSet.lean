import Descent.Text.CaseFold
import Descent.Text.Space
import Descent.Text.Word

namespace Descent

/-- A set of characters, kept as the expression that a pattern wrote. -/
inductive CharSet where
  | none
  /-- The characters from `first` to `last`. -/
  | range (first last : Char)
  /-- Decimal digits of all scripts. -/
  | digit
  | space
  | word
  | union (s t : CharSet)
  | inter (s t : CharSet)
  | compl (s : CharSet)
  /-- The set with all that differs from its members in case only. -/
  | fold (s : CharSet)
  deriving DecidableEq

namespace CharSet

def contains : CharSet → Char → Bool
  | .none, _ => false
  | .range first last, c => first ≤ c && c ≤ last
  | .digit, c => Text.isDigit c
  | .space, c => Text.isSpace c
  | .word, c => Text.isWord c
  | .union s t, c => s.contains c || t.contains c
  | .inter s t, c => s.contains c && t.contains c
  | .compl s, c => !s.contains c
  | .fold s, c => (Text.caseVariants c).any s.contains

def single (c : Char) : CharSet := .range c c

def all : CharSet := .compl .none

def diff (s t : CharSet) : CharSet := .inter s (.compl t)

def symmDiff (s t : CharSet) : CharSet := .union (s.diff t) (t.diff s)

/-- The characters of a list of ranges. -/
def ofRanges : List (Char × Char) → CharSet
  | [] => .none
  | (first, last) :: rs => .union (.range first last) (ofRanges rs)

/-- The classes of ASCII characters that have a name in brackets. -/
def ascii? : List Char → Option CharSet
  | ['a', 'l', 'n', 'u', 'm'] => some (ofRanges [('0', '9'), ('A', 'Z'), ('a', 'z')])
  | ['a', 'l', 'p', 'h', 'a'] => some (ofRanges [('A', 'Z'), ('a', 'z')])
  | ['a', 's', 'c', 'i', 'i'] => some (ofRanges [('\x00', '\x7f')])
  | ['b', 'l', 'a', 'n', 'k'] => some (ofRanges [('\t', '\t'), (' ', ' ')])
  | ['c', 'n', 't', 'r', 'l'] => some (ofRanges [('\x00', '\x1f'), ('\x7f', '\x7f')])
  | ['d', 'i', 'g', 'i', 't'] => some (ofRanges [('0', '9')])
  | ['g', 'r', 'a', 'p', 'h'] => some (ofRanges [('!', '~')])
  | ['l', 'o', 'w', 'e', 'r'] => some (ofRanges [('a', 'z')])
  | ['p', 'r', 'i', 'n', 't'] => some (ofRanges [(' ', '~')])
  | ['p', 'u', 'n', 'c', 't'] =>
    some (ofRanges [('!', '/'), (':', '@'), ('[', '\x60'), ('\x7b', '~')])
  | ['s', 'p', 'a', 'c', 'e'] => some (ofRanges [('\t', '\r'), (' ', ' ')])
  | ['u', 'p', 'p', 'e', 'r'] => some (ofRanges [('A', 'Z')])
  | ['w', 'o', 'r', 'd'] => some (ofRanges [('0', '9'), ('A', 'Z'), ('_', '_'), ('a', 'z')])
  | ['x', 'd', 'i', 'g', 'i', 't'] => some (ofRanges [('0', '9'), ('A', 'F'), ('a', 'f')])
  | _ => Option.none

end CharSet

end Descent

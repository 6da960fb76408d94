import Descent.Text.Grapheme
import Descent.Text.Printable

namespace Descent.Text.Quoted

/-- The digits of a code point in lower-case hexadecimal, between braces. -/
def codePoint (c : Char) : List Char :=
  '\\' :: 'u' :: '\x7b' :: Nat.toDigits 16 c.toNat ++ ['\x7d']

/-- One character as it stands in a quotation. `marks` tells whether a character that joins the one
before it is written as its code point, and `apostrophe` whether the single quote has a
backslash. -/
def escapeChar (marks apostrophe : Bool) (c : Char) : List Char :=
  if c = '\x00' then ['\\', '0']
  else if c = '\t' then ['\\', 't']
  else if c = '\r' then ['\\', 'r']
  else if c = '\n' then ['\\', 'n']
  else if c = '\\' ∨ c = '"' ∨ (apostrophe = true ∧ c = '\'') then ['\\', c]
  else if marks && isGraphemeExtend c then codePoint c
  else if isPrintable c then [c]
  else codePoint c

/-- A text as it stands in a message: a joining character is a code point only at the start, where
it has nothing to join. -/
def escape : List Char → List Char
  | [] => []
  | c :: cs => escapeChar true true c ++ cs.flatMap (escapeChar false true)

/-- A text in double quotes for a reader who debugs: every joining character is a code point. -/
def debug (cs : List Char) : List Char :=
  '"' :: cs.flatMap (escapeChar true false) ++ ['"']

end Descent.Text.Quoted

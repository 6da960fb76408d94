import Descent.Cursor

namespace Descent

/-- A place in a source text. Lines and columns count from one, and a column counts characters. -/
@[ext] structure Position where
  /-- In bytes. -/
  offset : Nat
  line : Nat
  column : Nat
  deriving DecidableEq

def Cursor.position (c : Cursor) : Position where
  offset := c.offset
  line := c.before.count '\n'+1
  column := (c.before.takeWhile (· ≠ '\n')).length+1

namespace Position

/-- The position of a byte offset; an offset past the end stands for the end. -/
def locate (source : List Char) (offset : Nat) : Position :=
  ((Cursor.start source).advance offset).position

def describe (p : Position) : String := s!"line {p.line}, column {p.column}"

end Position

end Descent

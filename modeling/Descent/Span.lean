import Descent.Text.Bytes

namespace Descent

/-- The byte offsets from `start` up to, and without, `stop`. -/
@[ext] structure Span where
  start : Nat
  stop : Nat
  deriving DecidableEq

namespace Span

def empty (offset : Nat) : Span := ⟨offset, offset⟩

def length (s : Span) : Nat := s.stop-s.start

def isEmpty (s : Span) : Bool := s.stop ≤ s.start

def contains (s : Span) (offset : Nat) : Bool := s.start ≤ offset && offset < s.stop

/-- The least span that covers both. -/
def merge (s t : Span) : Span := ⟨min s.start t.start, max s.stop t.stop⟩

/-- The text of the span, if its ends are in order and stand between characters of `source`. -/
def slice? (s : Span) (source : List Char) : Option (List Char) := Text.slice? s.start s.stop source

end Span

end Descent

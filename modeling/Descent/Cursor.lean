import Descent.Span

namespace Descent

/-- A place between two characters of a source text: `before` is the text up to it, nearest
character first, and `after` the text from it on. -/
@[ext] structure Cursor where
  before : List Char
  after : List Char
  /-- The offset in bytes from the start of the source. -/
  offset : Nat
  offset_eq : offset = Text.byteLength before
  deriving DecidableEq

namespace Cursor

def start (source : List Char) : Cursor := ⟨[], source, 0, rfl⟩

def source (c : Cursor) : List Char := c.before.reverse ++ c.after

def atEnd (c : Cursor) : Bool := c.after.isEmpty

/-- The cursor past the next `taken`, which together with `left` makes up the text from `c` on. -/
def past (c : Cursor) (taken left : List Char) : Cursor where
  before := taken.reverse ++ c.before
  after := left
  offset := c.offset+Text.byteLength taken
  offset_eq := by simp [c.offset_eq, Nat.add_comm]

/-- The cursor `n` characters on, or at the end if fewer are left. -/
def forward (c : Cursor) (n : Nat) : Cursor := c.past (c.after.take n) (c.after.drop n)

/-- The cursor `n` bytes on, or at the end if fewer are left. -/
def advance (c : Cursor) (n : Nat) : Cursor :=
  let (taken, left) := Text.splitAtByte n c.after
  c.past taken left

@[simp] theorem source_start (source : List Char) : (start source).source = source := rfl

@[simp] theorem source_forward (c : Cursor) (n : Nat) : (c.forward n).source = c.source := by
  simp [forward, past, source]

@[simp] theorem source_advance (c : Cursor) (n : Nat) : (c.advance n).source = c.source := by
  simp [advance, past, source, Text.splitAtByte_append]

/-- The span between two cursors; empty if the second does not stand behind the first. -/
def spanTo (c d : Cursor) : Span := ⟨c.offset, max d.offset c.offset⟩

/-- The text from the cursor to the end of the source. -/
def rest (c : Cursor) : String := String.ofList c.after

end Cursor

end Descent

import Descent.Regex.Basic

namespace Descent.Regex

structure Flags where
  /-- Flag `i`: case does not count. -/
  ignoreCase : Bool
  /-- Flag `m`: lines have a start and an end of their own. -/
  multiLine : Bool
  /-- Flag `s`: the dot matches a line feed. -/
  dotAll : Bool
  /-- Flag `U`: a plain repetition is lazy and a marked one greedy. -/
  swapGreed : Bool
  /-- Flag `R`: a return ends a line too. -/
  crlf : Bool
  /-- Flag `x`: blanks and comments do not count. -/
  verbose : Bool
  deriving DecidableEq

namespace Flags

def none : Flags := ⟨false, false, false, false, false, false⟩

/-- Unicode mode is always on: the flag `u` may be set and not cleared. -/
def set? (f : Flags) (on : Bool) : Char → Option Flags
  | 'i' => some { f with ignoreCase := on }
  | 'm' => some { f with multiLine := on }
  | 's' => some { f with dotAll := on }
  | 'U' => some { f with swapGreed := on }
  | 'R' => some { f with crlf := on }
  | 'x' => some { f with verbose := on }
  | 'u' => if on then some f else Option.none
  | _ => Option.none

end Flags

/-- The text from the first character on that is neither blank nor part of a comment. -/
def skipBlanks (inComment : Bool) : List Char → List Char
  | [] => []
  | c :: cs =>
    if inComment then skipBlanks (c ≠ '\n') cs
    else if Text.isSpace c then skipBlanks false cs
    else if c = '#' then skipBlanks true cs
    else c :: cs

namespace Flags

def skip (f : Flags) (cs : List Char) : List Char := if f.verbose then skipBlanks false cs else cs

/-- The next character that counts, as far as a look ahead can tell: past the mark of a comment it
takes the comment for text. -/
def peek? (f : Flags) (cs : List Char) : Option Char :=
  if f.verbose then
    match cs.dropWhile Text.isSpace with
    | '#' :: r => (r.dropWhile Text.isSpace).head?
    | r => r.head?
  else cs.head?

/-- The longest run of characters of a kind, blanks between them left out. -/
def run (f : Flags) (kind : Char → Bool) : Nat → List Char → List Char × List Char
  | 0, cs => ([], cs)
  | _, [] => ([], [])
  | fuel+1, c :: cs =>
    if kind c then
      let (taken, rest) := f.run kind fuel (f.skip cs)
      (c :: taken, rest)
    else ([], c :: cs)

def literal (f : Flags) (c : Char) : CharSet :=
  if f.ignoreCase then .fold (.single c) else .single c

end Flags

inductive Primitive where
  | literal (c : Char)
  | set (s : CharSet)
  | look (a : Assertion)
  deriving DecidableEq

/-- Characters with a meaning of their own in some place of a pattern. -/
def isMeta (c : Char) : Bool := "\\.+*?()|[]\x7b\x7d^$#&-~".toList.contains c

/-- Any other ASCII character may be escaped, save letters, digits and the angle brackets. -/
def isEscapable (c : Char) : Bool :=
  isMeta c || (c.toNat < 128 && !c.isAlphanum && c ≠ '<' && c ≠ '>')

def hexDigit? (c : Char) : Option Nat :=
  if '0' ≤ c ∧ c ≤ '9' then some (c.toNat-48)
  else if 'a' ≤ c ∧ c ≤ 'f' then some (c.toNat-87)
  else if 'A' ≤ c ∧ c ≤ 'F' then some (c.toNat-55)
  else none

def ofHex (cs : List Char) : Nat := cs.foldl (fun n c => 16*n+(hexDigit? c).getD 0) 0

def codePoint? (n : Nat) : Option Char := if n.isValidChar then some (Char.ofNat n) else none

/-- A character by its code point: `width` hexadecimal digits, or any number of them in braces. As
all readers of patterns do, it gives what it read with the text after it, or none if the pattern is
malformed. -/
def readHex (f : Flags) (width : Nat) (cs : List Char) : Option (Primitive × List Char) := do
  let isHex := fun c => (hexDigit? c).isSome
  match f.skip cs with
  | '\x7b' :: cs =>
    let (ds, rest) := f.run isHex cs.length (f.skip cs)
    match rest with
    | '\x7d' :: rest =>
      if ds.isEmpty then none else some (.literal (← codePoint? (ofHex ds)), f.skip rest)
    | _ => none
  | cs =>
    let (ds, rest) := f.run isHex width cs
    if ds.length = width then some (.literal (← codePoint? (ofHex ds)), rest) else none

/-- A word boundary, with the name in braces of a boundary of a special kind if one follows. -/
def readBoundary (f : Flags) (cs : List Char) : Option (Primitive × List Char) :=
  let isName := fun c : Char => c.isAlpha || c = '-'
  match cs with
  | '\x7b' :: r =>
    match f.skip r with
    | [] => none
    | c :: r =>
      if isName c then
        let (name, rest) := f.run isName (r.length+1) (c :: r)
        match rest with
        | '\x7d' :: rest =>
          if name = "start".toList then some (.look .wordStart, rest)
          else if name = "end".toList then some (.look .wordEnd, rest)
          else if name = "start-half".toList then some (.look .wordStartHalf, rest)
          else if name = "end-half".toList then some (.look .wordEndHalf, rest)
          else none
        | _ => none
      else some (.look .wordBoundary, cs)
  | _ => some (.look .wordBoundary, cs)

def readEscape (f : Flags) : List Char → Option (Primitive × List Char)
  | [] => none
  | 'x' :: cs => readHex f 2 cs
  | 'u' :: cs => readHex f 4 cs
  | 'U' :: cs => readHex f 8 cs
  | 'd' :: cs => some (.set .digit, cs)
  | 'D' :: cs => some (.set (.compl .digit), cs)
  | 's' :: cs => some (.set .space, cs)
  | 'S' :: cs => some (.set (.compl .space), cs)
  | 'w' :: cs => some (.set .word, cs)
  | 'W' :: cs => some (.set (.compl .word), cs)
  | 'a' :: cs => some (.literal '\x07', cs)
  | 'f' :: cs => some (.literal '\x0c', cs)
  | 't' :: cs => some (.literal '\t', cs)
  | 'n' :: cs => some (.literal '\n', cs)
  | 'r' :: cs => some (.literal '\r', cs)
  | 'v' :: cs => some (.literal '\x0b', cs)
  | 'A' :: cs => some (.look .textStart, cs)
  | 'z' :: cs => some (.look .textEnd, cs)
  | 'b' :: cs => readBoundary f cs
  | 'B' :: cs => some (.look .notWordBoundary, cs)
  | '<' :: cs => some (.look .wordStart, cs)
  | '>' :: cs => some (.look .wordEnd, cs)
  | c :: cs => if isEscapable c then some (.literal c, cs) else none

end Descent.Regex

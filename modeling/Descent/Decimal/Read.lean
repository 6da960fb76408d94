import Descent.Decimal.Binary

namespace Descent.Decimal

/-- Why a text is no number of the kind asked for. -/
inductive ReadError where
  | emptyInteger
  | invalidDigit
  | tooLarge
  | tooSmall
  | emptyFloat
  | invalidFloat
  deriving DecidableEq

def ReadError.message : ReadError → String
  | .emptyInteger => "cannot parse integer from empty string"
  | .invalidDigit => "invalid digit found in string"
  | .tooLarge => "number too large to fit in target type"
  | .tooSmall => "number too small to fit in target type"
  | .emptyFloat => "cannot parse float from empty string"
  | .invalidFloat => "invalid float literal"

def digit? (c : Char) : Option Nat := if c.isDigit then some (c.toNat-48) else none

/-- The digits read on top of `n`; the first digit that leads past a bound ends the reading. -/
def readDigits (lowest highest : Int) (negative : Bool) : Int → List Char → Except ReadError Int
  | n, [] => .ok n
  | n, c :: cs =>
    match digit? c with
    | none => .error .invalidDigit
    | some d =>
      let next := if negative then 10*n-d else 10*n+d
      if highest < next then .error .tooLarge
      else if next < lowest then .error .tooSmall
      else readDigits lowest highest negative next cs

/-- An integer with at most one sign in front; `-` is a sign only where negative numbers are in
bounds. -/
def readInteger (lowest highest : Int) : List Char → Except ReadError Int
  | [] => .error .emptyInteger
  | '+' :: c :: cs => readDigits lowest highest false 0 (c :: cs)
  | '-' :: c :: cs =>
    if lowest < 0 then readDigits lowest highest true 0 (c :: cs) else .error .invalidDigit
  | cs => readDigits lowest highest false 0 cs

def readInt (cs : List Char) : Except ReadError Int64 :=
  Int64.ofInt <$> readInteger Int64.minValue.toInt Int64.maxValue.toInt cs

def readCount (cs : List Char) : Except ReadError Nat :=
  Int.toNat <$> readInteger 0 (UInt64.size-1) cs

def ofDigits (cs : List Char) : Nat := cs.foldl (fun n c => 10*n+(c.toNat-48)) 0

/-- A decimal fraction without a sign: `digits * 10 ^ exponent`. -/
def readFraction? (cs : List Char) : Option (Nat × Int) :=
  let whole := cs.takeWhile Char.isDigit
  let rest := cs.dropWhile Char.isDigit
  let (fraction, rest) := match rest with
    | '.' :: r => (r.takeWhile Char.isDigit, r.dropWhile Char.isDigit)
    | r => ([], r)
  let digits := ofDigits (whole ++ fraction)
  let exponent : Int := -fraction.length
  if whole.isEmpty && fraction.isEmpty then none
  else match rest with
    | [] => some (digits, exponent)
    | e :: r =>
      let (negative, ds) := match r with
        | '+' :: ds => (false, ds)
        | '-' :: ds => (true, ds)
        | ds => (false, ds)
      if (e = 'e' ∨ e = 'E') ∧ ¬ds.isEmpty ∧ ds.all Char.isDigit then
        some (digits, exponent+if negative then -(ofDigits ds : Int) else ofDigits ds)
      else none

/-- The floating-point number nearest to `digits * 10 ^ exponent`. Exponents far out of reach are
answered without computing the power. -/
def nearestDecimal (negative : Bool) (digits : Nat) (exponent : Int) : Float :=
  let magnitude := (Nat.toDigits 10 digits).length+exponent
  if digits = 0 ∨ magnitude < -400 then nearest negative 0 1
  else if 400 < magnitude then nearest negative (Nat.pow 10 400) 1
  else nearest negative (digits*Nat.pow 10 exponent.toNat) (Nat.pow 10 (-exponent).toNat)

def infinity : Float := Float.ofBits (UInt64.ofNat infinityBits)

def notANumber : Float := Float.ofBits 0x7FF8000000000000

def readMagnitude (negative : Bool) (cs : List Char) : Except ReadError Float :=
  let word := String.ofList (cs.map Char.toLower)
  if word = "inf" ∨ word = "infinity" then .ok (if negative then -infinity else infinity)
  else if word = "nan" then .ok notANumber
  else match readFraction? cs with
    | some (digits, exponent) => .ok (nearestDecimal negative digits exponent)
    | none => .error .invalidFloat

def readFloat : List Char → Except ReadError Float
  | [] => .error .emptyFloat
  | '+' :: cs => readMagnitude false cs
  | '-' :: cs => readMagnitude true cs
  | cs => readMagnitude false cs

end Descent.Decimal

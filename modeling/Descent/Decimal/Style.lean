import Descent.Decimal.Shortest

namespace Descent.Decimal

def natural (n : Nat) : List Char := Nat.toDigits 10 n

def integer (n : Int) : List Char :=
  if n < 0 then '-' :: natural n.natAbs else natural n.natAbs

/-- How a finite floating-point number is written. -/
structure Style where
  tie : Tie
  /-- Whether a number whose leading digit counts `10 ^ e` is written without an exponent. -/
  positional : Int → Bool
  /-- Whether a whole number written without an exponent ends in `.0`. -/
  wholePoint : Bool
  /-- Whether an exponent that is not negative has a sign. -/
  plus : Bool

namespace Style

/-- The decimal without an exponent. -/
def writePositional (style : Style) (d : Digits) : List Char :=
  let ds := natural d.digits
  let point := ds.length+d.exponent
  if 0 ≤ d.exponent then
    ds ++ List.replicate d.exponent.toNat '0' ++ if style.wholePoint then ['.', '0'] else []
  else if point ≤ 0 then '0' :: '.' :: List.replicate (-point).toNat '0' ++ ds
  else ds.take point.toNat ++ '.' :: ds.drop point.toNat

/-- The decimal with one digit before the point and an exponent. -/
def writeScientific (style : Style) (d : Digits) (e : Int) : List Char :=
  let mantissa := match natural d.digits with
    | c :: r => if r.isEmpty then [c] else c :: '.' :: r
    | [] => []
  mantissa ++ 'e' :: (if 0 ≤ e ∧ style.plus then ['+'] else []) ++ integer e

def write (style : Style) (negative : Bool) (m : Nat) (q : Int) : List Char :=
  let d := if m = 0 then ⟨0, 0⟩ else shortest style.tie m q
  let e := (natural d.digits).length-1+d.exponent
  let magnitude := if style.positional e then style.writePositional d else style.writeScientific d e
  if negative then '-' :: magnitude else magnitude

/-- Any number; those that are not finite have names. -/
def writeFloat (style : Style) (x : Float) : List Char :=
  match Exact.ofFloat x with
  | .nan => "NaN".toList
  | .infinite negative => (if negative then "-inf" else "inf").toList
  | .finite negative m q => style.write negative m q

end Style

end Descent.Decimal

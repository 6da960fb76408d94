namespace Descent.Decimal

/-- A floating-point number in exact terms. -/
inductive Exact where
  | nan
  | infinite (negative : Bool)
  /-- The number `mantissa * 2 ^ exponent`, or its negative. -/
  | finite (negative : Bool) (mantissa : Nat) (exponent : Int)
  deriving DecidableEq

/-- The least exponent of two. -/
def leastExponent : Int := -1074

/-- The least mantissa of a number whose exponent could be less, `2 ^ 52`. -/
def leadingBit : Nat := 0x10000000000000

/-- The bit of the sign, `2 ^ 63`. -/
def signBit : Nat := 0x8000000000000000

/-- The bits of infinity. All finite numbers have less. -/
def infinityBits : Nat := 0x7FF0000000000000

def Exact.ofFloat (x : Float) : Exact :=
  let bits := x.toBits.toNat
  let negative := decide (signBit ≤ bits)
  let biased : Nat := bits/leadingBit%2048
  let fraction : Nat := bits%leadingBit
  if biased = 2047 then if fraction = 0 then .infinite negative else .nan
  else if biased = 0 then .finite negative fraction leastExponent
  else .finite negative (fraction+leadingBit) ((biased : Int)-1075)

/-- A quotient rounded to the nearest natural number, a half to the even one. -/
def roundHalfEven (num den : Nat) : Nat :=
  let below := num/den
  let twice := 2*(num%den)
  if twice < den ∨ (twice = den ∧ below%2 = 0) then below else below+1

theorem roundHalfEven_nearest (num den : Nat) (h : 0 < den) :
    2*(roundHalfEven num den*den) ≤ 2*num+den ∧ 2*num ≤ 2*(roundHalfEven num den*den)+den := by
  have hd := Nat.div_add_mod num den
  have hm := Nat.mod_lt num h
  unfold roundHalfEven
  simp only
  generalize num/den = q at hd ⊢
  generalize num%den = r at hd hm ⊢
  rw [Nat.mul_comm den q] at hd
  split
  · constructor <;> omega
  · rw [Nat.add_mul, Nat.one_mul]
    constructor <;> omega

/-- The bits of the floating-point number nearest to `num / den`, without a sign. -/
def nearestBits (num den : Nat) : Nat :=
  if num = 0 then 0
  else
    let guess : Int := (num.log2 : Int)-den.log2
    let small := num*Nat.pow 2 (-guess).toNat < den*Nat.pow 2 guess.toNat
    let exponent := max leastExponent (if small then guess-53 else guess-52)
    let mantissa := roundHalfEven (num*Nat.pow 2 (-exponent).toNat) (den*Nat.pow 2 exponent.toNat)
    min ((exponent-leastExponent).toNat*leadingBit+mantissa) infinityBits

/-- The floating-point number nearest to `num / den`, or to its negative. -/
def nearest (negative : Bool) (num den : Nat) : Float :=
  Float.ofBits (UInt64.ofNat (nearestBits num den+if negative then signBit else 0))

end Descent.Decimal

/-!
# Binary64 numbers

The floating point numbers of 64 bits, as a sign, a mantissa and a power of two, with infinities
and one NaN. Every operation is exact arithmetic followed by one rounding to the nearest number,
a tie going to the even mantissa.

Results:
* `roundDiv_self_mul`: a whole quotient is not rounded.
* `ofInt_zero`: zero is written as the zero of the smallest exponent.
-/

namespace LuaCoverage.Decimal

/-- The quotient of `a` by `b` to the nearest whole number, a tie to the even one. -/
def roundDiv (a b : Nat) : Nat :=
  let q := a / b
  let twice := 2 * (a % b)
  if twice > b || (twice == b && q % 2 == 1) then q + 1 else q

theorem roundDiv_self_mul {a b : Nat} (hb : 0 < b) : roundDiv (a * b) b = a := by
  have h : ¬ b = 0 := by omega
  simp [roundDiv, Nat.mul_div_cancel a hb, Nat.mul_mod_left]
  omega

/-- A number of 64 bits. A finite one is `mantissa * 2 ^ exponent` with its sign; the mantissa has
53 bits, or fewer if the exponent is the smallest one. -/
inductive Binary64
  | finite (negative : Bool) (mantissa : Nat) (exponent : Int)
  | infinity (negative : Bool)
  | nan
  deriving DecidableEq, Repr

namespace Binary64

def minExponent : Int := -1074

def maxExponent : Int := 971

def zero (negative : Bool) : Binary64 := .finite negative 0 minExponent

/-- The fraction `num / den` scaled by a power of two, as a fraction. -/
def scale (num den : Nat) : Int → Nat × Nat
  | .ofNat k => (num * Nat.pow 2 k, den)
  | .negSucc k => (num, den * Nat.pow 2 (k + 1))

/-- The exponent of the largest power of two that is no larger than a positive fraction. -/
def floorLog (num den : Nat) : Int :=
  let guess := Int.ofNat num.log2 - Int.ofNat den.log2
  let (p, q) := scale num den (-guess)
  if q ≤ p then guess else guess - 1

/-- The number nearest to `num / den`. -/
def ofRatio (negative : Bool) (num den : Nat) : Binary64 :=
  if num = 0 then zero negative
  else
    let exponent := max (floorLog num den - 52) minExponent
    let (p, q) := scale num den (-exponent)
    let mantissa := roundDiv p q
    let (mantissa, exponent) :=
      if mantissa = Nat.pow 2 53 then (Nat.pow 2 52, exponent + 1) else (mantissa, exponent)
    if exponent > maxExponent then .infinity negative
    else if mantissa = 0 then zero negative
    else .finite negative mantissa exponent

def ofInt (n : Int) : Binary64 := ofRatio (n < 0) n.natAbs 1

theorem ofInt_zero : ofInt 0 = zero false := rfl

/-- The absolute value of a finite number as a fraction. -/
def ratio (mantissa : Nat) (exponent : Int) : Nat × Nat := scale mantissa 1 exponent

/-- A finite number as a signed fraction. -/
def toRatio? : Binary64 → Option (Int × Nat)
  | .finite negative mantissa exponent =>
    let (num, den) := ratio mantissa exponent
    some (if negative then -Int.ofNat num else Int.ofNat num, den)
  | _ => none

/-- The whole part of a finite number, towards zero. -/
def truncate? (x : Binary64) : Option Int := x.toRatio?.map fun (num, den) => num.tdiv den

/-- The same number with the other sign. -/
def neg : Binary64 → Binary64
  | .finite negative mantissa exponent => .finite (!negative) mantissa exponent
  | .infinity negative => .infinity !negative
  | .nan => .nan

/-- The sum of two numbers, for finite ones. -/
def add (x y : Binary64) : Binary64 :=
  match x.toRatio?, y.toRatio? with
  | some (a, b), some (c, d) =>
    let num := a * d + c * b
    ofRatio (num < 0) num.natAbs (b * d)
  | some _, none => y
  | none, _ => x

/-- The product of two numbers, for finite ones. -/
def mul (x y : Binary64) : Binary64 :=
  match x.toRatio?, y.toRatio? with
  | some (a, b), some (c, d) =>
    let num := a * c
    ofRatio (num < 0) num.natAbs (b * d)
  | some _, none => y
  | none, _ => x

/-- Whether a number is equal to zero. -/
def isZero : Binary64 → Bool
  | .finite _ mantissa _ => mantissa == 0
  | _ => false

def equalsInt (x : Binary64) (n : Int) : Bool :=
  match x.toRatio? with
  | some (num, den) => num == n * den
  | none => false

/-- Whether two numbers are the same key: zeros of both signs are, and NaN is the same as itself. -/
def equals (x y : Binary64) : Bool := x == y || (x.isZero && y.isZero)

end Binary64

end LuaCoverage.Decimal

import LuaCoverage.Decimal.Binary64
import LuaCoverage.Decimal.Integer

/-!
# Decimal text of binary64 numbers

A decimal number is a list of digits and a power of ten. `ofDecimal` reads one as the nearest
number; `shortest` finds the fewest digits that read back, and of those the ones nearest to the
number. Exponents of ten from -4 up to 15 are written positionally, all others behind an `e`.

`fixed` writes a given number of places, a tie going to the even digit.
-/

namespace LuaCoverage.Decimal

namespace Binary64

/-- The number nearest to `digits * 10 ^ exponent`. Exponents beyond every number are cut off. -/
def ofDecimal (negative : Bool) (digits : Nat) (exponent : Int) : Binary64 :=
  if digits = 0 then zero negative
  else
    let top := exponent + (Decimal.digits digits).length
    if top > 400 then .infinity negative
    else if top < -400 then zero negative
    else
      match exponent with
      | .ofNat k => ofRatio negative (digits * Nat.pow 10 k) 1
      | .negSucc k => ofRatio negative digits (Nat.pow 10 (k + 1))

/-- The exponent of the largest power of ten that is no larger than a positive fraction, looked
for downwards from a guess. -/
def floorLogTen (num den : Nat) : (limit : Nat) → (guess : Int) → Int
  | 0, guess => guess
  | limit + 1, guess =>
    let reached : Bool :=
      match guess with
      | .ofNat k => decide (den * Nat.pow 10 k ≤ num)
      | .negSucc k => decide (den ≤ num * Nat.pow 10 (k + 1))
    if reached then guess else floorLogTen num den limit (guess - 1)

/-- The decimals of the grid of a given power of ten on both sides of a fraction, the nearer one
first. -/
def gridNeighbours (num den : Nat) (power : Int) : List Nat :=
  let (p, q) :=
    match power with
    | .ofNat k => (num, den * Nat.pow 10 k)
    | .negSucc k => (num * Nat.pow 10 (k + 1), den)
  let low := p / q
  if roundDiv p q = low then [low, low + 1] else [low + 1, low]

/-- The shortest digits that read back as a positive number, with their power of ten: grids from
coarse to fine, starting with `count` digits. -/
def shortestFrom (mantissa : Nat) (exponent : Int) (num den : Nat) (log : Int) :
    (limit count : Nat) → Nat × Int
  | 0, _ => (0, 0)
  | limit + 1, count =>
    let power := log + 1 - count
    let fits := fun digits =>
      ofDecimal false digits power == .finite false mantissa exponent
    match (gridNeighbours num den power).find? fits with
    | some digits => (digits, power)
    | none => shortestFrom mantissa exponent num den log limit (count + 1)

/-- The shortest digits that read back as a positive number, with their power of ten. -/
def shortest (mantissa : Nat) (exponent : Int) : Nat × Int :=
  let (num, den) := ratio mantissa exponent
  shortestFrom mantissa exponent num den (floorLogTen num den 700 310) 18 1

/-- Digits without the zeros at their end. -/
def stripZeros (ds : List Char) : List Char := (ds.reverse.dropWhile (· == '0')).reverse

/-- The text of an exponent: a sign and at least two digits. -/
def exponentText (n : Int) : List Char :=
  (if n < 0 then '-' else '+') :: padded 2 n.natAbs

/-- Digits whose first one stands for the given power of ten, written out. -/
def layout (ds : List Char) (first : Int) : List Char :=
  if first < -4 || first ≥ 16 then
    match ds with
    | [d] => [d, 'e'] ++ exponentText first
    | d :: rest => d :: '.' :: rest ++ 'e' :: exponentText first
    | [] => []
  else if first < 0 then
    ['0', '.'] ++ List.replicate (-first - 1).toNat '0' ++ ds
  else
    let whole := first.toNat + 1
    let front := ds.take whole ++ List.replicate (whole - ds.length) '0'
    let back := ds.drop whole
    front ++ '.' :: (if back.isEmpty then ['0'] else back)

def text (x : Binary64) : String :=
  match x with
  | .nan => "nan"
  | .infinity negative => if negative then "-inf" else "inf"
  | .finite negative mantissa exponent =>
    let sign := if negative then ['-'] else []
    if mantissa = 0 then String.ofList (sign ++ ['0', '.', '0'])
    else
      let (digits, power) := shortest mantissa exponent
      let ds := Decimal.digits digits
      String.ofList (sign ++ layout (stripZeros ds) (power + ds.length - 1))

/-- A number with a fixed count of places behind the point. -/
def fixed (places : Nat) (x : Binary64) : String :=
  match x with
  | .nan => "nan"
  | .infinity negative => if negative then "-inf" else "inf"
  | .finite negative mantissa exponent =>
    let (num, den) := ratio mantissa exponent
    let ds := padded (places + 1) (roundDiv (num * Nat.pow 10 places) den)
    let whole := ds.take (ds.length - places)
    let back := ds.drop (ds.length - places)
    String.ofList ((if negative then ['-'] else []) ++ whole
      ++ (if places = 0 then [] else '.' :: back))

end Binary64

end LuaCoverage.Decimal

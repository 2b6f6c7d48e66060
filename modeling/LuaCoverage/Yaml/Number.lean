import LuaCoverage.Decimal.Integer
import LuaCoverage.Decimal.Shortest
import LuaCoverage.Yaml.Fault

/-!
# Numbers

Which plain scalars are numbers, and the numbers that they are. Underscores inside a number are
passed over. A leading zero makes an integer octal; numbers between colons are the places of base
sixty. A floating point number needs a point, and an exponent its sign.

Results:
* `isInteger_zero`: a zero alone is an integer.
-/

namespace LuaCoverage.Yaml
open LuaCoverage.Decimal LuaCoverage.Text

/-- Whether a character is a digit of a number that may hold underscores. -/
def isNumeralChar (c : Char) : Bool := isAsciiDigit c || c == '_'

/-- A text without a sign in front. -/
def dropSign : List Char → List Char
  | '-' :: rest => rest
  | '+' :: rest => rest
  | cs => cs

/-- Whether a text is not empty, and all its characters are of a kind. -/
def isAll (p : Char → Bool) (cs : List Char) : Bool := !cs.isEmpty && cs.all p

/-- Passes over groups of a colon with a number below sixty, of one or two digits. -/
def dropGroups (cs : List Char) : List Char :=
  match cs with
  | ':' :: a :: b :: rest =>
    if isAsciiDigit a && isAsciiDigit b then
      if a.toNat ≤ '5'.toNat then dropGroups rest else cs
    else if isAsciiDigit a then dropGroups (b :: rest)
    else cs
  | [':', a] => if isAsciiDigit a then [] else cs
  | _ => cs
termination_by cs.length

/-- What follows a number with at least one place of base sixty behind its first. -/
def behindGroups? (cs : List Char) : Option (List Char) :=
  let rest := cs.dropWhile isNumeralChar
  let behind := dropGroups rest
  if behind.length < rest.length then some behind else none

def isInteger (text : List Char) : Bool :=
  let cs := dropSign text
  match cs with
  | '0' :: rest =>
    rest.isEmpty || isAll (fun c => c == '_' || ('0'.toNat ≤ c.toNat && c.toNat ≤ '7'.toNat)) rest
      || (match rest with
        | 'b' :: bits => isAll (fun c => c == '0' || c == '1' || c == '_') bits
        | 'x' :: digits => isAll (fun c => isHexDigit c || c == '_') digits
        | _ => false)
  | c :: rest =>
    isAsciiDigit c && (rest.all isNumeralChar || (behindGroups? cs).any List.isEmpty)
  | [] => false

theorem isInteger_zero : isInteger ['0'] = true := by decide

/-- Whether a text is nothing, or an exponent with its sign. -/
def isExponent : List Char → Bool
  | [] => true
  | e :: sign :: digits =>
    (e == 'e' || e == 'E') && (sign == '-' || sign == '+') && isAll isAsciiDigit digits
  | _ => false

/-- Whether a text is a floating point number. -/
def isFloat (text : List Char) : Bool :=
  let cs := dropSign text
  let words := [".inf", ".Inf", ".INF"].map String.toList
  let nans := [".nan", ".NaN", ".NAN"].map String.toList
  words.contains cs || nans.contains text
    || (match text with
      | '.' :: c :: rest => isAsciiDigit c && isExponent (rest.dropWhile isNumeralChar)
      | _ => false)
    || (cs.head?.any isAsciiDigit
      && ((match cs.dropWhile isNumeralChar with
          | '.' :: rest => isExponent (rest.dropWhile isNumeralChar)
          | _ => false)
        || (match behindGroups? cs with
          | some ('.' :: rest) => rest.all isNumeralChar
          | _ => false)))

/-- The sign of a text: whether it is negative, and what follows. -/
def splitSign : List Char → Bool × List Char
  | '-' :: rest => (true, rest)
  | '+' :: rest => (false, rest)
  | cs => (false, cs)

/-- The value of a digit: a decimal one of any script, or a letter of the hexadecimal ones. -/
def placeValue? (c : Char) : Option Nat := (hexValue? c).or (digitValue? c)

/-- The number that digits of a base make, if they are digits of that base. -/
def readBase? (base : Nat) (digits : List Char) : Option Nat :=
  if digits.isEmpty then none
  else
    digits.foldlM
      (fun n c => (placeValue? c).bind fun d => if d < base then some (n * base + d) else none) 0

/-- The letters that mark a base behind a zero. -/
def baseLetters (base : Nat) : List Char :=
  if base = 2 then ['b', 'B'] else if base = 8 then ['o', 'O'] else ['x', 'X']

/-- Digits without the mark of their base. -/
def dropBaseMark (base : Nat) : List Char → List Char
  | '0' :: letter :: rest =>
    if (baseLetters base).contains letter then rest else '0' :: letter :: rest
  | cs => cs

/-- An integer of a base, with white space around it, its own sign, and its own mark of the base
if that is not ten. -/
def readInteger (base : Nat) (text : List Char) : Except Fault Int :=
  let (negative, digits) := splitSign (trim isWhiteSpace text)
  let read := if base = 10 then readInt text else
    (readBase? base (dropBaseMark base digits)).map fun n =>
      if negative then -Int.ofNat n else Int.ofNat n
  match read with
  | some n => .ok n
  | none => .error (.integer base (String.ofList text))

/-- The pieces of a text between the colons. -/
def places : List Char → List (List Char)
  | [] => [[]]
  | c :: rest =>
    if c = ':' then [] :: places rest
    else
      match places rest with
      | [] => [[c]]
      | piece :: more => (c :: piece) :: more

/-- The integer that a text stands for. -/
def integerOf (text : List Char) : Except Fault Int := do
  let (negative, cs) := splitSign (text.filter (· ≠ '_'))
  let n ←
    match cs with
    | [] => .error .emptyNumber
    | ['0'] => .ok 0
    | '0' :: 'b' :: rest => readInteger 2 rest
    | '0' :: 'x' :: rest => readInteger 16 rest
    | '0' :: _ => readInteger 8 cs
    | _ =>
      if cs.contains ':' then do
        let ns ← (places cs).mapM (readInteger 10)
        .ok (ns.foldl (fun sum n => sum * 60 + n) 0)
      else readInteger 10 cs
  .ok (if negative then -n else n)

/-- The exponent behind a number, zero if there is none. -/
def exponentOf? : List Char → Option Int
  | [] => some 0
  | e :: rest =>
    let (negative, digits) := splitSign rest
    if e = 'e' then
      (readBase? 10 digits).map fun n => if negative then -Int.ofNat n else Int.ofNat n
    else none

/-- A decimal number, or a word for an infinity or for NaN. -/
def readFloat? (text : List Char) : Option Binary64 :=
  let (negative, cs) := splitSign (trim isWhiteSpace text)
  if cs = "inf".toList || cs = "infinity".toList then some (.infinity negative)
  else if cs = "nan".toList then some .nan
  else
    let whole := cs.takeWhile isDecimalDigit
    let rest := cs.dropWhile isDecimalDigit
    let (fraction, rest) :=
      match rest with
      | '.' :: rest => (rest.takeWhile isDecimalDigit, rest.dropWhile isDecimalDigit)
      | _ => ([], rest)
    match readBase? 10 (whole ++ fraction), exponentOf? rest with
    | some n, some e => some (Binary64.ofDecimal negative n (e - fraction.length))
    | _, _ => none

def readDecimal (text : List Char) : Except Fault Binary64 :=
  match readFloat? text with
  | some x => .ok x
  | none => .error (.float (String.ofList text))

/-- The sum of places of base sixty, the last one first. -/
def sumPlaces : (base : Int) → (sum : Binary64) → List Binary64 → Binary64
  | _, sum, [] => sum
  | base, sum, x :: rest => sumPlaces (base * 60) (sum.add (x.mul (Binary64.ofInt base))) rest

/-- The floating point number that a text stands for. -/
def floatOf (text : List Char) : Except Fault Binary64 := do
  let plain := (text.filter (· ≠ '_')).map Char.toLower
  let (negative, cs) := splitSign plain
  let x ←
    if plain.isEmpty then .error .emptyNumber
    else if cs = ".inf".toList then .ok (.infinity false)
    else if cs = ".nan".toList then .ok .nan
    else if cs.contains ':' then do
      let xs ← (places cs).mapM readDecimal
      .ok (sumPlaces 1 (Binary64.zero false) xs.reverse)
    else readDecimal cs
  .ok (if negative then x.neg else x)

end LuaCoverage.Yaml

import LuaCoverage.Text.Class.Basic
import LuaCoverage.Text.Ends

/-!
# Numerals

Writing an integer with the fewest digits, and reading one from text that people wrote: white
space around it, a sign, digits of any script, and single underscores between digits. Hexadecimal
numerals are only written, with as many digits as are asked for.

Results:
* `digits_eq`: the recursion of the writer.
* `length_hexDigits`: how many hexadecimal digits there are.
-/

namespace LuaCoverage.Decimal
open LuaCoverage.Text

/-- The ASCII digit of a value below ten. -/
def digitChar (n : Nat) : Char := Char.ofNat (0x30 + n % 10)

/-- The decimal digits of a natural number, without leading zeros. -/
def digits (n : Nat) : List Char :=
  if n < 10 then [digitChar n] else digits (n / 10) ++ [digitChar n]

theorem digits_eq (n : Nat) :
    digits n = if n < 10 then [digitChar n] else digits (n / 10) ++ [digitChar n] := by
  rw [digits]

def intDigits : Int → List Char
  | .ofNat n => digits n
  | .negSucc n => '-' :: digits (n + 1)

def natText (n : Nat) : String := String.ofList (digits n)

def intText (n : Int) : String := String.ofList (intDigits n)

/-- The digits of `n` with zeros in front up to a least width. -/
def padded (width n : Nat) : List Char :=
  let ds := digits n
  List.replicate (width - ds.length) '0' ++ ds

/-- Reads digits behind a digit; an underscore counts only between two digits. -/
def readDigits (value : Nat) : List Char → Option Nat
  | [] => some value
  | '_' :: c :: rest => (digitValue? c).bind fun d => readDigits (value * 10 + d) rest
  | c :: rest => (digitValue? c).bind fun d => readDigits (value * 10 + d) rest

/-- Reads a run of digits that is not empty. -/
def readNat : List Char → Option Nat
  | [] => none
  | c :: rest => (digitValue? c).bind fun d => readDigits d rest

def readInt (text : List Char) : Option Int :=
  match trim isWhiteSpace text with
  | '-' :: rest => (readNat rest).map fun n => -Int.ofNat n
  | '+' :: rest => (readNat rest).map Int.ofNat
  | rest => (readNat rest).map Int.ofNat

/-- The wording about a text that is no integer of a base. Of its literal no more than 200
characters are shown. -/
def noInteger (base : Nat) (literal : String) : String :=
  "invalid literal for int() with base " ++ natText base ++ ": "
    ++ String.ofList (literal.toList.take 200)

end LuaCoverage.Decimal

namespace LuaCoverage.Text

/-- The hexadecimal digit of a value below sixteen. -/
def hexDigit (n : Nat) : Char :=
  if n % 16 < 10 then Char.ofNat (0x30 + n % 16) else Char.ofNat (0x57 + n % 16)

/-- The last `count` hexadecimal digits of a number. -/
def hexDigits : (count : Nat) → Nat → List Char
  | 0, _ => []
  | count + 1, n => hexDigits count (n / 16) ++ [hexDigit n]

@[simp] theorem length_hexDigits (count n : Nat) : (hexDigits count n).length = count := by
  induction count generalizing n with
  | zero => rfl
  | succ count ih => simp [hexDigits, ih]

end LuaCoverage.Text

import LuaCoverage.Data.Value

/-!
# JSON: faults

Why a text is no JSON, and where. Places are counted in characters from the start of the text,
and shown with their line and column.

Results:
* `Json.lineOf_zero`: the first place is on the first line.
-/

namespace LuaCoverage
open LuaCoverage.Decimal

namespace Json

/-- Why a text is no JSON. -/
inductive Fault
  | noValue
  | noName
  | noColon
  | noComma
  | extraData
  | openString
  | controlCharacter
  | badEscape
  | badUnicodeEscape
  | byteOrderMark
  deriving DecidableEq, Repr

def Fault.text : Fault → String
  | .noValue => "Expecting value"
  | .noName => "Expecting property name enclosed in double quotes"
  | .noColon => "Expecting ':' delimiter"
  | .noComma => "Expecting ',' delimiter"
  | .extraData => "Extra data"
  | .openString => "Unterminated string starting at"
  | .controlCharacter => "Invalid control character at"
  | .badEscape => "Invalid \\escape"
  | .badUnicodeEscape => "Invalid \\uXXXX escape"
  | .byteOrderMark => "Unexpected UTF-8 BOM (decode using utf-8-sig)"

/-- A fault and the number of characters in front of it. -/
structure Failure where
  fault : Fault
  place : Nat
  deriving DecidableEq, Repr

/-- The line of a place, counted from one. -/
def lineOf (text : List Char) (place : Nat) : Nat := (text.take place).count '\n' + 1

@[simp] theorem lineOf_zero (text : List Char) : lineOf text 0 = 1 := by simp [lineOf]

/-- The column of a place, counted from one. -/
def columnOf (text : List Char) (place : Nat) : Nat :=
  ((text.take place).reverse.takeWhile (· != '\n')).length + 1

/-- A fault with its place in a text. -/
def Failure.message (failure : Failure) (text : List Char) : String :=
  failure.fault.text ++ ": line " ++ natText (lineOf text failure.place) ++ " column "
    ++ natText (columnOf text failure.place) ++ " (char " ++ natText failure.place ++ ")"

/-- White space between the parts of a JSON text. -/
def isSpace (c : Char) : Bool := c == ' ' || c == '\t' || c == '\n' || c == '\r'

/-- What is left of a text, and the number of characters in front of it. -/
structure Rest where
  place : Nat
  chars : List Char
  deriving Repr

namespace Rest

def skip (r : Rest) : Rest :=
  let back := r.chars.dropWhile isSpace
  ⟨r.place + (r.chars.length - back.length), back⟩

def advance (r : Rest) (count : Nat) : Rest := ⟨r.place + count, r.chars.drop count⟩

def fail {α : Type} (r : Rest) (fault : Fault) : Except Failure α := .error ⟨fault, r.place⟩

end Rest

end Json

end LuaCoverage

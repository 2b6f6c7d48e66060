import LuaCoverage.Data.Show
import LuaCoverage.Json.Text

/-!
# Writing JSON

A value is written on one line, or with every entry and item on a line of its own, behind a number
of blanks for each level. What is empty is written as two brackets. Text keeps to ASCII. What JSON
does not know is written as a string that shows it.
-/

namespace LuaCoverage
open LuaCoverage.Decimal

namespace Json

/-- How the parts of a value are set apart: on one line, or on lines with so many blanks for a
level. -/
inductive Layout
  | inline
  | lines (width : Nat)
  deriving DecidableEq, Repr

namespace Layout

/-- What stands in front of the first part at a level. -/
def opening (layout : Layout) (level : Nat) : String :=
  match layout with
  | .inline => ""
  | .lines width => String.ofList ('\n' :: List.replicate (width * level) ' ')

/-- What stands between two parts at a level. -/
def separator (layout : Layout) (level : Nat) : String :=
  match layout with
  | .inline => ", "
  | .lines _ => "," ++ layout.opening level

end Layout

/-- A floating point number; those that JSON does not know are words. -/
def floatText (x : Binary64) : String :=
  match x with
  | .nan => "NaN"
  | .infinity negative => if negative then "-Infinity" else "Infinity"
  | .finite _ _ _ => x.text

def scalarText : Scalar → String
  | .null => "null"
  | .bool b => if b then "true" else "false"
  | .int n => intText n
  | .float x => floatText x
  | .string s => quote s
  | other => quote other.shown

/-- A key, which is always a string. -/
def keyText : Scalar → String
  | .string s => quote s
  | .date d => quote d.text
  | .moment m => quote m.text
  | .bytes b => quote (Text.bytesLiteral b)
  | other => quote (scalarText other)

mutual
def render (layout : Layout) (level : Nat) : Value → String
  | .scalar s => scalarText s
  | .list [] => "[]"
  | .list (v :: rest) =>
    "[" ++ layout.opening (level + 1) ++ render layout (level + 1) v
      ++ renderItems layout (level + 1) rest ++ layout.opening level ++ "]"
  | .mapping [] => "\x7b\x7d"
  | .mapping ((k, v) :: rest) =>
    "\x7b" ++ layout.opening (level + 1) ++ keyText k ++ ": " ++ render layout (level + 1) v
      ++ renderEntries layout (level + 1) rest ++ layout.opening level ++ "\x7d"
  | .set members => quote (Value.set members).shown
  | .pair first second => quote (Value.pair first second).shown
/-- The items of a list behind its first. -/
def renderItems (layout : Layout) (level : Nat) : List Value → String
  | [] => ""
  | v :: rest =>
    layout.separator level ++ render layout level v ++ renderItems layout level rest
/-- The entries of a mapping behind its first. -/
def renderEntries (layout : Layout) (level : Nat) : List (Scalar × Value) → String
  | [] => ""
  | (k, v) :: rest =>
    layout.separator level ++ keyText k ++ ": " ++ render layout level v
      ++ renderEntries layout level rest
end

def print (layout : Layout) (v : Value) : String := render layout 0 v

end Json

end LuaCoverage

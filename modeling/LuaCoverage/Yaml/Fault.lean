import LuaCoverage.Data.Value
import LuaCoverage.Decimal.Integer
import LuaCoverage.Text.Literal

/-!
# What is wrong with a YAML text

A text may not be well formed, or hold a scalar that cannot be what its tag says. A document may
also hold itself, by an alias of a collection in that very collection; then it is no tree, and has
no value here.
-/

namespace LuaCoverage.Yaml
open LuaCoverage.Decimal LuaCoverage.Text

/-- Why a timestamp names no moment. -/
inductive ClockFault
  | year (n : Nat)
  | month
  | day
  | hour
  | minute
  | second
  | zone (minutes : Int)
  deriving DecidableEq, Repr

/-- Why a text cannot be read. -/
inductive Fault
  | malformed
  | recursive
  | codePoint (isHuge : Bool)
  | emptyNumber
  | integer (base : Nat) (text : String)
  | float (text : String)
  | bool (text : String)
  | timestamp
  | clock (f : ClockFault)
  deriving DecidableEq, Repr

/-- The parts of a length of time: whole days, rounded down, and seconds. -/
def durationText (minutes : Int) : String :=
  let days := minutes.fdiv 1440
  let seconds := minutes.fmod 1440 * 60
  let parts := (if days = 0 then [] else ["days=" ++ intText days])
    ++ (if seconds = 0 then [] else ["seconds=" ++ intText seconds])
  "datetime.timedelta(" ++ (if parts.isEmpty then "0" else ", ".intercalate parts) ++ ")"

def ClockFault.message : ClockFault → String
  | .year n => "year " ++ natText n ++ " is out of range"
  | .month => "month must be in 1..12"
  | .day => "day is out of range for month"
  | .hour => "hour must be in 0..23"
  | .minute => "minute must be in 0..59"
  | .second => "second must be in 0..59"
  | .zone minutes =>
    "offset must be a timedelta strictly between -timedelta(hours=24) and timedelta(hours=24), not "
      ++ durationText minutes ++ "."

def Fault.message : Fault → String
  | .malformed => "malformed YAML"
  | .recursive => "maximum recursion depth exceeded"
  | .codePoint isHuge =>
    if isHuge then "Python int too large to convert to C int"
    else "chr() arg not in range(0x110000)"
  | .emptyNumber => "string index out of range"
  | .integer base text => noInteger base (literal text)
  | .float text => "could not convert string to float: " ++ literal text
  | .bool text => literal text
  | .timestamp => "'NoneType' object has no attribute 'groupdict'"
  | .clock f => f.message

/-- A reader of texts: the value of the only document, if there is one. -/
abbrev Reader := String → Except Fault (Option Value)

end LuaCoverage.Yaml

import LuaCoverage.Data.Value

/-!
# How values are shown

A value inside a message: numbers as they are written, lists and mappings in brackets, texts as
literals. A text that stands alone is shown as it is.

Results:
* `Value.shown_string`: a text alone is itself.
-/

namespace LuaCoverage
open LuaCoverage.Decimal LuaCoverage.Text

namespace Date

/-- A day as year, month and day with dashes. -/
def text (d : Date) : String :=
  String.ofList (padded 4 d.year ++ '-' :: padded 2 d.month ++ '-' :: padded 2 d.day)

end Date

namespace Moment

/-- How far a clock is ahead, as hours and minutes. -/
def aheadText (minutes : Int) : List Char :=
  (if minutes < 0 then '-' else '+') :: padded 2 (minutes.natAbs / 60)
    ++ ':' :: padded 2 (minutes.natAbs % 60)

/-- A moment: the day, the time with its fraction if there is one, and the zone if it is known. -/
def text (m : Moment) : String :=
  String.ofList (m.date.text.toList ++ ' ' :: padded 2 m.hour ++ ':' :: padded 2 m.minute
    ++ ':' :: padded 2 m.second ++ (if m.micros = 0 then [] else '.' :: padded 6 m.micros)
    ++ (m.ahead.map aheadText).getD [])

/-- How far a clock is ahead, as a call. -/
def zoneLiteral (minutes : Int) : String :=
  let day := minutes.fdiv 1440
  let seconds := minutes.fmod 1440 * 60
  if minutes = 0 then "datetime.timezone.utc"
  else
    let parts := (if day = 0 then [] else ["days=" ++ intText day])
      ++ (if seconds = 0 then [] else ["seconds=" ++ intText seconds])
    "datetime.timezone(datetime.timedelta(" ++ ", ".intercalate parts ++ "))"

end Moment

namespace Scalar

/-- A scalar as it is shown inside a list. -/
def literal : Scalar → String
  | .null => "None"
  | .bool b => if b then "True" else "False"
  | .int n => intText n
  | .float x => x.text
  | .string s => Text.literal s
  | .date d =>
    "datetime.date(" ++ natText d.year ++ ", " ++ natText d.month ++ ", " ++ natText d.day ++ ")"
  | .moment m =>
    let clock := [m.date.year, m.date.month, m.date.day, m.hour, m.minute]
      ++ (if m.second = 0 && m.micros = 0 then [] else [m.second])
      ++ (if m.micros = 0 then [] else [m.micros])
    let zone := (m.ahead.map fun minutes => ["tzinfo=" ++ Moment.zoneLiteral minutes]).getD []
    "datetime.datetime(" ++ ", ".intercalate (clock.map natText ++ zone) ++ ")"
  | .bytes b => bytesLiteral b

/-- A scalar as it is shown alone. -/
def shown : Scalar → String
  | .string s => s
  | .date d => d.text
  | .moment m => m.text
  | other => other.literal

/-- The name of the type of a scalar. -/
def typeName : Scalar → String
  | .null => "NoneType"
  | .bool _ => "bool"
  | .int _ => "int"
  | .float _ => "float"
  | .string _ => "str"
  | .date _ => "datetime.date"
  | .moment _ => "datetime.datetime"
  | .bytes _ => "bytes"

end Scalar

namespace Value

mutual
/-- A value as it is shown inside a list. -/
def literal : Value → String
  | .scalar s => s.literal
  | .list items => "[" ++ ", ".intercalate (literals items) ++ "]"
  | .mapping entries => "\x7b" ++ ", ".intercalate (entryLiterals entries) ++ "\x7d"
  | .set [] => "set()"
  | .set members => "\x7b" ++ ", ".intercalate (members.map Scalar.literal) ++ "\x7d"
  | .pair first second => "(" ++ first.literal ++ ", " ++ second.literal ++ ")"
/-- The values of a list as they are shown. -/
def literals : List Value → List String
  | [] => []
  | v :: rest => v.literal :: literals rest
/-- The entries of a mapping as they are shown. -/
def entryLiterals : List (Scalar × Value) → List String
  | [] => []
  | (k, v) :: rest => (k.literal ++ ": " ++ v.literal) :: entryLiterals rest
end

/-- A value as it is shown alone. -/
def shown : Value → String
  | .scalar s => s.shown
  | other => other.literal

@[simp] theorem shown_string (s : String) : (Value.string s).shown = s := rfl

/-- The name of the type of a value. -/
def typeName : Value → String
  | .scalar s => s.typeName
  | .list _ => "list"
  | .mapping _ => "dict"
  | .set _ => "set"
  | .pair _ _ => "tuple"

end Value

end LuaCoverage

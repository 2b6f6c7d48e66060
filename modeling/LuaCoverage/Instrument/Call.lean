import LuaCoverage.Analysis.Site
import LuaCoverage.Decimal.Integer
import LuaCoverage.Instrument.Prelude
import LuaCoverage.Text.Class.Basic

/-!
# Probe calls

What is written at a site. A probe call names the module, the kind, the id and, for a branch, the
arm. The call around an operand gives the operand back; around a condition its kind is `c`, and
the arm is chosen when it runs.

The name of a module is a string literal on one line: double quotes and backslashes behind a
backslash, ASCII control characters as three decimal digits. `unquote?` scans such a literal at the
front of a text and gives what it stands for and what follows it.

Results:
* `Lua.quoteChar_ne_nil`: every character is written.
* `Call.text_closer`: a closer is one parenthesis.
-/

namespace LuaCoverage.Lua
open LuaCoverage.Text LuaCoverage.Decimal

/-- How one character is written between quotes. -/
def quoteChar (c : Char) : List Char :=
  if c == '"' || c == '\\' then ['\\', c]
  else if c.toNat < 0x20 || c.toNat == 0x7f then '\\' :: padded 3 c.toNat
  else [c]

theorem quoteChar_ne_nil (c : Char) : quoteChar c ≠ [] := by
  unfold quoteChar
  split
  · simp
  · split <;> simp

/-- The literal of a text, as characters. -/
def quoteChars (text : List Char) : List Char := '"' :: text.flatMap quoteChar ++ ['"']

def quote (text : String) : String := String.ofList (quoteChars text.toList)

/-- The ASCII character whose code three digits tell. -/
def ofCode? (a b c : Char) : Option Char :=
  let code := ((a.toNat - 48) * 10 + (b.toNat - 48)) * 10 + (c.toNat - 48)
  if [a, b, c].all isAsciiDigit && code < 0x80 then some (Char.ofNat code) else none

/-- Scans a literal behind its opening quote: up to the first quote that no backslash precedes,
with the escapes of quotes, backslashes and decimal codes. A literal does not go over the end of a
line. -/
def unquoteRest? : List Char → Option (List Char × List Char)
  | [] => none
  | '"' :: rest => some ([], rest)
  | '\\' :: '"' :: rest => (unquoteRest? rest).map fun (text, behind) => ('"' :: text, behind)
  | '\\' :: '\\' :: rest => (unquoteRest? rest).map fun (text, behind) => ('\\' :: text, behind)
  | '\\' :: a :: b :: c :: rest =>
    (ofCode? a b c).bind fun char =>
      (unquoteRest? rest).map fun (text, behind) => (char :: text, behind)
  | '\\' :: _ => none
  | c :: rest =>
    if c = '\n' || c = '\r' then none
    else (unquoteRest? rest).map fun (text, behind) => (c :: text, behind)

/-- Scans a literal at the front of a text. -/
def unquote? : List Char → Option (List Char × List Char)
  | '"' :: rest => unquoteRest? rest
  | _ => none

end LuaCoverage.Lua

namespace LuaCoverage
open LuaCoverage.Decimal

namespace Call

/-- The kind that leaves the arm to the value of the condition. -/
def conditionCode : String := "c"

/-- An arm as a number; a site that has none shows so. -/
def armText (arm : Option Int) : String := (arm.map intText).getD "None"

/-- The start of a probe call, up to its id. -/
def opening (name : ProbeName) (path code : String) (id : Int) : String :=
  name.text ++ "(" ++ Lua.quote path ++ ", \"" ++ code ++ "\", " ++ intText id

def alone (name : ProbeName) (path : String) (s : Site) : String :=
  let arm := if s.kind = .branch then ", " ++ armText s.arm else ""
  opening name path s.kind.code s.id ++ arm ++ ");"

def text (name : ProbeName) (path : String) (s : Site) : String :=
  match s.style with
  | .closer => ")"
  | .conditionOpener => " " ++ opening name path conditionCode s.id ++ ", nil, "
  | .opener => " " ++ opening name path s.kind.code s.id ++ ", " ++ armText s.arm ++ ", "
  | .elseArm => " else " ++ alone name path s ++ " "
  | .statement => " " ++ alone name path s

theorem text_closer (name : ProbeName) (path : String) {s : Site} (h : s.style = .closer) :
    text name path s = ")" := by
  simp [text, h]

end Call

end LuaCoverage

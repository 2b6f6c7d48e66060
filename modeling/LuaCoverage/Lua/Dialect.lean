import LuaCoverage.Path
import LuaCoverage.Text.Class.Basic

/-!
# The two dialects

Lua, and Luau with its types, casts, compound assignments and if expressions. The dialect decides
which words start a statement, which symbols are operators, and which characters a name may hold.
The suffix of a path shows the dialect of its file, in letters of either case.

Results:
* `Dialect.ofName?_name`: a dialect is found by its name.
-/

namespace LuaCoverage.Lua
open LuaCoverage.Text

/-- The language a module is written in. -/
inductive Dialect
  | lua
  | luau
  deriving DecidableEq, Repr

namespace Dialect

/-- The name by which a dialect is configured. -/
def name : Dialect → String
  | .lua => "lua"
  | .luau => "luau"

def ofName? (s : String) : Option Dialect :=
  if s = "lua" then some .lua else if s = "luau" then some .luau else none

@[simp] theorem ofName?_name (d : Dialect) : ofName? d.name = some d := by
  cases d <;> decide

/-- The suffix of the files of a dialect. -/
def suffix (d : Dialect) : String := "." ++ d.name

/-- The dialect of the files with a suffix. -/
def ofSuffix? (suffix : String) : Option Dialect :=
  [lua, luau].find? fun d => d.suffix.toList == suffix.toList.map Char.toLower

/-- The dialect that the suffix of a path shows. -/
def ofPath? (path : Path) : Option Dialect := ofSuffix? path.suffix

def marks : Dialect → List Char
  | .lua => "+-*/%^#&~|<>=()\x7b\x7d[];:,.\\'\"".toList
  | .luau => "+-*/%^#&~|<>=()\x7b\x7d[];:,.\\'\"\x60?".toList

/-- Whether `c` may stand in a name. Beyond ASCII all but the control characters may. -/
def isNamePart (d : Dialect) (c : Char) : Bool :=
  !isControl c && !isAsciiSpace c && !d.marks.contains c

def isNameStart (d : Dialect) (c : Char) : Bool :=
  d.isNamePart c && !isAsciiDigit c

def statementWords : Dialect → List String
  | .lua => ["break", "goto", "do", "while", "repeat", "if", "for", "function", "local", "return"]
  | .luau => ["break", "continue", "do", "while", "repeat", "if", "for", "function", "local",
      "return", "type", "export"]

/-- The words that start an expression other than a name. -/
def expressionWords : Dialect → List String
  | .lua => ["nil", "false", "true", "function", "not"]
  | .luau => ["nil", "false", "true", "function", "not", "if"]

/-- A binary operator: its text, its level, and whether it groups to the right. -/
structure Infix where
  text : String
  level : Nat
  rightward : Bool
  deriving Repr

def wordOperators : List Infix := [⟨"or", 1, false⟩, ⟨"and", 2, false⟩]

/-- The operators written as marks, the longer ones first. -/
def markOperators : Dialect → List Infix
  | .lua => [⟨"<=", 3, false⟩, ⟨"==", 3, false⟩, ⟨"~=", 3, false⟩, ⟨">=", 3, false⟩,
      ⟨"<<", 7, false⟩, ⟨">>", 7, false⟩, ⟨"//", 10, false⟩, ⟨"..", 8, true⟩, ⟨"<", 3, false⟩,
      ⟨">", 3, false⟩, ⟨"|", 4, false⟩, ⟨"~", 5, false⟩, ⟨"&", 6, false⟩, ⟨"+", 9, false⟩,
      ⟨"-", 9, false⟩, ⟨"*", 10, false⟩, ⟨"/", 10, false⟩, ⟨"%", 10, false⟩, ⟨"^", 12, true⟩]
  | .luau => [⟨"<=", 3, false⟩, ⟨"==", 3, false⟩, ⟨"~=", 3, false⟩, ⟨">=", 3, false⟩,
      ⟨"//", 10, false⟩, ⟨"..", 8, true⟩, ⟨"<", 3, false⟩, ⟨">", 3, false⟩, ⟨"+", 9, false⟩,
      ⟨"-", 9, false⟩, ⟨"*", 10, false⟩, ⟨"/", 10, false⟩, ⟨"%", 10, false⟩, ⟨"^", 13, true⟩]

def unaryLevel : Dialect → Nat
  | .lua => 11
  | .luau => 12

def unaryMarks : Dialect → List String
  | .lua => ["-", "#", "~"]
  | .luau => ["-", "#"]

/-- The level of a type cast, above the multiplications and below the unary operators. -/
def castLevel : Nat := 11

/-- The operators of a compound assignment, the longer ones first. -/
def updateMarks : Dialect → List String
  | .lua => []
  | .luau => ["//=", "..=", "+=", "-=", "*=", "/=", "%=", "^="]

/-- The words that name a built-in type. -/
def typeWords : List String :=
  ["thread", "buffer", "any", "userdata", "unknown", "never", "string", "number", "table",
    "boolean", "nil"]

end Dialect

end LuaCoverage.Lua

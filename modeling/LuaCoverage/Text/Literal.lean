import LuaCoverage.Decimal.Integer
import LuaCoverage.Text.Class.Printable

/-!
# Text literals

How a text is shown in a message or inside a list: between quotes, with every character that does
not print written as an escape. The quotes are single ones, unless the text holds a single quote
and no double quote.

Results:
* `quoteFor_eq_double_iff`: when double quotes are chosen.
-/

namespace LuaCoverage.Text

namespace Literal

/-- The quote that goes around a text. -/
def quoteFor (text : List Char) : Char :=
  if text.contains '\'' && !text.contains '"' then '"' else '\''

theorem quoteFor_eq_double_iff (text : List Char) :
    quoteFor text = '"' ↔ '\'' ∈ text ∧ '"' ∉ text := by
  simp only [quoteFor, Bool.and_eq_true, Bool.not_eq_true', List.contains_eq_mem,
    decide_eq_true_eq, decide_eq_false_iff_not]
  split <;> simp_all

/-- How one character is shown between quotes. -/
def escape (quote c : Char) : List Char :=
  if c == quote || c == '\\' then ['\\', c]
  else if c == '\n' then ['\\', 'n']
  else if c == '\r' then ['\\', 'r']
  else if c == '\t' then ['\\', 't']
  else if isPrintable c then [c]
  else if c.toNat < 0x100 then '\\' :: 'x' :: hexDigits 2 c.toNat
  else if c.toNat < 0x10000 then '\\' :: 'u' :: hexDigits 4 c.toNat
  else '\\' :: 'U' :: hexDigits 8 c.toNat

end Literal

/-- A text as it is shown inside other text. -/
def literal (text : String) : String :=
  let chars := text.toList
  let quote := Literal.quoteFor chars
  String.ofList (quote :: chars.flatMap (Literal.escape quote) ++ [quote])

/-- Bytes as they are shown inside other text: those of ASCII as their characters, all others as
escapes. -/
def bytesLiteral (bytes : List UInt8) : String :=
  let chars := bytes.map fun b => Char.ofNat b.toNat
  let quote := Literal.quoteFor chars
  let shown := chars.flatMap fun c =>
    if isAscii c then Literal.escape quote c else '\\' :: 'x' :: hexDigits 2 c.toNat
  String.ofList ('b' :: quote :: shown ++ [quote])

end LuaCoverage.Text

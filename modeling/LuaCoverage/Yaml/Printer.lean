import LuaCoverage.Data.Show
import LuaCoverage.Yaml.Style

/-!
# Writing YAML

A value is written in blocks: every entry and every item on a line of its own. The items of a list
in a mapping are indented as far as the keys. An empty list or mapping is written as two brackets.
Bytes, sets and pairs are written as strings that show them.

Results:
* `Yaml.render_empty_list`: an empty list stays on the line of its key.
-/

namespace LuaCoverage.Yaml
open LuaCoverage.Decimal LuaCoverage.Text

/-- The column behind which lines are broken. -/
def lineWidth : Nat := 80

/-- How much further in a nested collection stands. -/
def indentStep : Nat := 2

def floatText (x : Binary64) : List Char :=
  match x with
  | .nan => ".nan".toList
  | .infinity negative => if negative then "-.inf".toList else ".inf".toList
  | .finite _ _ _ =>
    let text := x.text.toList
    if text.contains '.' then text
    else text.takeWhile (· ≠ 'e') ++ ".0".toList ++ text.dropWhile (· ≠ 'e')

def scalarText (m : Margin) (column : Nat) : Scalar → List Char
  | .null => "null".toList
  | .bool b => if b then "true".toList else "false".toList
  | .int n => intDigits n
  | .float x => floatText x
  | .string s => m.string column s.toList
  | .date d => d.text.toList
  | .moment d => d.text.toList
  | .bytes b => m.string column (bytesLiteral b).toList

/-- The blanks in front of a line. -/
def padding (indent : Nat) : List Char := List.replicate indent ' '

def keyText (k : Scalar) : List Char := scalarText ⟨lineWidth, 0, false⟩ 0 k

/-- A value that has no form of its own, behind a key or a dash at a column. -/
def shownText (indent column : Nat) (v : Value) : List Char :=
  ' ' :: scalarText ⟨lineWidth, indent + indentStep, true⟩ (column + 1) (.string v.shown) ++ ['\n']

mutual
/-- What follows a key, from a column on, up to the end of its lines. -/
def render (indent column : Nat) : Value → List Char
  | .scalar s =>
    ' ' :: scalarText ⟨lineWidth, indent + indentStep, true⟩ (column + 1) s ++ ['\n']
  | .list [] => " []\n".toList
  | .list (v :: rest) => '\n' :: renderItems indent (v :: rest)
  | .mapping [] => " \x7b\x7d\n".toList
  | .mapping (e :: rest) => '\n' :: renderEntries (indent + indentStep) (e :: rest)
  | .set members => shownText indent column (.set members)
  | .pair first second => shownText indent column (.pair first second)
/-- What follows a dash. The first line of a collection is not indented again. -/
def renderItem (indent : Nat) : Value → List Char
  | .scalar s =>
    ' ' :: scalarText ⟨lineWidth, indent + indentStep, true⟩ (indent + 2) s ++ ['\n']
  | .list [] => " []\n".toList
  | .list (v :: rest) =>
    ' ' :: (renderItems (indent + indentStep) (v :: rest)).drop (indent + indentStep)
  | .mapping [] => " \x7b\x7d\n".toList
  | .mapping (e :: rest) =>
    ' ' :: (renderEntries (indent + indentStep) (e :: rest)).drop (indent + indentStep)
  | .set members => shownText indent (indent + 1) (.set members)
  | .pair first second => shownText indent (indent + 1) (.pair first second)
def renderItems (indent : Nat) : List Value → List Char
  | [] => []
  | v :: rest => padding indent ++ '-' :: renderItem indent v ++ renderItems indent rest
def renderEntries (indent : Nat) : List (Scalar × Value) → List Char
  | [] => []
  | (k, v) :: rest =>
    let key := keyText k
    padding indent ++ key ++ ':' :: render indent (indent + key.length + 1) v
      ++ renderEntries indent rest
end

theorem render_empty_list (indent column : Nat) :
    render indent column (.list []) = " []\n".toList := rfl

def print (entries : List (Scalar × Value)) : String := String.ofList (renderEntries 0 entries)

end LuaCoverage.Yaml

import LuaCoverage.Data.Table
import LuaCoverage.Data.Value
import LuaCoverage.Text.Class.Word

/-!
# Placeholders

Variables of the environment in the texts of a configuration: a dollar sign and a name in braces
stand for the value of that variable, or for nothing if there is none. What a variable holds is
not looked at again. Placeholders count in the values of mappings and in the items of lists that
are such values, but not in keys.

Results:
* `Placeholder.fill_nil`: an empty text stays empty.
-/

namespace LuaCoverage
open LuaCoverage.Text

abbrev Environment := Table String String

namespace Placeholder

/-- The name in the placeholder at the front of a text. -/
def name? : List Char → Option (List Char)
  | '$' :: '\x7b' :: rest =>
    let name := rest.takeWhile isWordChar
    if !name.isEmpty && (rest.dropWhile isWordChar).head? = some '\x7d' then some name else none
  | _ => none

/-- The names in the placeholders of a text. -/
def names : List Char → List String
  | [] => []
  | c :: rest =>
    match name? (c :: rest) with
    | some name => String.ofList name :: names rest
    | none => names rest

/-- Fills in the placeholders of a text whose first `skip` characters belong to one already
filled in. -/
def fillFrom (env : Environment) : (skip : Nat) → List Char → List Char
  | _, [] => []
  | skip + 1, _ :: rest => fillFrom env skip rest
  | 0, c :: rest =>
    match name? (c :: rest) with
    | some name =>
      ((env.find? (String.ofList name)).getD "").toList ++ fillFrom env (name.length + 2) rest
    | none => c :: fillFrom env 0 rest

/-- Fills in the placeholders of a text. -/
def fill (env : Environment) (text : String) : String :=
  String.ofList (fillFrom env 0 text.toList)

@[simp] theorem fill_nil (env : Environment) : fill env "" = "" := rfl

/-- Fills in a text; any other value is left alone. -/
def fillItem (env : Environment) (v : Value) : Value :=
  match v with
  | .scalar (.string text) => .string (fill env text)
  | other => other

mutual
/-- Fills in the value of an entry. -/
def fillValue (env : Environment) : Value → Value
  | .scalar s => fillItem env (.scalar s)
  | .list items => .list (items.map (fillItem env))
  | .mapping entries => .mapping (fillEntries env entries)
  | .set members => .set members
  | .pair first second => .pair first second
def fillEntries (env : Environment) : List (Scalar × Value) → List (Scalar × Value)
  | [] => []
  | (k, v) :: rest => (k, fillValue env v) :: fillEntries env rest
end

end Placeholder

end LuaCoverage

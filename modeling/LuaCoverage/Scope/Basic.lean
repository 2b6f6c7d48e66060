import LuaCoverage.Path
import LuaCoverage.Scope.Glob
import LuaCoverage.Text.Class.Basic
import LuaCoverage.Text.Order
import LuaCoverage.Text.Ends

/-!
# Scopes

A scope names the modules at or below a path; it may hold wildcards. The empty scope and a single
dot name the root, which contains every module. A scope contains a module if its pattern matches
the first segments of the module's path, however many.

A selection of modules is given by the scopes to include and those to exclude; exclusion wins.

Results:
* `Scope.contains_root`: the root contains every module.
* `Selection.isExcluded_of_mem`: one scope to exclude is enough.
-/

namespace LuaCoverage

namespace Scope
open LuaCoverage.Text

/-- A scope in its normal form: slashes for backslashes, no blanks around it, then no slashes
around it, and nothing for a single dot. -/
def normalizeChars (scope : List Char) : List Char :=
  let slashed := scope.map fun c => if c = '\\' then '/' else c
  let cleaned := trim (· == '/') (trim isBlank slashed)
  if cleaned = ['.'] then [] else cleaned

def normalize (scope : String) : String := String.ofList (normalizeChars scope.toList)

/-- The texts that the first segments make, for every number of them. -/
def heads : List (List Char) → List (List Char)
  | [] => []
  | segment :: rest => segment :: (heads rest).map fun head => segment ++ '/' :: head

/-- Whether a module lies at or below a scope. -/
def contains (scope path : String) : Bool :=
  let pattern := normalizeChars scope.toList
  pattern.isEmpty ||
    (heads (Path.pieces (normalizeChars path.toList))).any
      (Glob.matchesParts (Glob.parts pattern))

theorem contains_root (path : String) : contains "" path = true := by
  simp [contains, normalizeChars]

/-- The scopes that are excluded unless others are given: folders of packages at any depth. -/
def standardExcludes : List String :=
  ["Packages", "*/Packages", "_Index", "*/_Index", "node_modules", "*/node_modules", "vendor",
    "*/vendor"]

/-- The scopes that are included unless others are given: the root. -/
def standardIncludes : List String := ["."]

end Scope

/-- Which modules are instrumented, by scopes in normal form and in order. -/
structure Selection where
  included : List String
  excluded : List String
  deriving DecidableEq, Repr

namespace Selection

/-- The selection by scopes of any form. -/
def ofScopes (included excluded : List String) : Selection :=
  ⟨Text.textSet (included.map Scope.normalize), Text.textSet (excluded.map Scope.normalize)⟩

def isExcluded (s : Selection) (path : String) : Bool :=
  s.excluded.any fun scope => Scope.contains scope path

/-- Whether a module is included and not excluded. -/
def allows (s : Selection) (path : String) : Bool :=
  !s.isExcluded path && s.included.any fun scope => Scope.contains scope path

theorem isExcluded_of_mem {s : Selection} {scope path : String} (hs : scope ∈ s.excluded)
    (hp : Scope.contains scope path = true) : s.isExcluded path = true :=
  List.any_eq_true.2 ⟨scope, hs, hp⟩

end Selection

end LuaCoverage

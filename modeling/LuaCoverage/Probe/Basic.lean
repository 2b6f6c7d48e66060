/-!
# Probes

A probe is a place in a module whose executions are counted. There are three kinds: statements,
functions, and branches with one counter for every path that control can take. The probes of one
module make its *probe map*.

Results:
* `ProbeKind.ofCode?_code`: a kind is found by its code.
* `ProbeKind.ofCode?_eq_some`: only the three codes are found.
-/

namespace LuaCoverage

/-- What a probe counts. -/
inductive ProbeKind
  | statement
  | function
  | branch
  deriving DecidableEq, Repr

namespace ProbeKind

/-- The letter by which probe calls and dumps name a kind. -/
def code : ProbeKind → String
  | .statement => "s"
  | .function => "f"
  | .branch => "b"

def ofCode? (code : String) : Option ProbeKind :=
  if code = "s" then some .statement
  else if code = "f" then some .function
  else if code = "b" then some .branch
  else none

@[simp] theorem ofCode?_code (kind : ProbeKind) : ofCode? kind.code = some kind := by
  cases kind <;> decide

theorem ofCode?_eq_some {code : String} {kind : ProbeKind} (h : ofCode? code = some kind) :
    code = kind.code := by
  unfold ofCode? at h
  split at h
  · next hc => cases h; exact hc
  · split at h
    · next hc => cases h; exact hc
    · split at h
      · next hc => cases h; exact hc
      · simp at h

end ProbeKind

/-- A place in a source: the line, counted from one, and the characters before it in the line. -/
structure Position where
  line : Int
  column : Int
  deriving DecidableEq, Repr

/-- A span of a source. -/
structure Location where
  start : Position
  stop : Position
  deriving DecidableEq, Repr

/-- A statement that is counted. -/
structure StatementProbe where
  id : Int
  loc : Location
  deriving DecidableEq, Repr

/-- A function whose calls are counted. The declaration spans from the keyword to the name, the
location from the parameters to the end. -/
structure FunctionProbe where
  id : Int
  name : String
  decl : Location
  loc : Location
  line : Int
  deriving DecidableEq, Repr

/-- A branch: its type, its span, and the location of each of its paths. -/
structure BranchProbe where
  id : Int
  type : String
  line : Int
  loc : Location
  locations : List Location
  deriving DecidableEq, Repr

/-- The number of paths of a branch. -/
def BranchProbe.pathCount (probe : BranchProbe) : Nat := probe.locations.length

/-- The probes of a module. The ids of each kind are meant to count up from `idBase`. -/
structure ProbeMap where
  path : String
  idBase : Int
  statements : List StatementProbe
  functions : List FunctionProbe
  branches : List BranchProbe
  deriving DecidableEq, Repr

end LuaCoverage

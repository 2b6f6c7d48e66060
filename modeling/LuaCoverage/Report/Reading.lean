import LuaCoverage.Json.Reader
import LuaCoverage.Report.Record

/-!
# Reading reports

A report is read from a mapping of paths to records. A record needs all its keys, the ids of the
counts have to be those of the locations, and a branch needs a count for every location.

Results:
* `Record.check_eq_none_iff`: what a record has to satisfy.
-/

namespace LuaCoverage
open LuaCoverage.Decimal

/-- Why data is no record or no report. -/
inductive SchemaError
  | notJson (text : String)
  | reportNotEntries
  | recordNotEntries
  | missingKeys (keys : List String)
  | malformed (path : String) (m : Mismatch)
  | ids (path counts map : String)
  | arms (path : String) (id : Int) (given expected : Nat)
  | otherPath (key path : String)
  deriving DecidableEq, Repr

namespace SchemaError

/-- Whether the fault is a number beyond all integers. It is passed on as it is. -/
def isOverflow : SchemaError → Bool
  | .malformed _ m => m.group == .overflow
  | _ => false

def message (e : SchemaError) : String :=
  match e with
  | .notJson text => "invalid coverage JSON: " ++ text
  | .reportNotEntries => "coverage report must be an object keyed by module path"
  | .recordNotEntries => "coverage record must be an object"
  | .missingKeys keys => "coverage record is missing keys: " ++ ", ".intercalate keys
  | .malformed path m =>
    if e.isOverflow then m.message
    else path ++ ": malformed coverage record (" ++ m.message ++ ")"
  | .ids path counts map => path ++ ": '" ++ counts ++ "' ids do not match '" ++ map ++ "'"
  | .arms path id given expected =>
    path ++ ": branch " ++ intText id ++ " has " ++ natText given ++ " counts, expected "
      ++ natText expected
  | .otherPath key path =>
    "record key " ++ Text.literal key ++ " does not match path " ++ Text.literal path

end SchemaError

namespace Value

/-- The entries of a mapping as a table under integer keys. -/
def toTable {α : Type} (decode : Value → Except Mismatch α) (v : Value) :
    Except Mismatch (Table Int α) := do
  let pairs ← (← v.toEntries).mapM fun (key, value) => do
    let id ← key.toInt
    let decoded ← decode value
    .ok (id, decoded)
  .ok (Table.ofPairs pairs)

def toInts (v : Value) : Except Mismatch (List Int) := do (← v.toItems).mapM toInt

end Value

/-- The function entry that data stands for. -/
def FunctionEntry.ofValue (v : Value) : Except Mismatch FunctionEntry := do
  let name := (← v.entry "name").shown
  let decl ← Location.ofValue (← v.entry "decl")
  let loc ← Location.ofValue (← v.entry "loc")
  let line ← (← v.entry "line").toInt
  .ok ⟨name, decl, loc, line⟩

/-- The branch entry that data stands for. -/
def BranchEntry.ofValue (v : Value) : Except Mismatch BranchEntry := do
  let type := (← v.entry "type").shown
  let line ← (← v.entry "line").toInt
  let loc ← Location.ofValue (← v.entry "loc")
  let locations ← (← v.entry "locations").toLocations
  .ok ⟨type, line, loc, locations⟩

namespace Record

def keys : List String := ["path", "statementMap", "fnMap", "branchMap", "s", "f", "b"]

/-- The tables of a record, not checked against each other. -/
def tables (path : String) (v : Value) : Except Mismatch Record := do
  let statementMap ← (← v.entry "statementMap").toTable Location.ofValue
  let functionMap ← (← v.entry "fnMap").toTable FunctionEntry.ofValue
  let branchMap ← (← v.entry "branchMap").toTable BranchEntry.ofValue
  let statements ← (← v.entry "s").toTable Value.toInt
  let functions ← (← v.entry "f").toTable Value.toInt
  let branches ← (← v.entry "b").toTable Value.toInts
  .ok ⟨path, statementMap, functionMap, branchMap, statements, functions, branches⟩

/-- Whether two tables have the same keys, in any order. -/
def sameKeys {α β : Type} (a : Table Int α) (b : Table Int β) : Bool :=
  a.keys.all b.keys.contains && b.keys.all a.keys.contains

/-- The number of paths of a branch. -/
def pathCount (r : Record) (id : Int) : Nat :=
  ((r.branchMap.find? id).map fun entry => entry.locations.length).getD 0

/-- The first branch with a wrong number of counts. -/
def badBranch? (r : Record) : Option (Int × List Int) :=
  List.find? (fun entry => entry.2.length != r.pathCount entry.1) r.branches

def check (r : Record) : Option SchemaError :=
  if !sameKeys r.statements r.statementMap then some (.ids r.path "s" "statementMap")
  else if !sameKeys r.functions r.functionMap then some (.ids r.path "f" "fnMap")
  else if !sameKeys r.branches r.branchMap then some (.ids r.path "b" "branchMap")
  else r.badBranch?.map fun (id, counts) => .arms r.path id counts.length (r.pathCount id)

theorem check_eq_none_iff (r : Record) :
    r.check = none ↔ sameKeys r.statements r.statementMap = true
      ∧ sameKeys r.functions r.functionMap = true ∧ sameKeys r.branches r.branchMap = true
      ∧ ∀ entry ∈ r.branches, entry.2.length = r.pathCount entry.1 := by
  unfold check
  split
  · simp_all
  · split
    · simp_all
    · split
      · simp_all
      · simp_all [badBranch?]

def ofValue (v : Value) : Except SchemaError Record := do
  match v with
  | .mapping entries =>
    let missing := keys.filter fun key => (Value.lookup entries key).isNone
    if !missing.isEmpty then .error (.missingKeys missing)
    else
      let path := ((v.get? "path").map Value.shown).getD ""
      let r ← (tables path v).mapError (.malformed path)
      match r.check with
      | some e => .error e
      | none => .ok r
  | _ => .error .recordNotEntries

end Record

namespace Report

/-- The record of an entry, whose path has to be its key. -/
def entryOf (entry : Scalar × Value) : Except SchemaError (String × Record) := do
  let r ← Record.ofValue entry.2
  if r.path = entry.1.shown then .ok (r.path, r)
  else .error (.otherPath entry.1.shown r.path)

def ofValue : Value → Except SchemaError Report
  | .mapping entries => do
    let records ← entries.mapM entryOf
    .ok ⟨Table.ofPairs records⟩
  | _ => .error .reportNotEntries

def parse (text : String) : Except SchemaError Report :=
  match Json.parse text with
  | .ok v => ofValue v
  | .error fault => .error (.notJson fault)

end Report

end LuaCoverage

import LuaCoverage.Data.Table
import LuaCoverage.Probe.Encoding

/-!
# Coverage records

A record is the coverage of one module in the form that renderers read: the locations of its
probes, and their counts, all under the ids of the probes. A report is a record for every module.

Results:
* `Report.empty_toValue`: a report without modules is an empty mapping.
-/

namespace LuaCoverage
open LuaCoverage.Decimal

/-- What a record says about a function. -/
structure FunctionEntry where
  name : String
  decl : Location
  loc : Location
  line : Int
  deriving DecidableEq, Repr

/-- What a record says about a branch. -/
structure BranchEntry where
  type : String
  line : Int
  loc : Location
  locations : List Location
  deriving DecidableEq, Repr

/-- The coverage of a module. -/
structure Record where
  path : String
  statementMap : Table Int Location
  functionMap : Table Int FunctionEntry
  branchMap : Table Int BranchEntry
  statements : Table Int Int
  functions : Table Int Int
  branches : Table Int (List Int)
  deriving DecidableEq, Repr

/-- A table under the texts of its keys, as data. -/
def Table.toValue {α : Type} (table : Table Int α) (encode : α → Value) : Value :=
  .object (table.map fun (key, v) => (intText key, encode v))

def FunctionEntry.toValue (e : FunctionEntry) : Value :=
  .object [("name", .string e.name), ("decl", e.decl.toValue), ("loc", e.loc.toValue),
    ("line", .int e.line)]

def BranchEntry.toValue (e : BranchEntry) : Value :=
  .object [("type", .string e.type), ("line", .int e.line), ("loc", e.loc.toValue),
    ("locations", .list (e.locations.map Location.toValue))]

def Record.toValue (r : Record) : Value :=
  .object [("path", .string r.path),
    ("statementMap", r.statementMap.toValue Location.toValue),
    ("fnMap", r.functionMap.toValue FunctionEntry.toValue),
    ("branchMap", r.branchMap.toValue BranchEntry.toValue),
    ("s", r.statements.toValue Value.int),
    ("f", r.functions.toValue Value.int),
    ("b", r.branches.toValue fun counts => .list (counts.map Value.int))]

/-- The coverage of modules. -/
structure Report where
  records : Table String Record
  deriving DecidableEq, Repr

def Report.toValue (r : Report) : Value :=
  .object (r.records.map fun (path, record) => (path, record.toValue))

@[simp] theorem Report.empty_toValue : Report.toValue ⟨[]⟩ = .mapping [] := rfl

end LuaCoverage

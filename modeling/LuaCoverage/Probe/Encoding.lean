import LuaCoverage.Data.Convert
import LuaCoverage.Probe.Basic

/-!
# Probe maps as data

The form in which probe maps travel: mappings with fixed keys. Reading converts what it finds to
texts and integers; the lists of probes and the first id may be left out.

Results:
* `Position.ofValue_toValue`, `Location.ofValue_toValue`: what was written is read back.
-/

namespace LuaCoverage

namespace Position

def toValue (p : Position) : Value :=
  .object [("line", .int p.line), ("column", .int p.column)]

def ofValue (v : Value) : Except Mismatch Position := do
  let line ← (← v.entry "line").toInt
  let column ← (← v.entry "column").toInt
  .ok ⟨line, column⟩

@[simp] theorem ofValue_toValue (p : Position) : ofValue p.toValue = .ok p := by
  simp [ofValue, toValue, Value.object, Value.entry, Value.lookup, bind, Except.bind]

end Position

namespace Location

def toValue (l : Location) : Value :=
  .object [("start", l.start.toValue), ("end", l.stop.toValue)]

def ofValue (v : Value) : Except Mismatch Location := do
  let start ← Position.ofValue (← v.entry "start")
  let stop ← Position.ofValue (← v.entry "end")
  .ok ⟨start, stop⟩

@[simp] theorem ofValue_toValue (l : Location) : ofValue l.toValue = .ok l := by
  simp [ofValue, toValue, Value.object, Value.entry, Value.lookup, bind, Except.bind]

end Location

namespace Value

/-- The items of an entry that may be left out. -/
def itemsAt (key : String) (v : Value) : Except Mismatch (List Value) := do
  match ← v.entry? key with
  | some items => items.toItems
  | none => .ok []

def toLocations (v : Value) : Except Mismatch (List Location) := do
  (← v.toItems).mapM Location.ofValue

end Value

namespace StatementProbe

def toValue (p : StatementProbe) : Value := .object [("id", .int p.id), ("loc", p.loc.toValue)]

/-- The statement probe that data stands for. -/
def ofValue (v : Value) : Except Mismatch StatementProbe := do
  let id ← (← v.entry "id").toInt
  let loc ← Location.ofValue (← v.entry "loc")
  .ok ⟨id, loc⟩

end StatementProbe

namespace FunctionProbe

def toValue (p : FunctionProbe) : Value :=
  .object [("id", .int p.id), ("name", .string p.name), ("decl", p.decl.toValue),
    ("loc", p.loc.toValue), ("line", .int p.line)]

/-- The function probe that data stands for. -/
def ofValue (v : Value) : Except Mismatch FunctionProbe := do
  let id ← (← v.entry "id").toInt
  let name := (← v.entry "name").shown
  let decl ← Location.ofValue (← v.entry "decl")
  let loc ← Location.ofValue (← v.entry "loc")
  let line ← (← v.entry "line").toInt
  .ok ⟨id, name, decl, loc, line⟩

end FunctionProbe

namespace BranchProbe

def toValue (p : BranchProbe) : Value :=
  .object [("id", .int p.id), ("type", .string p.type), ("line", .int p.line),
    ("loc", p.loc.toValue), ("locations", .list (p.locations.map Location.toValue))]

/-- The branch probe that data stands for. -/
def ofValue (v : Value) : Except Mismatch BranchProbe := do
  let id ← (← v.entry "id").toInt
  let type := (← v.entry "type").shown
  let line ← (← v.entry "line").toInt
  let loc ← Location.ofValue (← v.entry "loc")
  let locations ← (← v.entry "locations").toLocations
  .ok ⟨id, type, line, loc, locations⟩

end BranchProbe

namespace ProbeMap

def toValue (m : ProbeMap) : Value :=
  .object [("path", .string m.path), ("idBase", .int m.idBase),
    ("statements", .list (m.statements.map StatementProbe.toValue)),
    ("functions", .list (m.functions.map FunctionProbe.toValue)),
    ("branches", .list (m.branches.map BranchProbe.toValue))]

/-- The probe map that data stands for. -/
def ofValue (v : Value) : Except Mismatch ProbeMap := do
  let path := (← v.entry "path").shown
  let idBase ← ((← v.entry? "idBase").getD (.int 0)).toInt
  let statements ← (← v.itemsAt "statements").mapM StatementProbe.ofValue
  let functions ← (← v.itemsAt "functions").mapM FunctionProbe.ofValue
  let branches ← (← v.itemsAt "branches").mapM BranchProbe.ofValue
  .ok ⟨path, idBase, statements, functions, branches⟩

end ProbeMap

end LuaCoverage

import LuaCoverage.Counter.Store
import LuaCoverage.Report.Lines

/-!
# The flat result

The statements of all modules under one run of numbers: modules in the order of their paths, the
statements of each in the order of its map.

Results:
* `Flat.numbered_map_fst`: the numbers run up from the first one.
-/

namespace LuaCoverage
open LuaCoverage.Decimal

/-- A statement of the flat result. -/
structure FlatEntry where
  file : String
  line : Int
  hits : Int
  deriving DecidableEq, Repr

/-- The flat result: the statements, each numbered by its place, and the lines of every module. -/
structure Flat where
  entries : List FlatEntry
  summaries : Table String LineSummary
  deriving DecidableEq, Repr

namespace Flat

def ofModule (m : ProbeMap) (t : Tally) : Except LengthError (List FlatEntry) := do
  let statements ← pair m.statements t.statements
  .ok (statements.map fun (p, hits) => ⟨m.path, p.loc.start.line, hits⟩)

/-- The lines of the statements of a module. -/
def summarize (entries : List FlatEntry) : LineSummary :=
  LineSummary.ofHits (entries.map fun e => (e.line, e.hits))

/-- The flat result of modules with their counts. -/
def build (s : Store) (maps : List ProbeMap) : Except LengthError Flat := do
  let modules ← (ProbeMap.sort maps).mapM fun m => do
    let entries ← ofModule m (s.tallyFor m)
    .ok (m.path, entries)
  .ok ⟨modules.flatMap (·.2),
    Table.ofPairs (modules.map fun (path, entries) => (path, summarize entries))⟩

/-- The first number that is not used. -/
def nextId (f : Flat) : Nat := f.entries.length

/-- Entries under their numbers, which run up from a first one. -/
def numbered {α : Type} : (first : Nat) → List α → List (Nat × α)
  | _, [] => []
  | n, e :: rest => (n, e) :: numbered (n + 1) rest

theorem numbered_map_fst {α : Type} (first : Nat) (entries : List α) :
    (numbered first entries).map (·.1) = List.range' first entries.length := by
  induction entries generalizing first with
  | nil => rfl
  | cons e rest ih => simp [numbered, ih, List.range'_succ]

/-- Entries under the texts of their numbers, as data. -/
def table (f : Flat) (encode : FlatEntry → Value) : Value :=
  .object ((numbered 0 f.entries).map fun (n, e) => (natText n, encode e))

/-- The flat result as data, with the lines if they are asked for. -/
def toValue (f : Flat) (withSummary : Bool) : Value :=
  let summary : List (String × Value) :=
    if withSummary then
      [("summary", .object (f.summaries.map fun (path, lines) => (path, lines.toValue)))]
    else []
  .object ([("hits", f.table fun e => .int e.hits),
    ("map", f.table fun e => .object [("file", .string e.file), ("line", .int e.line)]),
    ("nextId", .nat f.nextId)] ++ summary)

end Flat

end LuaCoverage

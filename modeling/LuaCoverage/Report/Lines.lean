import LuaCoverage.Report.Record

/-!
# Lines

The statements of a module folded onto the lines on which they start: a line counts the hits of
all its statements, and was executed if their sum is above zero.

Results:
* `LineSummary.ofHits_nil`: without statements there are no lines.
-/

namespace LuaCoverage
open LuaCoverage.Decimal

/-- The lines of a module with their hits. -/
structure LineSummary where
  lines : Table Int Int
  deriving DecidableEq, Repr

namespace LineSummary

def addHits (lines : Table Int Int) (line hits : Int) : Table Int Int :=
  lines.put line ((lines.find? line).getD 0 + hits)

/-- The summary of lines with the hits of a statement each. -/
def ofHits (hits : List (Int × Int)) : LineSummary :=
  ⟨hits.foldl (fun lines hit => addHits lines hit.1 hit.2) []⟩

@[simp] theorem ofHits_nil : ofHits [] = ⟨[]⟩ := rfl

def ofRecord (r : Record) : LineSummary :=
  ofHits (r.statementMap.map fun (id, loc) =>
    (loc.start.line, (r.statements.find? id).getD 0))

def total (s : LineSummary) : Nat := s.lines.length

/-- The number of lines that were executed. -/
def executed (s : LineSummary) : Nat := (s.lines.filter fun line => line.2 > 0).length

/-- A summary as data, the lines in order. -/
def toValue (s : LineSummary) : Value :=
  .object [("executed", .nat s.executed), ("total", .nat s.total),
    ("lines", Table.toValue (s.lines.mergeSort fun a b => a.1 ≤ b.1) Value.int)]

end LineSummary

namespace Report

def summaries (r : Report) : Table String LineSummary :=
  r.records.map fun (path, record) => (path, LineSummary.ofRecord record)

def summaryValue (r : Report) : Value :=
  .object (r.summaries.map fun (path, summary) => (path, summary.toValue))

end Report

end LuaCoverage

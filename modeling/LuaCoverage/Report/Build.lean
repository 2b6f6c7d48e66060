import LuaCoverage.Counter.Store
import LuaCoverage.Report.Record

/-!
# Building reports

A report has a record for every probe map, with a count for every probe in the order of the map.
A module without counts is one in which nothing ran; counts that do not fit the map of their
module are an error. Counts of modules without a map are left out.

Results:
* `Shape.problems_ofMap`: counts that start from zero fit their map.
-/

namespace LuaCoverage
open LuaCoverage.Decimal

/-- How the counts of a module do not fit its map. -/
inductive ShapeProblem
  | idBase (counts map : Int)
  | number (what : String) (counts probes : Nat)
  | arms (id : Int) (counts paths : Nat)
  deriving DecidableEq, Repr

def ShapeProblem.message : ShapeProblem → String
  | .idBase counts map => "id base " ++ intText counts ++ " != " ++ intText map
  | .number what counts probes =>
    natText counts ++ " " ++ what ++ " counts for " ++ natText probes ++ " probes"
  | .arms id counts paths =>
    "branch " ++ intText id ++ " has " ++ natText counts ++ " counts for " ++ natText paths
      ++ " paths"

/-- A module whose counts do not fit its map. -/
structure ShapeError where
  path : String
  problems : List ShapeProblem
  deriving DecidableEq, Repr

def ShapeError.message (e : ShapeError) : String :=
  e.path ++ ": " ++ "; ".intercalate (e.problems.map ShapeProblem.message)

namespace Shape

def numberProblem (what : String) (counts probes : Nat) : List ShapeProblem :=
  if counts = probes then [] else [.number what counts probes]

/-- The branches whose number of counts is wrong. -/
def armProblems (probes : List BranchProbe) (counts : List (List Int)) : List ShapeProblem :=
  (probes.zip counts).filterMap fun (probe, arms) =>
    if arms.length = probe.pathCount then none
    else some (.arms probe.id arms.length probe.pathCount)

/-- What is wrong with the counts of a module. -/
def problems (m : ProbeMap) (t : Tally) : List ShapeProblem :=
  (if t.idBase = m.idBase then [] else [.idBase t.idBase m.idBase])
    ++ numberProblem "statement" t.statements.length m.statements.length
    ++ numberProblem "function" t.functions.length m.functions.length
    ++ (if t.branches.length = m.branches.length then armProblems m.branches t.branches
      else numberProblem "branch" t.branches.length m.branches.length)

theorem armProblems_zero (probes : List BranchProbe) :
    armProblems probes (probes.map fun p => p.locations.map fun _ => 0) = [] := by
  induction probes with
  | nil => rfl
  | cons p rest ih =>
    simp only [armProblems, BranchProbe.pathCount] at ih ⊢
    simp only [List.map_cons, List.zip_cons_cons, List.filterMap_cons, List.length_map, if_true,
      ih]

theorem problems_ofMap (m : ProbeMap) : problems m (Tally.ofMap m) = [] := by
  have h := armProblems_zero m.branches
  simp only [problems, Tally.ofMap, numberProblem, List.length_map, if_true, h, List.append_nil]

end Shape

namespace Record

/-- The record of a module without a check. -/
def ofTally (m : ProbeMap) (t : Tally) : Record where
  path := m.path
  statementMap := Table.ofPairs (m.statements.map fun p => (p.id, p.loc))
  functionMap := Table.ofPairs (m.functions.map fun p => (p.id, ⟨p.name, p.decl, p.loc, p.line⟩))
  branchMap :=
    Table.ofPairs (m.branches.map fun p => (p.id, ⟨p.type, p.line, p.loc, p.locations⟩))
  statements := Table.ofPairs ((m.statements.map StatementProbe.id).zip t.statements)
  functions := Table.ofPairs ((m.functions.map FunctionProbe.id).zip t.functions)
  branches := Table.ofPairs ((m.branches.map BranchProbe.id).zip t.branches)

/-- The record of a module with its counts. -/
def build (m : ProbeMap) (t : Tally) : Except ShapeError Record :=
  match Shape.problems m t with
  | [] => .ok (ofTally m t)
  | problems => .error ⟨m.path, problems⟩

end Record

namespace Report

/-- The report of modules with their counts. -/
def build (s : Store) (maps : List ProbeMap) : Except ShapeError Report := do
  let records ← maps.mapM fun m => do
    let record ← Record.build m (s.tallyFor m)
    .ok (m.path, record)
  .ok ⟨Table.ofPairs records⟩

end Report

end LuaCoverage

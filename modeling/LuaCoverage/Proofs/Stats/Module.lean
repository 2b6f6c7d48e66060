import LuaCoverage.Console.Output
import LuaCoverage.Proofs.Counter.Tabulated
import LuaCoverage.Proofs.Data.Table
import LuaCoverage.Proofs.Report.Fitting

/-!
# A module in the statistics, the report and the flat result

Counts that fit a map are paired with its probes in one way, and every consumer of them does so.
So the spots, the record and the statements of the flat result say the same about the module.

Results:
* `Stats.hits_spotsOf`, `Flat.hits_entriesOf`, `Record.values_statements`: the counts come out as
  they are.
* `Flat.summarize_entriesOf`: the lines of the flat result are those of the record.
-/

namespace LuaCoverage
variable {m : ProbeMap} {t : Tally}

/-- The ids of the probes of each kind count up from the first id of the module. -/
structure ProbeMap.Dense (m : ProbeMap) : Prop where
  statements : m.statements.map StatementProbe.id
    = (List.range m.statements.length).map fun i : Nat => m.idBase + i
  functions : m.functions.map FunctionProbe.id
    = (List.range m.functions.length).map fun i : Nat => m.idBase + i
  branches : m.branches.map BranchProbe.id
    = (List.range m.branches.length).map fun i : Nat => m.idBase + i

/-- The hits of the probes of a kind; those of a branch are the hits of all its paths. -/
def Tally.hits (t : Tally) : ProbeKind → List Int
  | .statement => t.statements
  | .function => t.functions
  | .branch => t.branches.map Tally.sum

theorem Tally.total_eq_sum_hits (t : Tally) :
    t.total = sum (t.hits .statement) + sum (t.hits .function) + sum (t.hits .branch) := rfl

/-! ## Spots -/

namespace Stats

theorem hits_spotsOf (h : t.Fits m) (kind : ProbeKind) :
    ((spotsOf m t).ofKind kind).map HotSpot.hits = t.hits kind := by
  cases kind with
  | statement =>
    rw [spotsOf, Spots.ofKind, List.map_map]
    exact List.map_snd_zip (Nat.le_of_eq h.statements)
  | function =>
    rw [spotsOf, Spots.ofKind, List.map_map]
    exact List.map_snd_zip (Nat.le_of_eq h.functions)
  | branch =>
    have hsnd : (m.branches.zip t.branches).map Prod.snd = t.branches :=
      List.map_snd_zip (Nat.le_of_eq h.length_branches)
    rw [spotsOf, Spots.ofKind, List.map_map, Tally.hits]
    conv => rhs; rw [← hsnd, List.map_map]
    rfl

/-- The hits of the spots of a module are its total. -/
theorem moduleHits_spotsOf (h : t.Fits m) : moduleHits (spotsOf m t) = t.total := by
  rw [t.total_eq_sum_hits, ← hits_spotsOf h, ← hits_spotsOf h, ← hits_spotsOf h]
  rfl

end Stats

/-! ## Records -/

namespace Record

theorem nodup_of_range {ids : List Int} {base : Int} {n : Nat}
    (h : ids = (List.range n).map fun i : Nat => base + i) : ids.Nodup := by
  subst h
  exact List.nodup_range.map fun i j hij => Int.ofNat.inj (Int.add_left_cancel hij)

/-- Counts under the ids of their probes. -/
theorem ofPairs_zip {α : Type} {ids : List Int} {counts : List α} (hids : ids.Nodup)
    (hlength : counts.length = ids.length) : Table.ofPairs (ids.zip counts) = ids.zip counts :=
  Table.ofPairs_of_nodup (by rwa [List.map_fst_zip (Nat.le_of_eq hlength.symm)])

theorem values_zip {α : Type} {ids : List Int} {counts : List α} (hids : ids.Nodup)
    (hlength : counts.length = ids.length) :
    (Table.ofPairs (ids.zip counts)).values = counts := by
  rw [ofPairs_zip hids hlength, Table.values, List.map_snd_zip (Nat.le_of_eq hlength)]

variable (hdense : m.Dense) (h : t.Fits m)
include hdense h

theorem values_statements : (ofTally m t).statements.values = t.statements :=
  values_zip (nodup_of_range hdense.statements) (by rw [List.length_map, h.statements])

theorem values_functions : (ofTally m t).functions.values = t.functions :=
  values_zip (nodup_of_range hdense.functions) (by rw [List.length_map, h.functions])

theorem values_branches : (ofTally m t).branches.values = t.branches :=
  values_zip (nodup_of_range hdense.branches) (by rw [List.length_map, h.length_branches])

end Record

/-! ## Statements of the flat result -/

namespace Flat

theorem hits_entriesOf (h : t.Fits m) : (entriesOf m t).map FlatEntry.hits = t.statements := by
  rw [entriesOf, List.map_map]
  exact List.map_snd_zip (Nat.le_of_eq h.statements)

/-- Folding the statements onto their lines gives what folding the record does: the count that the
record has under the id of a probe is the one that was paired with it. -/
theorem summarize_entriesOf (hdense : m.Dense) (h : t.Fits m) :
    summarize (entriesOf m t) = LineSummary.ofRecord (Record.ofTally m t) := by
  have hids := Record.nodup_of_range hdense.statements
  have hlength : t.statements.length = (m.statements.map StatementProbe.id).length := by
    rw [List.length_map, h.statements]
  have hmap : Table.ofPairs (m.statements.map fun p => (p.id, p.loc))
      = m.statements.map fun p => (p.id, p.loc) :=
    Table.ofPairs_of_nodup (by rwa [List.map_map])
  rw [summarize, LineSummary.ofRecord, Record.ofTally]
  simp only [hmap, Record.ofPairs_zip hids hlength, entriesOf, List.map_map]
  congr 1
  apply List.ext_getElem
  · simp [h.statements]
  · intro i hi _
    have hi : i < min m.statements.length t.statements.length := by simpa using hi
    have hmem : (m.statements[i].id, t.statements[i])
        ∈ (m.statements.map StatementProbe.id).zip t.statements := by
      refine List.mem_iff_getElem.2 ⟨i, by simpa using hi, ?_⟩
      simp
    have hkeys : (Table.keys ((m.statements.map StatementProbe.id).zip t.statements)).Nodup := by
      rwa [Table.keys, List.map_fst_zip (Nat.le_of_eq hlength.symm)]
    have hfind := (Table.find?_eq_some_iff hkeys).2 hmem
    simp [hfind]

end Flat

end LuaCoverage

import LuaCoverage.Proofs.Counter.Slot
import LuaCoverage.Proofs.Data.Table
import LuaCoverage.Proofs.Except
import LuaCoverage.Report.Build
import LuaCoverage.Stats.Basic
import LuaCoverage.Stats.Flat

/-!
# Counts that fit

A store that holds all modules of a list has as many counts for each as the module has probes and
paths. So the report, the statistics and the flat result of these modules can always be made.

Results:
* `Shape.problems_of_fits`, `Shape.fits_of_problems`: counts fit if they have no problem of shape.
* `Record.build_cases`: a record is built from counts that fit.
* `Stats.spots_of_pairs`, `Flat.ofModule_eq`: what is made of as many counts as probes.
* `Record.build_eq`, `Stats.spots_eq`: what is made of counts that fit.
* `Report.build_maps`: the report of modules whose counts fit.
* `Report.exists_build`, `Stats.exists_build`, `Flat.exists_build`: the results can be made.
-/

namespace LuaCoverage
variable {s : Store} {m : ProbeMap} {maps : List ProbeMap} {t : Tally}

/-- As many counts of each kind as a module has probes. -/
structure Tally.Pairs (t : Tally) (m : ProbeMap) : Prop where
  statements : t.statements.length = m.statements.length
  functions : t.functions.length = m.functions.length
  branches : t.branches.length = m.branches.length

theorem Tally.Fits.pairs (h : t.Fits m) : t.Pairs m :=
  ⟨h.statements, h.functions, h.length_branches⟩

theorem pair_of_length {α β : Type} {probes : List α} {counts : List β}
    (h : counts.length = probes.length) : pair probes counts = .ok (probes.zip counts) := if_pos h

namespace Shape

theorem armProblems_of_lengths {probes : List BranchProbe} {counts : List (List Int)}
    (h : counts.map List.length = probes.map BranchProbe.pathCount) :
    armProblems probes counts = [] := by
  induction probes generalizing counts with
  | nil => rfl
  | cons probe rest ih =>
    cases counts with
    | nil => rfl
    | cons arms more =>
      simp only [List.map_cons, List.cons.injEq] at h
      have hrest := ih h.2
      simp only [armProblems] at hrest ⊢
      simp only [List.zip_cons_cons, List.filterMap_cons, h.1, if_true, hrest]

/-- Counts that fit have no problem of shape. -/
theorem problems_of_fits (h : t.Fits m) : problems m t = [] := by
  simp only [problems, numberProblem, h.idBase, h.statements, h.functions, h.length_branches,
    if_true, armProblems_of_lengths h.branches, List.append_nil]

theorem numberProblem_eq_nil_iff {what : String} {counts probes : Nat} :
    numberProblem what counts probes = [] ↔ counts = probes := by
  unfold numberProblem
  split <;> simp_all

theorem lengths_of_armProblems {probes : List BranchProbe} {counts : List (List Int)}
    (hlength : counts.length = probes.length) (h : armProblems probes counts = []) :
    counts.map List.length = probes.map BranchProbe.pathCount := by
  induction probes generalizing counts with
  | nil => simpa using hlength
  | cons probe rest ih =>
    cases counts with
    | nil => simp at hlength
    | cons arms more =>
      simp only [armProblems, List.zip_cons_cons, List.filterMap_cons] at h
      split at h
      · next hnone =>
        have harms : arms.length = probe.pathCount := by simpa using hnone
        rw [List.map_cons, List.map_cons, harms, ih (by simpa using hlength) h]
      · simp at h

/-- Counts without a problem of shape fit. -/
theorem fits_of_problems (hpath : t.path = m.path) (h : problems m t = []) : t.Fits m := by
  simp only [problems, List.append_eq_nil_iff, numberProblem_eq_nil_iff] at h
  obtain ⟨⟨⟨hbase, hstatements⟩, hfunctions⟩, hbranches⟩ := h
  have hid : t.idBase = m.idBase := by simpa using hbase
  have hlength : t.branches.length = m.branches.length :=
    Decidable.byContradiction fun hne => by
      rw [if_neg hne, numberProblem_eq_nil_iff] at hbranches
      exact hne hbranches
  rw [if_pos hlength] at hbranches
  exact ⟨hpath, hid, hstatements, hfunctions, lengths_of_armProblems hlength hbranches⟩

end Shape

theorem Store.path_tallyFor (s : Store) (m : ProbeMap) : (s.tallyFor m).path = m.path := by
  rw [Store.tallyFor]
  cases ht : s.tally? m.path with
  | none => rfl
  | some t => exact Store.path_of_tally? ht

theorem Store.Holds.tallyFor (h : s.Holds m) : (s.tallyFor m).Fits m := by
  obtain ⟨t, ht, hfits⟩ := h
  rw [Store.tallyFor, ht]
  exact hfits

theorem Store.Holds.pairs (h : s.Holds m) : (s.tallyFor m).Pairs m := h.tallyFor.pairs

/-- A record is built from counts that fit, and from no others. -/
theorem Record.build_cases {record : Record} (h : Record.build m (s.tallyFor m) = .ok record) :
    (s.tallyFor m).Fits m ∧ record = Record.ofTally m (s.tallyFor m) := by
  unfold Record.build at h
  split at h
  · next hnone =>
    cases h
    exact ⟨Shape.fits_of_problems (s.path_tallyFor m) hnone, rfl⟩
  · cases h

theorem Record.build_eq (h : t.Fits m) : build m t = .ok (ofTally m t) := by
  rw [build, Shape.problems_of_fits h]

/-- The statements of a module with their counts. -/
def Flat.entriesOf (m : ProbeMap) (t : Tally) : List FlatEntry :=
  (m.statements.zip t.statements).map fun (p, hits) => ⟨m.path, p.loc.start.line, hits⟩

theorem Flat.ofModule_eq (h : t.statements.length = m.statements.length) :
    ofModule m t = .ok (entriesOf m t) := by
  simp only [ofModule, pair_of_length h, Except.ok_bind, entriesOf]

/-- The probes of a module with their counts. -/
def Stats.spotsOf (m : ProbeMap) (t : Tally) : Spots where
  statements := (m.statements.zip t.statements).map fun (p, hits) =>
    ⟨p.id, m.path, p.loc.start.line, hits, none, none⟩
  functions := (m.functions.zip t.functions).map fun (p, hits) =>
    ⟨p.id, m.path, p.line, hits, some p.name, none⟩
  branches := (m.branches.zip t.branches).map fun (p, arms) =>
    ⟨p.id, m.path, p.line, Tally.sum arms, none, some arms⟩

theorem Stats.spots_of_pairs (h : t.Pairs m) : spots m t = .ok (spotsOf m t) := by
  simp only [spots, pair_of_length h.statements, pair_of_length h.functions,
    pair_of_length h.branches, Except.ok_bind, spotsOf]

theorem Stats.spots_eq (h : t.Fits m) : spots m t = .ok (spotsOf m t) := spots_of_pairs h.pairs

theorem Report.exists_build (h : ∀ m ∈ maps, s.Holds m) : ∃ r, Report.build s maps = .ok r := by
  have hrecords := Except.mapM_pair_eq_ok ProbeMap.path
    fun m hm => Record.build_eq (h m hm).tallyFor
  exact ⟨_, by rw [Report.build, hrecords]; rfl⟩

/-- A report depends on the counts of its modules only. -/
theorem Report.build_congr {s' : Store} (h : ∀ m ∈ maps, s.tallyFor m = s'.tallyFor m) :
    build s maps = build s' maps := by
  unfold build
  rw [Except.mapM_congr]
  intro m hm
  rw [h m hm]

/-- The report of modules whose counts fit. -/
def Report.ofMaps (s : Store) (maps : List ProbeMap) : Report :=
  ⟨maps.map fun m => (m.path, Record.ofTally m (s.tallyFor m))⟩

theorem Report.build_maps (hfits : ∀ m ∈ maps, (s.tallyFor m).Fits m)
    (hpaths : (maps.map ProbeMap.path).Nodup) : build s maps = .ok (ofMaps s maps) := by
  rw [build, Except.mapM_pair_eq_ok ProbeMap.path fun m hm => Record.build_eq (hfits m hm),
    Except.ok_bind, Table.ofPairs_of_nodup (by rwa [List.map_map]), ofMaps]

theorem Flat.exists_build (h : ∀ m ∈ maps, (s.tallyFor m).Pairs m) :
    ∃ f, Flat.build s maps = .ok f := by
  have hmodules := Except.mapM_pair_eq_ok ProbeMap.path
    fun m hm => Flat.ofModule_eq (h m (ProbeMap.mem_sort.1 hm)).statements
  exact ⟨_, by rw [Flat.build, hmodules]; rfl⟩

theorem Stats.exists_build (h : ∀ m ∈ maps, (s.tallyFor m).Pairs m) (o : StatsOptions) :
    ∃ stats, Stats.build s maps o = .ok stats := by
  have hmodules := Except.mapM_pair_eq_ok ProbeMap.path
    fun m hm => Stats.spots_of_pairs (h m (ProbeMap.mem_sort.1 hm))
  exact ⟨_, by rw [Stats.build, hmodules]; rfl⟩

end LuaCoverage

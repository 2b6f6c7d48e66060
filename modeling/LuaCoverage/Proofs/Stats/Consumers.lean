import LuaCoverage.Proofs.Counter.History
import LuaCoverage.Proofs.Stats.Module
import Mathlib.Algebra.BigOperators.Group.List.Lemmas
import Mathlib.Algebra.Order.BigOperators.Group.List
import Mathlib.Algebra.Order.Group.Int

/-!
# What is made of one store agrees

The report, the statistics and the flat result of a store are made one by one, each with a walk of
its own over the modules: the report takes them as they come, the other two in the order of their
paths. For modules with paths of their own, registered in the store, all three can be made, and the
numbers that they share are the same.

Results:
* `Stats.build_maps`, `Flat.build_maps`: what is made of modules that fit.
* `Agree.of_fits`: the three agree if the counts of all modules fit.
* `Store.run_agree`: they agree behind every run of hits.
-/

namespace LuaCoverage

namespace Report

def statementCounts (r : Report) : List Int :=
  r.records.values.flatMap fun record => record.statements.values

def functionCounts (r : Report) : List Int :=
  r.records.values.flatMap fun record => record.functions.values

/-- The counts of all branches, a list of those of its paths for each. -/
def branchCounts (r : Report) : List (List Int) :=
  r.records.values.flatMap fun record => record.branches.values

/-- The records in the order of their paths. -/
def sorted (r : Report) : Table String Record :=
  r.records.mergeSort fun a b => Text.precedes a.1 b.1

end Report

namespace Console

def overall (r : Report) : Rates :=
  (r.sorted.map fun entry => Rates.ofRecord entry.2).foldl Rates.add Rates.zero

/-- They stand in the last row of the printed coverage. -/
theorem coverage_eq (r : Report) : ∃ columns rows, coverage r
    = Table.text ⟨"Coverage Summary", columns, [rows, [(overall r).row "Overall"]]⟩ := by
  simp only [coverage, overall, Report.sorted, List.map_map]
  exact ⟨_, _, rfl⟩

end Console

open Console (Rates)

/-- The spots with at least one hit. -/
def Stats.covered (spots : List HotSpot) : List HotSpot := spots.filter fun spot => spot.hits ≥ 1

/-- A report, statistics and a flat result that were made of the same modules and counts agree on
every number that two of them show. -/
structure Agree (s : Store) (maps : List ProbeMap) (o : StatsOptions) (report : Report)
    (stats : Stats) (flat : Flat) : Prop where
  statements : stats.statements.points = report.statementCounts.length
    ∧ stats.statements.hits = Tally.sum report.statementCounts
  functions : stats.functions.points = report.functionCounts.length
    ∧ stats.functions.hits = Tally.sum report.functionCounts
  branches : stats.branches.points = report.branchCounts.length
    ∧ stats.branches.hits = Tally.sum report.branchCounts.flatten
  nextId : flat.nextId = stats.statements.points
  flatHits : flat.entries.map FlatEntry.hits
    = report.sorted.flatMap fun entry => entry.2.statements.values
  lines : ∀ path, flat.summaries.find? path
    = (report.records.find? path).map LineSummary.ofRecord
  files : o.minHits = 0 → maps.length ≤ o.limit →
    stats.files.Perm (maps.map fun m => ⟨m.path, (s.tallyFor m).total⟩)
  covered : ∀ m ∈ maps, ∃ record found, report.records.find? m.path = some record
    ∧ Stats.spots m (s.tallyFor m) = .ok found
    ∧ (Rates.ofRecord record).statements.covered = (Stats.covered found.statements).length
    ∧ (Rates.ofRecord record).functions.covered = (Stats.covered found.functions).length
  overallStatements : o.minHits = 1 → stats.statements.points ≤ o.limit →
    (Console.overall report).statements.covered = stats.statements.top.length
  overallFunctions : o.minHits = 1 → stats.functions.points ≤ o.limit →
    (Console.overall report).functions.covered = stats.functions.top.length
  printed : ∃ columns rows, Console.coverage report = Console.Table.text
    ⟨"Coverage Summary", columns, [rows, [(Console.overall report).row "Overall"]]⟩

/-! ## What is made of modules that fit -/

section Maps
variable {s : Store} {maps : List ProbeMap}

/-- Modules in the order of their paths, each path once, are what sorting gives. -/
theorem ProbeMap.sort_eq_of_sorted {sorted : List ProbeMap} (hperm : sorted.Perm maps)
    (hsorted : sorted.Pairwise fun a b =>
      Text.precedes a.path b.path = true ∧ Text.precedes b.path a.path = false) :
    sort maps = sorted := by
  refine mergeSort_eq_of_perm ?_ ?_ hperm hsorted
  · intro a b
    exact Text.precedes_total a.path b.path
  · intro a b c hab hbc
    exact Text.precedes_trans hab hbc

theorem ProbeMap.nodup_sort (hpaths : (maps.map path).Nodup) : ((sort maps).map path).Nodup :=
  (((sort_perm maps).map path).nodup_iff).2 hpaths

/-- What the modules list one after the other, they list in any order. -/
theorem ProbeMap.perm_flatMap_sort {α : Type} (maps : List ProbeMap) (f : ProbeMap → List α) :
    ((sort maps).flatMap f).Perm (maps.flatMap f) :=
  (sort_perm maps).flatMap_right f

/-- The flat result needs no more than a count for each statement. -/
theorem Flat.build_maps
    (hlength : ∀ m ∈ maps, (s.tallyFor m).statements.length = m.statements.length)
    (hpaths : (maps.map ProbeMap.path).Nodup) :
    build s maps = .ok ⟨(ProbeMap.sort maps).flatMap fun m => entriesOf m (s.tallyFor m),
      (ProbeMap.sort maps).map fun m => (m.path, summarize (entriesOf m (s.tallyFor m)))⟩ := by
  have hsorted : ∀ m ∈ ProbeMap.sort maps, _ := fun m hm =>
    hlength m (ProbeMap.mem_sort.1 hm)
  rw [build, Except.mapM_pair_eq_ok ProbeMap.path fun m hm => ofModule_eq (hsorted m hm),
    Except.ok_bind]
  simp only [List.flatMap_map, List.map_map, Function.comp_def]
  rw [Table.ofPairs_of_nodup (by simpa [Function.comp_def] using ProbeMap.nodup_sort hpaths)]

variable (hfits : ∀ m ∈ maps, (s.tallyFor m).Fits m)
include hfits

variable (hpaths : (maps.map ProbeMap.path).Nodup)
include hpaths

theorem Stats.build_maps (o : StatsOptions) :
    let all := (ProbeMap.sort maps).map fun m => spotsOf m (s.tallyFor m)
    build s maps o = .ok ⟨category o .statement all, category o .function all,
      category o .branch all, rankFiles o ((ProbeMap.sort maps).map fun m =>
        (m.path, (s.tallyFor m).total))⟩ := by
  have hsorted : ∀ m ∈ ProbeMap.sort maps, (s.tallyFor m).Fits m := by
    simpa using hfits
  have htotals : ((ProbeMap.sort maps).map fun m =>
      (m.path, moduleHits (spotsOf m (s.tallyFor m))))
        = (ProbeMap.sort maps).map fun m => (m.path, (s.tallyFor m).total) :=
    List.map_congr_left fun m hm => by rw [moduleHits_spotsOf (hsorted m hm)]
  rw [build, Except.mapM_pair_eq_ok ProbeMap.path fun m hm => spots_eq (hsorted m hm),
    Except.ok_bind]
  simp only [List.map_map, Function.comp_def, htotals]
  rw [Table.ofPairs_of_nodup (by simpa [Function.comp_def] using ProbeMap.nodup_sort hpaths)]

end Maps

/-! ## Totals -/

section Totals
variable {s : Store} {maps : List ProbeMap} {o : StatsOptions} {kind : ProbeKind}

/-- All spots of a kind, modules in the order of their paths. -/
def Stats.allSpots (s : Store) (maps : List ProbeMap) (kind : ProbeKind) : List HotSpot :=
  (ProbeMap.sort maps).flatMap fun m => (spotsOf m (s.tallyFor m)).ofKind kind

theorem Stats.category_map (hshows : o.shows kind = true) :
    category o kind ((ProbeMap.sort maps).map fun m => spotsOf m (s.tallyFor m))
      = ⟨(allSpots s maps kind).length, sumHits (allSpots s maps kind),
        rank o (allSpots s maps kind)⟩ := by
  simp only [category, hshows, if_true, List.flatMap_map, allSpots]

/-- The spots of a kind carry the hits of all modules. -/
theorem Stats.hits_allSpots (hfits : ∀ m ∈ maps, (s.tallyFor m).Fits m) (kind : ProbeKind) :
    ((allSpots s maps kind).map HotSpot.hits).Perm
      (maps.flatMap fun m => (s.tallyFor m).hits kind) := by
  have hsorted : (allSpots s maps kind).map HotSpot.hits
      = (ProbeMap.sort maps).flatMap fun m => (s.tallyFor m).hits kind := by
    rw [allSpots, List.map_flatMap]
    exact List.flatMap_congr fun m hm => hits_spotsOf (hfits m (ProbeMap.mem_sort.1 hm)) kind
  rw [hsorted]
  exact ProbeMap.perm_flatMap_sort maps _

theorem Tally.sum_perm {a b : List Int} (h : a.Perm b) : sum a = sum b := by
  rw [sum_eq_sum, sum_eq_sum, h.sum_eq]

theorem Tally.sum_flatten (counts : List (List Int)) : sum counts.flatten = sum (counts.map sum) := by
  induction counts with
  | nil => rfl
  | cons arms rest ih =>
    rw [List.flatten_cons, List.map_cons, sum, ← ih, sum_eq_sum, sum_eq_sum, sum_eq_sum,
      List.sum_append]

/-- A category counts the hits of its kind. -/
theorem Stats.category_agree (hfits : ∀ m ∈ maps, (s.tallyFor m).Fits m)
    (hshows : o.shows kind = true) {counts : List Int}
    (hcounts : counts = maps.flatMap fun m => (s.tallyFor m).hits kind) :
    (category o kind ((ProbeMap.sort maps).map fun m => spotsOf m (s.tallyFor m))).points
        = counts.length
      ∧ (category o kind ((ProbeMap.sort maps).map fun m => spotsOf m (s.tallyFor m))).hits
        = Tally.sum counts := by
  have hperm := hits_allSpots hfits kind
  rw [category_map hshows, hcounts]
  refine ⟨?_, Tally.sum_perm hperm⟩
  rw [← hperm.length_eq, List.length_map]

end Totals

/-! ## The report of modules that fit -/

namespace Report
variable {s : Store} {maps : List ProbeMap}

theorem sorted_ofMaps (s : Store) (maps : List ProbeMap) : (ofMaps s maps).sorted
    = (ProbeMap.sort maps).map fun m => (m.path, Record.ofTally m (s.tallyFor m)) := by
  rw [ofMaps, sorted, ProbeMap.sort]
  exact (List.map_mergeSort (f := fun m : ProbeMap => (m.path, Record.ofTally m (s.tallyFor m)))
    fun _ _ _ _ => rfl).symm

theorem perm_sorted (r : Report) :
    (r.sorted.flatMap fun entry => entry.2.statements.values).Perm r.statementCounts := by
  rw [statementCounts, Table.values, List.flatMap_map]
  exact (List.mergeSort_perm ..).flatMap_right _

theorem find?_ofMaps (hpaths : (maps.map ProbeMap.path).Nodup) {m : ProbeMap} (hm : m ∈ maps) :
    (ofMaps s maps).records.find? m.path = some (Record.ofTally m (s.tallyFor m)) := by
  rw [Table.find?_eq_some_iff (by rwa [Table.keys, ofMaps, List.map_map])]
  exact List.mem_map_of_mem hm

variable (hdense : ∀ m ∈ maps, m.Dense) (hfits : ∀ m ∈ maps, (s.tallyFor m).Fits m)
include hdense hfits

theorem statementCounts_ofMaps :
    (ofMaps s maps).statementCounts = maps.flatMap fun m => (s.tallyFor m).statements := by
  rw [statementCounts, ofMaps, Table.values, List.map_map, List.flatMap_map]
  exact List.flatMap_congr fun m hm => Record.values_statements (hdense m hm) (hfits m hm)

theorem functionCounts_ofMaps :
    (ofMaps s maps).functionCounts = maps.flatMap fun m => (s.tallyFor m).functions := by
  rw [functionCounts, ofMaps, Table.values, List.map_map, List.flatMap_map]
  exact List.flatMap_congr fun m hm => Record.values_functions (hdense m hm) (hfits m hm)

theorem branchCounts_ofMaps :
    (ofMaps s maps).branchCounts = maps.flatMap fun m => (s.tallyFor m).branches := by
  rw [branchCounts, ofMaps, Table.values, List.map_map, List.flatMap_map]
  exact List.flatMap_congr fun m hm => Record.values_branches (hdense m hm) (hfits m hm)

end Report

/-! ## Covered spots -/

namespace Stats
variable {s : Store} {maps : List ProbeMap} {o : StatsOptions}

/-- What the terminal counts as covered are the spots with a hit. -/
theorem length_covered (spots : List HotSpot) :
    ((covered spots).length : Int) = (Console.rateOf (spots.map HotSpot.hits)).covered := by
  rw [covered, Console.rateOf, List.filter_map, List.length_map]
  rfl

/-- With one hit asked for and room for all spots, those that are covered are ranked. -/
theorem length_top {kind : ProbeKind} (hshows : o.shows kind = true) (hmin : o.minHits = 1)
    (hlimit : (category o kind ((ProbeMap.sort maps).map fun m =>
      spotsOf m (s.tallyFor m))).points ≤ o.limit) :
    (category o kind ((ProbeMap.sort maps).map fun m => spotsOf m (s.tallyFor m))).top.length
      = (covered (allSpots s maps kind)).length := by
  rw [category_map hshows] at hlimit ⊢
  have hle := List.length_filter_le (fun spot : HotSpot => decide (spot.hits ≥ 1))
    (allSpots s maps kind)
  rw [rank, List.length_take, List.length_mergeSort, hmin, covered]
  exact Nat.min_eq_right (Nat.le_trans hle hlimit)

theorem length_covered_allSpots (s : Store) (maps : List ProbeMap) (kind : ProbeKind) :
    ((covered (allSpots s maps kind)).length : Int) = ((ProbeMap.sort maps).map fun m =>
      ((covered ((spotsOf m (s.tallyFor m)).ofKind kind)).length : Int)).sum := by
  rw [allSpots]
  induction ProbeMap.sort maps with
  | nil => rfl
  | cons m rest ih =>
    rw [List.flatMap_cons, covered, List.filter_append, List.length_append, Int.natCast_add,
      List.map_cons, List.sum_cons, ← ih]
    rfl

end Stats

namespace Console.Rates

theorem covered_foldl_add (rates : List Rates) (r : Rates) :
    (rates.foldl add r).statements.covered
        = r.statements.covered + (rates.map fun q => q.statements.covered).sum
      ∧ (rates.foldl add r).functions.covered
        = r.functions.covered + (rates.map fun q => q.functions.covered).sum := by
  induction rates generalizing r with
  | nil => simp
  | cons q rest ih =>
    obtain ⟨hstatements, hfunctions⟩ := ih (r.add q)
    rw [List.foldl_cons, hstatements, hfunctions]
    simp only [List.map_cons, List.sum_cons, add, Rate.add, Int.add_assoc, and_self]

end Console.Rates

/-! ## Agreement -/

section Agreement
variable {s : Store} {maps : List ProbeMap} {o : StatsOptions}

/-- The rates of a module and its spots. -/
theorem Stats.covered_module {m : ProbeMap} {t : Tally} (hdense : m.Dense) (hfits : t.Fits m) :
    (Rates.ofRecord (Record.ofTally m t)).statements.covered
        = (covered (spotsOf m t).statements).length
      ∧ (Rates.ofRecord (Record.ofTally m t)).functions.covered
        = (covered (spotsOf m t).functions).length := by
  rw [length_covered, length_covered, Rates.ofRecord, Record.values_statements hdense hfits,
    Record.values_functions hdense hfits]
  have hstatements := hits_spotsOf hfits .statement
  have hfunctions := hits_spotsOf hfits .function
  simp only [Spots.ofKind, Tally.hits] at hstatements hfunctions
  rw [hstatements, hfunctions]
  exact ⟨rfl, rfl⟩

/-- The overall rates and all spots. -/
theorem Stats.covered_overall (hdense : ∀ m ∈ maps, m.Dense)
    (hfits : ∀ m ∈ maps, (s.tallyFor m).Fits m) :
    (Console.overall (Report.ofMaps s maps)).statements.covered
        = (covered (allSpots s maps .statement)).length
      ∧ (Console.overall (Report.ofMaps s maps)).functions.covered
        = (covered (allSpots s maps .function)).length := by
  obtain ⟨hstatements, hfunctions⟩ := Rates.covered_foldl_add
    ((Report.ofMaps s maps).sorted.map fun entry => Rates.ofRecord entry.2) .zero
  have hmodule : ∀ m ∈ ProbeMap.sort maps, _ := fun m hm =>
    covered_module (t := s.tallyFor m) (hdense m (ProbeMap.mem_sort.1 hm))
      (hfits m (ProbeMap.mem_sort.1 hm))
  rw [Console.overall, hstatements, hfunctions, length_covered_allSpots, length_covered_allSpots,
    Report.sorted_ofMaps]
  simp only [List.map_map, Rates.zero, Int.zero_add]
  exact ⟨congrArg List.sum (List.map_congr_left fun m hm => (hmodule m hm).1),
    congrArg List.sum (List.map_congr_left fun m hm => (hmodule m hm).2)⟩

/-- Without a bound on hits all files are ranked, if there is room for them. -/
theorem Stats.rankFiles_perm (files : Table String Int) (hmin : o.minHits = 0)
    (hlimit : files.length ≤ o.limit) (hpos : ∀ file ∈ files, 0 ≤ file.2) :
    (rankFiles o files).Perm (files.map fun file => ⟨file.1, file.2⟩) := by
  have hall : (files.map fun file => HotFile.mk file.1 file.2).filter
      (fun f => f.hits ≥ Int.ofNat o.minHits) = files.map fun file => ⟨file.1, file.2⟩ := by
    rw [List.filter_eq_self, hmin]
    intro f hf
    obtain ⟨file, hfile, rfl⟩ := List.mem_map.1 hf
    simpa using hpos file hfile
  have hperm := List.mergeSort_perm (files.map fun file => HotFile.mk file.1 file.2)
    HotFile.precedes
  simp only [rankFiles, hall]
  rwa [List.take_of_length_le (by rw [hperm.length_eq, List.length_map]; exact hlimit)]

/-- The statements of the flat result are those of the records in the order of their paths. -/
theorem Flat.hits_sorted (hdense : ∀ m ∈ maps, m.Dense)
    (hfits : ∀ m ∈ maps, (s.tallyFor m).Fits m) :
    ((ProbeMap.sort maps).flatMap fun m => entriesOf m (s.tallyFor m)).map FlatEntry.hits
      = (Report.ofMaps s maps).sorted.flatMap fun entry => entry.2.statements.values := by
  rw [Report.sorted_ofMaps, List.map_flatMap, List.flatMap_map]
  refine List.flatMap_congr fun m hm => ?_
  have hmem := ProbeMap.mem_sort.1 hm
  rw [hits_entriesOf (hfits m hmem), Record.values_statements (hdense m hmem) (hfits m hmem)]

/-- The lines of the flat result are those of the records. -/
theorem Flat.find?_summaries (hpaths : (maps.map ProbeMap.path).Nodup)
    (hdense : ∀ m ∈ maps, m.Dense) (hfits : ∀ m ∈ maps, (s.tallyFor m).Fits m) (path : String) :
    Table.find? ((ProbeMap.sort maps).map fun m => (m.path, summarize (entriesOf m (s.tallyFor m))))
        path
      = ((Report.ofMaps s maps).records.find? path).map LineSummary.ofRecord := by
  have hsorted : ((ProbeMap.sort maps).map fun m =>
      (m.path, summarize (entriesOf m (s.tallyFor m))))
        = (Report.ofMaps s maps).sorted.map fun entry => (entry.1, LineSummary.ofRecord entry.2) := by
    rw [Report.sorted_ofMaps, List.map_map]
    refine List.map_congr_left fun m hm => ?_
    have hmem := ProbeMap.mem_sort.1 hm
    rw [Function.comp_apply, summarize_entriesOf (hdense m hmem) (hfits m hmem)]
  have hperm : (Report.ofMaps s maps).sorted.Perm (Report.ofMaps s maps).records :=
    List.mergeSort_perm ..
  have hnodup : (Report.ofMaps s maps).sorted.keys.Nodup := by
    rw [Table.keys, (hperm.map _).nodup_iff, Report.ofMaps, List.map_map]
    exact hpaths
  rw [hsorted, Table.find?_map, Table.find?_perm hperm hnodup]

/-- The three agree if the counts of all modules fit and none of their totals is below zero. -/
theorem Agree.of_fits (hpaths : (maps.map ProbeMap.path).Nodup) (hdense : ∀ m ∈ maps, m.Dense)
    (hfits : ∀ m ∈ maps, (s.tallyFor m).Fits m) (hpos : ∀ m ∈ maps, 0 ≤ (s.tallyFor m).total)
    (hshows : ∀ kind, o.shows kind = true) :
    ∃ report stats flat, Report.build s maps = .ok report ∧ Stats.build s maps o = .ok stats
      ∧ Flat.build s maps = .ok flat ∧ Agree s maps o report stats flat := by
  have hstatements := Report.statementCounts_ofMaps hdense hfits
  have hfunctions := Report.functionCounts_ofMaps hdense hfits
  have hbranches := Report.branchCounts_ofMaps hdense hfits
  obtain ⟨hoverall, hoverall'⟩ := Stats.covered_overall hdense hfits
  refine ⟨_, _, _, Report.build_maps hfits hpaths, Stats.build_maps hfits hpaths o,
    Flat.build_maps (fun m hm => (hfits m hm).statements) hpaths, ?_⟩
  constructor
  case statements => exact Stats.category_agree hfits (hshows _) hstatements
  case functions => exact Stats.category_agree hfits (hshows _) hfunctions
  case branches =>
    have hcounts : (Report.ofMaps s maps).branchCounts.map Tally.sum
        = maps.flatMap fun m => (s.tallyFor m).hits .branch := by
      rw [hbranches, List.map_flatMap]
      rfl
    have h := Stats.category_agree hfits (hshows .branch) hcounts
    rwa [List.length_map, ← Tally.sum_flatten] at h
  case nextId =>
    have hpoints := (Stats.category_agree hfits (hshows .statement) hstatements).1
    have hlength := congrArg List.length (Flat.hits_sorted hdense hfits)
    rw [List.length_map] at hlength
    rw [Flat.nextId, hpoints, hlength, (Report.perm_sorted _).length_eq]
  case flatHits => exact Flat.hits_sorted hdense hfits
  case lines => exact Flat.find?_summaries hpaths hdense hfits
  case files =>
    intro hmin hlimit
    have hperm := ProbeMap.sort_perm maps
    have hfiles : ∀ file ∈ (ProbeMap.sort maps).map fun m => (m.path, (s.tallyFor m).total),
        0 ≤ file.2 := by
      intro file hfile
      obtain ⟨m, hm, rfl⟩ := List.mem_map.1 hfile
      exact hpos m (hperm.mem_iff.1 hm)
    have hrank := Stats.rankFiles_perm _ hmin (by rwa [List.length_map, hperm.length_eq]) hfiles
    rw [List.map_map] at hrank
    exact hrank.trans (hperm.map _)
  case covered =>
    intro m hm
    exact ⟨_, _, Report.find?_ofMaps hpaths hm, Stats.spots_eq (hfits m hm),
      Stats.covered_module (hdense m hm) (hfits m hm)⟩
  case printed => exact Console.coverage_eq _
  case overallStatements =>
    intro hmin hlimit
    rw [hoverall, ← Stats.length_top (hshows .statement) hmin hlimit]
  case overallFunctions =>
    intro hmin hlimit
    rw [hoverall', ← Stats.length_top (hshows .function) hmin hlimit]

end Agreement

/-! ## Behind a run -/

theorem Tally.total_tabulate_nonneg {m : ProbeMap} {value : Slot → Int}
    (h : ∀ slot, 0 ≤ value slot) : 0 ≤ (tabulate m value).total := by
  have hsum : ∀ {n : Nat} {slot : Nat → Slot},
      0 ≤ sum ((List.range n).map fun i => value (slot i)) := by
    intro n slot
    rw [sum_eq_sum]
    refine List.sum_nonneg fun x hx => ?_
    obtain ⟨i, -, rfl⟩ := List.mem_map.1 hx
    exact h (slot i)
  have hbranches : 0 ≤ sum ((tabulate m value).branches.map sum) := by
    rw [sum_eq_sum]
    refine List.sum_nonneg fun x hx => ?_
    obtain ⟨arms, harms, rfl⟩ := List.mem_map.1 hx
    obtain ⟨i, hi, rfl⟩ := List.mem_mapIdx.1 harms
    exact hsum
  exact Int.add_nonneg (Int.add_nonneg hsum hsum) hbranches

namespace Store
variable {m : ProbeMap} {h : History}

theorem Action.amountAt_nonneg (m : ProbeMap) (slot : Slot) (c : Action) :
    0 ≤ c.amountAt m slot := by
  cases c with
  | add a amount =>
    simp only [amountAt, added?]
    by_cases hneg : amount < 0
    · simp [hneg]
    · rw [if_neg hneg]
      simp only
      split
      · exact Int.not_lt.1 hneg
      · exact Int.le_refl 0
  | increment a =>
    simp only [amountAt, added?]
    split
    · exact Int.zero_le_ofNat 1
    · exact Int.le_refl 0
  | register _ | clear => exact Int.le_refl 0

/-- Counts are never below zero. -/
theorem History.count_nonneg (h : History) (m : ProbeMap) (slot : Slot) : 0 ≤ count h m slot := by
  refine List.sum_nonneg fun x hx => ?_
  obtain ⟨c, -, rfl⟩ := List.mem_map.1 hx
  exact c.amountAt_nonneg m slot

/-- The counts of a registered module. -/
theorem History.tallyFor_tallied (hm : map? m.path h = some m) :
    (tallied h).tallyFor m = Tally.tabulate m (count h m) := by
  rw [Store.tallyFor, tally?_tallied, tally?, hm]
  rfl

/-- What is made of a store agrees, whatever was done with the store. Take any modules with paths
of their own and ids that count up, each of which is registered as it is behind a run of actions, and
any hits after that. Then the report, the statistics of all kinds and the flat result can be made,
and they agree. -/
theorem run_agree {actions hits : List Action} {maps : List ProbeMap} {o : StatsOptions}
    (hpaths : (maps.map ProbeMap.path).Nodup) (hdense : ∀ m ∈ maps, m.Dense)
    (hregistered : ∀ m ∈ maps, History.map? m.path actions.reverse = some m)
    (hhits : ∀ c ∈ hits, c.isHit = true) (hshows : ∀ kind, o.shows kind = true) :
    ∃ report stats flat, Report.build (run (actions ++ hits)) maps = .ok report
      ∧ Stats.build (run (actions ++ hits)) maps o = .ok stats
      ∧ Flat.build (run (actions ++ hits)) maps = .ok flat
      ∧ Agree (run (actions ++ hits)) maps o report stats flat := by
  have htally : ∀ m ∈ maps, (run (actions ++ hits)).tallyFor m
      = Tally.tabulate m (History.count (actions ++ hits).reverse m) := by
    intro m hm
    rw [run_eq_tallied]
    refine History.tallyFor_tallied ?_
    rw [List.reverse_append, History.map?_append_hits fun c hc => hhits c (List.mem_reverse.1 hc)]
    exact hregistered m hm
  refine Agree.of_fits hpaths hdense (fun m hm => ?_) (fun m hm => ?_) hshows
  · rw [htally m hm]
    exact Tally.fits_tabulate m _
  · rw [htally m hm]
    exact Tally.total_tabulate_nonneg (History.count_nonneg _ m)

/-- Two modules, not in the order of their paths: one with a branch of two paths, and one with two
statements on one line. -/
def agreeingMaps : List ProbeMap :=
  let loc : Nat → Location := fun line => ⟨⟨line, 0⟩, ⟨line, 5⟩⟩
  [⟨"b.lua", 7, [⟨7, loc 1⟩], [⟨7, "f", loc 1, loc 2, 1⟩],
      [⟨7, "if", 1, loc 1, [loc 1, loc 2]⟩]⟩,
    ⟨"a.lua", 0, [⟨0, loc 1⟩, ⟨1, loc 1⟩], [], []⟩]

/-- Hits of both modules, and one of no module. -/
def agreeingHits : List Action :=
  [.add ⟨"a.lua", "s", 1, none⟩ 3, .increment ⟨"b.lua", "f", 7, none⟩,
    .increment ⟨"b.lua", "b", 7, some 1⟩, .increment ⟨"c.lua", "s", 0, none⟩]

theorem run_agree_sample :
    let s := run (agreeingMaps.map .register ++ agreeingHits)
    ∃ report stats flat, Report.build s agreeingMaps = .ok report
      ∧ Stats.build s agreeingMaps ⟨10, 0, true, true, true⟩ = .ok stats
      ∧ Flat.build s agreeingMaps = .ok flat
      ∧ report.statementCounts = [0, 0, 3] ∧ report.branchCounts = [[0, 1]]
      ∧ stats.statements.points = 3 ∧ stats.statements.hits = 3 ∧ flat.nextId = 3
      ∧ stats.branches.points = 1 ∧ stats.branches.hits = 1
      ∧ stats.files.Perm [⟨"b.lua", 2⟩, ⟨"a.lua", 3⟩] := by
  have hdense : ∀ m ∈ agreeingMaps, m.Dense := by
    intro m hm
    simp only [agreeingMaps, List.mem_cons, List.not_mem_nil, or_false] at hm
    rcases hm with rfl | rfl <;> exact ⟨by decide, by decide, by decide⟩
  have hregistered : ∀ m ∈ agreeingMaps,
      History.map? m.path (agreeingMaps.map Action.register).reverse = some m := by decide
  have hhits : ∀ c ∈ agreeingHits, c.isHit = true := by decide
  obtain ⟨report, stats, flat, hreport, hstats, hflat, hagree⟩ :=
    run_agree (o := ⟨10, 0, true, true, true⟩) (by decide) hdense hregistered hhits
      (fun kind => by cases kind <;> rfl)
  have hcounts : (Report.build (run (agreeingMaps.map .register ++ agreeingHits))
      agreeingMaps).toOption.map (fun r => (r.statementCounts, r.branchCounts))
        = some ([0, 0, 3], [[0, 1]]) := by decide +kernel
  rw [hreport] at hcounts
  obtain ⟨hstatements, hbranches⟩ := Prod.mk.inj (Option.some.inj hcounts)
  have htotals : agreeingMaps.map (fun m => HotFile.mk m.path
      ((run (agreeingMaps.map .register ++ agreeingHits)).tallyFor m).total)
        = [⟨"b.lua", 2⟩, ⟨"a.lua", 3⟩] := by decide +kernel
  have hpoints : stats.statements.points = 3 := by rw [hagree.statements.1, hstatements]; rfl
  refine ⟨report, stats, flat, hreport, hstats, hflat, hstatements, hbranches, hpoints, ?_, ?_, ?_,
    ?_, ?_⟩
  · rw [hagree.statements.2, hstatements]
    rfl
  · rw [hagree.nextId, hpoints]
  · rw [hagree.branches.1, hbranches]
    rfl
  · rw [hagree.branches.2, hbranches]
    rfl
  · rw [← htotals]
    exact hagree.files rfl (by decide)

end Store

end LuaCoverage

import LuaCoverage.Proofs.Report.Fitting
import Mathlib.Data.List.Nodup
import Mathlib.Data.List.Permutation

/-!
# The order in which modules are given

Statistics and the flat result take the modules in the order of their paths. Where the paths differ
there is one such order, so it does not matter in which order the modules were given, whatever their
probes are: ids may be missing or come twice, and spots may tie.

Results:
* `ProbeMap.sort_eq_of_perm`: modules with paths of their own have one order.
* `Stats.build_of_pairs`: the statistics that are made of as many counts as probes.
* `Store.results_perm`: they are the same in whatever order the modules are given.
-/

namespace LuaCoverage
variable {s : Store} {maps other : List ProbeMap}

theorem ProbeMap.sort_pairwise (maps : List ProbeMap) :
    (sort maps).Pairwise fun a b => Text.precedes a.path b.path = true := by
  apply List.pairwise_mergeSort
  · intro a b c hab hbc
    exact Text.precedes_trans hab hbc
  · intro a b
    exact Text.precedes_total a.path b.path

/-- Modules with paths of their own have one order. -/
theorem ProbeMap.sort_eq_of_perm (hperm : maps.Perm other) (hpaths : (maps.map path).Nodup) :
    sort maps = sort other := by
  have hsame : (sort maps).Perm (sort other) :=
    (sort_perm maps).trans (hperm.trans (sort_perm other).symm)
  refine hsame.eq_of_pairwise ?_ (sort_pairwise maps) (sort_pairwise other)
  intro a b ha hb hab hba
  have hpath : a.path = b.path := Text.precedes_antisymm hab hba
  have ha : a ∈ maps := mem_sort.1 ha
  have hb : b ∈ maps := hperm.mem_iff.2 (mem_sort.1 hb)
  exact List.inj_on_of_nodup_map hpaths ha hb hpath

/-- The modules in the order of their paths, with their spots. -/
def Stats.spotted (s : Store) (maps : List ProbeMap) : List (String × Spots) :=
  (ProbeMap.sort maps).map fun m => (m.path, spotsOf m (s.tallyFor m))

/-- The hits of all spots under the path of their module. If a path comes twice the last one
counts. -/
def Stats.fileHits (s : Store) (maps : List ProbeMap) : Table String Int :=
  Table.ofPairs ((spotted s maps).map fun (path, found) => (path, moduleHits found))

theorem Stats.build_of_pairs (hpairs : ∀ m ∈ maps, (s.tallyFor m).Pairs m) (o : StatsOptions) :
    let all := (spotted s maps).map (·.2)
    build s maps o = .ok ⟨category o .statement all, category o .function all,
      category o .branch all, rankFiles o (fileHits s maps)⟩ := by
  have hsorted : ∀ m ∈ ProbeMap.sort maps, (s.tallyFor m).Pairs m := by
    simpa using hpairs
  rw [build, Except.mapM_pair_eq_ok ProbeMap.path fun m hm => spots_of_pairs (hsorted m hm)]
  rfl

/-- Take modules with paths of their own, in any two orders. Whatever the counts are, the statistics
with any options are the same, and so is the flat result; with as many counts as probes both can be
made. -/
theorem Store.results_perm (hperm : maps.Perm other) (hpaths : (maps.map ProbeMap.path).Nodup) :
    (∀ o, Stats.build s maps o = Stats.build s other o)
      ∧ Flat.build s maps = Flat.build s other
      ∧ ((∀ m ∈ maps, (s.tallyFor m).Pairs m) →
        (∀ o, ∃ stats, Stats.build s other o = .ok stats)
          ∧ ∃ flat, Flat.build s other = .ok flat) := by
  have hsort := ProbeMap.sort_eq_of_perm hperm hpaths
  refine ⟨?_, ?_, ?_⟩
  · intro o
    rw [Stats.build, Stats.build, hsort]
  · rw [Flat.build, Flat.build, hsort]
  · intro hpairs
    have hother : ∀ m ∈ other, (s.tallyFor m).Pairs m := by
      intro m hm
      exact hpairs m (hperm.mem_iff.2 hm)
    exact ⟨Stats.exists_build hother, Flat.exists_build hother⟩

/-- Three modules, not in the order of their paths. Two statements of one share their id, and so
does a statement of another. -/
def tiedMaps : List ProbeMap :=
  let loc : Nat → Location := fun line => ⟨⟨line, 0⟩, ⟨line, 5⟩⟩
  [⟨"b.lua", 0, [⟨0, loc 3⟩, ⟨0, loc 1⟩], [⟨4, "f", loc 1, loc 2, 1⟩], []⟩,
    ⟨"c.lua", 0, [], [], [⟨0, "if", 2, loc 2, [loc 2, loc 3]⟩]⟩, ⟨"a.lua", 0, [⟨0, loc 1⟩], [], []⟩]

/-- Counts of two of them, in which all statements are hit equally often. -/
def tiedStore : Store := ⟨[⟨"b.lua", 0, [2, 2], [9], []⟩, ⟨"a.lua", 0, [2], [], []⟩], []⟩

theorem pairs_tied : ∀ m ∈ tiedMaps, (tiedStore.tallyFor m).Pairs m := by
  intro m hm
  simp only [tiedMaps, List.mem_cons, List.not_mem_nil, or_false] at hm
  rcases hm with rfl | rfl | rfl <;>
    exact ⟨by decide +kernel, by decide +kernel, by decide +kernel⟩

theorem Store.results_perm_sample :
    ∃ stats flat, Stats.build tiedStore tiedMaps .standard = .ok stats
      ∧ Stats.build tiedStore tiedMaps.reverse .standard = .ok stats
      ∧ Flat.build tiedStore tiedMaps = .ok flat
      ∧ Flat.build tiedStore tiedMaps.reverse = .ok flat
      ∧ flat.entries = [⟨"a.lua", 1, 2⟩, ⟨"b.lua", 3, 2⟩, ⟨"b.lua", 1, 2⟩] := by
  obtain ⟨hstats, hflat, hmade⟩ :=
    results_perm (s := tiedStore) (List.reverse_perm tiedMaps).symm (by decide)
  obtain ⟨hsome, flat, hflat'⟩ := hmade pairs_tied
  obtain ⟨stats, hstats'⟩ := hsome .standard
  have hentries : (Flat.build tiedStore tiedMaps.reverse).toOption.map Flat.entries
      = some [⟨"a.lua", 1, 2⟩, ⟨"b.lua", 3, 2⟩, ⟨"b.lua", 1, 2⟩] := by cbv
  rw [hflat'] at hentries
  exact ⟨stats, flat, (hstats _).trans hstats', hstats', hflat.trans hflat', hflat',
    Option.some.inj hentries⟩

/-- Where two modules have one path, the order in which they are given shows. -/
example :
    let loc : Nat → Location := fun line => ⟨⟨line, 0⟩, ⟨line, 5⟩⟩
    let first : ProbeMap := ⟨"a.lua", 0, [⟨0, loc 1⟩], [], []⟩
    let second : ProbeMap := ⟨"a.lua", 0, [⟨0, loc 2⟩], [], []⟩
    let lines : List ProbeMap → Option (List Int) := fun maps =>
      (Flat.build .empty maps).toOption.map fun flat => flat.entries.map FlatEntry.line
    (lines [first, second], lines [second, first]) = (some [1, 2], some [2, 1]) := by
  cbv

end LuaCoverage

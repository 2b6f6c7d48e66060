import LuaCoverage.Proofs.Stats.Consumers

/-!
# The ranked lists

A ranked list holds the first entries of an order among those with enough hits. One spot is *before*
another if it has more hits, or as many and the smaller id, or both and the file that comes first.
The modules have paths of their own and the ids of a module count up, so no two spots of a kind
share their id and their file: of any two, one is before the other, and the list is the only one of
its length that leaves out nothing better than what it holds.

Results:
* `IsTop.take_mergeSort`: sorting and taking gives the first entries of an order.
* `Stats.mem_allSpots`: the spots of a kind are the probes of the modules with their counts.
* `Stats.build_ranked`: statistics can be made, and their lists are the first of each kind.
-/

namespace LuaCoverage

/-- The first entries of an order, as many as a limit allows: they stand in order, and whatever is
not among them comes behind them all. -/
structure IsTop {α : Type} (before : α → α → Prop) (limit : Nat) (all top : List α) : Prop where
  length : top.length = min limit all.length
  sorted : top.Pairwise before
  mem : ∀ x ∈ top, x ∈ all
  rest : ∀ x ∈ all, x ∈ top ∨ ∀ listed ∈ top, before listed x

theorem IsTop.perm {α : Type} {before : α → α → Prop} {limit : Nat} {all other top : List α}
    (h : IsTop before limit all top) (hperm : all.Perm other) : IsTop before limit other top where
  length := by rw [h.length, hperm.length_eq]
  sorted := h.sorted
  mem x hx := hperm.mem_iff.1 (h.mem x hx)
  rest x hx := h.rest x (hperm.mem_iff.2 hx)

/-- Of any two entries that a sort compares, the one that may stand in front is before the other. -/
def Strict {α : Type} (le : α → α → Bool) (before : α → α → Prop) (a b : α) : Prop :=
  (le a b = true → before a b) ∧ (le b a = true → before b a)

theorem IsTop.take_mergeSort {α : Type} {le : α → α → Bool} {before : α → α → Prop}
    {all : List α} (total : ∀ a b, (le a b || le b a) = true)
    (trans : ∀ a b c, le a b = true → le b c = true → le a c = true)
    (strict : all.Pairwise (Strict le before)) (limit : Nat) :
    IsTop before limit all ((all.mergeSort le).take limit) := by
  have hperm : (all.mergeSort le).Perm all := List.mergeSort_perm all le
  have hstrict : (all.mergeSort le).Pairwise (Strict le before) :=
    (hperm.pairwise_iff fun h => ⟨h.2, h.1⟩).2 strict
  have hsorted : (all.mergeSort le).Pairwise before :=
    (List.pairwise_mergeSort trans total all).imp₂ (fun _ _ h hle => hle.1 h) hstrict
  -- What is taken stands in front of what is dropped.
  have hsplit := hsorted
  rw [← List.take_append_drop limit (all.mergeSort le), List.pairwise_append] at hsplit
  obtain ⟨htaken, -, hcross⟩ := hsplit
  constructor
  case length => rw [List.length_take, hperm.length_eq]
  case sorted => exact htaken
  case mem =>
    intro x hx
    exact hperm.mem_iff.1 (List.mem_of_mem_take hx)
  case rest =>
    intro x hx
    have hx : x ∈ (all.mergeSort le).take limit ++ (all.mergeSort le).drop limit := by
      rw [List.take_append_drop]
      exact hperm.mem_iff.2 hx
    rcases List.mem_append.1 hx with hx | hx
    · exact .inl hx
    · exact .inr fun listed hlisted => hcross listed hlisted x hx

/-! ## The orders -/

namespace HotSpot

/-- More hits, or as many and the smaller id, or both and the file that comes first. -/
def Before (a b : HotSpot) : Prop :=
  b.hits < a.hits ∨ a.hits = b.hits
    ∧ (a.id < b.id ∨ a.id = b.id ∧ a.file ≠ b.file ∧ Text.precedes a.file b.file = true)

/-- What tells a spot from the others of its kind. -/
def key (s : HotSpot) : Int × String := (s.id, s.file)

theorem precedes_iff {a b : HotSpot} : a.precedes b = true ↔ b.hits < a.hits ∨ a.hits = b.hits
    ∧ (a.id < b.id ∨ a.id = b.id ∧ Text.precedes a.file b.file = true) := by
  simp [precedes]

theorem precedes_total (a b : HotSpot) : (a.precedes b || b.precedes a) = true := by
  rw [Bool.or_eq_true, precedes_iff, precedes_iff]
  have hfiles := Text.precedes_total a.file b.file
  rw [Bool.or_eq_true] at hfiles
  grind

theorem precedes_trans {a b c : HotSpot} (hab : a.precedes b = true) (hbc : b.precedes c = true) :
    a.precedes c = true := by
  rw [precedes_iff] at hab hbc ⊢
  have hfiles : Text.precedes a.file b.file = true → Text.precedes b.file c.file = true →
      Text.precedes a.file c.file = true := Text.precedes_trans
  grind

theorem strict_of_key {a b : HotSpot} (h : a.key ≠ b.key) : Strict precedes Before a b := by
  have before_of : ∀ {a b : HotSpot}, a.key ≠ b.key → a.precedes b = true → a.Before b := by
    intro a b hne hab
    rcases precedes_iff.1 hab with hhits | ⟨hhits, hid | ⟨hid, hfile⟩⟩
    · exact .inl hhits
    · exact .inr ⟨hhits, .inl hid⟩
    · refine .inr ⟨hhits, .inr ⟨hid, fun heq => hne ?_, hfile⟩⟩
      rw [key, key, hid, heq]
  exact ⟨before_of h, before_of h.symm⟩

end HotSpot

namespace HotFile

/-- More hits, or as many and the path that comes first. -/
def Before (a b : HotFile) : Prop :=
  b.hits < a.hits ∨ a.hits = b.hits ∧ a.file ≠ b.file ∧ Text.precedes a.file b.file = true

theorem precedes_iff {a b : HotFile} : a.precedes b = true
    ↔ b.hits < a.hits ∨ a.hits = b.hits ∧ Text.precedes a.file b.file = true := by
  simp [precedes]

theorem precedes_total (a b : HotFile) : (a.precedes b || b.precedes a) = true := by
  rw [Bool.or_eq_true, precedes_iff, precedes_iff]
  have hfiles := Text.precedes_total a.file b.file
  rw [Bool.or_eq_true] at hfiles
  grind

theorem precedes_trans {a b c : HotFile} (hab : a.precedes b = true) (hbc : b.precedes c = true) :
    a.precedes c = true := by
  rw [precedes_iff] at hab hbc ⊢
  have hfiles : Text.precedes a.file b.file = true → Text.precedes b.file c.file = true →
      Text.precedes a.file c.file = true := Text.precedes_trans
  grind

theorem strict_of_file {a b : HotFile} (h : a.file ≠ b.file) : Strict precedes Before a b := by
  have before_of : ∀ {a b : HotFile}, a.file ≠ b.file → a.precedes b = true → a.Before b := by
    intro a b hne hab
    rcases precedes_iff.1 hab with hhits | ⟨hhits, hfile⟩
    · exact .inl hhits
    · exact .inr ⟨hhits, hne, hfile⟩
  exact ⟨before_of h, before_of h.symm⟩

end HotFile

/-! ## Spots -/

/-- A spot tells of a probe of a kind: its id, the path of its module, its own line, its hits, and
its name if it is a function, or the counts of its arms if it is a branch. -/
inductive HotSpot.Tells (m : ProbeMap) (t : Tally) : ProbeKind → HotSpot → Prop
  | statement {i : Nat} {p : StatementProbe} {hits : Int} (probe : m.statements[i]? = some p)
      (count : t.statements[i]? = some hits) :
      Tells m t .statement ⟨p.id, m.path, p.loc.start.line, hits, none, none⟩
  | function {i : Nat} {p : FunctionProbe} {hits : Int} (probe : m.functions[i]? = some p)
      (count : t.functions[i]? = some hits) :
      Tells m t .function ⟨p.id, m.path, p.line, hits, some p.name, none⟩
  | branch {i : Nat} {p : BranchProbe} {arms : List Int} (probe : m.branches[i]? = some p)
      (count : t.branches[i]? = some arms) :
      Tells m t .branch ⟨p.id, m.path, p.line, arms.sum, none, some arms⟩

namespace Stats
variable {m : ProbeMap} {t : Tally} {s : Store} {maps : List ProbeMap} {kind : ProbeKind}
  {spot : HotSpot} {o : StatsOptions}

theorem mem_zip_map {α β γ : Type} {probes : List α} {counts : List β} {f : α × β → γ} {c : γ} :
    c ∈ (probes.zip counts).map f
      ↔ ∃ (i : Nat) (p : α) (n : β), probes[i]? = some p ∧ counts[i]? = some n ∧ c = f (p, n) := by
  rw [List.mem_map]
  constructor
  · intro h
    obtain ⟨⟨p, n⟩, hmem, rfl⟩ := h
    obtain ⟨i, hi⟩ := List.mem_iff_getElem?.1 hmem
    obtain ⟨hp, hn⟩ := List.getElem?_zip_eq_some.1 hi
    exact ⟨i, p, n, hp, hn, rfl⟩
  · intro h
    obtain ⟨i, p, n, hp, hn, rfl⟩ := h
    exact ⟨(p, n), List.mem_iff_getElem?.2 ⟨i, List.getElem?_zip_eq_some.2 ⟨hp, hn⟩⟩, rfl⟩

theorem mem_spotsOf : spot ∈ (spotsOf m t).ofKind kind ↔ HotSpot.Tells m t kind spot := by
  cases kind with
  | statement =>
    rw [spotsOf, Spots.ofKind, mem_zip_map]
    constructor
    · intro h
      obtain ⟨i, p, n, hp, hn, rfl⟩ := h
      exact .statement hp hn
    · intro h
      cases h with
      | statement hp hn => exact ⟨_, _, _, hp, hn, rfl⟩
  | function =>
    rw [spotsOf, Spots.ofKind, mem_zip_map]
    constructor
    · intro h
      obtain ⟨i, p, n, hp, hn, rfl⟩ := h
      exact .function hp hn
    · intro h
      cases h with
      | function hp hn => exact ⟨_, _, _, hp, hn, rfl⟩
  | branch =>
    rw [spotsOf, Spots.ofKind, mem_zip_map]
    simp only [Tally.sum_eq_sum]
    constructor
    · intro h
      obtain ⟨i, p, n, hp, hn, rfl⟩ := h
      exact .branch hp hn
    · intro h
      cases h with
      | branch hp hn => exact ⟨_, _, _, hp, hn, rfl⟩

/-- The spots of a kind are the probes of the modules with their counts. -/
theorem mem_allSpots :
    spot ∈ allSpots s maps kind ↔ ∃ m ∈ maps, HotSpot.Tells m (s.tallyFor m) kind spot := by
  rw [allSpots, List.mem_flatMap]
  simp only [mem_spotsOf, ProbeMap.mem_sort]

theorem file_of_tells (h : HotSpot.Tells m t kind spot) : spot.file = m.path := by
  cases h <;> rfl

/-- The ids of the spots of a module are those of its probes, so no two are the same. -/
theorem nodup_ids (hdense : m.Dense) (hfits : t.Fits m) (kind : ProbeKind) :
    (((spotsOf m t).ofKind kind).map HotSpot.id).Nodup := by
  cases kind with
  | statement =>
    have hids := Record.nodup_of_range hdense.statements
    rw [← List.map_fst_zip (Nat.le_of_eq hfits.statements.symm), List.map_map] at hids
    rwa [spotsOf, Spots.ofKind, List.map_map]
  | function =>
    have hids := Record.nodup_of_range hdense.functions
    rw [← List.map_fst_zip (Nat.le_of_eq hfits.functions.symm), List.map_map] at hids
    rwa [spotsOf, Spots.ofKind, List.map_map]
  | branch =>
    have hids := Record.nodup_of_range hdense.branches
    rw [← List.map_fst_zip (Nat.le_of_eq hfits.length_branches.symm), List.map_map] at hids
    rwa [spotsOf, Spots.ofKind, List.map_map]

/-- The list of a kind: nothing if the kind takes no part, and otherwise the first of the spots with
enough hits. -/
structure Ranked (s : Store) (maps : List ProbeMap) (o : StatsOptions) (kind : ProbeKind)
    (top : List HotSpot) : Prop where
  off : o.shows kind = false → top = []
  length : o.shows kind = true → top.length = min o.limit
    ((maps.flatMap fun m => (s.tallyFor m).hits kind).countP fun hits : Int => hits ≥ o.minHits)
  sorted : top.Pairwise HotSpot.Before
  told : ∀ spot ∈ top, spot.hits ≥ o.minHits
    ∧ ∃ m ∈ maps, HotSpot.Tells m (s.tallyFor m) kind spot
  rest : o.shows kind = true → ∀ m ∈ maps, ∀ spot, HotSpot.Tells m (s.tallyFor m) kind spot →
    spot.hits ≥ o.minHits → spot ∈ top ∨ ∀ listed ∈ top, listed.Before spot

section Maps
variable (hpaths : (maps.map ProbeMap.path).Nodup) (hdense : ∀ m ∈ maps, m.Dense)
  (hfits : ∀ m ∈ maps, (s.tallyFor m).Fits m)
include hpaths hdense hfits

/-- Two spots of a kind differ in their files or, within a file, in their ids. -/
theorem keys_differ (kind : ProbeKind) :
    (allSpots s maps kind).Pairwise fun a b => a.key ≠ b.key := by
  have hsorted : (ProbeMap.sort maps).Pairwise fun m n => m.path ≠ n.path :=
    List.pairwise_map.1 (ProbeMap.nodup_sort hpaths)
  rw [allSpots, List.pairwise_flatMap]
  constructor
  · intro m hm
    have hm := ProbeMap.mem_sort.1 hm
    have hids := List.pairwise_map.1 (nodup_ids (hdense m hm) (hfits m hm) kind)
    exact hids.imp fun hne heq => hne (congrArg Prod.fst heq)
  · refine hsorted.imp ?_
    intro m n hne a ha b hb heq
    apply hne
    rw [← file_of_tells (mem_spotsOf.1 ha), ← file_of_tells (mem_spotsOf.1 hb)]
    exact congrArg Prod.snd heq

theorem isTop_rank (o : StatsOptions) (kind : ProbeKind) :
    IsTop HotSpot.Before o.limit
      ((allSpots s maps kind).filter fun spot => spot.hits ≥ Int.ofNat o.minHits)
      (rank o (allSpots s maps kind)) := by
  apply IsTop.take_mergeSort
  · exact HotSpot.precedes_total
  · intro a b c hab hbc
    exact HotSpot.precedes_trans hab hbc
  · exact ((keys_differ hpaths hdense hfits kind).filter _).imp HotSpot.strict_of_key

theorem ranked_category (o : StatsOptions) (kind : ProbeKind) :
    Ranked s maps o kind
      (category o kind ((ProbeMap.sort maps).map fun m => spotsOf m (s.tallyFor m))).top := by
  cases hshows : o.shows kind with
  | false =>
    have hnone : (category o kind
        ((ProbeMap.sort maps).map fun m => spotsOf m (s.tallyFor m))).top = [] := by
      simp [category, hshows, rank]
    rw [hnone]
    exact ⟨fun _ => rfl, by simp [hshows], .nil, by simp, by simp [hshows]⟩
  | true =>
    have htop := isTop_rank hpaths hdense hfits o kind
    rw [category_map hshows]
    constructor
    case off => simp [hshows]
    case length =>
      intro _
      rw [htop.length, ← List.countP_eq_length_filter, ← (hits_allSpots hfits kind).countP_eq,
        List.countP_map]
      rfl
    case sorted => exact htop.sorted
    case told =>
      intro spot hspot
      obtain ⟨hmem, henough⟩ := List.mem_filter.1 (htop.mem spot hspot)
      exact ⟨by simpa using henough, mem_allSpots.1 hmem⟩
    case rest =>
      intro _ m hm spot htells henough
      apply htop.rest
      exact List.mem_filter.2 ⟨mem_allSpots.2 ⟨m, hm, htells⟩, by simpa using henough⟩

end Maps

/-- The hottest files are the first of those with enough hits. -/
theorem isTop_rankFiles (hpaths : (maps.map ProbeMap.path).Nodup) (o : StatsOptions) :
    IsTop HotFile.Before o.limit
      ((maps.map fun m => HotFile.mk m.path (s.tallyFor m).total).filter fun f =>
        f.hits ≥ Int.ofNat o.minHits)
      (rankFiles o ((ProbeMap.sort maps).map fun m => (m.path, (s.tallyFor m).total))) := by
  have hperm := ((ProbeMap.sort_perm maps).map fun m =>
    HotFile.mk m.path (s.tallyFor m).total).filter fun f => f.hits ≥ Int.ofNat o.minHits
  refine IsTop.perm ?_ hperm
  rw [rankFiles, List.map_map]
  apply IsTop.take_mergeSort
  · exact HotFile.precedes_total
  · intro a b c hab hbc
    exact HotFile.precedes_trans hab hbc
  · have hfiles : ((ProbeMap.sort maps).map fun m =>
        HotFile.mk m.path (s.tallyFor m).total).Pairwise fun f g => f.file ≠ g.file :=
      List.pairwise_map.2 (List.pairwise_map.1 (ProbeMap.nodup_sort hpaths))
    exact (hfiles.filter _).imp HotFile.strict_of_file

end Stats

def Stats.topOf (stats : Stats) : ProbeKind → List HotSpot
  | .statement => stats.statements.top
  | .function => stats.functions.top
  | .branch => stats.branches.top

namespace Stats

/-- Take modules with paths of their own and ids that count up, and counts that fit them. Then
statistics can be made, and each of their lists holds the first entries of its order and no others,
whatever the limit and the least number of hits. -/
theorem build_ranked {s : Store} {maps : List ProbeMap} (hpaths : (maps.map ProbeMap.path).Nodup)
    (hdense : ∀ m ∈ maps, m.Dense) (hfits : ∀ m ∈ maps, (s.tallyFor m).Fits m)
    (o : StatsOptions) :
    ∃ stats, build s maps o = .ok stats
      ∧ (∀ kind, Ranked s maps o kind (stats.topOf kind))
      ∧ IsTop HotFile.Before o.limit
        ((maps.map fun m => HotFile.mk m.path (s.tallyFor m).total).filter fun f =>
          f.hits ≥ o.minHits)
        stats.files := by
  refine ⟨_, build_maps hfits hpaths o, fun kind => ?_, isTop_rankFiles hpaths o⟩
  have hranked := ranked_category hpaths hdense hfits o kind
  cases kind <;> exact hranked

/-- A list without ties is ranked in its one order. -/
theorem rank_eq (sorted : List HotSpot) {o : StatsOptions} {all : List HotSpot}
    (hperm : sorted.Perm (all.filter fun s => s.hits ≥ Int.ofNat o.minHits))
    (hsorted : sorted.Pairwise fun a b => a.precedes b = true ∧ b.precedes a = false) :
    rank o all = sorted.take o.limit :=
  congrArg (List.take o.limit) (mergeSort_eq_of_perm HotSpot.precedes_total
    (fun _ _ _ => HotSpot.precedes_trans) hperm hsorted)

theorem rankFiles_eq (sorted : List HotFile) {o : StatsOptions} {files : Table String Int}
    (hperm : sorted.Perm ((files.map fun (path, hits) => HotFile.mk path hits).filter fun f =>
      f.hits ≥ Int.ofNat o.minHits))
    (hsorted : sorted.Pairwise fun a b => a.precedes b = true ∧ b.precedes a = false) :
    rankFiles o files = sorted.take o.limit :=
  congrArg (List.take o.limit) (mergeSort_eq_of_perm HotFile.precedes_total
    (fun _ _ _ => HotFile.precedes_trans) hperm hsorted)

/-- Two modules, not in the order of their paths, whose first statements share their id. -/
def rankedMaps : List ProbeMap :=
  let loc : Nat → Location := fun line => ⟨⟨line, 0⟩, ⟨line, 5⟩⟩
  [⟨"b.lua", 0, [⟨0, loc 1⟩], [⟨0, "f", loc 1, loc 2, 1⟩], []⟩,
    ⟨"a.lua", 0, [⟨0, loc 1⟩, ⟨1, loc 2⟩], [], [⟨0, "if", 2, loc 2, [loc 2, loc 3]⟩]⟩]

/-- Counts of theirs, in which the first statements are hit equally often. -/
def rankedStore : Store :=
  ⟨[⟨"a.lua", 0, [2, 5], [], [[1, 0]]⟩, ⟨"b.lua", 0, [2], [9], []⟩], []⟩

theorem build_ranked_sample :
    ∃ stats, build rankedStore rankedMaps ⟨2, 1, true, false, true⟩ = .ok stats
      ∧ stats.topOf .statement
        = [⟨1, "a.lua", 2, 5, none, none⟩, ⟨0, "a.lua", 1, 2, none, none⟩]
      ∧ stats.topOf .function = []
      ∧ stats.topOf .branch = [⟨0, "a.lua", 2, 1, none, some [1, 0]⟩]
      ∧ HotSpot.Before ⟨0, "a.lua", 1, 2, none, none⟩ ⟨0, "b.lua", 1, 2, none, none⟩
      ∧ stats.files = [⟨"b.lua", 11⟩, ⟨"a.lua", 8⟩] := by
  have hdense : ∀ m ∈ rankedMaps, m.Dense := by
    intro m hm
    simp only [rankedMaps, List.mem_cons, List.not_mem_nil, or_false] at hm
    rcases hm with rfl | rfl <;> exact ⟨by decide, by decide, by decide⟩
  have hfits : ∀ m ∈ rankedMaps, (rankedStore.tallyFor m).Fits m := by
    intro m hm
    simp only [rankedMaps, List.mem_cons, List.not_mem_nil, or_false] at hm
    rcases hm with rfl | rfl <;>
      exact ⟨by decide +kernel, by decide +kernel, by decide +kernel, by decide +kernel,
        by decide +kernel⟩
  obtain ⟨stats, hstats, hranked, -⟩ :=
    build_ranked (by decide) hdense hfits ⟨2, 1, true, false, true⟩
  have hsort : ProbeMap.sort rankedMaps = rankedMaps.reverse :=
    ProbeMap.sort_eq_of_sorted (List.reverse_perm rankedMaps) (by decide)
  have hmade := build_maps hfits (by decide) ⟨2, 1, true, false, true⟩
  rw [hsort] at hmade
  have hmade := Except.ok.inj (hstats.symm.trans hmade)
  have hstatements : stats.topOf .statement
      = [⟨1, "a.lua", 2, 5, none, none⟩, ⟨0, "a.lua", 1, 2, none, none⟩] := by
    rw [hmade]
    exact rank_eq [⟨1, "a.lua", 2, 5, none, none⟩, ⟨0, "a.lua", 1, 2, none, none⟩,
      ⟨0, "b.lua", 1, 2, none, none⟩] (by decide +kernel) (by decide)
  have hbranches : stats.topOf .branch = [⟨0, "a.lua", 2, 1, none, some [1, 0]⟩] := by
    rw [hmade]
    exact rank_eq [⟨0, "a.lua", 2, 1, none, some [1, 0]⟩] (by decide +kernel) (by decide)
  have hfiles : stats.files = [⟨"b.lua", 11⟩, ⟨"a.lua", 8⟩] := by
    rw [hmade]
    exact rankFiles_eq [⟨"b.lua", 11⟩, ⟨"a.lua", 8⟩] (by decide +kernel) (by decide)
  refine ⟨stats, hstats, hstatements, (hranked .function).off rfl, hbranches, ?_, hfiles⟩
  -- The spot of the other module has as many hits, and is left out.
  have htells : HotSpot.Tells rankedMaps[0] (rankedStore.tallyFor rankedMaps[0]) .statement
      ⟨0, "b.lua", 1, 2, none, none⟩ :=
    .statement (i := 0) (p := ⟨0, ⟨1, 0⟩, ⟨1, 5⟩⟩) rfl rfl
  have hmem : rankedMaps[0] ∈ rankedMaps := by decide
  rcases (hranked .statement).rest rfl _ hmem _ htells (by decide) with hlisted | hbefore
  · rw [hstatements] at hlisted
    exact absurd hlisted (by decide)
  · exact hbefore _ (by rw [hstatements]; simp)

end Stats

end LuaCoverage

import LuaCoverage.Proofs.Counter.Tabulated
import LuaCoverage.Proofs.Data.Table
import LuaCoverage.Proofs.Report.Fitting

/-!
# What a report holds

A report is refused if and only if the counts of some module *differ* from its map: in the first
id, in the number of statements, functions or branches, or in the number of paths of a branch. Then
the probes can be paired with their counts one by one, so a builder that insists on as many counts
as probes wherever it pairs them never fails for that reason. A report that is built says of every
probe of its modules, once and in order, what the store counted for it; other modules of the store
do not matter.

Results:
* `Tally.fits_iff_not_differs`: counts fit unless they differ in one of these ways.
* `Report.build_error_iff`: when a report is refused.
* `Report.strict_eq`: no pairing in the builder fails.
* `Record.ofTally_eq_told`: a record says what the store has.
* `Report.build_exact`: all of this for every store and every list of modules.
-/

namespace LuaCoverage
variable {s : Store} {m : ProbeMap} {maps : List ProbeMap} {t : Tally}

/-! ## Counts that differ -/

/-- The counts of a module are not of the shape of a map. -/
inductive Tally.Differs (t : Tally) (m : ProbeMap) : Prop
  | idBase (h : t.idBase ≠ m.idBase)
  | statements (h : t.statements.length ≠ m.statements.length)
  | functions (h : t.functions.length ≠ m.functions.length)
  | branches (h : t.branches.length ≠ m.branches.length)
  | paths {i : Nat} {probe : BranchProbe} {arms : List Int} (hprobe : m.branches[i]? = some probe)
    (harms : t.branches[i]? = some arms) (h : arms.length ≠ probe.pathCount)

namespace Tally

theorem Fits.not_differs (h : t.Fits m) : ¬t.Differs m := by
  intro hdiffers
  cases hdiffers with
  | idBase hne => exact hne h.idBase
  | statements hne => exact hne h.statements
  | functions hne => exact hne h.functions
  | branches hne => exact hne h.length_branches
  | @paths i probe arms hprobe harms hne =>
    have hlength := congrArg (·[i]?) h.branches
    simp only [List.getElem?_map, hprobe, harms, Option.map_some, Option.some.injEq] at hlength
    exact hne hlength

/-- Counts fit unless they differ. -/
theorem fits_iff_not_differs (hpath : t.path = m.path) : t.Fits m ↔ ¬t.Differs m := by
  constructor
  · exact Fits.not_differs
  · intro h
    constructor
    case path => exact hpath
    case idBase => exact Decidable.byContradiction fun hne => h (.idBase hne)
    case statements => exact Decidable.byContradiction fun hne => h (.statements hne)
    case functions => exact Decidable.byContradiction fun hne => h (.functions hne)
    case branches =>
      have hlength : t.branches.length = m.branches.length :=
        Decidable.byContradiction fun hne => h (.branches hne)
      apply List.ext_getElem
      · simpa using hlength
      · intro i hi hj
        rw [List.length_map] at hi hj
        rw [List.getElem_map, List.getElem_map]
        exact Decidable.byContradiction fun hne =>
          h (.paths (List.getElem?_eq_getElem hj) (List.getElem?_eq_getElem hi) hne)

end Tally

/-- The counts of a module that the store does not know are zero and fit; so they differ only if
the store has some. -/
theorem Store.differs_tallyFor : (s.tallyFor m).Differs m
    ↔ ∃ t, s.tally? m.path = some t ∧ t.Differs m := by
  unfold Store.tallyFor
  cases s.tally? m.path with
  | none =>
    constructor
    · intro h
      exact absurd h (Tally.fits_ofMap m).not_differs
    · intro h
      obtain ⟨t, ht, -⟩ := h
      cases ht
  | some t =>
    constructor
    · intro h
      exact ⟨t, rfl, h⟩
    · intro h
      obtain ⟨u, hu, hdiffers⟩ := h
      rwa [Option.some.inj hu]

theorem Record.build_error_iff :
    (∃ e, build m (s.tallyFor m) = .error e) ↔ (s.tallyFor m).Differs m := by
  constructor
  · intro h
    obtain ⟨e, he⟩ := h
    by_contra hdiffers
    have hfits := (Tally.fits_iff_not_differs (s.path_tallyFor m)).2 hdiffers
    rw [build_eq hfits] at he
    cases he
  · intro hdiffers
    cases hbuilt : build m (s.tallyFor m) with
    | error e => exact ⟨e, rfl⟩
    | ok record => exact absurd hdiffers (build_cases hbuilt).1.not_differs

/-- A report is refused if and only if the counts of one of the modules differ from its map. -/
theorem Report.build_error_iff : (∃ e, build s maps = .error e)
    ↔ ∃ m ∈ maps, ∃ t, s.tally? m.path = some t ∧ t.Differs m := by
  constructor
  · intro h
    obtain ⟨e, he⟩ := h
    rcases Except.bind_error he with he | ⟨_, -, he⟩
    · obtain ⟨m, hm, he⟩ := Except.exists_of_mapM_error he
      rcases Except.bind_error he with he | ⟨_, -, he⟩
      · exact ⟨m, hm, Store.differs_tallyFor.1 (Record.build_error_iff.1 ⟨e, he⟩)⟩
      · cases he
    · cases he
  · intro h
    obtain ⟨m, hm, hdiffers⟩ := h
    cases hbuilt : build s maps with
    | error e => exact ⟨e, rfl⟩
    | ok r =>
      obtain ⟨records, hrecords, -⟩ := Except.bind_ok hbuilt
      obtain ⟨entry, -, hentry⟩ := Except.exists_mem_of_mapM_ok hrecords hm
      obtain ⟨record, hrecord, -⟩ := Except.bind_ok hentry
      exact absurd (Store.differs_tallyFor.2 hdiffers) (Record.build_cases hrecord).1.not_differs

/-! ## Strict pairing -/

/-- Why a report cannot be built if every pairing insists on equal lengths. -/
inductive Report.StrictError
  | shape (e : ShapeError)
  | length (e : LengthError)

namespace Shape

/-- What is wrong with the numbers of a module, branches apart. -/
def numbers (m : ProbeMap) (t : Tally) : List ShapeProblem :=
  (if t.idBase = m.idBase then [] else [.idBase t.idBase m.idBase])
    ++ numberProblem "statement" t.statements.length m.statements.length
    ++ numberProblem "function" t.functions.length m.functions.length

/-- What is wrong with the counts of a module, its branches paired strictly with theirs. -/
def strict (m : ProbeMap) (t : Tally) : Except LengthError (List ShapeProblem) :=
  if t.branches.length = m.branches.length then do
    let branches ← pair m.branches t.branches
    .ok (numbers m t ++ branches.filterMap fun (probe, arms) =>
      if arms.length = probe.pathCount then none
      else some (.arms probe.id arms.length probe.pathCount))
  else .ok (numbers m t ++ numberProblem "branch" t.branches.length m.branches.length)

theorem strict_eq (m : ProbeMap) (t : Tally) : strict m t = .ok (problems m t) := by
  unfold strict
  split
  · next h =>
    rw [pair_of_length h, problems, if_pos h]
    rfl
  · next h =>
    rw [problems, if_neg h]
    rfl

end Shape

namespace Record

/-- The record of a module, every probe paired strictly with its counts. -/
def paired (m : ProbeMap) (t : Tally) : Except LengthError Record := do
  let statements ← pair m.statements t.statements
  let functions ← pair m.functions t.functions
  let branches ← pair m.branches t.branches
  .ok { path := m.path
        statementMap := Table.ofPairs (statements.map fun (p, _) => (p.id, p.loc))
        functionMap :=
          Table.ofPairs (functions.map fun (p, _) => (p.id, ⟨p.name, p.decl, p.loc, p.line⟩))
        branchMap :=
          Table.ofPairs (branches.map fun (p, _) => (p.id, ⟨p.type, p.line, p.loc, p.locations⟩))
        statements := Table.ofPairs (statements.map fun (p, hits) => (p.id, hits))
        functions := Table.ofPairs (functions.map fun (p, hits) => (p.id, hits))
        branches := Table.ofPairs (branches.map fun (p, arms) => (p.id, arms)) }

/-- The record of a module whose counts pass the check, all pairings strict. -/
def strict (m : ProbeMap) (t : Tally) : Except Report.StrictError Record := do
  match ← (Shape.strict m t).mapError Report.StrictError.length with
  | [] => (paired m t).mapError Report.StrictError.length
  | problems => .error (.shape ⟨m.path, problems⟩)

theorem map_zip_fst {α β γ : Type} (f : α → γ) {l : List α} {k : List β} (h : k.length = l.length) :
    (l.zip k).map (fun pair => f pair.1) = l.map f := by
  conv => rhs; rw [← List.map_fst_zip (Nat.le_of_eq h.symm), List.map_map]
  rfl

theorem map_zip_left {α β γ : Type} (f : α → γ) (l : List α) (k : List β) :
    (l.zip k).map (fun pair => (f pair.1, pair.2)) = (l.map f).zip k := by
  rw [List.zip_map_left]
  rfl

theorem paired_eq (h : t.Pairs m) : paired m t = .ok (ofTally m t) := by
  have hstatements := map_zip_fst (fun p : StatementProbe => (p.id, p.loc)) h.statements
  have hfunctions := map_zip_fst (fun p : FunctionProbe =>
    (p.id, FunctionEntry.mk p.name p.decl p.loc p.line)) h.functions
  have hbranches := map_zip_fst (fun p : BranchProbe =>
    (p.id, BranchEntry.mk p.type p.line p.loc p.locations)) h.branches
  simp only [paired, pair_of_length h.statements, pair_of_length h.functions,
    pair_of_length h.branches, Except.ok_bind, ofTally, hstatements, hfunctions, hbranches,
    map_zip_left]

theorem strict_eq : strict m (s.tallyFor m)
    = (build m (s.tallyFor m)).mapError Report.StrictError.shape := by
  rw [strict, Shape.strict_eq, Except.mapError_ok, Except.ok_bind, build]
  cases hproblems : Shape.problems m (s.tallyFor m) with
  | nil =>
    have hfits := Shape.fits_of_problems (s.path_tallyFor m) hproblems
    dsimp only
    rw [paired_eq hfits.pairs]
    rfl
  | cons problem rest => rfl

end Record

namespace Report

/-- The report of modules with their counts, all pairings strict. -/
def strict (s : Store) (maps : List ProbeMap) : Except StrictError Report := do
  let records ← maps.mapM fun m => do
    let record ← Record.strict m (s.tallyFor m)
    .ok (m.path, record)
  .ok ⟨Table.ofPairs records⟩

/-- No pairing in the builder fails. -/
theorem strict_eq (s : Store) (maps : List ProbeMap) :
    strict s maps = (build s maps).mapError StrictError.shape := by
  have hrecords : (maps.mapM fun m => do
      let record ← Record.strict m (s.tallyFor m)
      .ok (m.path, record)) = (maps.mapM fun m => do
      let record ← Record.build m (s.tallyFor m)
      .ok (m.path, record)).mapError StrictError.shape := by
    rw [← Except.mapM_mapError]
    congr 1
    funext m
    rw [Record.strict_eq, Except.mapError_bind]
    rfl
  rw [strict, hrecords, build, Except.mapError_bind]
  rfl

end Report

/-! ## What a record says -/

/-- The probes of each kind have ids of their own. -/
structure ProbeMap.DistinctIds (m : ProbeMap) : Prop where
  statements : (m.statements.map StatementProbe.id).Nodup
  functions : (m.functions.map FunctionProbe.id).Nodup
  branches : (m.branches.map BranchProbe.id).Nodup

/-- What the store counted in a slot of a module, nothing if it does not know the module. -/
def Store.hitsAt (s : Store) (m : ProbeMap) (slot : Slot) : Int := (s.at? m.path slot).getD 0

/-- The record that lists the probes of a module as they come, each with what the store counted. -/
def Record.told (s : Store) (m : ProbeMap) : Record where
  path := m.path
  statementMap := m.statements.map fun p => (p.id, p.loc)
  functionMap := m.functions.map fun p => (p.id, ⟨p.name, p.decl, p.loc, p.line⟩)
  branchMap := m.branches.map fun p => (p.id, ⟨p.type, p.line, p.loc, p.locations⟩)
  statements := m.statements.mapIdx fun i p => (p.id, s.hitsAt m (.statement i))
  functions := m.functions.mapIdx fun i p => (p.id, s.hitsAt m (.function i))
  branches := m.branches.mapIdx fun i p =>
    (p.id, (List.range p.pathCount).map fun a => s.hitsAt m (.path i a))

theorem Store.hitsAt_of_at? {slot : Slot} {n : Int} (h : (s.tallyFor m).at? slot = some n) :
    s.hitsAt m slot = n := by
  unfold Store.tallyFor at h
  unfold Store.hitsAt Store.at?
  cases ht : s.tally? m.path with
  | some t =>
    rw [ht, Option.getD_some] at h
    rw [Option.bind_some, h, Option.getD_some]
  | none =>
    rw [ht, Option.getD_none, Tally.ofMap_eq_tabulate] at h
    rw [Option.bind_none, Option.getD_none]
    exact Tally.value_of_at?_tabulate h

/-- The counts of a module that fit are those of its slots. -/
theorem Store.tallyFor_eq_tabulate (h : (s.tallyFor m).Fits m) :
    s.tallyFor m = Tally.tabulate m (s.hitsAt m) :=
  h.eq_tabulate fun _ _ hat => hitsAt_of_at? hat

namespace Record

theorem ofPairs_zip_mapIdx {π α : Type} {id : π → Int} {probes : List π} {count : Nat → π → α}
    (hids : (probes.map id).Nodup) {counts : List α} (hcounts : counts = probes.mapIdx count) :
    Table.ofPairs ((probes.map id).zip counts) = probes.mapIdx fun i p => (id p, count i p) := by
  have hzip : (probes.map id).zip counts = probes.mapIdx fun i p => (id p, count i p) := by
    subst hcounts
    apply List.ext_getElem <;> simp
  rw [← hzip]
  refine Table.ofPairs_of_nodup ?_
  rwa [List.map_fst_zip (by simp [hcounts])]

/-- With ids of their own, and counts that fit, the probes of a module come out as they are, each
with what the store has. -/
theorem ofTally_eq_told (hids : m.DistinctIds) (hfits : (s.tallyFor m).Fits m) :
    ofTally m (s.tallyFor m) = told s m := by
  have hrange : ∀ {π : Type} (probes : List π) (count : Nat → Int),
      (List.range probes.length).map count = probes.mapIdx fun i _ => count i := by
    intro π probes count
    apply List.ext_getElem <;> simp
  have hstatements := ofPairs_zip_mapIdx hids.statements
    (hrange m.statements fun i => s.hitsAt m (.statement i))
  have hfunctions := ofPairs_zip_mapIdx hids.functions
    (hrange m.functions fun i => s.hitsAt m (.function i))
  have hbranches := ofPairs_zip_mapIdx hids.branches
    (rfl : (Tally.tabulate m (s.hitsAt m)).branches = _)
  rw [Store.tallyFor_eq_tabulate hfits, ofTally, told]
  simp only [Tally.tabulate] at hbranches ⊢
  rw [hstatements, hfunctions, hbranches]
  rw [Table.ofPairs_of_nodup (by rw [List.map_map]; exact hids.statements),
    Table.ofPairs_of_nodup (by rw [List.map_map]; exact hids.functions),
    Table.ofPairs_of_nodup (by rw [List.map_map]; exact hids.branches)]

end Record

/-! ## Reports -/

/-- The store without the modules that are not among the given ones, and without stale hits. -/
def Store.only (s : Store) (maps : List ProbeMap) : Store :=
  ⟨s.tallies.filter fun t => t.path ∈ maps.map ProbeMap.path, []⟩

theorem Store.tallyFor_only (hm : m ∈ maps) : (s.only maps).tallyFor m = s.tallyFor m := by
  have hfind : (s.only maps).tally? m.path = s.tally? m.path := by
    rw [tally?, tally?, only, List.find?_filter]
    congr 1
    funext t
    by_cases ht : t.path = m.path
    · simp only [ht, List.mem_map_of_mem hm, decide_true, beq_self_eq_true, and_self]
    · simp [ht]
  rw [tallyFor, tallyFor, hfind]

namespace Report

theorem build_only (s : Store) (maps : List ProbeMap) : build (s.only maps) maps = build s maps :=
  build_congr fun _ hm => Store.tallyFor_only hm

/-- Take any store and any list of modules. The report is refused if and only if the counts that the
store has for one of the modules differ from its map. All the pairings of probes with counts may be
strict: the builder is then the same. Other modules of the store and stale hits contribute nothing.
And if the report is built, and the modules have paths and their probes ids of their own, it holds
the modules in their order, each with all its probes in their order and with what the store counted
for them, which is zero where the store does not know the module. -/
theorem build_exact (s : Store) (maps : List ProbeMap) :
    ((∃ e, build s maps = .error e)
        ↔ ∃ m ∈ maps, ∃ t, s.tally? m.path = some t ∧ t.Differs m)
      ∧ strict s maps = (build s maps).mapError StrictError.shape
      ∧ build (s.only maps) maps = build s maps
      ∧ ∀ r, build s maps = .ok r → (maps.map ProbeMap.path).Nodup →
        (∀ m ∈ maps, m.DistinctIds) → r.records = maps.map fun m => (m.path, Record.told s m) := by
  refine ⟨build_error_iff, strict_eq s maps, build_only s maps, ?_⟩
  intro r hr hpaths hids
  have hfits : ∀ m ∈ maps, (s.tallyFor m).Fits m := by
    intro m hm
    refine (Tally.fits_iff_not_differs (s.path_tallyFor m)).2 fun hdiffers => ?_
    obtain ⟨e, he⟩ := build_error_iff.2 ⟨m, hm, Store.differs_tallyFor.1 hdiffers⟩
    rw [hr] at he
    cases he
  rw [build_maps hfits hpaths] at hr
  cases hr
  refine List.map_congr_left fun m hm => ?_
  rw [Record.ofTally_eq_told (hids m hm) (hfits m hm)]

/-- Two modules, the ids of one of which start below zero. -/
def exactMaps : List ProbeMap :=
  let loc : Nat → Location := fun line => ⟨⟨line, 0⟩, ⟨line, 5⟩⟩
  [⟨"b.lua", -2, [⟨-2, loc 1⟩, ⟨-1, loc 2⟩], [],
      [⟨-2, "if", 1, loc 1, [loc 1, loc 2]⟩, ⟨-1, "while", 2, loc 2, [loc 2, loc 2]⟩]⟩,
    ⟨"a.lua", 0, [⟨0, loc 1⟩], [⟨0, "f", loc 1, loc 2, 1⟩], []⟩]

/-- Counts of the first of them, with the given ones for its branches, and of another module. -/
def exactStore (branches : List (List Int)) : Store :=
  ⟨[⟨"c.lua", 0, [8], [], []⟩, ⟨"b.lua", -2, [3, 0], [], branches⟩], []⟩

/-- The report of these modules is refused if a branch has a count too few, and built otherwise. -/
theorem build_exact_sample :
    (∃ r, build (exactStore [[1, 2], [0, 3]]) exactMaps = .ok r
      ∧ r.records.map (fun e => (e.1, e.2.statements, e.2.functions, e.2.branches))
        = [("b.lua", [(-2, 3), (-1, 0)], [], [(-2, [1, 2]), (-1, [0, 3])]),
          ("a.lua", [(0, 0)], [(0, 0)], [])])
      ∧ ∃ e, build (exactStore [[1, 2], [0]]) exactMaps = .error e := by
  constructor
  · obtain ⟨-, -, -, hrecords⟩ := build_exact (exactStore [[1, 2], [0, 3]]) exactMaps
    have hbuilt : (build (exactStore [[1, 2], [0, 3]]) exactMaps).isOk = true := by
      decide +kernel
    have hids : ∀ m ∈ exactMaps, m.DistinctIds := by
      intro m hm
      simp only [exactMaps, List.mem_cons, List.not_mem_nil, or_false] at hm
      rcases hm with rfl | rfl <;> exact ⟨by decide, by decide, by decide⟩
    obtain ⟨r, hr⟩ := Except.exists_of_isOk hbuilt
    refine ⟨r, hr, ?_⟩
    rw [hrecords r hr (by decide) hids]
    rfl
  · obtain ⟨hrefused, -⟩ := build_exact (exactStore [[1, 2], [0]]) exactMaps
    exact hrefused.2 ⟨_, List.mem_cons_self, _, rfl, .paths (i := 1) rfl rfl (by decide)⟩

end Report

end LuaCoverage

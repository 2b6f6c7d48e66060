import LuaCoverage.Proofs.Counter.Slot

/-!
# Counts as a function of their slots

Counts of the shape of a module are *tabulated* from a function that gives the count of every slot.
In this form raising a slot is an update of the function, and the counts of a module in which
nothing has run are those of the function that is zero everywhere.

Results:
* `Tally.ofMap_eq_tabulate`, `Tally.raise_tabulate`: registering and raising, in tabulated form.
* `Tally.Fits.eq_tabulate`: counts that fit are tabulated from what is in their slots.
* `Tally.total_raise`: raising an addressed slot raises the total by as much.
-/

namespace LuaCoverage.Tally
variable {m : ProbeMap}

/-- The counts of a module whose slots hold the values of a function. -/
def tabulate (m : ProbeMap) (value : Slot → Int) : Tally where
  path := m.path
  idBase := m.idBase
  statements := (List.range m.statements.length).map fun i => value (.statement i)
  functions := (List.range m.functions.length).map fun i => value (.function i)
  branches := m.branches.mapIdx fun i probe =>
    (List.range probe.pathCount).map fun a => value (.path i a)

theorem ofMap_eq_tabulate (m : ProbeMap) : ofMap m = tabulate m fun _ => 0 := by
  have hbranches : (m.branches.map fun probe => probe.locations.map fun _ => (0 : Int))
      = m.branches.mapIdx fun _ probe => (List.range probe.pathCount).map fun _ => (0 : Int) := by
    apply List.ext_getElem?
    intro i
    simp [List.getElem?_mapIdx, List.map_const', BranchProbe.pathCount]
  rw [ofMap, tabulate, hbranches]
  simp only [List.map_const', List.length_range]

theorem fits_tabulate (m : ProbeMap) (value : Slot → Int) : (tabulate m value).Fits m where
  path := rfl
  idBase := rfl
  statements := by simp [tabulate]
  functions := by simp [tabulate]
  branches := by
    apply List.ext_getElem?
    intro i
    simp [tabulate, List.getElem?_mapIdx, Function.comp_def]

theorem modify_map_range (n i : Nat) (f : Nat → Int) (amount : Int) :
    ((List.range n).map f).modify i (· + amount)
      = (List.range n).map fun j => if i = j then f j + amount else f j := by
  apply List.ext_getElem?
  intro j
  simp only [List.getElem?_modify, List.getElem?_map]
  by_cases hj : j < n
  · by_cases hij : i = j <;> simp [hj, hij]
  · simp [hj]

theorem raise_tabulate (m : ProbeMap) (value : Slot → Int) (slot : Slot) (amount : Int) :
    (tabulate m value).raise slot amount
      = tabulate m fun other => if slot = other then value other + amount else value other := by
  cases slot with
  | statement i => simp [raise, tabulate, modify_map_range]
  | function i => simp [raise, tabulate, modify_map_range]
  | path i a =>
    simp only [raise, tabulate, Slot.path.injEq, reduceCtorEq, if_false]
    congr 1
    apply List.ext_getElem?
    intro j
    simp only [List.getElem?_modify, List.getElem?_mapIdx, Option.map_eq_map, Option.map_map]
    cases m.branches[j]? with
    | none => rfl
    | some probe => by_cases hij : i = j <;> simp [hij, modify_map_range]

theorem eq_of_getElem?_range {n i j : Nat} (h : (List.range n)[i]? = some j) : j = i := by
  obtain ⟨_, rfl⟩ := List.getElem?_eq_some_iff.1 h
  exact List.getElem_range _

theorem value_of_at?_tabulate {value : Slot → Int} {slot : Slot} {n : Int}
    (h : (tabulate m value).at? slot = some n) : value slot = n := by
  cases slot with
  | statement i | function i =>
    simp only [at?, tabulate, List.getElem?_map, Option.map_eq_some_iff] at h
    obtain ⟨j, hj, rfl⟩ := h
    rw [eq_of_getElem?_range hj]
  | path i a =>
    simp only [at?, tabulate, List.getElem?_mapIdx, Option.bind_eq_some_iff, Option.map_eq_some_iff]
      at h
    obtain ⟨_, ⟨probe, -, rfl⟩, h⟩ := h
    simp only [List.getElem?_map, Option.map_eq_some_iff] at h
    obtain ⟨b, hb, rfl⟩ := h
    rw [eq_of_getElem?_range hb]

/-- Counts of the shape of a module are known by what is in their slots. -/
theorem Fits.eq_tabulate {t : Tally} (h : t.Fits m) {value : Slot → Int}
    (hvalue : ∀ slot n, t.at? slot = some n → value slot = n) : t = tabulate m value := by
  have hstatements : t.statements = (tabulate m value).statements := by
    apply List.ext_getElem
    · simp [tabulate, h.statements]
    · intro i hi hj
      have hn := hvalue (.statement i) t.statements[i] (List.getElem?_eq_getElem hi)
      simp [tabulate, hn]
  have hfunctions : t.functions = (tabulate m value).functions := by
    apply List.ext_getElem
    · simp [tabulate, h.functions]
    · intro i hi hj
      have hn := hvalue (.function i) t.functions[i] (List.getElem?_eq_getElem hi)
      simp [tabulate, hn]
  have hbranches : t.branches = (tabulate m value).branches := by
    apply List.ext_getElem
    · simp [tabulate, h.length_branches]
    · intro i hi hj
      have hpaths := congrArg (·[i]?) h.branches
      have hlt : i < m.branches.length := h.length_branches ▸ hi
      simp only [List.getElem?_map, List.getElem?_eq_getElem hi, List.getElem?_eq_getElem hlt,
        Option.map_some, Option.some.injEq] at hpaths
      apply List.ext_getElem
      · simp [tabulate, hpaths]
      · intro a ha hb
        have hat : t.at? (.path i a) = some t.branches[i][a] := by
          simp [at?, List.getElem?_eq_getElem hi, List.getElem?_eq_getElem ha]
        simp [tabulate, hvalue _ _ hat]
  cases t
  simp only [tabulate, Tally.mk.injEq] at *
  exact ⟨h.path, h.idBase, hstatements, hfunctions, hbranches⟩

/-! ## Totals -/

theorem sum_modify {counts : List Int} {i : Nat} (hi : i < counts.length) (amount : Int) :
    sum (counts.modify i (· + amount)) = sum counts + amount := by
  induction counts generalizing i with
  | nil => simp at hi
  | cons n rest ih =>
    cases i with
    | zero =>
      simp only [List.modify_zero_cons, sum]
      omega
    | succ i =>
      simp only [List.modify_succ_cons, sum, ih (Nat.lt_of_succ_lt_succ hi)]
      omega

/-- Raising a slot that an id and an arm address raises the total by as much. -/
theorem total_raise {t : Tally} {kind : ProbeKind} {id : Int} {arm : Option Int} {slot : Slot}
    (h : t.slotOf? kind id arm = some slot) (amount : Int) :
    (t.raise slot amount).total = t.total + amount := by
  cases kind with
  | statement =>
    obtain ⟨i, hi, rfl⟩ := Option.map_eq_some_iff.1 h
    simp only [raise, total, sum_modify (slot?_eq_some_iff.1 hi).2]
    omega
  | function =>
    obtain ⟨i, hi, rfl⟩ := Option.map_eq_some_iff.1 h
    simp only [raise, total, sum_modify (slot?_eq_some_iff.1 hi).2]
    omega
  | branch =>
    simp only [slotOf?, Slot.address?, Option.bind_eq_bind, Option.bind_eq_some_iff,
      Option.some.injEq, List.length_map] at h
    obtain ⟨_, _, i, hi, a, ha, rfl⟩ := h
    have hlt : i < t.branches.length := (slot?_eq_some_iff.1 hi).2
    simp only [List.getElem?_map, List.getElem?_eq_getElem hlt, Option.map_some,
      Option.getD_some] at ha
    have hsum := sum_modify (slot?_eq_some_iff.1 ha).2 amount
    have hmap : (t.branches.modify i fun arms => arms.modify a (· + amount)).map sum
        = (t.branches.map sum).modify i (· + amount) := by
      refine map_modify fun arms harms => ?_
      rw [List.getElem?_eq_getElem hlt, Option.some.injEq] at harms
      rw [← harms, hsum]
    have hltSum : i < (t.branches.map sum).length := by simpa using hlt
    simp only [raise, total, hmap, sum_modify hltSum]
    omega

end LuaCoverage.Tally

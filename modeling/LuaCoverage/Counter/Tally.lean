import LuaCoverage.Probe.Basic

/-!
# The counts of a module

One counter for each statement and function of a module, and for each path of its branches. The
counter of a probe is found by its id less the first id of the module.

Results:
* `Tally.total_ofMap`: a module starts with nothing counted.
* `slot?_eq_some_iff`: counters are written only within range.
-/

namespace LuaCoverage

/-- The counts of a module. -/
structure Tally where
  path : String
  idBase : Int
  statements : List Int
  functions : List Int
  branches : List (List Int)
  deriving DecidableEq, Repr

namespace Tally

/-- The place of an index in a list of `size` entries. -/
def slot? (size : Nat) (index : Int) : Option Nat :=
  if 0 ≤ index ∧ index < size then some index.toNat else none

theorem slot?_eq_some_iff {size i : Nat} {index : Int} :
    slot? size index = some i ↔ index = i ∧ i < size := by
  unfold slot?
  split
  · simp only [Option.some.injEq]
    omega
  · simp only [reduceCtorEq, false_iff]
    omega

/-- Adds to the counter at an index. -/
def bump? (counts : List Int) (index amount : Int) : Option (List Int) :=
  (slot? counts.length index).map fun i => counts.modify i (· + amount)

/-- The counts of a module in which nothing has run. -/
def ofMap (m : ProbeMap) : Tally :=
  ⟨m.path, m.idBase, m.statements.map fun _ => 0, m.functions.map fun _ => 0,
    m.branches.map fun probe => probe.locations.map fun _ => 0⟩

/-- Adds to the counter of a probe, if the module has one for it. Statements and functions have no
arms, so theirs is not looked at. -/
def add? (t : Tally) (kind : ProbeKind) (id : Int) (arm : Option Int) (amount : Int) :
    Option Tally :=
  let index := id - t.idBase
  match kind with
  | .statement =>
    (bump? t.statements index amount).map fun counts => { t with statements := counts }
  | .function => (bump? t.functions index amount).map fun counts => { t with functions := counts }
  | .branch => do
    let a ← arm
    let i ← slot? t.branches.length index
    let arms ← bump? (t.branches[i]?.getD []) a amount
    some { t with branches := t.branches.set i arms }

def sum : List Int → Int
  | [] => 0
  | n :: rest => n + sum rest

def total (t : Tally) : Int := sum t.statements + sum t.functions + sum (t.branches.map sum)

theorem sum_map_zero {α : Type} (l : List α) : sum (l.map fun _ => 0) = 0 := by
  induction l with
  | nil => rfl
  | cons _ _ ih => rw [List.map_cons, sum, ih, Int.add_zero]

@[simp] theorem total_ofMap (m : ProbeMap) : (ofMap m).total = 0 := by
  simp only [total, ofMap, sum_map_zero, List.map_map, Function.comp_def]
  rfl

/-- The entry at an index, which counts from the end if it is negative. -/
def reach? {α : Type} (counts : List α) (index : Int) : Option α :=
  if index < 0 then
    if -index ≤ counts.length then counts[(counts.length + index).toNat]? else none
  else counts[index.toNat]?

def statement? (t : Tally) (id : Int) : Option Int := reach? t.statements (id - t.idBase)

def function? (t : Tally) (id : Int) : Option Int := reach? t.functions (id - t.idBase)

/-- The counts of the paths of a branch. -/
def branch? (t : Tally) (id : Int) : Option (List Int) := reach? t.branches (id - t.idBase)

end Tally

end LuaCoverage

import LuaCoverage.Dump.Load
import LuaCoverage.Proofs.Counter.Slot

/-!
# Shapes and registered modules

What the counts of a module have whatever is counted is their *shape*: the path, the first id, and
how many probes and paths there are. A hit changes no shape, and what a reference addresses depends
on the shapes only.

A store *continues* another one when the same modules are registered and it holds all that the
other one held. Whatever is counted or dropped, by hits or by a dump, the store continues the one
it was before; registering a new module adds its path and nothing else.

Results:
* `Store.exists_raise_eq_set`, `Store.shapes_raise`: raising a slot keeps the shapes.
* `Store.place?_cases`: a hit is counted in the one place that its reference addresses.
* `Store.Continues.recordAll`, `Store.Continues.load`: hits and dumps continue a store.
* `Store.paths_register`, `Store.Holds.register`: what registering a new module changes.
-/

namespace LuaCoverage

/-- What the counts of a module have whatever is counted. -/
structure Tally.Shape where
  path : String
  idBase : Int
  statements : Nat
  functions : Nat
  branches : List Nat
  deriving DecidableEq, Repr

namespace Tally

/-- The slot that an id and an arm address in counts of a shape. -/
def Shape.slot? (shape : Shape) (kind : ProbeKind) (id : Int) (arm : Option Int) : Option Slot :=
  Slot.address? shape.statements shape.functions shape.branches kind (id - shape.idBase) arm

def shape (t : Tally) : Shape :=
  ⟨t.path, t.idBase, t.statements.length, t.functions.length, t.branches.map List.length⟩

@[simp] theorem shape_raise (t : Tally) (slot : Slot) (amount : Int) :
    (t.raise slot amount).shape = t.shape := by
  cases slot with
  | statement i => simp [shape, raise]
  | function i => simp [shape, raise]
  | path i a => simp [shape, raise, map_length_modify]

end Tally

namespace Store
variable {s s' : Store}

/-- The shapes of the counts of all modules. -/
def shapes (s : Store) : List Tally.Shape := s.tallies.map Tally.shape

/-- The path and the slot that a reference addresses. -/
def place? (s : Store) (r : Reference) : Option (String × Slot) := do
  let kind ← ProbeKind.ofCode? r.kind
  let shape ← s.shapes.find? fun shape => (Scalar.string shape.path).equals r.path
  let slot ← shape.slot? kind r.id r.arm
  some (shape.path, slot)

/-- Counts of a module that is registered are put in the place of those it had. -/
theorem exists_putTally_eq_set {t u : Tally} (hu : u.path = t.path) {tallies : List Tally}
    (ht : tallies.find? (fun v => v.path == t.path) = some t) :
    ∃ i, tallies[i]? = some t ∧ putTally u tallies = tallies.set i u := by
  induction tallies with
  | nil => simp at ht
  | cons v rest ih =>
    by_cases hv : v.path = t.path
    · rw [List.find?_cons_of_pos (by simpa using hv)] at ht
      exact ⟨0, by simpa using ht, by simp [putTally, hu, hv]⟩
    · rw [List.find?_cons_of_neg (by simpa using hv)] at ht
      obtain ⟨i, hi, hput⟩ := ih ht
      have hne : ¬v.path = u.path := by rwa [hu]
      exact ⟨i + 1, by simpa using hi, by simp [putTally, hne, hput]⟩

/-- Raising a slot changes the counts of one module in their place. -/
theorem exists_raise_eq_set {t : Tally} (ht : s.tally? t.path = some t) (slot : Slot)
    (amount : Int) : ∃ i, s.tallies[i]? = some t
      ∧ s.raise t slot amount = { s with tallies := s.tallies.set i (t.raise slot amount) } := by
  obtain ⟨i, hi, hput⟩ := exists_putTally_eq_set (Tally.path_raise t slot amount) ht
  exact ⟨i, hi, by rw [raise, hput]⟩

theorem shapes_raise {t : Tally} (ht : s.tally? t.path = some t) (slot : Slot) (amount : Int) :
    (s.raise t slot amount).shapes = s.shapes := by
  obtain ⟨i, hi, hset⟩ := exists_raise_eq_set ht slot amount
  rw [hset, shapes, shapes, List.map_set, Tally.shape_raise]
  apply List.ext_getElem?
  intro j
  rw [List.getElem?_set]
  by_cases hij : i = j
  · subst hij
    obtain ⟨hlt, -⟩ := List.getElem?_eq_some_iff.1 hi
    rw [if_pos rfl, if_pos (by simpa using hlt), List.getElem?_map, hi, Option.map_some]
  · rw [if_neg hij]

theorem place?_congr (h : s'.shapes = s.shapes) (r : Reference) : s'.place? r = s.place? r := by
  rw [place?, place?, h]

/-- A hit is counted in the one place that its reference addresses, or not at all. -/
theorem place?_cases (s : Store) (r : Reference) :
    (∃ kind t slot, s.place? r = some (t.path, slot) ∧ s.tally? t.path = some t
        ∧ t.slotOf? kind r.id r.arm = some slot
        ∧ ∀ amount, s.count? r amount = some (s.raise t slot amount))
      ∨ s.place? r = none ∧ ∀ amount, s.count? r amount = none := by
  have hshape : (s.shapes.find? fun shape => (Scalar.string shape.path).equals r.path)
      = (s.tallies.find? fun t => (Scalar.string t.path).equals r.path).map Tally.shape :=
    List.find?_map ..
  unfold place? count?
  rw [hshape]
  cases ProbeKind.ofCode? r.kind with
  | none => exact .inr ⟨rfl, fun _ => rfl⟩
  | some kind =>
    cases ht : s.tallies.find? fun t => (Scalar.string t.path).equals r.path with
    | none => exact .inr ⟨rfl, fun _ => rfl⟩
    | some t =>
      have hpath : r.path = .string t.path :=
        Scalar.eq_of_equals_string (by simpa using List.find?_some ht)
      rw [hpath, find?_equals_string] at ht
      have hslot : t.shape.slot? kind r.id r.arm = t.slotOf? kind r.id r.arm := rfl
      simp only [Option.bind_eq_bind, Option.bind_some, Option.map_some, hslot, Tally.add?_eq]
      cases hat : t.slotOf? kind r.id r.arm with
      | none => exact .inr ⟨rfl, fun _ => rfl⟩
      | some slot => exact .inl ⟨kind, t, slot, rfl, ht, hat, fun _ => rfl⟩

end Store

end LuaCoverage

/-! ## Registered modules -/

namespace LuaCoverage.Store
variable {s s' : Store} {m : ProbeMap}

def paths (s : Store) : List String := s.tallies.map Tally.path

/-- The same modules are registered in both stores, and the second holds what the first held. -/
structure Continues (s s' : Store) : Prop where
  paths : s'.paths = s.paths
  holds : ∀ m, s.Holds m → s'.Holds m

theorem paths_eq (s : Store) : s.paths = s.shapes.map Tally.Shape.path := by
  rw [shapes, List.map_map]
  rfl

theorem paths_putTally_of_not_mem {t : Tally} {tallies : List Tally}
    (h : t.path ∉ tallies.map Tally.path) :
    (putTally t tallies).map Tally.path = tallies.map Tally.path ++ [t.path] := by
  induction tallies with
  | nil => rfl
  | cons v rest ih =>
    simp only [List.map_cons, List.mem_cons, not_or] at h
    have hv : ¬v.path = t.path := fun hv => h.1 hv.symm
    rw [putTally, if_neg hv, List.map_cons, ih h.2, List.map_cons, List.cons_append]

/-- A new module is registered behind all others. -/
theorem paths_register (h : m.path ∉ s.paths) : (s.register m).paths = s.paths ++ [m.path] :=
  paths_putTally_of_not_mem h

/-- Registering another module keeps what is held. -/
theorem Holds.register (h : s.Holds m) {other : ProbeMap} (hne : other.path ≠ m.path) :
    (s.register other).Holds m := by
  obtain ⟨t, ht, hfits⟩ := h
  refine ⟨t, ?_, hfits⟩
  rw [← ht]
  exact find?_putTally_of_ne hne s.tallies

namespace Continues

theorem refl (s : Store) : s.Continues s := ⟨rfl, fun _ h => h⟩

theorem trans {s'' : Store} (h : s.Continues s') (h' : s'.Continues s'') : s.Continues s'' :=
  ⟨h'.paths.trans h.paths, fun m hm => h'.holds m (h.holds m hm)⟩

theorem count? {r : Reference} {amount : Int} (h : s.count? r amount = some s') :
    s.Continues s' := by
  obtain ⟨_, t, slot, _, _, ht, _, rfl⟩ := count?_cases h
  exact ⟨by rw [paths_eq, paths_eq, shapes_raise ht], fun m hm => hm.raise ht slot amount⟩

theorem drop (s : Store) (r : Reference) (amount : Int) : s.Continues (s.drop r amount) :=
  ⟨rfl, fun _ hm => hm.drop r amount⟩

theorem increment (s : Store) (r : Reference) : s.Continues (s.increment r).2 := by
  unfold Store.increment
  split
  · next hs => exact count? hs
  · exact drop s r 1

theorem record (s : Store) (path kind id : Value) (arm : Option Value) :
    s.Continues (s.record path kind id arm) := by
  unfold Store.record
  split
  · exact increment s _
  · exact refl s

/-- A probe hit continues a store. -/
theorem recordAll {args : List Value} (h : s.recordAll args = .ok s') : s.Continues s' := by
  unfold Store.recordAll at h
  split at h
  · cases h
    exact record s ..
  · cases h
    exact record s ..
  · cases h

theorem addHits (hits : List (Except LoadError DumpHits)) (applied : Int) (s : Store) :
    s.Continues (Dump.addHits s applied hits).2 := by
  induction hits generalizing applied s with
  | nil => exact refl s
  | cons hit rest ih =>
    cases hit with
    | error e => exact refl s
    | ok h =>
      simp only [Dump.addHits]
      split
      · next hs => exact (count? hs).trans (ih _ _)
      · exact (drop s ..).trans (ih _ _)

/-- A dump continues a store, whether it can be loaded to its end or not. -/
theorem load (d : Dump) (s : Store) : s.Continues (d.load s).2 := addHits d.hits 0 s

end Continues

end LuaCoverage.Store

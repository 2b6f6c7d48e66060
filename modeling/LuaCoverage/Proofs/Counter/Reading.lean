import LuaCoverage.Proofs.Counter.History

/-!
# Reading counts back

Counts are written by a reference and read by the id of a probe. Both take the first id of the
module off the id, but the writer looks whether there is such a place, while the reader takes a
place below zero from the end. So the two agree on the ids from the first one on: there a count can
be read if and only if a hit of the probe is accepted, and a hit that is accepted shows in what is
read for its probe and nowhere else. An id below the first one is refused by the writer, and read
as the id of a probe near the end.

For all kinds at once, the counts of a probe are a *row*: one count for a statement or a function,
and one for each path of a branch.

Results:
* `Tally.read?_eq`: reading, by rows.
* `Tally.slotOf?_eq_some_iff`, `Tally.read?_raise`: what an address and a hit are to rows.
* `Store.run_read`: reading and writing behind any run of actions.
* `Store.read_below_base`: an id below the first one is read, and refused.
-/

namespace LuaCoverage

/-- The place of a slot in the row of its probe. -/
def Slot.place : Slot → Nat
  | .statement _ => 0
  | .function _ => 0
  | .path _ a => a

namespace Tally

/-- What is read for the id of a probe: its one count, or the counts of its paths. -/
def read? (t : Tally) (kind : ProbeKind) (id : Int) : Option (List Int) :=
  match kind with
  | .statement => (t.statement? id).map fun n => [n]
  | .function => (t.function? id).map fun n => [n]
  | .branch => t.branch? id

/-- The rows of the probes of a kind. -/
def rows (t : Tally) : ProbeKind → List (List Int)
  | .statement => t.statements.map fun n => [n]
  | .function => t.functions.map fun n => [n]
  | .branch => t.branches

/-! ## Places -/

section Reach
variable {α β : Type} {counts : List α} {index : Int}

theorem reach?_of_nonneg (h : 0 ≤ index) : reach? counts index = counts[index.toNat]? :=
  if_neg (by omega)

/-- A place below zero is one from the end, as long as there is one. -/
theorem reach?_of_neg (h : index < 0) : reach? counts index
    = if -(counts.length : Int) ≤ index then reach? counts (index + counts.length) else none := by
  have hle : -index ≤ counts.length ↔ -(counts.length : Int) ≤ index := by omega
  rw [reach?, if_pos h]
  simp only [hle]
  split
  · rw [reach?_of_nonneg (by omega), Int.add_comm]
  · rfl

theorem reach?_map (f : α → β) : reach? (counts.map f) index = (reach? counts index).map f := by
  simp only [reach?, List.length_map, List.getElem?_map]
  split
  · split <;> rfl
  · rfl

end Reach

variable {t : Tally} {kind : ProbeKind} {id : Int} {arm : Option Int} {slot : Slot} {amount : Int}

theorem read?_eq (t : Tally) (kind : ProbeKind) (id : Int) :
    t.read? kind id = reach? (t.rows kind) (id - t.idBase) := by
  cases kind with
  | statement => exact (reach?_map _).symm
  | function => exact (reach?_map _).symm
  | branch => rfl

theorem read?_of_le (h : t.idBase ≤ id) :
    t.read? kind id = (t.rows kind)[(id - t.idBase).toNat]? := by
  rw [read?_eq, reach?_of_nonneg (by omega)]

/-! ## Addresses and hits -/

/-- An address has a slot if its probe has a row with that place. Only for branches is the place
the arm of the address. -/
theorem slotOf?_eq_some_iff : t.slotOf? kind id arm = some slot
    ↔ slot.kind = kind ∧ id - t.idBase = slot.index ∧ (kind = .branch → arm = some (slot.place : Int))
      ∧ ∃ row, (t.rows kind)[slot.index]? = some row ∧ slot.place < row.length := by
  cases kind with
  | statement | function =>
    have hlt : ∀ (counts : List Int) (i : Nat), i < counts.length ↔ ∃ n, counts[i]? = some n :=
      fun counts i => by simp [List.getElem?_eq_some_iff]
    simp only [slotOf?, Slot.address?, Option.map_eq_some_iff, slot?_eq_some_iff]
    cases slot <;> simp [Slot.kind, Slot.index, Slot.place, rows, hlt]
  | branch =>
    simp only [slotOf?, Slot.address?, Option.bind_eq_bind, Option.bind_eq_some_iff,
      slot?_eq_some_iff, Option.some.injEq, List.length_map, List.getElem?_map]
    cases slot with
    | statement i | function i => simp [Slot.kind]
    | path i a =>
      simp only [Slot.kind, Slot.index, Slot.place, rows, Slot.path.injEq, true_and, forall_const]
      constructor
      · rintro ⟨_, rfl, i', ⟨hid, hi⟩, a', ⟨rfl, ha⟩, rfl, rfl⟩
        rw [List.getElem?_eq_getElem hi, Option.map_some, Option.getD_some] at ha
        exact ⟨hid, rfl, _, List.getElem?_eq_getElem hi, ha⟩
      · rintro ⟨hid, rfl, row, hrow, ha⟩
        have hi := (List.getElem?_eq_some_iff.1 hrow).1
        exact ⟨_, rfl, i, ⟨hid, hi⟩, a, ⟨rfl, by simpa [hrow] using ha⟩, rfl, rfl⟩

theorem at?_eq (t : Tally) (slot : Slot) :
    t.at? slot = (t.rows slot.kind)[slot.index]?.bind fun row => row[slot.place]? := by
  have hsingle : ∀ (counts : List Int) (i : Nat),
      counts[i]? = (counts.map fun n => [n])[i]?.bind fun row => row[0]? := by
    intro counts i
    cases h : counts[i]? <;> simp [h]
  cases slot with
  | statement i => exact hsingle t.statements i
  | function i => exact hsingle t.functions i
  | path i a => rfl

/-- There is a count in every slot that an address has. -/
theorem isSome_at?_of_slotOf? (h : t.slotOf? kind id arm = some slot) :
    (t.at? slot).isSome = true := by
  obtain ⟨rfl, -, -, row, hrow, hplace⟩ := slotOf?_eq_some_iff.1 h
  rw [at?_eq, hrow, Option.bind_some, List.getElem?_eq_getElem hplace, Option.isSome_some]

/-- A hit changes the row of its probe, at one place. -/
theorem rows_raise (t : Tally) (slot : Slot) (amount : Int) (kind : ProbeKind) :
    (t.raise slot amount).rows kind
      = if slot.kind = kind then
          (t.rows kind).modify slot.index fun row => row.modify slot.place (· + amount)
        else t.rows kind := by
  have hsingle : ∀ (counts : List Int) (i : Nat),
      (counts.modify i (· + amount)).map (fun n => [n])
        = (counts.map fun n => [n]).modify i fun row => row.modify 0 (· + amount) :=
    fun counts i => map_modify fun _ _ => rfl
  cases slot <;> cases kind <;>
    simp [raise, rows, Slot.kind, Slot.index, Slot.place, hsingle]

@[simp] theorem idBase_raise (t : Tally) (slot : Slot) (amount : Int) :
    (t.raise slot amount).idBase = t.idBase := by
  cases slot <;> rfl

/-- From the first id on, a hit shows in what is read for its probe, and nowhere else. -/
theorem read?_raise (h : t.idBase ≤ id) : (t.raise slot amount).read? kind id
    = if slot.kind = kind ∧ id - t.idBase = slot.index then
        (t.read? kind id).map fun row => row.modify slot.place (· + amount)
      else t.read? kind id := by
  have hindex : slot.index = (id - t.idBase).toNat ↔ id - t.idBase = slot.index := by omega
  rw [read?_of_le (by simpa using h), read?_of_le h, rows_raise, idBase_raise]
  by_cases hkind : slot.kind = kind
  · rw [if_pos hkind, List.getElem?_modify]
    by_cases hid : id - t.idBase = slot.index
    · simp [hkind, hid]
    · have hne : ¬slot.index = (id - t.idBase).toNat := fun heq => hid (hindex.1 heq)
      simp [hkind, hid, hne]
  · simp [hkind]

/-- An id below the first one is read as the id of a probe near the end. -/
theorem read?_of_lt (h : id < t.idBase) : t.read? kind id
    = if t.idBase - (t.rows kind).length ≤ id then t.read? kind (id + (t.rows kind).length)
      else none := by
  have hle : -((t.rows kind).length : Int) ≤ id - t.idBase
      ↔ t.idBase - (t.rows kind).length ≤ id := by omega
  have hend : id - t.idBase + (t.rows kind).length = id + (t.rows kind).length - t.idBase := by
    omega
  rw [read?_eq, read?_eq, reach?_of_neg (by omega), hend]
  simp only [hle]

/-- Some address of a probe has a slot if and only if its id is not below the first one and a row
that is not empty is read for it. -/
theorem exists_slotOf?_iff : (∃ arm, (t.slotOf? kind id arm).isSome = true)
    ↔ t.idBase ≤ id ∧ ∃ row, t.read? kind id = some row ∧ row ≠ [] := by
  simp only [Option.isSome_iff_exists, slotOf?_eq_some_iff]
  constructor
  · rintro ⟨arm, slot, -, hid, -, row, hrow, hplace⟩
    have hle : t.idBase ≤ id := by omega
    have hindex : (id - t.idBase).toNat = slot.index := by omega
    exact ⟨hle, row, by rw [read?_of_le hle, hindex, hrow], List.length_pos_iff.1 (by omega)⟩
  · rintro ⟨hle, row, hread, hne⟩
    rw [read?_of_le hle] at hread
    have hplace := List.length_pos_iff.2 hne
    have hid : id - t.idBase = ((id - t.idBase).toNat : Int) := by omega
    cases kind with
    | statement => exact ⟨none, .statement _, rfl, hid, by simp, row, hread, hplace⟩
    | function => exact ⟨none, .function _, rfl, hid, by simp, row, hread, hplace⟩
    | branch => exact ⟨some 0, .path _ 0, rfl, hid, fun _ => rfl, row, hread, hplace⟩

end Tally

/-! ## Modules -/

namespace ProbeMap

/-- The number of probes of a kind. -/
def probeCount (m : ProbeMap) : ProbeKind → Nat
  | .statement => m.statements.length
  | .function => m.functions.length
  | .branch => m.branches.length

/-- Whether an id is that of a branch without paths. -/
def IsPathless (m : ProbeMap) (kind : ProbeKind) (id : Int) : Prop :=
  kind = .branch
    ∧ ∃ probe, m.branches[(id - m.idBase).toNat]? = some probe ∧ probe.locations = []

end ProbeMap

namespace Tally
variable {t t' : Tally} {m : ProbeMap} {kind : ProbeKind} {id : Int}

theorem Fits.length_rows (h : t.Fits m) (kind : ProbeKind) :
    (t.rows kind).length = m.probeCount kind := by
  cases kind with
  | statement => simpa [rows, ProbeMap.probeCount] using h.statements
  | function => simpa [rows, ProbeMap.probeCount] using h.functions
  | branch => exact h.length_branches

/-- Only the row of a branch without paths is empty. -/
theorem Fits.read?_eq_nil_iff (h : t.Fits m) (hid : m.idBase ≤ id) :
    t.read? kind id = some [] ↔ m.IsPathless kind id := by
  rw [read?_of_le (h.idBase ▸ hid), h.idBase, ProbeMap.IsPathless]
  cases kind with
  | statement | function => simp [rows]
  | branch =>
    have hpaths := congrArg (·[(id - m.idBase).toNat]?) h.branches
    simp only [List.getElem?_map] at hpaths
    simp only [rows, true_and]
    cases hrow : t.branches[(id - m.idBase).toNat]? with
    | none =>
      rw [hrow, Option.map_none, eq_comm, Option.map_eq_none_iff] at hpaths
      simp [hpaths]
    | some row =>
      rw [hrow, Option.map_some, eq_comm, Option.map_eq_some_iff] at hpaths
      obtain ⟨probe, hprobe, hlength⟩ := hpaths
      rw [BranchProbe.pathCount] at hlength
      simp [hprobe, ← List.length_eq_zero_iff, hlength]

/-- What a hit of a probe changes: the row of the probe has grown by one at one place, for a branch
at the arm of the hit, and what is read for any other probe is what was read before. -/
structure RaisedAt (t t' : Tally) (kind : ProbeKind) (id : Int) (arm : Option Int) : Prop where
  row : ∃ row place, t.read? kind id = some row ∧ place < row.length
    ∧ (kind = .branch → arm = some (place : Int))
    ∧ t'.read? kind id = some (row.modify place (· + 1))
  others : ∀ other otherId, t.idBase ≤ otherId → (other, otherId) ≠ (kind, id) →
    t'.read? other otherId = t.read? other otherId

theorem raisedAt_raise {arm : Option Int} {slot : Slot} (h : t.slotOf? kind id arm = some slot) :
    t.RaisedAt (t.raise slot 1) kind id arm := by
  obtain ⟨hkind, hid, harm, row, hrow, hplace⟩ := slotOf?_eq_some_iff.1 h
  have hle : t.idBase ≤ id := by omega
  have hread : t.read? kind id = some row := by
    rw [read?_of_le hle, show (id - t.idBase).toNat = slot.index by omega, hrow]
  constructor
  · refine ⟨row, slot.place, hread, hplace, harm, ?_⟩
    rw [read?_raise hle, if_pos ⟨hkind, hid⟩, hread, Option.map_some]
  · intro other otherId hother hne
    rw [read?_raise hother, if_neg]
    rintro ⟨hsame, hsameId⟩
    exact hne (by rw [← hkind, ← hsame]; simp; omega)

end Tally

namespace Store
open History

def Accepts (s : Store) (a : Address) : Prop := (s.increment a.reference).1 = true

section Hits
variable {s : Store} {t : Tally} {path : String} {kind : ProbeKind} {id : Int} {arm : Option Int}

theorem accepts_iff (ht : s.tally? path = some t) :
    s.Accepts ⟨path, kind.code, id, arm⟩ ↔ (t.slotOf? kind id arm).isSome = true := by
  rw [Accepts, Address.reference, increment, count?_string ht]
  cases t.slotOf? kind id arm <;> simp

theorem increment_of_slot (ht : s.tally? path = some t) {slot : Slot}
    (hslot : t.slotOf? kind id arm = some slot) :
    (s.increment (Address.reference ⟨path, kind.code, id, arm⟩)).2 = s.raise t slot 1 := by
  rw [Address.reference, increment, count?_string ht, hslot]
  rfl

end Hits

/-- Behind any run of actions, what is read for the probes of a registered module agrees with the
hits that the store accepts for them. From the first id of the module on, a row is read if and only
if the store accepts a hit of the probe, with some arm if it is a branch with paths. Behind a hit
that is accepted the row of its probe is greater by one at one place, and all that is read for
other probes or modules is as before. An id below the first one is never accepted, but read as one
that is greater by the number of probes, if there are so many. -/
theorem run_read (actions : List Action) {path : String} {m : ProbeMap}
    (hm : map? path actions.reverse = some m) :
    ∃ t, (run actions).tally? path = some t ∧ t.idBase = m.idBase ∧ ∀ kind id,
      (m.idBase ≤ id → ((t.read? kind id).isSome = true
        ↔ (∃ arm, (run actions).Accepts ⟨path, kind.code, id, arm⟩) ∨ m.IsPathless kind id))
      ∧ (id < m.idBase → (∀ arm, ¬(run actions).Accepts ⟨path, kind.code, id, arm⟩)
        ∧ t.read? kind id = if m.idBase - m.probeCount kind ≤ id then
            t.read? kind (id + m.probeCount kind) else none)
      ∧ (kind ≠ .branch → ∀ arm, (run actions).Accepts ⟨path, kind.code, id, arm⟩
        ↔ (run actions).Accepts ⟨path, kind.code, id, none⟩)
      ∧ ∀ arm, (run actions).Accepts ⟨path, kind.code, id, arm⟩ →
        ∃ t', (run (actions ++ [.increment ⟨path, kind.code, id, arm⟩])).tally? path = some t'
          ∧ t.RaisedAt t' kind id arm
          ∧ ∀ other ≠ path, (run (actions ++ [.increment ⟨path, kind.code, id, arm⟩])).tally? other
            = (run actions).tally? other := by
  have hpath := path_of_map? hm
  obtain ⟨t, ht, hfits⟩ : ∃ t, (run actions).tally? path = some t ∧ t.Fits m := by
    rw [run_eq_tallied, tally?_tallied, History.tally?, hm]
    exact ⟨_, rfl, Tally.fits_tabulate ..⟩
  refine ⟨t, ht, hfits.idBase, fun kind id =>
    ⟨fun hid => ?_, fun hid => ⟨fun arm h => ?_, ?_⟩, ?_, ?_⟩⟩
  · simp only [accepts_iff ht, Tally.exists_slotOf?_iff, hfits.idBase, hid, true_and,
      ← hfits.read?_eq_nil_iff hid]
    cases t.read? kind id with
    | none => simp
    | some row => simp [em']
  · obtain ⟨hle, -⟩ := Tally.exists_slotOf?_iff.1 ⟨arm, (accepts_iff ht).1 h⟩
    have hbase := hfits.idBase
    omega
  · have hlt : id < t.idBase := hfits.idBase ▸ hid
    rw [Tally.read?_of_lt hlt, hfits.idBase, hfits.length_rows]
  · intro hkind arm
    rw [accepts_iff ht, accepts_iff ht]
    cases kind <;> first | rfl | exact absurd rfl hkind
  · intro arm haccepts
    obtain ⟨slot, hslot⟩ := Option.isSome_iff_exists.1 ((accepts_iff ht).1 haccepts)
    have hrun : run (actions ++ [.increment ⟨path, kind.code, id, arm⟩])
        = (run actions).raise t slot 1 := by
      rw [← increment_of_slot ht hslot]
      simp [run, Action.perform]
    have htpath : t.path = path := Store.path_of_tally? ht
    rw [hrun]
    refine ⟨t.raise slot 1, ?_, Tally.raisedAt_raise hslot, fun other hother => ?_⟩
    · rw [tally?_raise, if_pos htpath]
    · rw [tally?_raise, if_neg fun heq : t.path = other => hother (heq.symm.trans htpath)]

/-- A module of two statements and two branches with ids from 10 on; only the first branch has
paths. -/
def readMap : ProbeMap :=
  let loc : Location := ⟨⟨1, 0⟩, ⟨1, 5⟩⟩
  ⟨"m.lua", 10, [⟨10, loc⟩, ⟨11, loc⟩], [], [⟨10, "if", 1, loc, [loc, loc]⟩, ⟨11, "if", 2, loc, []⟩]⟩

/-- A run in which the second statement was hit. -/
def readActions : List Action := [.register readMap, .increment ⟨"m.lua", "s", 11, none⟩]

theorem run_read_sample :
    map? "m.lua" readActions.reverse = some readMap
    ∧ (∃ arm, (run readActions).Accepts ⟨"m.lua", "b", 10, arm⟩)
    ∧ (∀ arm, ¬(run readActions).Accepts ⟨"m.lua", "s", 9, arm⟩)
    ∧ ∃ t, (run readActions).tally? "m.lua" = some t ∧ t.read? .branch 11 = some []
      ∧ t.read? .statement 9 = t.read? .statement 11 := by
  have hm : map? "m.lua" readActions.reverse = some readMap := rfl
  obtain ⟨t, ht, -, hread⟩ := run_read readActions hm
  have htally : (run readActions).tally? "m.lua" = some ⟨"m.lua", 10, [0, 1], [], [[0, 0], []]⟩ := by
    decide +kernel
  obtain rfl := Option.some.inj (ht.symm.trans htally)
  obtain ⟨hrefused, hwrapped⟩ := (hread .statement 9).2.1 (by decide)
  refine ⟨hm, ?_, hrefused, _, ht, rfl, hwrapped⟩
  have hpaths : ¬readMap.IsPathless .branch 10 := by simp [ProbeMap.IsPathless, readMap]
  exact (((hread .branch 10).1 (by decide)).1 rfl).resolve_right hpaths

/-- The id in front of the first one is read as that of the last statement, while the store refuses
a hit of it. -/
theorem read_below_base :
    ((run readActions).tally? "m.lua").bind (Tally.statement? · 9) = some 1
    ∧ ¬(run readActions).Accepts ⟨"m.lua", "s", 9, none⟩ := by
  rw [Accepts]
  decide +kernel

end Store

end LuaCoverage

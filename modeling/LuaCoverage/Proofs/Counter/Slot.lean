import LuaCoverage.Counter.Store

/-!
# Slots

A *slot* is the place of one counter in the counts of a module. A reference addresses at most one
slot, and which one depends on the shape of the module only: on its first id and on the number of
its probes and paths. So what is added goes to one slot or, if there is none, to the stale hits.

A module is *held* by a store that has counts of its shape for it. Registering a module makes a
store hold it, and no hit changes that.

Results:
* `Tally.add?_eq`, `Tally.at?_raise`: adding raises the addressed slot and no other.
* `Store.count?_of_slot`: a reference to a slot of a held module is counted there.
* `Store.Holds.increment`: a store goes on holding a module whatever is hit.
-/

namespace LuaCoverage

/-- The place of a counter: of a statement, of a function, or of a path of a branch. -/
inductive Slot
  | statement (i : Nat)
  | function (i : Nat)
  | path (i a : Nat)
  deriving DecidableEq, Repr

namespace Slot

def kind : Slot → ProbeKind
  | .statement _ => .statement
  | .function _ => .function
  | .path _ _ => .branch

/-- The place of the probe of a slot among those of its kind. -/
def index : Slot → Nat
  | .statement i => i
  | .function i => i
  | .path i _ => i

end Slot

/-- The slot that an index and an arm address among so many statements and functions, and branches
with so many paths. -/
def Slot.address? (statements functions : Nat) (branches : List Nat) (kind : ProbeKind)
    (index : Int) (arm : Option Int) : Option Slot :=
  match kind with
  | .statement => (Tally.slot? statements index).map .statement
  | .function => (Tally.slot? functions index).map .function
  | .branch => do
    let a ← arm
    let i ← Tally.slot? branches.length index
    let a ← Tally.slot? (branches[i]?.getD 0) a
    some (.path i a)

/-- The slot that an id and an arm address in the counts of a module. -/
def ProbeMap.slot? (m : ProbeMap) (kind : ProbeKind) (id : Int) (arm : Option Int) :
    Option Slot :=
  Slot.address? m.statements.length m.functions.length (m.branches.map BranchProbe.pathCount) kind
    (id - m.idBase) arm

namespace Tally

/-- The slot that an id and an arm address among counts. -/
def slotOf? (t : Tally) (kind : ProbeKind) (id : Int) (arm : Option Int) : Option Slot :=
  Slot.address? t.statements.length t.functions.length (t.branches.map List.length) kind
    (id - t.idBase) arm

def at? (t : Tally) : Slot → Option Int
  | .statement i => t.statements[i]?
  | .function i => t.functions[i]?
  | .path i a => t.branches[i]?.bind fun arms => arms[a]?

/-- Adds to the count in a slot. -/
def raise (t : Tally) (slot : Slot) (amount : Int) : Tally :=
  match slot with
  | .statement i => { t with statements := t.statements.modify i (· + amount) }
  | .function i => { t with functions := t.functions.modify i (· + amount) }
  | .path i a => { t with branches := t.branches.modify i fun arms => arms.modify a (· + amount) }

theorem add?_eq (t : Tally) (kind : ProbeKind) (id : Int) (arm : Option Int) (amount : Int) :
    t.add? kind id arm amount = (t.slotOf? kind id arm).map (t.raise · amount) := by
  cases kind with
  | statement => simp [add?, slotOf?, Slot.address?, bump?, raise, Function.comp_def]
  | function => simp [add?, slotOf?, Slot.address?, bump?, raise, Function.comp_def]
  | branch =>
    cases arm with
    | none => rfl
    | some a =>
      simp only [add?, slotOf?, Slot.address?, bump?, Option.bind_eq_bind, Option.bind_some,
        List.length_map]
      cases hi : slot? t.branches.length (id - t.idBase) with
      | none => rfl
      | some i =>
        have hlt : i < t.branches.length := (slot?_eq_some_iff.1 hi).2
        simp only [Option.bind_some, List.getElem?_map, List.getElem?_eq_getElem hlt,
          Option.map_some, Option.getD_some, Option.map_bind]
        cases slot? t.branches[i].length a with
        | none => rfl
        | some j => simp [raise, List.modify_eq_set, List.getElem?_eq_getElem hlt]

theorem at?_raise (t : Tally) (slot other : Slot) (amount : Int) :
    (t.raise slot amount).at? other
      = (t.at? other).map fun n => if slot = other then n + amount else n := by
  cases slot with
  | statement i =>
    cases other with
    | statement j => simp [raise, at?, List.getElem?_modify]
    | function j => simp [raise, at?]
    | path j b => simp [raise, at?]
  | function i =>
    cases other with
    | statement j => simp [raise, at?]
    | function j => simp [raise, at?, List.getElem?_modify]
    | path j b => simp [raise, at?]
  | path i a =>
    cases other with
    | statement j => simp [raise, at?]
    | function j => simp [raise, at?]
    | path j b =>
      simp only [raise, at?, List.getElem?_modify, Slot.path.injEq]
      cases t.branches[j]? with
      | none => rfl
      | some arms =>
        by_cases hij : i = j
        · simp [hij, List.getElem?_modify]
        · simp [hij]

@[simp] theorem path_raise (t : Tally) (slot : Slot) (amount : Int) :
    (t.raise slot amount).path = t.path := by
  cases slot <;> rfl

/-- Counts of the shape of a module. -/
structure Fits (t : Tally) (m : ProbeMap) : Prop where
  path : t.path = m.path
  idBase : t.idBase = m.idBase
  statements : t.statements.length = m.statements.length
  functions : t.functions.length = m.functions.length
  branches : t.branches.map List.length = m.branches.map BranchProbe.pathCount

theorem fits_ofMap (m : ProbeMap) : (ofMap m).Fits m where
  path := rfl
  idBase := rfl
  statements := by simp [ofMap]
  functions := by simp [ofMap]
  branches := by simp [ofMap, BranchProbe.pathCount, Function.comp_def]

theorem Fits.length_branches {t : Tally} {m : ProbeMap} (h : t.Fits m) :
    t.branches.length = m.branches.length := by
  simpa using congrArg List.length h.branches

/-- A map that turns a change of the entry at a place into another change. -/
theorem map_modify {α β : Type} {f : α → β} {g : α → α} {g' : β → β} {entries : List α} {i : Nat}
    (h : ∀ entry, entries[i]? = some entry → f (g entry) = g' (f entry)) :
    (entries.modify i g).map f = (entries.map f).modify i g' := by
  apply List.ext_getElem?
  intro j
  simp only [List.getElem?_map, List.getElem?_modify, Option.map_eq_map]
  cases hentry : entries[j]? with
  | none => rfl
  | some entry =>
    by_cases hij : i = j
    · subst hij
      simp [h entry hentry]
    · simp [hij]

theorem map_length_modify (counts : List (List Int)) (i : Nat) (f : List Int → List Int)
    (hf : ∀ l, (f l).length = l.length) :
    (counts.modify i f).map List.length = counts.map List.length := by
  have hid : ∀ arms : List Int, counts[i]? = some arms → (f arms).length = id arms.length :=
    fun arms _ => hf arms
  rw [map_modify hid, List.modify_id]

theorem Fits.raise {t : Tally} {m : ProbeMap} (h : t.Fits m) (slot : Slot) (amount : Int) :
    (t.raise slot amount).Fits m := by
  obtain ⟨hp, hid, hs, hf, hb⟩ := h
  cases slot with
  | statement i => exact ⟨hp, hid, by simpa [Tally.raise] using hs, hf, hb⟩
  | function i => exact ⟨hp, hid, hs, by simpa [Tally.raise] using hf, hb⟩
  | path i a =>
    refine ⟨hp, hid, hs, hf, ?_⟩
    simp only [Tally.raise]
    rw [map_length_modify _ _ _ fun l => List.length_modify .., hb]

theorem Fits.slotOf?_eq {t : Tally} {m : ProbeMap} (h : t.Fits m) (kind : ProbeKind) (id : Int)
    (arm : Option Int) : t.slotOf? kind id arm = m.slot? kind id arm := by
  simp only [slotOf?, ProbeMap.slot?, h.idBase, h.statements, h.functions, h.branches]

end Tally

namespace Scalar

theorem eq_of_equals_string {text : String} {s : Scalar} (h : (string text).equals s = true) :
    s = string text := by
  cases s <;> simp_all [equals, int?]

end Scalar

namespace Store

/-- The count in a slot of a module. -/
def at? (s : Store) (path : String) (slot : Slot) : Option Int :=
  (s.tally? path).bind fun t => t.at? slot

/-- Adds to the count in a slot of a module that has the given counts. -/
def raise (s : Store) (t : Tally) (slot : Slot) (amount : Int) : Store :=
  { s with tallies := putTally (t.raise slot amount) s.tallies }

/-- The store has counts of the shape of a module. -/
def Holds (s : Store) (m : ProbeMap) : Prop := ∃ t, s.tally? m.path = some t ∧ t.Fits m

theorem find?_putTally_of_ne {t : Tally} {path : String} (h : t.path ≠ path)
    (tallies : List Tally) :
    (putTally t tallies).find? (fun u => u.path == path)
      = tallies.find? fun u => u.path == path := by
  induction tallies with
  | nil => simp [putTally, h]
  | cons u rest ih =>
    simp only [putTally]
    split
    · next hu => simp [hu, h]
    · simp only [List.find?_cons, ih]

theorem find?_equals_string (s : Store) (path : String) :
    (s.tallies.find? fun t => (Scalar.string t.path).equals (.string path)) = s.tally? path := by
  simp only [Scalar.equals_string, tally?]

theorem path_of_tally? {s : Store} {path : String} {t : Tally} (h : s.tally? path = some t) :
    t.path = path := by
  simpa using List.find?_some h

theorem tally?_raise (s : Store) (t : Tally) (slot : Slot) (amount : Int) (path : String) :
    (s.raise t slot amount).tally? path
      = if t.path = path then some (t.raise slot amount) else s.tally? path := by
  split
  · next h =>
    subst h
    have hfind := find?_putTally (t.raise slot amount) s.tallies
    rwa [Tally.path_raise] at hfind
  · next h => exact find?_putTally_of_ne (by simpa using h) s.tallies

/-- What is counted is counted in the one slot that the reference addresses. -/
theorem count?_cases {s s' : Store} {r : Reference} {amount : Int}
    (h : s.count? r amount = some s') :
    ∃ kind t slot, ProbeKind.ofCode? r.kind = some kind ∧ r.path = .string t.path
      ∧ s.tally? t.path = some t ∧ t.slotOf? kind r.id r.arm = some slot
      ∧ s' = s.raise t slot amount := by
  simp only [count?, Option.bind_eq_bind, Option.bind_eq_some_iff, Option.some.injEq] at h
  obtain ⟨kind, hkind, t, ht, u, hu, rfl⟩ := h
  have hpath : r.path = .string t.path :=
    Scalar.eq_of_equals_string (by simpa using List.find?_some ht)
  rw [Tally.add?_eq, Option.map_eq_some_iff] at hu
  obtain ⟨slot, hslot, rfl⟩ := hu
  refine ⟨kind, t, slot, hkind, hpath, ?_, hslot, rfl⟩
  rwa [hpath, find?_equals_string] at ht

/-- A hit of a registered module is counted if and only if its id and arm address a slot. -/
theorem count?_string {s : Store} {t : Tally} {path : String} (ht : s.tally? path = some t)
    (kind : ProbeKind) (id : Int) (arm : Option Int) (amount : Int) :
    s.count? ⟨.string path, kind.code, id, arm⟩ amount
      = (t.slotOf? kind id arm).map (s.raise t · amount) := by
  simp only [count?, ProbeKind.ofCode?_code, find?_equals_string, ht, Tally.add?_eq,
    Option.bind_eq_bind, Option.bind_some]
  cases t.slotOf? kind id arm <;> rfl

theorem count?_of_slot {s : Store} {m : ProbeMap} {t : Tally} {kind : ProbeKind} {slot : Slot}
    {id : Int} {arm : Option Int} (ht : s.tally? m.path = some t) (hm : t.Fits m)
    (hslot : m.slot? kind id arm = some slot) (amount : Int) :
    s.count? ⟨.string m.path, kind.code, id, arm⟩ amount = some (s.raise t slot amount) := by
  rw [count?_string ht, hm.slotOf?_eq, hslot, Option.map_some]

theorem holds_register (s : Store) (m : ProbeMap) : (s.register m).Holds m :=
  ⟨Tally.ofMap m, s.tally?_register m, Tally.fits_ofMap m⟩

theorem Holds.raise {s : Store} {m : ProbeMap} (h : s.Holds m) {t : Tally}
    (ht : s.tally? t.path = some t) (slot : Slot) (amount : Int) :
    (s.raise t slot amount).Holds m := by
  obtain ⟨u, hu, hm⟩ := h
  by_cases hp : t.path = m.path
  · obtain rfl : t = u := by rw [hp, hu] at ht; exact (Option.some.inj ht).symm
    exact ⟨t.raise slot amount, by rw [tally?_raise, if_pos hp], hm.raise slot amount⟩
  · exact ⟨u, by rw [tally?_raise, if_neg hp, hu], hm⟩

theorem Holds.count? {s s' : Store} {m : ProbeMap} {r : Reference} {amount : Int} (h : s.Holds m)
    (hs : s.count? r amount = some s') : s'.Holds m := by
  obtain ⟨_, t, slot, _, _, ht, _, rfl⟩ := count?_cases hs
  exact h.raise ht slot amount

theorem Holds.drop {s : Store} {m : ProbeMap} (h : s.Holds m) (r : Reference) (amount : Int) :
    (s.drop r amount).Holds m := h

theorem Holds.increment {s : Store} {m : ProbeMap} (h : s.Holds m) (r : Reference) :
    (s.increment r).2.Holds m := by
  unfold Store.increment
  split
  · next hs => exact h.count? hs
  · exact h.drop r 1

theorem at?_raise {s : Store} {t : Tally} (ht : s.tally? t.path = some t) (slot other : Slot)
    (amount : Int) :
    (s.raise t slot amount).at? t.path other
      = (s.at? t.path other).map fun n => if slot = other then n + amount else n := by
  simp only [at?, tally?_raise, if_true, ht, Option.bind_some, Tally.at?_raise]

end Store

end LuaCoverage

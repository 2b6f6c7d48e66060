import LuaCoverage.Data.Convert
import LuaCoverage.Proofs.Except

/-!
# What reading complains about

Whatever a value is, reading it can go wrong in a few ways only: the mismatches fall into the
groups that the reader expects, or an infinite number, which is no integer, stands somewhere in the
value. What a reader complains about follows from what its parts complain about, as long as these
are applied to parts of the value.

Results:
* `Complains.bind`, `Complains.mapM`, `Complains.part`: how complaints are put together.
* `Value.complains_toInt`, `Value.complains_entry`, ...: what the primitives complain about.
-/

namespace LuaCoverage
open LuaCoverage.Decimal

/-- An infinite number stands somewhere in a value. -/
inductive Value.HoldsInfinity : Value → Prop
  | number (negative : Bool) : HoldsInfinity (.scalar (.float (.infinity negative)))
  | item {items : List Value} {v : Value} : v ∈ items → HoldsInfinity v →
    HoldsInfinity (.list items)
  | key {entries : List (Scalar × Value)} {e : Scalar × Value} : e ∈ entries →
    HoldsInfinity (.scalar e.1) → HoldsInfinity (.mapping entries)
  | entry {entries : List (Scalar × Value)} {e : Scalar × Value} : e ∈ entries →
    HoldsInfinity e.2 → HoldsInfinity (.mapping entries)
  | member {members : List Scalar} {s : Scalar} : s ∈ members → HoldsInfinity (.scalar s) →
    HoldsInfinity (.set members)
  | first {v w : Value} : HoldsInfinity v → HoldsInfinity (.pair v w)
  | second {v w : Value} : HoldsInfinity w → HoldsInfinity (.pair v w)

namespace Mismatch

/-- The groups of mismatches of a value that should be an integer. -/
def integerGroups : List Group := [.type, .value]

/-- The groups of mismatches of a value that should have entries as well. -/
def entryGroups : List Group := .key :: integerGroups

/-- The groups of mismatches of a value all entries of which are read as well. -/
def tableGroups : List Group := .member :: entryGroups

end Mismatch

/-- Reading a value fails only with a mismatch of some groups, or because an infinite number stands
in the value. -/
def Complains {α : Type} (groups : List Mismatch.Group) (v : Value) (x : Except Mismatch α) :
    Prop :=
  ∀ m, x = .error m → m.group ∈ groups ∨ m = .infiniteInteger ∧ v.HoldsInfinity

namespace Complains
variable {α β : Type} {groups : List Mismatch.Group} {v w : Value} {x : Except Mismatch α}

theorem ok (a : α) : Complains groups v (.ok a) := fun _ h => by cases h

theorem error {m : Mismatch} (g : Mismatch.Group) (hm : m.group = g) (hg : g ∈ groups) :
    Complains groups v (.error m : Except Mismatch α) := fun _ h => by
  cases h
  exact .inl (hm ▸ hg)

theorem bind {f : α → Except Mismatch β} (hx : Complains groups v x)
    (hf : ∀ a, x = .ok a → Complains groups v (f a)) : Complains groups v (x >>= f) := by
  intro m hm
  rcases Except.bind_error hm with hm | ⟨a, ha, hm⟩
  · exact hx m hm
  · exact hf a ha m hm

theorem mapM {f : β → Except Mismatch α} {l : List β} (h : ∀ b ∈ l, Complains groups v (f b)) :
    Complains groups v (l.mapM f) := by
  intro m hm
  obtain ⟨b, hb, hm⟩ := Except.exists_of_mapM_error hm
  exact h b hb m hm

theorem mono {more : List Mismatch.Group} (h : Complains groups v x) (hsub : groups ⊆ more) :
    Complains more v x :=
  fun m hm => (h m hm).imp_left fun hgroup => hsub hgroup

/-- What a reader complains about in a part it complains about in the whole. -/
theorem part (h : Complains groups w x) (hpart : w.HoldsInfinity → v.HoldsInfinity) :
    Complains groups v x :=
  fun m hm => (h m hm).imp_right (And.imp_right hpart)

end Complains

open Mismatch (integerGroups entryGroups tableGroups)

theorem Scalar.complains_toInt (s : Scalar) : Complains integerGroups (.scalar s) s.toInt := by
  unfold Scalar.toInt
  split
  case h_4 x hnan =>
    cases x with
    | finite _ _ _ => exact .ok _
    | infinity negative =>
      intro m hm
      cases hm
      exact .inr ⟨rfl, .number negative⟩
    | nan => exact absurd rfl hnan
  case h_5 | h_6 =>
    split
    · exact .ok _
    · exact .error .value rfl (by decide)
  case h_1 | h_2 => exact .ok _
  case h_3 => exact .error .value rfl (by decide)
  case h_7 => exact .error .type rfl (by decide)

namespace Value
variable {v w : Value} {key : String}

theorem complains_toInt (v : Value) : Complains integerGroups v v.toInt := by
  cases v with
  | scalar s => exact s.complains_toInt
  | list _ | mapping _ | set _ | pair _ _ => exact .error .type rfl (by decide)

theorem complains_entry (v : Value) (key : String) : Complains entryGroups v (v.entry key) := by
  unfold entry
  split
  · split
    · exact .ok _
    · exact .error .key rfl (by decide)
  all_goals exact .error .type rfl (by decide)

theorem complains_toItems (v : Value) : Complains integerGroups v v.toItems := by
  unfold toItems
  split
  case h_7 => exact .error .type rfl (by decide)
  all_goals exact .ok _

theorem complains_toEntries (v : Value) : Complains tableGroups v v.toEntries := by
  unfold toEntries
  split
  · exact .ok _
  · exact .error .member rfl (by decide)

theorem exists_mem_of_lookup {entries : List (Scalar × Value)} (h : lookup entries key = some w) :
    ∃ e ∈ entries, e.2 = w := by
  obtain ⟨e, he, rfl⟩ := Option.map_eq_some_iff.1 h
  exact ⟨e, List.mem_of_find?_eq_some he, rfl⟩

/-- Only a mapping has an entry. -/
theorem exists_of_entry (h : v.entry key = .ok w) :
    ∃ entries, v = .mapping entries ∧ lookup entries key = some w := by
  unfold entry at h
  split at h
  · next entries =>
    split at h
    · next hw =>
      cases h
      exact ⟨entries, rfl, hw⟩
    · cases h
  all_goals cases h

theorem HoldsInfinity.of_lookup {entries : List (Scalar × Value)} (h : lookup entries key = some w)
    (hw : w.HoldsInfinity) : (mapping entries).HoldsInfinity := by
  obtain ⟨e, he, rfl⟩ := exists_mem_of_lookup h
  exact .entry he hw

theorem HoldsInfinity.of_entry (h : v.entry key = .ok w) (hw : w.HoldsInfinity) :
    v.HoldsInfinity := by
  obtain ⟨entries, rfl, hlookup⟩ := exists_of_entry h
  exact .of_lookup hlookup hw

theorem HoldsInfinity.of_toItems {items : List Value} (h : v.toItems = .ok items) (hmem : w ∈ items)
    (hw : w.HoldsInfinity) : v.HoldsInfinity := by
  unfold toItems at h
  split at h
  all_goals cases h
  · exact .item hmem hw
  · obtain ⟨e, he, rfl⟩ := List.mem_map.1 hmem
    exact .key he hw
  · obtain ⟨s, hs, rfl⟩ := List.mem_map.1 hmem
    exact .member hs hw
  · rcases List.mem_cons.1 hmem with rfl | hmem
    · exact .first hw
    · obtain rfl := List.mem_singleton.1 hmem
      exact .second hw
  -- characters and bytes are no infinite numbers
  all_goals
    obtain ⟨c, -, rfl⟩ := List.mem_map.1 hmem
    cases hw

end Value

end LuaCoverage

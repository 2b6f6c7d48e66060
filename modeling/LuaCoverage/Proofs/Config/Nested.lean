import LuaCoverage.Data.Value
import LuaCoverage.Proofs.Config.Filled
import LuaCoverage.Proofs.Data.Texts

/-!
# Placeholders in nested values

The placeholders of a configuration are filled in below any number of mappings, and in the items of
the lists there. A list is not looked into further: what stands in a list or a mapping that is an
item of a list is *buried*, and stays as it was written.

Results:
* `Placeholder.fillValue_eq`: which texts of a value are filled in.
* `Placeholder.fillEntries_iff`: all of them are if and only if no placeholder is buried.
* `Placeholder.buried_unfilled`: a placeholder in a list within a list, and one in a mapping there.
-/

namespace LuaCoverage.Placeholder
open Value (Container)

/-- Whether what stands within some containers stands in an item of a list that is no text. -/
def Buried (within : List Container) : Prop := .list ∈ within.dropLast

instance (within : List Container) : Decidable (Buried within) :=
  inferInstanceAs (Decidable (_ ∈ _))

/-- Fills in a text unless it is buried. -/
def fillShallow (env : Environment) (within : List Container) (text : String) : String :=
  if Buried within then text else fill env text

variable {env : Environment} {within : List Container}

theorem buried_mapping : Buried (.mapping :: within) ↔ Buried within := by
  cases within <;> simp [Buried]

/-- Whatever stands in an item of a list is buried, unless it is the item. -/
theorem buried_list (c : Container) : Buried (.list :: c :: within) := by
  simp [Buried]

theorem fillShallow_mapping (env : Environment) :
    (fun within => fillShallow env (.mapping :: within)) = fillShallow env := by
  funext within text
  simp only [fillShallow, buried_mapping]

theorem fillShallow_list (env : Environment) (c : Container) :
    (fun within => fillShallow env (.list :: c :: within)) = fun _ text => text := by
  funext within text
  rw [fillShallow, if_pos (buried_list c)]

theorem fillItem_eq (env : Environment) (v : Value) :
    fillItem env v = v.mapTexts fun within => fillShallow env (.list :: within) := by
  cases v with
  | scalar s => cases s <;> rfl
  | list items => rw [Value.mapTexts, fillShallow_list, Value.mapItems_id]; rfl
  | mapping entries => rw [Value.mapTexts, fillShallow_list, Value.mapEntries_id]; rfl
  | set members => rfl
  | pair first second => rfl

theorem map_fillItem (env : Environment) (items : List Value) : items.map (fillItem env)
    = Value.mapItems (fun within => fillShallow env (.list :: within)) items := by
  induction items with
  | nil => rfl
  | cons v rest ih => rw [List.map_cons, Value.mapItems, fillItem_eq, ih]

mutual
/-- All texts of a value are filled in but the buried ones. -/
theorem fillValue_eq (env : Environment) :
    ∀ v : Value, fillValue env v = v.mapTexts (fillShallow env)
  | .scalar s => by cases s <;> rfl
  | .list items => by rw [fillValue, Value.mapTexts, map_fillItem]
  | .mapping entries => by
    rw [fillValue, Value.mapTexts, fillShallow_mapping, fillEntries_eq]
  | .set members => rfl
  | .pair first second => rfl
theorem fillEntries_eq (env : Environment) : ∀ entries : List (Scalar × Value),
    fillEntries env entries = Value.mapEntries (fillShallow env) entries
  | [] => rfl
  | (key, v) :: rest => by rw [fillEntries, Value.mapEntries, fillValue_eq, fillEntries_eq]
end

/-- In the entries of a configuration every text that is not buried has its placeholders filled in,
each once and with what it stands for, and the shape, the keys, all other scalars and the buried
texts are left as they are. So all texts at every depth are filled in if and only if those that are
buried would stay as they are. -/
theorem fillEntries_iff (env : Environment) (entries : List (Scalar × Value)) :
    (∀ text result, fill env text = result ↔ Filled env text.toList result.toList)
    ∧ .mapping (fillEntries env entries) = (Value.mapping entries).mapTexts
      (fun within text => if Buried within then text else fill env text)
    ∧ (.mapping (fillEntries env entries) = (Value.mapping entries).mapTexts (fun _ => fill env)
      ↔ ∀ within text, (Value.mapping entries).Holds within text → Buried within →
        fill env text = text) := by
  have hshallow := fillValue_eq env (.mapping entries)
  rw [fillValue] at hshallow
  refine ⟨fun _ _ => fill_eq_iff, hshallow, ?_⟩
  rw [hshallow, Value.mapTexts_eq_iff]
  refine forall_congr' fun within => forall_congr' fun text => imp_congr_right fun _ => ?_
  by_cases hburied : Buried within
  · simp [fillShallow, hburied, eq_comm]
  · simp [fillShallow, hburied]

/-- A placeholder in a list within a list, and one in a mapping within a list. -/
def nestedEntries : List (Scalar × Value) :=
  [(.string "a", .list [.list [.string "$\x7bS\x7d"], .object [("k", .string "$\x7bS\x7d")]])]

/-- Both placeholders stay as they were written, where a text directly in the list is filled in. -/
theorem buried_unfilled :
    fillEntries [("S", "v")] nestedEntries = nestedEntries
    ∧ (Value.mapping nestedEntries).mapTexts (fun _ => fill [("S", "v")])
      = .mapping [(.string "a", .list [.list [.string "v"], .object [("k", .string "v")]])]
    ∧ fillEntries [("S", "v")] [(.string "a", .list [.string "$\x7bS\x7d"])]
      = [(.string "a", .list [.string "v"])] := by
  decide +kernel

end LuaCoverage.Placeholder

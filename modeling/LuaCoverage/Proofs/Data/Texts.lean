import LuaCoverage.Data.Value

/-!
# Texts in values

The texts in a value stand in mappings and lists, one within the other to any depth. A function may
be applied to all of them, each with what it stands in; keys, other scalars and the shape of the
value stay as they are. Keys are no texts of a value, nor are the members of sets and what stands in
pairs.

Results:
* `Value.mapTexts_eq_iff`: two functions make the same of a value if they do so of every text in it.
* `Value.mapTexts_id`: nothing becomes of a value if its texts are left alone.
-/

namespace LuaCoverage.Value

/-- What a text, a list or a mapping stands in. -/
inductive Container
  | mapping
  | list
  deriving DecidableEq, Repr

mutual
/-- Applies a function to the texts in a value, each with the containers that it stands in, the
outermost first. -/
def mapTexts (f : (within : List Container) → String → String) : Value → Value
  | .scalar (.string text) => .string (f [] text)
  | .list items => .list (mapItems (fun within => f (.list :: within)) items)
  | .mapping entries => .mapping (mapEntries (fun within => f (.mapping :: within)) entries)
  | other => other
/-- Applies a function to the texts in the items of a list. -/
def mapItems (f : List Container → String → String) : List Value → List Value
  | [] => []
  | v :: rest => v.mapTexts f :: mapItems f rest
/-- Applies a function to the texts in the values of entries. -/
def mapEntries (f : List Container → String → String) :
    List (Scalar × Value) → List (Scalar × Value)
  | [] => []
  | (key, v) :: rest => (key, v.mapTexts f) :: mapEntries f rest
end

/-- Whether a text stands in a value, within some containers. -/
inductive Holds : (within : List Container) → String → Value → Prop
  | text (s : String) : Holds [] s (.scalar (.string s))
  | item {within : List Container} {s : String} {items : List Value} {v : Value} :
    v ∈ items → Holds within s v → Holds (.list :: within) s (.list items)
  | entry {within : List Container} {s : String} {entries : List (Scalar × Value)}
    {e : Scalar × Value} : e ∈ entries → Holds within s e.2 →
    Holds (.mapping :: within) s (.mapping entries)

/-! ## What stands in a value -/

variable {within : List Container} {s : String}

theorem holds_string_iff {t : String} :
    Holds within s (.scalar (.string t)) ↔ within = [] ∧ s = t := by
  constructor
  · rintro ⟨⟩
    exact ⟨rfl, rfl⟩
  · rintro ⟨rfl, rfl⟩
    exact .text s

theorem holds_list_iff {items : List Value} : Holds within s (.list items)
    ↔ ∃ inner, within = .list :: inner ∧ ∃ v ∈ items, Holds inner s v := by
  constructor
  · rintro (_ | ⟨hv, h⟩)
    exact ⟨_, rfl, _, hv, h⟩
  · rintro ⟨inner, rfl, v, hv, h⟩
    exact .item hv h

theorem holds_mapping_iff {entries : List (Scalar × Value)} : Holds within s (.mapping entries)
    ↔ ∃ inner, within = .mapping :: inner ∧ ∃ e ∈ entries, Holds inner s e.2 := by
  constructor
  · rintro (_ | _ | ⟨he, h⟩)
    exact ⟨_, rfl, _, he, h⟩
  · rintro ⟨inner, rfl, e, he, h⟩
    exact .entry he h

/-! ## Functions on texts -/

mutual
/-- Two functions make the same of a value if and only if they do so of every text in it. -/
theorem mapTexts_eq_iff : ∀ {f g : List Container → String → String} {v : Value},
    v.mapTexts f = v.mapTexts g ↔ ∀ within s, Holds within s v → f within s = g within s
  | f, g, .scalar (.string t) => by
    simp [mapTexts, string, holds_string_iff]
  | f, g, .list items => by
    simp only [mapTexts, list.injEq, mapItems_eq_iff, holds_list_iff]
    constructor
    · rintro h _ s ⟨inner, rfl, v, hv, hs⟩
      exact h v hv inner s hs
    · exact fun h v hv inner s hs => h _ s ⟨inner, rfl, v, hv, hs⟩
  | f, g, .mapping entries => by
    simp only [mapTexts, mapping.injEq, mapEntries_eq_iff, holds_mapping_iff]
    constructor
    · rintro h _ s ⟨inner, rfl, e, he, hs⟩
      exact h e he inner s hs
    · exact fun h e he inner s hs => h _ s ⟨inner, rfl, e, he, hs⟩
  | f, g, .scalar .null | f, g, .scalar (.bool _) | f, g, .scalar (.int _)
  | f, g, .scalar (.float _) | f, g, .scalar (.date _) | f, g, .scalar (.moment _)
  | f, g, .scalar (.bytes _) | f, g, .set _ | f, g, .pair _ _ => ⟨fun _ _ _ => nofun, fun _ => rfl⟩
theorem mapItems_eq_iff : ∀ {f g : List Container → String → String} {items : List Value},
    mapItems f items = mapItems g items
      ↔ ∀ v ∈ items, ∀ within s, Holds within s v → f within s = g within s
  | f, g, [] => by simp [mapItems]
  | f, g, v :: rest => by
    rw [mapItems, mapItems, List.cons.injEq, mapTexts_eq_iff, mapItems_eq_iff, List.forall_mem_cons]
theorem mapEntries_eq_iff : ∀ {f g : List Container → String → String}
    {entries : List (Scalar × Value)}, mapEntries f entries = mapEntries g entries
      ↔ ∀ e ∈ entries, ∀ within s, Holds within s e.2 → f within s = g within s
  | f, g, [] => by simp [mapEntries]
  | f, g, (key, v) :: rest => by
    rw [mapEntries, mapEntries, List.cons.injEq, Prod.mk.injEq, mapTexts_eq_iff, mapEntries_eq_iff,
      List.forall_mem_cons]
    simp only [true_and]
end

mutual
theorem mapTexts_id : ∀ v : Value, v.mapTexts (fun _ s => s) = v
  | .scalar s => by cases s <;> rfl
  | .list items => by rw [mapTexts, mapItems_id items]
  | .mapping entries => by rw [mapTexts, mapEntries_id entries]
  | .set members => rfl
  | .pair first second => rfl
theorem mapItems_id : ∀ items : List Value, mapItems (fun _ s => s) items = items
  | [] => rfl
  | v :: rest => by rw [mapItems, mapTexts_id v, mapItems_id rest]
theorem mapEntries_id :
    ∀ entries : List (Scalar × Value), mapEntries (fun _ s => s) entries = entries
  | [] => rfl
  | (key, v) :: rest => by rw [mapEntries, mapTexts_id v, mapEntries_id rest]
end

end LuaCoverage.Value

import LuaCoverage.Data.Table
import Mathlib.Data.List.Forall2
import Mathlib.Data.List.Nodup

/-!
# Tables of pairs

What becomes of a list of pairs when it is made a table: every key stands once, at its first place
and with its last value.

Results:
* `Table.nodup_keys_ofPairs`, `Table.mem_of_mem_ofPairs`: no key comes twice, and every entry was a
  pair.
* `Table.ofPairs_of_nodup`: pairs with keys of their own are a table as they are.
* `Table.ofPairs_map`: keys may be given other names before or after.
* `Table.forall₂_ofPairs`: pairs that are related one by one make tables that are.
* `Table.find?_eq_some_iff`, `Table.find?_perm`: a table is asked for its entries, in any order.
* `Table.exists_find?_iff`, `Table.eq_map_keys`: it has a value for its keys, and no more.
* `Table.find?_map_mk`: what a table that is made of a list has.
* `Table.erase_of_find?_none`: erasing what is not there.
-/

namespace LuaCoverage.Table
variable {κ α β : Type}

/-- Whether two entries have the same key and related values. -/
def Alike (R : α → β → Prop) (a : κ × α) (b : κ × β) : Prop := a.1 = b.1 ∧ R a.2 b.2

theorem keys_eq_of_forall₂ {R : α → β → Prop} {t : Table κ α} {u : Table κ β}
    (h : List.Forall₂ (Alike R) t u) : keys t = keys u := by
  induction h with
  | nil => rfl
  | cons hxy _ ih => rw [keys, List.map_cons, hxy.1, ← keys, ih, keys, keys, List.map_cons]

variable [DecidableEq κ]

theorem keys_put_of_mem {table : Table κ α} {key : κ} (value : α) (h : key ∈ keys table) :
    keys (put table key value) = keys table := by
  induction table with
  | nil => simp [keys] at h
  | cons entry rest ih =>
    simp only [keys, List.map_cons, List.mem_cons, put] at h ih ⊢
    split
    · rfl
    · next hk => rw [List.map_cons, ih (h.resolve_left fun e => hk e.symm)]

theorem nodup_keys_put {table : Table κ α} (h : (keys table).Nodup) (key : κ) (value : α) :
    (keys (put table key value)).Nodup := by
  by_cases hk : key ∈ keys table
  · rwa [keys_put_of_mem value hk]
  · rw [keys_put_of_not_mem value hk]
    refine List.nodup_append.2 ⟨h, by simp, ?_⟩
    rintro k hmem _ hkey rfl
    rw [List.mem_singleton.1 hkey] at hmem
    exact hk hmem

theorem mem_of_mem_put {table : Table κ α} {key : κ} {value : α} {entry : κ × α}
    (h : entry ∈ put table key value) : entry = (key, value) ∨ entry ∈ table := by
  induction table with
  | nil => exact .inl (by simpa [put] using h)
  | cons first rest ih =>
    simp only [put] at h
    split at h
    · next hk =>
      rcases List.mem_cons.1 h with rfl | h
      · exact .inl (by rw [hk])
      · exact .inr (List.mem_cons_of_mem _ h)
    · rcases List.mem_cons.1 h with rfl | h
      · exact .inr (by simp)
      · exact (ih h).imp_right (List.mem_cons_of_mem _)

/-- No key comes twice in a table. -/
theorem nodup_keys_ofPairs (pairs : List (κ × α)) : (keys (ofPairs pairs)).Nodup := by
  have hfold : ∀ table : Table κ α, (keys table).Nodup →
      (keys (pairs.foldl (fun t pair => put t pair.1 pair.2) table)).Nodup := by
    induction pairs with
    | nil => exact fun _ h => h
    | cons pair rest ih => exact fun table h => ih _ (nodup_keys_put h pair.1 pair.2)
  exact hfold [] List.nodup_nil

/-- The entries of a table are among its pairs. -/
theorem mem_of_mem_ofPairs {pairs : List (κ × α)} {entry : κ × α}
    (h : entry ∈ ofPairs pairs) : entry ∈ pairs := by
  have hfold : ∀ table : Table κ α,
      entry ∈ pairs.foldl (fun t pair => put t pair.1 pair.2) table →
        entry ∈ table ∨ entry ∈ pairs := by
    clear h
    induction pairs with
    | nil => exact fun _ h => .inl h
    | cons pair rest ih =>
      intro table h
      rcases ih _ h with hput | hrest
      · rcases mem_of_mem_put hput with rfl | htable
        · exact .inr (by simp)
        · exact .inl htable
      · exact .inr (List.mem_cons_of_mem _ hrest)
  exact (hfold [] h).resolve_left (by simp)

theorem put_of_not_mem {table : Table κ α} {key : κ} (value : α) (h : key ∉ keys table) :
    put table key value = table ++ [(key, value)] := by
  induction table with
  | nil => rfl
  | cons entry rest ih =>
    simp only [keys, List.map_cons, List.mem_cons, not_or] at h ih
    rw [put, if_neg (Ne.symm h.1), ih h.2, List.cons_append]

/-- Pairs with keys of their own are a table as they are. -/
theorem ofPairs_of_nodup {pairs : List (κ × α)} (h : (pairs.map (·.1)).Nodup) :
    ofPairs pairs = pairs := by
  have hfold : ∀ front back : List (κ × α), ((front ++ back).map (·.1)).Nodup →
      back.foldl (fun t pair => put t pair.1 pair.2) front = front ++ back := by
    intro front back
    induction back generalizing front with
    | nil => simp
    | cons pair rest ih =>
      intro hnodup
      have hassoc : front ++ pair :: rest = (front ++ [pair]) ++ rest := by simp
      have hnot : pair.1 ∉ keys front := by
        rw [List.map_append, List.map_cons, List.nodup_append] at hnodup
        exact fun hmem => hnodup.2.2 pair.1 hmem pair.1 (by simp) rfl
      rw [List.foldl_cons, put_of_not_mem pair.2 hnot, hassoc]
      exact ih _ (hassoc ▸ hnodup)
  exact hfold [] pairs h

/-! ## Keys with other names -/

theorem put_map {κ' : Type} [DecidableEq κ'] {f : κ → κ'} (hf : Function.Injective f)
    (g : κ → α → β) (table : Table κ α) (key : κ) (value : α) :
    put (table.map fun entry => (f entry.1, g entry.1 entry.2)) (f key) (g key value)
      = (put table key value).map fun entry => (f entry.1, g entry.1 entry.2) := by
  induction table with
  | nil => rfl
  | cons entry rest ih =>
    simp only [List.map_cons, put]
    by_cases hk : entry.1 = key
    · rw [if_pos hk, if_pos (congrArg f hk), List.map_cons, hk]
    · rw [if_neg hk, if_neg fun heq => hk (hf heq), List.map_cons, ih]

/-- A table whose keys get other names is the table of pairs whose keys get them. -/
theorem ofPairs_map {κ' : Type} [DecidableEq κ'] {f : κ → κ'} (hf : Function.Injective f)
    (g : κ → α → β) (pairs : List (κ × α)) :
    ofPairs (pairs.map fun pair => (f pair.1, g pair.1 pair.2))
      = (ofPairs pairs).map fun entry => (f entry.1, g entry.1 entry.2) := by
  have hfold : ∀ table : Table κ α,
      (pairs.map fun pair => (f pair.1, g pair.1 pair.2)).foldl
          (fun t pair => put t pair.1 pair.2)
          (table.map fun entry => (f entry.1, g entry.1 entry.2))
        = (pairs.foldl (fun t pair => put t pair.1 pair.2) table).map
          fun entry => (f entry.1, g entry.1 entry.2) := by
    induction pairs with
    | nil => exact fun _ => rfl
    | cons pair rest ih =>
      intro table
      rw [List.map_cons, List.foldl_cons, List.foldl_cons, put_map hf]
      exact ih _
  exact hfold []

/-! ## Entries that are related -/

theorem forall₂_put {R : α → β → Prop} {t : Table κ α} {u : Table κ β}
    (h : List.Forall₂ (Alike R) t u) (key : κ) {a : α} {b : β} (hab : R a b) :
    List.Forall₂ (Alike R) (put t key a) (put u key b) := by
  induction h with
  | nil => exact .cons ⟨rfl, hab⟩ .nil
  | @cons x y xs ys hxy hrest ih =>
    simp only [put]
    by_cases hx : x.1 = key
    · have hy : y.1 = key := hxy.1 ▸ hx
      rw [if_pos hx, if_pos hy]
      exact .cons ⟨hxy.1, hab⟩ hrest
    · have hy : ¬y.1 = key := hxy.1 ▸ hx
      rw [if_neg hx, if_neg hy]
      exact .cons hxy ih

/-- Pairs that are related one by one make tables that are. -/
theorem forall₂_ofPairs {R : α → β → Prop} {pairs : List (κ × α)} {others : List (κ × β)}
    (h : List.Forall₂ (Alike R) pairs others) :
    List.Forall₂ (Alike R) (ofPairs pairs) (ofPairs others) := by
  have hfold : ∀ (t : Table κ α) (u : Table κ β), List.Forall₂ (Alike R) t u →
      List.Forall₂ (Alike R) (pairs.foldl (fun t pair => put t pair.1 pair.2) t)
        (others.foldl (fun u pair => put u pair.1 pair.2) u) := by
    induction h with
    | nil => exact fun _ _ htu => htu
    | @cons x y xs ys hxy _ ih =>
      intro t u htu
      have hput := forall₂_put htu x.1 hxy.2
      rw [List.foldl_cons, List.foldl_cons, ← hxy.1]
      exact ih _ _ hput
  exact hfold [] [] .nil

/-! ## Lookups -/

/-- A table is asked for its entries. -/
theorem find?_eq_some_iff {table : Table κ α} (h : (keys table).Nodup) {key : κ} {value : α} :
    find? table key = some value ↔ (key, value) ∈ table := by
  induction table with
  | nil => simp [find?]
  | cons entry rest ih =>
    simp only [keys, List.map_cons, List.nodup_cons] at h ih
    simp only [find?, List.mem_cons]
    split
    · next hk =>
      subst hk
      constructor
      · rintro hv
        exact .inl (by rw [← Option.some.inj hv])
      · rintro (hv | hmem)
        · rw [← hv]
        · exact absurd (List.mem_map_of_mem hmem) h.1
    · next hk =>
      rw [ih h.2]
      constructor
      · exact .inr
      · rintro (hv | hmem)
        · exact absurd (by rw [← hv]) hk
        · exact hmem

/-- A table is known by its keys and what it answers. -/
theorem eq_map_keys {table : Table κ α} (h : (keys table).Nodup) (default : α) :
    table = (keys table).map fun key => (key, (find? table key).getD default) := by
  apply List.ext_getElem
  · simp [keys]
  · intro i hi hj
    have hfind : find? table table[i].1 = some table[i].2 :=
      (find?_eq_some_iff h).2 (List.getElem_mem hi)
    simp [keys, hfind]

theorem exists_find?_iff {table : Table κ α} {key : κ} :
    (∃ value, find? table key = some value) ↔ key ∈ keys table := by
  induction table with
  | nil => simp [find?, keys]
  | cons entry rest ih =>
    simp only [keys] at ih
    simp only [find?, keys, List.map_cons, List.mem_cons, ← ih]
    by_cases hk : entry.1 = key
    · simp [hk]
    · simp [hk, Ne.symm hk]

theorem find?_map (f : α → β) (table : Table κ α) (key : κ) :
    find? (table.map fun entry => (entry.1, f entry.2)) key = (find? table key).map f := by
  induction table with
  | nil => rfl
  | cons entry rest ih =>
    simp only [List.map_cons, find?, ih]
    split <;> rfl

/-- A table made of a list has the value of the first element with the key. -/
theorem find?_map_mk {γ : Type} (f : γ → κ) (g : γ → α) (l : List γ) (key : κ) :
    find? (l.map fun a => (f a, g a)) key = (l.find? fun a => f a = key).map g := by
  induction l with
  | nil => rfl
  | cons a rest ih =>
    rw [List.map_cons, find?, List.find?_cons, ih]
    by_cases ha : f a = key <;> simp [ha]

/-- There is nothing to erase for a key that has no value. -/
theorem erase_of_find?_none {table : Table κ α} {key : κ} (h : find? table key = none) :
    erase table key = table := by
  refine List.filter_eq_self.2 fun entry hentry => ?_
  have hkey : key ∉ keys table := by
    rw [← exists_find?_iff, h]
    simp
  have hne : entry.1 ≠ key := fun heq => hkey (heq ▸ List.mem_map_of_mem hentry)
  exact decide_eq_true hne

/-- The order of its entries does not matter to what a table answers. -/
theorem find?_perm {table other : Table κ α} (hperm : table.Perm other) (h : (keys table).Nodup)
    (key : κ) : find? table key = find? other key := by
  have hother : (keys other).Nodup := (hperm.map _).nodup_iff.1 h
  apply Option.ext
  intro value
  rw [find?_eq_some_iff h, find?_eq_some_iff hother, hperm.mem_iff]

end LuaCoverage.Table

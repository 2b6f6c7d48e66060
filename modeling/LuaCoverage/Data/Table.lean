/-!
# Tables

A table is a list of keys with values in which no key comes twice. A new key goes to the end; a
key that is there keeps its place.

Results:
* `Table.find?_put_self`, `Table.find?_put_of_ne`: how a table answers behind a `put`.
* `Table.keys_put_of_not_mem`: a new key goes to the end.
* `Table.find?_erase_self`, `Table.find?_erase_of_ne`: an erased key has no value, and the other
  keys have theirs.
-/

namespace LuaCoverage

abbrev Table (κ α : Type) := List (κ × α)

namespace Table
variable {κ α : Type} [DecidableEq κ]

def find? (table : Table κ α) (key : κ) : Option α :=
  match table with
  | [] => none
  | (k, v) :: rest => if k = key then some v else find? rest key

def put (table : Table κ α) (key : κ) (value : α) : Table κ α :=
  match table with
  | [] => [(key, value)]
  | (k, v) :: rest => if k = key then (k, value) :: rest else (k, v) :: put rest key value

/-- The table of a list of pairs, of which the last one with a key gives its value. -/
def ofPairs (pairs : List (κ × α)) : Table κ α :=
  pairs.foldl (fun table pair => put table pair.1 pair.2) []

def erase (table : Table κ α) (key : κ) : Table κ α := table.filter fun entry => entry.1 ≠ key

def keys (table : Table κ α) : List κ := table.map (·.1)

def values (table : Table κ α) : List α := table.map (·.2)

theorem find?_put_self (table : Table κ α) (key : κ) (value : α) :
    find? (put table key value) key = some value := by
  induction table with
  | nil => simp [put, find?]
  | cons entry rest ih =>
    simp only [put]
    split <;> simp_all [find?]

theorem find?_put_of_ne (table : Table κ α) {key other : κ} (value : α) (h : other ≠ key) :
    find? (put table key value) other = find? table other := by
  induction table with
  | nil => simp [put, find?, Ne.symm h]
  | cons entry rest ih =>
    simp only [put]
    split
    · next hk => simp [find?, hk, Ne.symm h]
    · simp only [find?, ih]

theorem keys_put_of_not_mem {table : Table κ α} {key : κ} (value : α) (h : key ∉ keys table) :
    keys (put table key value) = keys table ++ [key] := by
  induction table with
  | nil => simp [put, keys]
  | cons entry rest ih =>
    simp only [keys, List.map_cons, List.mem_cons, not_or] at h ih ⊢
    have hk : ¬ entry.1 = key := fun e => h.1 e.symm
    simp [put, hk, ih h.2]

theorem find?_erase_self (table : Table κ α) (key : κ) : find? (erase table key) key = none := by
  induction table with
  | nil => rfl
  | cons entry rest ih =>
    simp only [erase, List.filter_cons] at ih ⊢
    split
    · next h => simp_all [find?]
    · exact ih

theorem find?_erase_of_ne (table : Table κ α) {key other : κ} (h : other ≠ key) :
    find? (erase table key) other = find? table other := by
  induction table with
  | nil => rfl
  | cons entry rest ih =>
    simp only [erase, List.filter_cons] at ih ⊢
    split
    · simp only [find?, ih]
    · next hk =>
      have hkey : entry.1 = key := by simpa using hk
      simp only [find?, ih, hkey, if_neg (Ne.symm h)]

end Table

end LuaCoverage

/-!
# A cache of bounded size

A cache keeps the entries that were used last. Its entries stand in the order of their last use,
the oldest first; a new entry drives out the oldest one when the cache is full.

Results:
* `Cache.get_eq_none_iff`: what is not there is not found.
* `Cache.length_put_le`: the cache does not outgrow its capacity.
-/

namespace LuaCoverage

/-- A cache of values under names, oldest use first. -/
structure Cache (α : Type) where
  capacity : Nat
  entries : List (String × α)

namespace Cache
variable {α : Type}

def empty (capacity : Nat) : Cache α := ⟨capacity, []⟩

def size (c : Cache α) : Nat := c.entries.length

/-- The entries without those of a name. -/
def without (key : String) (entries : List (String × α)) : List (String × α) :=
  entries.filter fun entry => entry.1 != key

/-- The value of a name, and the cache in which it is the last one used. -/
def get (c : Cache α) (key : String) : Option α × Cache α :=
  match c.entries.find? fun entry => entry.1 == key with
  | some entry => (some entry.2, { c with entries := without key c.entries ++ [entry] })
  | none => (none, c)

/-- The cache with a value under a name. There is none if an entry has to go and there is none to
go, which happens only at capacity zero. -/
def put? (c : Cache α) (key : String) (value : α) : Option (Cache α) :=
  if c.entries.any fun entry => entry.1 == key then
    some { c with entries := without key c.entries ++ [(key, value)] }
  else if c.entries.length < c.capacity then
    some { c with entries := c.entries ++ [(key, value)] }
  else
    match c.entries with
    | [] => none
    | _ :: rest => some { c with entries := rest ++ [(key, value)] }

def clear (c : Cache α) : Cache α := { c with entries := [] }

theorem get_eq_none_iff (c : Cache α) (key : String) :
    (c.get key).1 = none ↔ ∀ entry ∈ c.entries, entry.1 ≠ key := by
  unfold get
  split
  · next entry h =>
    have hm := List.mem_of_find?_eq_some h
    have hk := List.find?_some h
    simp only [beq_iff_eq] at hk
    constructor
    · intro h0; simp at h0
    · intro h0; exact absurd hk (h0 entry hm)
  · next h =>
    simp only [true_iff]
    intro entry hm
    have := List.find?_eq_none.1 h entry hm
    simpa using this

theorem length_put_le {c c' : Cache α} {key : String} {value : α} (hc : c.size ≤ c.capacity)
    (hput : c.put? key value = some c') : c'.size ≤ c'.capacity := by
  unfold put? at hput
  split at hput
  · next h =>
    simp only [Option.some.injEq] at hput
    subst hput
    obtain ⟨entry, hm, hk⟩ := List.any_eq_true.1 h
    have hlt : (without key c.entries).length < c.entries.length := by
      unfold without
      exact List.length_filter_lt_length_iff_exists.2 ⟨entry, hm, by simpa using hk⟩
    simp only [size, List.length_append, List.length_cons, List.length_nil] at *
    omega
  · split at hput
    · simp only [Option.some.injEq] at hput
      subst hput
      simp only [size, List.length_append, List.length_cons, List.length_nil] at *
      omega
    · split at hput
      · simp at hput
      · next hlist =>
        simp only [Option.some.injEq] at hput
        subst hput
        simp only [size, hlist, List.length_append, List.length_cons, List.length_nil] at *
        omega

end Cache

end LuaCoverage

import LuaCoverage.Cache
import LuaCoverage.Proofs.Distinct

/-!
# What a cache holds

A name is *used* when a value is put under it, and when it is asked for and found. A cache holds the
names that were used last, each once, as many as there is room for, and each has the value that was
last put under it. So what a cache holds and answers can be told from what was done with it: this
list of actions, the latest first, is its *history*.

Results:
* `take_uses`: what a use does to the names that were used last.
* `Recent.step`: every action succeeds and leaves what the longer history says.
* `run_recent`: so does every run of actions.
-/

namespace LuaCoverage.Cache
variable {α : Type}

/-- What may be done with a cache. -/
inductive Action (α : Type)
  | get (key : String)
  | put (key : String) (value : α)
  | clear

/-- The cache behind an action, if there is one. -/
def perform? (c : Cache α) : Action α → Option (Cache α)
  | .get key => some (c.get key).2
  | .put key value => c.put? key value
  | .clear => some c.clear

/-- The cache behind a run of actions on a new one, if there is one. -/
def run? (capacity : Nat) (actions : List (Action α)) : Option (Cache α) :=
  actions.foldlM perform? (empty capacity)

/-- The names in a cache, oldest use first. -/
def keys (c : Cache α) : List String := c.entries.map (·.1)

/-- What was done with a cache, the latest action first. -/
abbrev History (α : Type) := List (Action α)

namespace History

/-- The names that were used since the cache was cleared, the latest use first. Asking for a name
uses it only if it is among those that there was room for. -/
def uses (capacity : Nat) : History α → List String
  | [] => []
  | .get key :: past =>
    if key ∈ (uses capacity past).eraseDups.take capacity then key :: uses capacity past
    else uses capacity past
  | .put key _ :: past => key :: uses capacity past
  | .clear :: _ => []

/-- The names that were used last, each once, the latest first: as many as there is room for. -/
def latest (capacity : Nat) (h : History α) : List String :=
  (uses capacity h).eraseDups.take capacity

/-- The value that was last put under a name since the cache was cleared. -/
def lastPut? (key : String) : History α → Option α
  | [] => none
  | .get _ :: past => lastPut? key past
  | .put name value :: past => if name = key then some value else lastPut? key past
  | .clear :: _ => none

theorem lastPut?_put_self (key : String) (value : α) (past : History α) :
    lastPut? key (.put key value :: past) = some value := if_pos rfl

theorem lastPut?_put_of_ne {key name : String} (hne : name ≠ key) (value : α) (past : History α) :
    lastPut? key (.put name value :: past) = lastPut? key past := if_neg hne

end History

open History

/-- A cache holds what a history says: the names used last, each with the value last put under it. -/
structure Recent (capacity : Nat) (h : History α) (c : Cache α) : Prop where
  capacity_eq : c.capacity = capacity
  keys_eq : c.keys = (latest capacity h).reverse
  values : ∀ entry ∈ c.entries, lastPut? entry.1 h = some entry.2

variable {capacity : Nat} {h : History α} {c : Cache α} {key : String} {value : α}

/-! ## The operations -/

theorem keys_without (key : String) (entries : List (String × α)) :
    (without key entries).map (·.1) = (entries.map (·.1)).filter fun name => !name == key := by
  rw [without, List.filter_map]
  rfl

theorem mem_without {entries : List (String × α)} {entry : String × α} :
    entry ∈ without key entries ↔ entry ∈ entries ∧ entry.1 ≠ key := by
  simp [without]

/-- The cache in which a name is the last one used. -/
def touch (c : Cache α) (key : String) (value : α) : Cache α :=
  { c with entries := without key c.entries ++ [(key, value)] }

/-- A name that is there is found and becomes the last one used; otherwise nothing changes. -/
theorem get_cases (c : Cache α) (key : String) :
    (∃ value, (key, value) ∈ c.entries ∧ c.get key = (some value, c.touch key value))
      ∨ key ∉ c.keys ∧ c.get key = (none, c) := by
  unfold get
  split
  · next entry hfind =>
    have hkey : entry.1 = key := by simpa using List.find?_some hfind
    obtain ⟨name, value⟩ := entry
    obtain rfl : name = key := hkey
    exact .inl ⟨value, List.mem_of_find?_eq_some hfind, rfl⟩
  · next hfind =>
    refine .inr ⟨?_, rfl⟩
    intro hmem
    obtain ⟨entry, hentry, rfl⟩ := List.mem_map.1 hmem
    exact List.find?_eq_none.1 hfind entry hentry (by simp)

theorem put?_of_mem (hkey : key ∈ c.keys) (value : α) :
    c.put? key value = some (c.touch key value) := by
  obtain ⟨entry, hentry, rfl⟩ := List.mem_map.1 hkey
  have hany : (c.entries.any fun other => other.1 == entry.1) = true :=
    List.any_eq_true.2 ⟨entry, hentry, by simp⟩
  rw [put?, if_pos hany]
  rfl

/-- The cache with a new name. The oldest one goes if there is no room for both. -/
def enter (c : Cache α) (key : String) (value : α) : Cache α :=
  { c with entries := c.entries.drop (c.size + 1 - c.capacity) ++ [(key, value)] }

theorem put?_of_not_mem (hkey : key ∉ c.keys) (hcap : 1 ≤ c.capacity) (hsize : c.size ≤ c.capacity)
    (value : α) : c.put? key value = some (c.enter key value) := by
  have hany : ¬(c.entries.any fun entry => entry.1 == key) = true := by
    intro hany
    obtain ⟨entry, hentry, hname⟩ := List.any_eq_true.1 hany
    exact hkey (List.mem_map.2 ⟨entry, hentry, by simpa using hname⟩)
  unfold size at hsize
  rw [put?, if_neg hany, enter, size]
  split
  · next hroom =>
    have hzero : c.entries.length + 1 - c.capacity = 0 := by omega
    rw [hzero, List.drop_zero]
  · next hfull =>
    have hone : c.entries.length + 1 - c.capacity = 1 := by omega
    rw [hone]
    split
    · next hnil =>
      rw [hnil, List.length_nil] at hfull
      omega
    · next first rest hcons => rw [hcons, List.drop_one, List.tail_cons]

/-! ## What an action leaves -/

theorem Recent.mem_keys_iff (hc : Recent capacity h c) : key ∈ c.keys ↔ key ∈ latest capacity h := by
  rw [hc.keys_eq, List.mem_reverse]

theorem Recent.size_eq (hc : Recent capacity h c) : c.size = (latest capacity h).length := by
  have hlength := congrArg List.length hc.keys_eq
  rwa [keys, List.length_map, List.length_reverse] at hlength

theorem Recent.size_le (hc : Recent capacity h c) : c.size ≤ capacity := by
  rw [hc.size_eq, latest, List.length_take]
  exact Nat.min_le_left ..

/-- What a use does to the names that were used last: the name comes first, in place of itself if it
was among them, and otherwise in place of the oldest one if there was no room left. -/
theorem take_uses (hcap : 1 ≤ capacity) (key : String) (h : History α) :
    (key :: uses capacity h).eraseDups.take capacity
      = key :: if key ∈ latest capacity h then (latest capacity h).filter fun name => !name == key
        else (latest capacity h).take (capacity - 1) := by
  obtain ⟨n, rfl⟩ := Nat.exists_eq_add_of_le' hcap
  rw [take_eraseDups_cons, latest, Nat.add_sub_cancel, List.take_take, Nat.min_eq_left (Nat.le_succ n)]

/-- A use leaves the names and values that the history with the use says. -/
theorem Recent.use {a : Action α} (hc : Recent capacity h c) (hcap : 1 ≤ capacity)
    (huses : uses capacity (a :: h) = key :: uses capacity h)
    (hvalue : lastPut? key (a :: h) = some value)
    (hothers : ∀ name, name ≠ key → lastPut? name (a :: h) = lastPut? name h)
    {kept : List (String × α)} (hkept : ∀ entry ∈ kept, entry ∈ c.entries ∧ entry.1 ≠ key)
    (hnames : (kept.map (·.1)).reverse
      = if key ∈ latest capacity h then (latest capacity h).filter fun name => !name == key
        else (latest capacity h).take (capacity - 1)) :
    Recent capacity (a :: h) { c with entries := kept ++ [(key, value)] } where
  capacity_eq := hc.capacity_eq
  keys_eq := by
    rw [latest, huses, take_uses hcap, ← hnames, keys, List.map_append, List.reverse_cons,
      List.reverse_reverse]
    rfl
  values := by
    intro entry hentry
    rcases List.mem_append.1 hentry with hentry | hentry
    · obtain ⟨hmem, hne⟩ := hkept entry hentry
      rw [hothers _ hne, hc.values entry hmem]
    · rw [List.mem_singleton.1 hentry, hvalue]

/-- A name that is there is used. -/
theorem Recent.touch {a : Action α} (hc : Recent capacity h c) (hcap : 1 ≤ capacity)
    (hkey : key ∈ c.keys) (huses : uses capacity (a :: h) = key :: uses capacity h)
    (hvalue : lastPut? key (a :: h) = some value)
    (hothers : ∀ name, name ≠ key → lastPut? name (a :: h) = lastPut? name h) :
    Recent capacity (a :: h) (c.touch key value) := by
  apply hc.use hcap huses hvalue hothers
  · intro entry hentry
    exact mem_without.1 hentry
  · have hnames : c.entries.map (·.1) = (latest capacity h).reverse := hc.keys_eq
    rw [if_pos (hc.mem_keys_iff.1 hkey), keys_without, hnames, ← List.filter_reverse,
      List.reverse_reverse]

/-- A name that is not there is put in. -/
theorem Recent.enter (hc : Recent capacity h c) (hcap : 1 ≤ capacity) (hkey : key ∉ c.keys)
    (value : α) : Recent capacity (.put key value :: h) (c.enter key value) := by
  apply hc.use hcap rfl (lastPut?_put_self ..) fun name hne => lastPut?_put_of_ne hne.symm ..
  · intro entry hentry
    have hmem := List.mem_of_mem_drop hentry
    refine ⟨hmem, ?_⟩
    rintro rfl
    exact hkey (List.mem_map_of_mem hmem)
  · have hnames : c.entries.map (·.1) = (latest capacity h).reverse := hc.keys_eq
    have hlength := hc.size_eq
    have hsize := hc.size_le
    rw [if_neg fun hmem => hkey (hc.mem_keys_iff.2 hmem), List.map_drop, hnames, List.reverse_drop,
      List.reverse_reverse, List.length_reverse, ← hlength, hc.capacity_eq]
    -- What is left is one less than there is room for, or all if there is room for one more.
    by_cases hfull : c.size = capacity
    · rw [hfull, Nat.add_sub_cancel_left]
    · rw [List.take_of_length_le (by omega), List.take_of_length_le (by omega)]

/-- Every action succeeds, and leaves what the history with the action says. -/
theorem Recent.step (hc : Recent capacity h c) (hcap : 1 ≤ capacity) (a : Action α) :
    ∃ c', c.perform? a = some c' ∧ Recent capacity (a :: h) c' := by
  cases a with
  | get key =>
    refine ⟨_, rfl, ?_⟩
    rcases c.get_cases key with ⟨value, hmem, hget⟩ | ⟨hkey, hget⟩
    · rw [hget]
      have hkey : key ∈ c.keys := List.mem_map_of_mem hmem
      apply hc.touch hcap hkey
      · exact if_pos (hc.mem_keys_iff.1 hkey)
      · exact hc.values _ hmem
      · exact fun _ _ => rfl
    · rw [hget]
      have huses : uses capacity (.get key :: h) = uses capacity h :=
        if_neg fun hmem => hkey (hc.mem_keys_iff.2 hmem)
      exact ⟨hc.capacity_eq, by rw [latest, huses]; exact hc.keys_eq, hc.values⟩
  | put key value =>
    by_cases hkey : key ∈ c.keys
    · refine ⟨_, put?_of_mem hkey value, ?_⟩
      exact hc.touch hcap hkey rfl (lastPut?_put_self ..) fun name hne =>
        lastPut?_put_of_ne hne.symm ..
    · refine ⟨_, put?_of_not_mem hkey ?_ ?_ value, hc.enter hcap hkey value⟩
      · rwa [hc.capacity_eq]
      · rw [hc.capacity_eq]
        exact hc.size_le
  | clear =>
    refine ⟨_, rfl, hc.capacity_eq, ?_, ?_⟩
    · simp [keys, Cache.clear, latest, uses]
    · intro entry hentry
      simp [Cache.clear] at hentry

/-! ## Runs -/

theorem recent_empty (capacity : Nat) : Recent (α := α) capacity [] (empty capacity) :=
  ⟨rfl, by simp [keys, empty, latest, uses], by simp [empty]⟩

/-- A run of actions leaves what the history says. -/
theorem Recent.run (hcap : 1 ≤ capacity) (actions : List (Action α)) (hc : Recent capacity h c) :
    ∃ c', actions.foldlM perform? c = some c' ∧ Recent capacity (actions.reverse ++ h) c' := by
  induction actions generalizing h c with
  | nil => exact ⟨c, rfl, hc⟩
  | cons a rest ih =>
    obtain ⟨c', hstep, hc'⟩ := hc.step hcap a
    obtain ⟨c'', hrest, hc''⟩ := ih hc'
    refine ⟨c'', ?_, ?_⟩
    · rw [List.foldlM_cons, hstep]
      exact hrest
    · rwa [List.reverse_cons, List.append_assoc]

/-- What a name is answered with. -/
theorem Recent.get_eq (hc : Recent capacity h c) (key : String) :
    (c.get key).1 = if key ∈ latest capacity h then lastPut? key h else none := by
  rcases c.get_cases key with ⟨value, hmem, hget⟩ | ⟨hkey, hget⟩
  · have hkey : key ∈ c.keys := List.mem_map_of_mem hmem
    rw [hget, if_pos (hc.mem_keys_iff.1 hkey), hc.values _ hmem]
  · rw [hget, if_neg fun hmem => hkey (hc.mem_keys_iff.2 hmem)]

theorem Recent.exists_lastPut (hc : Recent capacity h c) (hkey : key ∈ latest capacity h) :
    ∃ value, lastPut? key h = some value := by
  obtain ⟨entry, hentry, rfl⟩ := List.mem_map.1 (hc.mem_keys_iff.2 hkey)
  exact ⟨entry.2, hc.values entry hentry⟩

theorem Recent.keys_touch_perm (hc : Recent capacity h c) (hkey : key ∈ c.keys) (value : α) :
    (c.touch key value).keys.Perm c.keys := by
  have hnodup : c.keys.Nodup := by
    rw [hc.keys_eq, List.nodup_reverse, latest]
    exact (nodup_eraseDups _).sublist (List.take_sublist ..)
  have hfilter : c.keys.erase key = c.keys.filter fun name => !name == key :=
    hnodup.erase_eq_filter key
  have htouch : (c.touch key value).keys = c.keys.erase key ++ [key] := by
    rw [hfilter, keys, Cache.touch, List.map_append, keys_without]
    rfl
  rw [htouch]
  exact (List.perm_append_singleton ..).trans (List.perm_cons_erase hkey).symm

/-- A cache with room for a value never fails. Behind any run of actions it holds the names that were
used last since it was cleared, oldest use first, each once and no more than there is room for, and
every one of them has the value that was last put under it. So a name is answered with that value if
it is among them, and with nothing if it was driven out or never put in, and a value put under a name
that is there drives out nothing. -/
theorem run_recent {capacity : Nat} (hcap : 1 ≤ capacity) (actions : List (Action α)) :
    ∃ c, run? capacity actions = some c
      ∧ c.keys = (latest capacity actions.reverse).reverse
      ∧ (∀ entry ∈ c.entries, lastPut? entry.1 actions.reverse = some entry.2)
      ∧ c.size ≤ capacity
      ∧ (∀ key ∈ latest capacity actions.reverse, ∃ value,
        lastPut? key actions.reverse = some value ∧ (c.get key).1 = some value)
      ∧ (∀ key, key ∉ latest capacity actions.reverse → (c.get key).1 = none)
      ∧ ∀ key ∈ c.keys, ∀ value, ∃ c', c.put? key value = some c' ∧ c'.keys.Perm c.keys := by
  obtain ⟨c, hrun, hc⟩ := (recent_empty (α := α) capacity).run hcap actions
  rw [List.append_nil] at hc
  refine ⟨c, hrun, hc.keys_eq, hc.values, hc.size_le, ?_, ?_, ?_⟩
  · intro key hkey
    obtain ⟨value, hvalue⟩ := hc.exists_lastPut hkey
    exact ⟨value, hvalue, by rw [hc.get_eq, if_pos hkey, hvalue]⟩
  · intro key hkey
    rw [hc.get_eq, if_neg hkey]
  · intro key hkey value
    exact ⟨_, put?_of_mem hkey value, hc.keys_touch_perm hkey value⟩

/-- A run on a cache with room for two values: the second name is driven out by the third, because
the first was asked for in between. -/
def sampleActions : List (Action Nat) :=
  [.put "a" 1, .put "b" 2, .get "a", .put "c" 3, .get "b", .put "a" 4]

theorem run_recent_sample :
    ∃ c, run? 2 sampleActions = some c ∧ c.keys = ["c", "a"] ∧ (c.get "a").1 = some 4
      ∧ (c.get "b").1 = none
      ∧ ∃ c', c.put? "c" 5 = some c' ∧ c'.keys.Perm ["c", "a"] := by
  have hlatest : latest 2 sampleActions.reverse = ["a", "c"] := by decide +kernel
  obtain ⟨c, hrun, hkeys, -, -, hfound, hmissed, hput⟩ :=
    run_recent (show 1 ≤ 2 by decide) sampleActions
  rw [hlatest] at hkeys hfound hmissed
  obtain ⟨value, hvalue, hget⟩ := hfound "a" (by decide)
  obtain ⟨c', hc', hperm⟩ := hput "c" (by rw [hkeys]; decide) 5
  have hlast : lastPut? "a" sampleActions.reverse = some 4 := rfl
  refine ⟨c, hrun, hkeys, ?_, hmissed "b" (by decide), c', hc', ?_⟩
  · rw [hget, ← hvalue, hlast]
  · rwa [hkeys] at hperm

end LuaCoverage.Cache

import LuaCoverage.Proofs.Counter.Shape
import LuaCoverage.Proofs.Counter.Tabulated
import LuaCoverage.Proofs.Distinct
import Mathlib.Algebra.BigOperators.Group.List.Basic
import Mathlib.Algebra.Ring.Int.Defs

/-!
# A store and its history

The *history* of a store is the list of what was done with it, the latest action first. Everything
a store answers can be told from its history alone: a module is known by its last registration,
unless the store was cleared since, a counter is the sum of what was added to its slot since then,
and what addressed no slot at its time makes the stale hits. This account of a history is its
*reference tally*, and a store is at any time the reference tally of its history.

Results:
* `run_eq_tallied`: a store is the reference tally of what was done with it.
* `History.tallies_perm`, `History.stale_perm`: the order of hits does not matter.
* `total_add`: what is added is added once.
* `run_tallied`: all of this for every run of actions.
-/

namespace LuaCoverage.Store

/-- What a hit of a program addresses: a module, the code of a kind, an id and an arm. -/
structure Address where
  path : String
  kind : String
  id : Int
  arm : Option Int
  deriving DecidableEq, Repr

def Address.reference (a : Address) : Reference := ⟨.string a.path, a.kind, a.id, a.arm⟩

/-- What may be done with a store. -/
inductive Action
  | register (m : ProbeMap)
  | add (a : Address) (amount : Int)
  | increment (a : Address)
  | clear

namespace Action

/-- The store behind an action; one that is refused changes nothing. -/
def perform (s : Store) : Action → Store
  | .register m => s.register m
  | .add a amount =>
    match s.add a.reference amount with
    | .ok (_, s') => s'
    | .error _ => s
  | .increment a => (s.increment a.reference).2
  | .clear => empty

def map? : Action → Option ProbeMap
  | .register m => some m
  | _ => none

def added? : Action → Option (Address × Int)
  | .add a amount => if amount < 0 then none else some (a, amount)
  | .increment a => some (a, 1)
  | _ => none

def isClear : Action → Bool
  | .clear => true
  | _ => false

/-- Whether an action ends what the store knew about a module. -/
def resets (path : String) : Action → Bool
  | .clear => true
  | .register m => m.path == path
  | _ => false

def isHit : Action → Bool
  | .add _ _ | .increment _ => true
  | _ => false

end Action

/-- The store behind a run of actions on a new one. -/
def run (actions : List Action) : Store := actions.foldl Action.perform empty

end Store

open Store

theorem Tally.sum_eq_sum (counts : List Int) : sum counts = counts.sum := by
  induction counts with
  | nil => rfl
  | cons n rest ih => rw [sum, ih, List.sum_cons]

/-- The slot that an address has in a module. -/
def ProbeMap.slotAt? (m : ProbeMap) (a : Address) : Option Slot :=
  if a.path = m.path then (ProbeKind.ofCode? a.kind).bind fun kind => m.slot? kind a.id a.arm
  else none

/-- What an action adds to a slot of a module. -/
def Store.Action.amountAt (m : ProbeMap) (slot : Slot) (c : Action) : Int :=
  match c.added? with
  | some (a, amount) => if m.slotAt? a = some slot then amount else 0
  | none => 0

/-- What an action adds to an address. -/
def Store.Action.amountFor (a : Address) (c : Action) : Int :=
  match c.added? with
  | some (b, amount) => if b = a then amount else 0
  | none => 0

/-- What was done with a store, the latest action first. -/
abbrev Store.History := List Action

namespace Store.History

/-- The map last registered for a path since the store was cleared. -/
def map? (path : String) (h : History) : Option ProbeMap :=
  (h.find? (Action.resets path)).bind Action.map?

def slot? (h : History) (a : Address) : Option Slot := (map? a.path h).bind fun m => m.slotAt? a

/-- The sum of what was added to a slot of a module since its path was registered. -/
def count (h : History) (m : ProbeMap) (slot : Slot) : Int :=
  ((h.takeWhile fun c => !c.resets m.path).map (Action.amountAt m slot)).sum

/-- The paths registered since the store was cleared, in the order of their first registration. -/
def paths (h : History) : List String :=
  ((h.takeWhile fun c => !c.isClear).reverse.filterMap fun c =>
    c.map?.map ProbeMap.path).eraseDups

/-- The counts of the module of a path. -/
def tally? (h : History) (path : String) : Option Tally :=
  (map? path h).map fun m => Tally.tabulate m (count h m)

def tallies (h : History) : List Tally := (paths h).filterMap (tally? h)

/-- What was added since the store was cleared to an address that had no slot at that time, the
first first. -/
def missed : History → List (Address × Int)
  | [] => []
  | c :: past =>
    if c.isClear then []
    else missed past ++ (c.added?.filter fun (a, _) => (slot? past a).isNone).toList

/-- The sum of what was added to an address. -/
def sumAt (hits : List (Address × Int)) (a : Address) : Int :=
  ((hits.filter fun hit => hit.1 = a).map (·.2)).sum

/-- Every address of hits once, in the order in which they were first seen, with the sum of what
was added to it. -/
def gather (hits : List (Address × Int)) : List StaleHits :=
  (hits.map (·.1)).eraseDups.map fun a => ⟨a.reference, sumAt hits a⟩

def tallied (h : History) : Store := ⟨tallies h, gather (missed h)⟩

/-! ## Registered modules -/

variable {h : History} {m : ProbeMap} {path : String} {a : Address} {slot : Slot} {amount : Int}

theorem map?_register (h : History) (m : ProbeMap) (path : String) :
    map? path (.register m :: h) = if m.path = path then some m else map? path h := by
  by_cases hp : m.path = path <;> simp [map?, Action.resets, Action.map?, hp]

theorem map?_of_isHit {c : Action} (hc : c.isHit = true) (path : String) (h : History) :
    map? path (c :: h) = map? path h := by
  cases c <;> simp_all [map?, Action.resets, Action.isHit]

theorem path_of_map? (hm : map? path h = some m) : m.path = path := by
  obtain ⟨c, hc, hmap⟩ := Option.bind_eq_some_iff.1 hm
  have hreset := List.find?_some hc
  cases c <;> simp_all [Action.map?, Action.resets]

theorem paths_register (h : History) (m : ProbeMap) :
    paths (.register m :: h)
      = if m.path ∈ paths h then paths h else paths h ++ [m.path] := by
  simp only [paths, Action.isClear, Bool.not_false, List.takeWhile_cons, if_true,
    List.reverse_cons, List.filterMap_append, List.filterMap_cons, Action.map?, Option.map_some,
    List.filterMap_nil, eraseDups_concat, List.mem_eraseDups]

theorem paths_of_isHit {c : Action} (hc : c.isHit = true) (h : History) :
    paths (c :: h) = paths h := by
  cases c <;> simp_all [paths, Action.isClear, Action.map?, Action.isHit]

/-- A path is registered if there is a map for it. -/
theorem mem_paths_iff : path ∈ paths h ↔ (map? path h).isSome = true := by
  induction h with
  | nil => simp [paths, map?]
  | cons c past ih =>
    cases c with
    | register m =>
      rw [paths_register, map?_register]
      by_cases hp : m.path = path
      · subst hp
        simp only [if_true, Option.isSome_some, iff_true]
        split <;> simp_all
      · have hp' : path ≠ m.path := fun e => hp e.symm
        simp only [if_neg hp, ← ih]
        split <;> simp [hp']
    | add a amount => rw [paths_of_isHit rfl, map?_of_isHit rfl, ih]
    | increment a => rw [paths_of_isHit rfl, map?_of_isHit rfl, ih]
    | clear => simp [paths, map?, Action.isClear, Action.resets, Action.map?]

theorem nodup_paths (h : History) : (paths h).Nodup := nodup_eraseDups _

/-! ## Counts -/

theorem count_register (h : History) (m other : ProbeMap) (slot : Slot) :
    count (.register m :: h) other slot = if m.path = other.path then 0 else count h other slot := by
  by_cases hp : m.path = other.path
  · simp [count, Action.resets, hp]
  · simp [count, Action.resets, hp, Action.amountAt, Action.added?]

theorem count_of_isHit {c : Action} (hc : c.isHit = true) (h : History) (m : ProbeMap)
    (slot : Slot) : count (c :: h) m slot = c.amountAt m slot + count h m slot := by
  cases c <;> simp_all [count, Action.resets, Action.isHit]

theorem path_of_tally? {t : Tally} (ht : tally? h path = some t) : t.path = path := by
  obtain ⟨m, hm, rfl⟩ := Option.map_eq_some_iff.1 ht
  exact path_of_map? hm

theorem isSome_tally? (hp : path ∈ paths h) : (tally? h path).isSome = true := by
  simpa [tally?] using mem_paths_iff.1 hp

/-- Putting the counts of a path in among those of others. -/
theorem putTally_filterMap {f : String → Option Tally} {keys : List String} {t : Tally}
    (hkey : ∀ key u, f key = some u → u.path = key) (hsome : ∀ key ∈ keys, (f key).isSome = true)
    (hnodup : keys.Nodup) :
    putTally t (keys.filterMap f)
      = (if t.path ∈ keys then keys else keys ++ [t.path]).filterMap fun key =>
          if key = t.path then some t else f key := by
  induction keys with
  | nil => simp [putTally]
  | cons key rest ih =>
    obtain ⟨hnot, hrest⟩ := List.nodup_cons.1 hnodup
    obtain ⟨u, hu⟩ := Option.isSome_iff_exists.1 (hsome key (by simp))
    have hpath := hkey key u hu
    have ih := ih (fun k hk => hsome k (by simp [hk])) hrest
    by_cases hk : key = t.path
    · have hkeep : (rest.filterMap fun k => if k = t.path then some t else f k)
          = rest.filterMap f := by
        refine List.filterMap_congr fun k hmem => if_neg ?_
        rintro rfl
        exact hnot (hk ▸ hmem)
      have hut : u.path = t.path := hpath.trans hk
      rw [List.filterMap_cons, hu, putTally, if_pos hut, if_pos (by simp [hk]), List.filterMap_cons,
        if_pos hk, hkeep]
    · have hut : ¬u.path = t.path := by rwa [hpath]
      have hk' : ¬t.path = key := fun e => hk e.symm
      simp only [List.filterMap_cons, hu, putTally, hut, if_false, ih, List.mem_cons, hk', false_or]
      split <;> simp [hk, hu]

theorem find?_filterMap_tally? (h : History) (path : String) {keys : List String}
    (hsub : ∀ key ∈ keys, key ∈ paths h) (hmem : path ∈ keys) :
    (keys.filterMap (tally? h)).find? (fun t => t.path == path) = tally? h path := by
  induction keys with
  | nil => simp at hmem
  | cons key rest ih =>
    obtain ⟨t, ht⟩ := Option.isSome_iff_exists.1 (isSome_tally? (hsub key (by simp)))
    have hpath := path_of_tally? ht
    rw [List.filterMap_cons, ht]
    by_cases hk : key = path
    · subst hk
      rw [List.find?_cons_of_pos (by simpa using hpath), ht]
    · rw [List.find?_cons_of_neg (by simpa [hpath] using hk)]
      exact ih (fun k hk' => hsub k (by simp [hk'])) ((List.mem_cons.1 hmem).resolve_left (Ne.symm hk))

/-- The counts of a module in the reference tally. -/
theorem tally?_tallied (h : History) (path : String) :
    (tallied h).tally? path = tally? h path := by
  by_cases hp : path ∈ paths h
  · exact find?_filterMap_tally? h path (fun _ hk => hk) hp
  · have hnone : map? path h = none := by simpa [mem_paths_iff] using hp
    rw [tally?, hnone, Option.map_none, Store.tally?, List.find?_eq_none]
    intro t ht
    obtain ⟨key, hkey, ht⟩ := List.mem_filterMap.1 ht
    rw [path_of_tally? ht]
    rintro hbeq
    exact hp (eq_of_beq hbeq ▸ hkey)

theorem tallies_register (h : History) (m : ProbeMap) :
    tallies (.register m :: h) = putTally (Tally.ofMap m) (tallies h) := by
  have hput := putTally_filterMap (t := Tally.ofMap m) (fun _ _ => path_of_tally?)
    (fun _ => isSome_tally? (h := h)) (nodup_paths h)
  rw [tallies, tallies, hput, paths_register]
  refine List.filterMap_congr fun key hkey => ?_
  have hzero : count (.register m :: h) m = fun _ => 0 := by
    funext slot
    rw [count_register, if_pos rfl]
  by_cases hk : m.path = key
  · subst hk
    rw [tally?, map?_register, if_pos rfl, Option.map_some, hzero, ← Tally.ofMap_eq_tabulate]
    exact (if_pos rfl).symm
  · have hk' : ¬key = (Tally.ofMap m).path := fun e => hk e.symm
    rw [tally?, map?_register, if_neg hk, if_neg hk', tally?]
    cases hm : map? key h with
    | none => rfl
    | some other =>
      have hother : ¬m.path = other.path := by rwa [path_of_map? hm]
      have hcount : count (.register m :: h) other = count h other := by
        funext slot
        rw [count_register, if_neg hother]
      rw [Option.map_some, Option.map_some, hcount]

/-! ## Hits -/

theorem equals_reference (a b : Address) : a.reference.equals b.reference = decide (a = b) := by
  cases a
  cases b
  simp only [Reference.equals, Address.reference, Scalar.equals_string, Address.mk.injEq]
  rw [Bool.eq_iff_iff]
  simp [and_assoc]

theorem slot?_eq_some (hslot : slot? h a = some slot) :
    ∃ m kind, map? a.path h = some m ∧ a.kind = kind.code
      ∧ m.slot? kind a.id a.arm = some slot := by
  obtain ⟨m, hm, hat⟩ := Option.bind_eq_some_iff.1 hslot
  have hpath := path_of_map? hm
  rw [ProbeMap.slotAt?, if_pos hpath.symm] at hat
  obtain ⟨kind, hkind, hat⟩ := Option.bind_eq_some_iff.1 hat
  exact ⟨m, kind, hm, ProbeKind.ofCode?_eq_some hkind, hat⟩

/-- A hit is counted if its address has a slot. -/
theorem count?_tallied_of_some (hslot : slot? h a = some slot) (amount : Int) :
    ∃ t, tally? h a.path = some t
      ∧ (tallied h).count? a.reference amount = some ((tallied h).raise t slot amount) := by
  obtain ⟨m, kind, hm, hkind, hat⟩ := slot?_eq_some hslot
  have hpath := path_of_map? hm
  have ht : tally? h a.path = some (Tally.tabulate m (count h m)) := by
    rw [tally?, hm, Option.map_some]
  refine ⟨_, ht, ?_⟩
  have hstore : (tallied h).tally? m.path = some (Tally.tabulate m (count h m)) := by
    rw [tally?_tallied, hpath, ht]
  rw [Address.reference, hkind, ← hpath]
  exact count?_of_slot hstore (Tally.fits_tabulate ..) hat amount

/-- A hit is dropped if its address has none. -/
theorem count?_tallied_of_none (hslot : slot? h a = none) (amount : Int) :
    (tallied h).count? a.reference amount = none := by
  cases hs : (tallied h).count? a.reference amount with
  | none => rfl
  | some s' =>
    obtain ⟨kind, t, slot, hkind, hpath, ht, hat, -⟩ := count?_cases hs
    rw [tally?_tallied, tally?, Option.map_eq_some_iff] at ht
    obtain ⟨m, hm, rfl⟩ := ht
    have hp : a.path = m.path := by simpa [Address.reference, Tally.tabulate] using hpath
    rw [(Tally.fits_tabulate ..).slotOf?_eq] at hat
    have hm' : map? a.path h = some m := by rw [hp]; exact hm
    have hkind' : ProbeKind.ofCode? a.kind = some kind := hkind
    have hat' : m.slot? kind a.id a.arm = some slot := hat
    have hat'' : m.slotAt? a = some slot := by
      rw [ProbeMap.slotAt?, if_pos hp, hkind', Option.bind_some, hat']
    rw [slot?, hm', Option.bind_some, hat''] at hslot
    cases hslot

theorem amountAt_of_added? {c : Action} (hc : c.added? = some (a, amount)) (m : ProbeMap)
    (slot : Slot) : c.amountAt m slot = if m.slotAt? a = some slot then amount else 0 := by
  rw [Action.amountAt, hc]

theorem isHit_of_added? {c : Action} (hc : c.added? = some (a, amount)) : c.isHit = true := by
  cases c <;> simp_all [Action.added?, Action.isHit]

theorem tallies_of_slot {c : Action} (hc : c.added? = some (a, amount))
    (hslot : slot? h a = some slot) {t : Tally} (ht : tally? h a.path = some t) :
    tallies (c :: h) = putTally (t.raise slot amount) (tallies h) := by
  have hpath : (t.raise slot amount).path = a.path := by
    rw [Tally.path_raise, path_of_tally? ht]
  have hmem : a.path ∈ paths h := by
    rw [mem_paths_iff]
    simpa [tally?] using Option.isSome_of_eq_some ht
  have hput := putTally_filterMap (t := t.raise slot amount) (fun _ _ => path_of_tally?)
    (fun _ => isSome_tally? (h := h)) (nodup_paths h)
  rw [tallies, tallies, hput, hpath, if_pos hmem, paths_of_isHit (isHit_of_added? hc)]
  refine List.filterMap_congr fun key _ => ?_
  rw [tally?, map?_of_isHit (isHit_of_added? hc)]
  by_cases hk : key = a.path
  · obtain ⟨m, hm, rfl⟩ := Option.map_eq_some_iff.1 ht
    have hat : m.slotAt? a = some slot := by rwa [slot?, hm, Option.bind_some] at hslot
    rw [hk, hm, if_pos rfl, Option.map_some, Tally.raise_tabulate]
    congr 2
    funext other
    rw [count_of_isHit (isHit_of_added? hc), amountAt_of_added? hc, hat]
    simp only [Option.some.injEq]
    split <;> omega
  · rw [if_neg hk, tally?]
    cases hm : map? key h with
    | none => rfl
    | some other =>
      have hat : other.slotAt? a = none := if_neg fun e => hk (by rw [e, path_of_map? hm])
      rw [Option.map_some, Option.map_some]
      congr 2
      funext s
      rw [count_of_isHit (isHit_of_added? hc), amountAt_of_added? hc, hat]
      simp

/-- An action that adds to no slot keeps the counts. -/
theorem tallies_of_amountAt {c : Action} (hc : c.isHit = true)
    (hzero : ∀ path m slot, map? path h = some m → c.amountAt m slot = 0) :
    tallies (c :: h) = tallies h := by
  rw [tallies, tallies, paths_of_isHit hc]
  refine List.filterMap_congr fun key _ => ?_
  rw [tally?, tally?, map?_of_isHit hc]
  cases hm : map? key h with
  | none => rfl
  | some m =>
    rw [Option.map_some, Option.map_some]
    congr 2
    funext slot
    rw [count_of_isHit hc, hzero key m slot hm, Int.zero_add]

theorem slotAt?_of_slot?_none (hslot : slot? h a = none) (hm : map? path h = some m) :
    m.slotAt? a = none := by
  by_cases hp : a.path = m.path
  · rw [slot?, hp, path_of_map? hm, hm, Option.bind_some] at hslot
    exact hslot
  · exact if_neg hp

/-! ## Stale hits -/

theorem sumAt_concat (hits : List (Address × Int)) (a b : Address) (amount : Int) :
    sumAt (hits ++ [(a, amount)]) b = sumAt hits b + if a = b then amount else 0 := by
  by_cases hab : a = b <;> simp [sumAt, hab]

theorem sumAt_eq_zero {hits : List (Address × Int)} (ha : a ∉ hits.map (·.1)) :
    sumAt hits a = 0 := by
  have hnone : hits.filter (fun hit => hit.1 = a) = [] := by
    rw [List.filter_eq_nil_iff]
    rintro hit hmem
    simp only [decide_eq_true_eq]
    rintro rfl
    exact ha (List.mem_map_of_mem hmem)
  rw [sumAt, hnone, List.map_nil, List.sum_nil]

theorem addStale_map (f : Address → Int) {keys : List Address} (hnodup : keys.Nodup) (a : Address)
    (amount : Int) :
    addStale a.reference amount (keys.map fun b => ⟨b.reference, f b⟩)
      = if a ∈ keys then keys.map fun b => ⟨b.reference, f b + if a = b then amount else 0⟩
        else (keys.map fun b => ⟨b.reference, f b⟩) ++ [⟨a.reference, amount⟩] := by
  induction keys with
  | nil => simp [addStale]
  | cons b rest ih =>
    obtain ⟨hnot, hrest⟩ := List.nodup_cons.1 hnodup
    simp only [List.map_cons, addStale, equals_reference, decide_eq_true_eq]
    by_cases hb : b = a
    · subst hb
      have hkeep : (rest.map fun c => (⟨c.reference, f c + if b = c then amount else 0⟩ : StaleHits))
          = rest.map fun c => ⟨c.reference, f c⟩ := by
        refine List.map_congr_left fun c hc => ?_
        have hne : b ≠ c := fun e => hnot (e ▸ hc)
        simp [hne]
      simp [hkeep]
    · have hb' : a ≠ b := fun e => hb e.symm
      simp only [hb, if_false, ih hrest, List.mem_cons, hb', false_or]
      split <;> simp

theorem gather_concat (hits : List (Address × Int)) (a : Address) (amount : Int) :
    gather (hits ++ [(a, amount)]) = addStale a.reference amount (gather hits) := by
  rw [gather, gather, addStale_map _ (nodup_eraseDups _), List.map_append, List.map_singleton,
    eraseDups_concat]
  simp only [List.mem_eraseDups]
  split
  · exact List.map_congr_left fun b _ => by rw [sumAt_concat]
  · next ha =>
    rw [List.map_append, List.map_singleton, sumAt_concat, sumAt_eq_zero ha, if_pos rfl,
      Int.zero_add]
    congr 1
    refine List.map_congr_left fun b hb => ?_
    have hne : a ≠ b := by
      rintro rfl
      exact ha (List.mem_eraseDups.1 hb)
    rw [sumAt_concat, if_neg hne, Int.add_zero]

theorem missed_of_added? {c : Action} (hc : c.added? = some (a, amount)) (h : History) :
    missed (c :: h) = missed h ++ if (slot? h a).isNone then [(a, amount)] else [] := by
  have hclear : c.isClear = false := by cases c <;> simp_all [Action.added?, Action.isClear]
  rw [missed, hclear, hc]
  cases hs : slot? h a <;> simp [Option.filter, hs]

/-! ## Runs -/

theorem tallied_cons {c : Action} {counts : List Tally} {hits : List (Address × Int)}
    (hcounts : tallies (c :: h) = counts) (hhits : missed (c :: h) = hits) :
    tallied (c :: h) = ⟨counts, gather hits⟩ := by rw [tallied, hcounts, hhits]

/-- The store behind a hit is the reference tally with the hit. -/
theorem add_tallied {c : Action} (hc : c.added? = some (a, amount)) :
    (match (tallied h).count? a.reference amount with
      | some s' => s'
      | none => (tallied h).drop a.reference amount) = tallied (c :: h) := by
  have hmissed := missed_of_added? hc h
  cases hslot : slot? h a with
  | some slot =>
    obtain ⟨t, ht, hcount⟩ := count?_tallied_of_some hslot amount
    have htallies := tallies_of_slot hc hslot ht
    rw [hcount, tallied_cons htallies hmissed, hslot]
    simp [raise, tallied]
  | none =>
    have hzero : ∀ path m slot, map? path h = some m → c.amountAt m slot = 0 := by
      intro path m slot hm
      rw [amountAt_of_added? hc, slotAt?_of_slot?_none hslot hm]
      simp
    have htallies := tallies_of_amountAt (isHit_of_added? hc) hzero
    rw [count?_tallied_of_none hslot, tallied_cons htallies hmissed, hslot]
    simp [drop, tallied, gather_concat]

/-- An action takes the reference tally of a history to that of the history with the action. -/
theorem perform_tallied (h : History) (c : Action) : c.perform (tallied h) = tallied (c :: h) := by
  cases c with
  | register m =>
    have hmissed : missed (.register m :: h) = missed h := by
      simp [missed, Action.isClear, Action.added?]
    rw [tallied_cons (tallies_register h m) hmissed]
    rfl
  | add a amount =>
    by_cases hneg : amount < 0
    · have hzero : ∀ path m slot, map? path h = some m →
          (Action.add a amount).amountAt m slot = 0 := by
        intro _ m slot _
        simp [Action.amountAt, Action.added?, hneg]
      have hmissed : missed (.add a amount :: h) = missed h := by
        simp [missed, Action.isClear, Action.added?, hneg]
      rw [tallied_cons (tallies_of_amountAt rfl hzero) hmissed]
      simp [Action.perform, Store.add, hneg, tallied]
    · have hadd := add_tallied (h := h) (c := .add a amount) (if_neg hneg)
      rw [← hadd]
      simp only [Action.perform, Store.add, hneg, if_false]
      cases (tallied h).count? a.reference amount <;> rfl
  | increment a =>
    have hadd := add_tallied (h := h) (c := .increment a) rfl
    rw [← hadd]
    simp only [Action.perform, Store.increment]
    cases (tallied h).count? a.reference 1 <;> rfl
  | clear => simp [Action.perform, tallied, tallies, paths, missed, gather, Action.isClear, empty]

end Store.History

namespace Store
open History

/-- A store is the reference tally of what was done with it. -/
theorem run_eq_tallied (actions : List Action) : run actions = tallied actions.reverse := by
  have hfold : ∀ h, actions.foldl Action.perform (tallied h) = tallied (actions.reverse ++ h) := by
    induction actions with
    | nil => simp
    | cons c rest ih =>
      intro h
      rw [List.foldl_cons, perform_tallied, ih, List.reverse_cons, List.append_assoc]
      rfl
  rw [← List.append_nil actions.reverse, ← hfold []]
  rfl

/-! ## The order of hits -/

namespace History
variable {hits hits' : List Action}

theorem map?_append_hits (hhits : ∀ c ∈ hits, c.isHit = true) (path : String) (h : History) :
    map? path (hits ++ h) = map? path h := by
  induction hits with
  | nil => rfl
  | cons c rest ih =>
    rw [List.cons_append, map?_of_isHit (hhits c (by simp)), ih fun d hd => hhits d (by simp [hd])]

theorem paths_append_hits (hhits : ∀ c ∈ hits, c.isHit = true) (h : History) :
    paths (hits ++ h) = paths h := by
  induction hits with
  | nil => rfl
  | cons c rest ih =>
    rw [List.cons_append, paths_of_isHit (hhits c (by simp)), ih fun d hd => hhits d (by simp [hd])]

theorem count_append_hits (hhits : ∀ c ∈ hits, c.isHit = true) (h : History) (m : ProbeMap)
    (slot : Slot) :
    count (hits ++ h) m slot = (hits.map (Action.amountAt m slot)).sum + count h m slot := by
  induction hits with
  | nil => simp
  | cons c rest ih =>
    rw [List.cons_append, count_of_isHit (hhits c (by simp)), ih fun d hd => hhits d (by simp [hd]),
      List.map_cons, List.sum_cons, Int.add_assoc]

/-- The hits of a history that its addresses had no slot for. -/
def missedIn (h : History) (hits : List Action) : List (Address × Int) :=
  hits.filterMap fun c => c.added?.filter fun (a, _) => (slot? h a).isNone

theorem slot?_append_hits (hhits : ∀ c ∈ hits, c.isHit = true) (h : History) (a : Address) :
    slot? (hits ++ h) a = slot? h a := by
  rw [slot?, slot?, map?_append_hits hhits]

theorem missed_append_hits (hhits : ∀ c ∈ hits, c.isHit = true) (h : History) :
    missed (hits ++ h) = missed h ++ missedIn h hits.reverse := by
  induction hits with
  | nil => simp [missedIn]
  | cons c rest ih =>
    have hclear : c.isClear = false := by
      have := hhits c (by simp)
      cases c <;> simp_all [Action.isHit, Action.isClear]
    have hrest : ∀ d ∈ rest, d.isHit = true := fun d hd => hhits d (by simp [hd])
    rw [List.cons_append, missed, hclear, ih hrest]
    simp only [slot?_append_hits hrest, missedIn, List.reverse_cons, List.filterMap_append,
      List.append_assoc, Bool.false_eq_true, if_false]
    congr 2

/-- The counts depend on the sums that hits add to every slot. -/
theorem tallies_of_sums (hhits : ∀ c ∈ hits, c.isHit = true) (hhits' : ∀ c ∈ hits', c.isHit = true)
    (hsum : ∀ m slot, (hits.map (Action.amountAt m slot)).sum
      = (hits'.map (Action.amountAt m slot)).sum) (h : History) :
    tallies (hits ++ h) = tallies (hits' ++ h) := by
  rw [tallies, tallies, paths_append_hits hhits, paths_append_hits hhits']
  refine List.filterMap_congr fun key _ => ?_
  rw [tally?, tally?, map?_append_hits hhits, map?_append_hits hhits']
  congr 1
  funext m
  congr 1
  funext slot
  rw [count_append_hits hhits, count_append_hits hhits', hsum]

/-- The counts do not depend on the order of hits. -/
theorem tallies_perm (hperm : hits.Perm hits') (hhits : ∀ c ∈ hits, c.isHit = true)
    (h : History) : tallies (hits ++ h) = tallies (hits' ++ h) :=
  tallies_of_sums hhits (fun c hc => hhits c (hperm.mem_iff.2 hc))
    (fun _ _ => (hperm.map _).sum_eq) h

/-- What is gathered depends on what is added to every address, apart from its order. -/
theorem gather_of_sums {all all' : List (Address × Int)}
    (hmem : ∀ a, a ∈ all.map (·.1) ↔ a ∈ all'.map (·.1)) (hsum : sumAt all = sumAt all') :
    (gather all).Perm (gather all') := by
  rw [gather, gather, hsum]
  exact (eraseDups_perm hmem).map _

/-- What is added to an address whose hits are missed is what was added to it. -/
theorem sumAt_missedIn (h : History) (hits : List Action) (a : Address) :
    sumAt (missedIn h hits) a
      = if slot? h a = none then (hits.map (Action.amountFor a)).sum else 0 := by
  induction hits with
  | nil => simp [missedIn, sumAt]
  | cons c rest ih =>
    have hcons : missedIn h (c :: rest)
        = (c.added?.filter fun (b, _) => (slot? h b).isNone).toList ++ missedIn h rest := by
      rw [missedIn, List.filterMap_cons]
      cases c.added?.filter fun (b, _) => (slot? h b).isNone <;> rfl
    rw [hcons, List.map_cons, List.sum_cons]
    cases hc : c.added? with
    | none => simpa [Action.amountFor, hc] using ih
    | some hit =>
      obtain ⟨b, n⟩ := hit
      have happend : ∀ hits' : List (Address × Int), sumAt ((b, n) :: hits') a
          = (if b = a then n else 0) + sumAt hits' a := by
        intro hits'
        by_cases hb : b = a <;> simp [sumAt, hb]
      cases hs : slot? h b with
      | none =>
        simp only [Option.filter, hs, Option.isNone_none, if_true, Option.toList_some,
          List.singleton_append, happend, ih, Action.amountFor, hc]
        by_cases hb : b = a
        · subst hb
          simp [hs]
        · simp [hb]
      | some slot =>
        simp only [Option.filter, hs, Option.isNone_some, Bool.false_eq_true, if_false,
          Option.toList_none, List.nil_append, ih, Action.amountFor, hc]
        by_cases hb : b = a
        · subst hb
          simp [hs]
        · simp [hb]

theorem mem_missedIn_iff {a : Address} : a ∈ (missedIn h hits).map (·.1)
    ↔ slot? h a = none ∧ ∃ c ∈ hits, ∃ amount, c.added? = some (a, amount) := by
  simp only [missedIn, List.mem_map, List.mem_filterMap, Option.filter_eq_some_iff]
  constructor
  · rintro ⟨⟨b, n⟩, ⟨c, hc, hadded, hnone⟩, rfl⟩
    exact ⟨by simpa using hnone, c, hc, n, hadded⟩
  · rintro ⟨hnone, c, hc, n, hadded⟩
    exact ⟨(a, n), ⟨c, hc, hadded, by simp [hnone]⟩, rfl⟩

/-- The stale hits depend on what is added to every address, apart from their order. -/
theorem stale_of_sums (hhits : ∀ c ∈ hits, c.isHit = true) (hhits' : ∀ c ∈ hits', c.isHit = true)
    (hmem : ∀ a, (∃ c ∈ hits, ∃ amount, c.added? = some (a, amount))
      ↔ ∃ c ∈ hits', ∃ amount, c.added? = some (a, amount))
    (hsum : ∀ a, (hits.map (Action.amountFor a)).sum = (hits'.map (Action.amountFor a)).sum)
    (h : History) : (tallied (hits ++ h)).stale.Perm (tallied (hits' ++ h)).stale := by
  have hsame : ∀ (l : List Action) a, (l.reverse.map (Action.amountFor a)).sum
      = (l.map (Action.amountFor a)).sum := fun l a => ((List.reverse_perm l).map _).sum_eq
  show (gather (missed (hits ++ h))).Perm (gather (missed (hits' ++ h)))
  rw [missed_append_hits hhits, missed_append_hits hhits']
  refine gather_of_sums (fun a => ?_) (funext fun a => ?_)
  · simp only [List.map_append, List.mem_append, mem_missedIn_iff, List.mem_reverse, hmem]
  · have happend : ∀ all all' : List (Address × Int),
        sumAt (all ++ all') a = sumAt all a + sumAt all' a := by
      intro all all'
      simp [sumAt]
    rw [happend, happend, sumAt_missedIn, sumAt_missedIn, hsame, hsame, hsum]

/-- The stale hits depend on the order of hits in their order only. -/
theorem stale_perm (hperm : hits.Perm hits') (hhits : ∀ c ∈ hits, c.isHit = true) (h : History) :
    (tallied (hits ++ h)).stale.Perm (tallied (hits' ++ h)).stale :=
  stale_of_sums hhits (fun c hc => hhits c (hperm.mem_iff.2 hc))
    (fun _ => by simp only [hperm.mem_iff]) (fun _ => (hperm.map _).sum_eq) h

end History

/-! ## Conservation -/

/-- The sum of all counts and of all dropped hits. -/
def total (s : Store) : Int :=
  Tally.sum (s.tallies.map Tally.total) + Tally.sum (s.stale.map StaleHits.hits)

/-- A hit that is counted raises the sum of all counts by its amount. -/
theorem sum_raise {s : Store} {t : Tally} {kind : ProbeKind} {id : Int} {arm : Option Int}
    {slot : Slot} (ht : s.tally? t.path = some t) (hslot : t.slotOf? kind id arm = some slot)
    (amount : Int) : Tally.sum ((s.raise t slot amount).tallies.map Tally.total)
      = Tally.sum (s.tallies.map Tally.total) + amount := by
  obtain ⟨i, hi, hset⟩ := exists_raise_eq_set ht slot amount
  obtain ⟨hlt, -⟩ := List.getElem?_eq_some_iff.1 hi
  have htotals : (s.tallies.set i (t.raise slot amount)).map Tally.total
      = (s.tallies.map Tally.total).modify i (· + amount) := by
    rw [List.map_set, Tally.total_raise hslot, List.modify_eq_set_getElem?, List.getElem?_map, hi]
    rfl
  rw [hset, htotals, Tally.sum_modify (by simpa using hlt)]

theorem sum_addStale (r : Reference) (amount : Int) (stale : List StaleHits) :
    Tally.sum ((addStale r amount stale).map StaleHits.hits)
      = Tally.sum (stale.map StaleHits.hits) + amount := by
  induction stale with
  | nil => simp [addStale, Tally.sum]
  | cons entry rest ih =>
    simp only [addStale]
    split
    · simp only [List.map_cons, Tally.sum]
      omega
    · simp only [List.map_cons, Tally.sum, ih]
      omega

/-- What is added is added once: to the counter it addresses, or to the dropped hits. -/
theorem total_add {s s' : Store} {r : Reference} {amount : Int} {counted : Bool}
    (h : s.add r amount = .ok (counted, s')) : s'.total = s.total + amount := by
  simp only [add] at h
  split at h
  · cases h
  · split at h
    · next hs =>
      cases h
      obtain ⟨kind, t, slot, -, -, ht, hslot, rfl⟩ := count?_cases hs
      have hstale : (s.raise t slot amount).stale = s.stale := rfl
      simp only [total, sum_raise ht hslot, hstale]
      omega
    · cases h
      simp only [total, drop, sum_addStale]
      omega

/-- Behind any run of actions a store is the reference tally of its history. A negative amount is
refused and changes nothing; any other raises the sum of all counts and dropped hits by itself,
and is counted if and only if its address has a slot. Hits in another order leave the same counts,
and the same dropped hits apart from their order. -/
theorem run_tallied (actions : List Action) :
    run actions = tallied actions.reverse
    ∧ (∀ a amount, amount < 0 → (run actions).add a.reference amount = .error ⟨amount⟩
      ∧ run (actions ++ [.add a amount]) = run actions)
    ∧ (∀ a amount, 0 ≤ amount → ∃ s',
      (run actions).add a.reference amount
          = .ok ((slot? actions.reverse a).isSome, s')
        ∧ run (actions ++ [.add a amount]) = s' ∧ s'.total = (run actions).total + amount)
    ∧ ∀ hits hits' : List Action, (∀ c ∈ hits, c.isHit = true) → hits.Perm hits' →
      (run (actions ++ hits)).tallies = (run (actions ++ hits')).tallies
        ∧ (run (actions ++ hits)).stale.Perm (run (actions ++ hits')).stale := by
  have hrun : ∀ c, run (actions ++ [c]) = c.perform (run actions) := fun c => by simp [run]
  refine ⟨run_eq_tallied actions, ?_, ?_, ?_⟩
  · intro a amount hneg
    have hadd : (run actions).add a.reference amount = .error ⟨amount⟩ := if_pos hneg
    exact ⟨hadd, by rw [hrun, Action.perform, hadd]⟩
  · intro a amount hpos
    have hneg : ¬amount < 0 := by omega
    have hok : ∃ s', (run actions).add a.reference amount
        = .ok ((slot? actions.reverse a).isSome, s') := by
      rw [run_eq_tallied, add, if_neg hneg]
      cases hslot : slot? actions.reverse a with
      | some slot =>
        obtain ⟨t, -, hcount⟩ := count?_tallied_of_some hslot amount
        exact ⟨_, by rw [hcount]; rfl⟩
      | none => exact ⟨_, by rw [count?_tallied_of_none hslot]; rfl⟩
    obtain ⟨s', hs'⟩ := hok
    exact ⟨s', hs', by rw [hrun, Action.perform, hs'], total_add hs'⟩
  · intro hits hits' hhits hperm
    have hreverse : hits.reverse.Perm hits'.reverse :=
      (List.reverse_perm _).trans (hperm.trans (List.reverse_perm _).symm)
    have hhits' : ∀ c ∈ hits.reverse, c.isHit = true := fun c hc => hhits c (List.mem_reverse.1 hc)
    rw [run_eq_tallied, run_eq_tallied, List.reverse_append, List.reverse_append]
    exact ⟨tallies_perm hreverse hhits' _, stale_perm hreverse hhits' _⟩

/-- A run on a module with a branch of two paths and ids from 7 on. -/
def sampleActions : List Action :=
  let loc : Location := ⟨⟨1, 0⟩, ⟨1, 5⟩⟩
  [.increment ⟨"m.lua", "s", 7, none⟩,
    .register ⟨"m.lua", 7, [⟨7, loc⟩, ⟨8, loc⟩], [], [⟨7, "if", 1, loc, [loc, loc]⟩]⟩,
    .add ⟨"m.lua", "s", 8, some 4⟩ 3, .add ⟨"m.lua", "b", 7, none⟩ 2,
    .increment ⟨"m.lua", "b", 7, some 1⟩]

theorem run_tallied_sample :
    run sampleActions = tallied sampleActions.reverse
      ∧ (tallied sampleActions.reverse).tallies = [⟨"m.lua", 7, [0, 3], [], [[0, 1]]⟩]
      ∧ run (sampleActions ++ [.add ⟨"m.lua", "f", 7, none⟩ (-1)]) = run sampleActions
      ∧ (run (sampleActions ++ [.increment ⟨"m.lua", "s", 7, none⟩,
          .increment ⟨"n.lua", "s", 7, none⟩])).tallies
        = (run (sampleActions ++ [.increment ⟨"n.lua", "s", 7, none⟩,
          .increment ⟨"m.lua", "s", 7, none⟩])).tallies := by
  obtain ⟨hrun, hneg, -, hperm⟩ := run_tallied sampleActions
  refine ⟨hrun, by decide +kernel, (hneg ⟨"m.lua", "f", 7, none⟩ (-1) (by decide)).2, ?_⟩
  exact (hperm _ _ (by decide) (.swap ..)).1

end Store

end LuaCoverage

import LuaCoverage.Proofs.Counter.Shape
import LuaCoverage.Proofs.Dump.Respelt
import LuaCoverage.Proofs.Dump.Stopped

/-!
# The hits of a dump are conserved

A dump that can be loaded is a list of hits, one for every count in it. Each goes where its
reference leads: to the one counter that it addresses, or else to the stale hits of that reference.
Ids and arms are numbers with many spellings, so several counts may go to one place, and their sum
does.

What a reference addresses depends on the shape of the counts only, and no hit changes that. So the
places can be told from the store in front of the dump.

Results:
* `Dump.hits_eq_converted`: a dump that can be loaded has a hit for every count.
* `Store.Receives.addHit`, `Store.receives_foldl`: what one hit does to a store, and a list of them.
* `Dump.addHits_eq`: the number of hits that are counted.
* `Dump.load_conserves`: all of this for every dump, in both of its spellings.
-/

namespace LuaCoverage
open LuaCoverage.Decimal

/-! ## What one hit does -/

theorem Reference.equals_iff {a r : Reference} (hr : ∃ path, r.path = .string path) :
    a.equals r = true ↔ a = r := by
  obtain ⟨path, hpath⟩ := hr
  cases a with
  | mk aPath aKind aId aArm =>
    cases r with
    | mk rPath rKind rId rArm =>
      subst hpath
      have hkey : aPath.equals (.string path) = true ↔ aPath = .string path := by
        constructor
        · intro h
          exact Dump.eq_string_of_equals h
        · rintro rfl
          simp
      simp [equals, hkey, and_assoc]

def StaleHits.of? (stale : List StaleHits) (r : Reference) : Option Int :=
  (stale.find? fun entry => entry.reference = r).map StaleHits.hits

/-- Hits as a dump has them: their number is not negative, and a text names their module. -/
structure DumpHits.Proper (h : DumpHits) : Prop where
  nonneg : 0 ≤ h.amount
  path : ∃ path, h.reference.path = .string path

/-- The sum of the numbers of hits. -/
def DumpHits.sum (hits : List DumpHits) : Int := (hits.map DumpHits.amount).sum

theorem DumpHits.sum_filter_concat (p : DumpHits → Bool) (hits : List DumpHits) (h : DumpHits) :
    sum ((hits ++ [h]).filter p) = sum (hits.filter p) + if p h then h.amount else 0 := by
  by_cases hp : p h = true <;> simp [sum, hp]

namespace Store
variable {s s' : Store} {r : Reference} {h : DumpHits} {hits : List DumpHits}

section Stale
variable (hr : ∃ path, r.path = .string path) (amount : Int) (stale : List StaleHits)
include hr

theorem of?_addStale (other : Reference) :
    StaleHits.of? (addStale r amount stale) other
      = if r = other then some ((StaleHits.of? stale r).getD 0 + amount)
        else StaleHits.of? stale other := by
  unfold StaleHits.of?
  induction stale with
  | nil => by_cases hother : r = other <;> simp [addStale, hother]
  | cons entry rest ih =>
    simp only [addStale, Reference.equals_iff hr]
    by_cases hentry : entry.reference = r
    · subst hentry
      by_cases hother : entry.reference = other <;> simp [hother]
    · rw [if_neg hentry]
      by_cases hother : entry.reference = other
      · have hne : ¬r = other := fun heq => hentry (hother.trans heq.symm)
        simp [hother, hne]
      · simp only [List.find?_cons, hentry, hother, decide_false, ih]

theorem references_addStale :
    (addStale r amount stale).map StaleHits.reference
      = if r ∈ stale.map StaleHits.reference then stale.map StaleHits.reference
        else stale.map StaleHits.reference ++ [r] := by
  induction stale with
  | nil => simp [addStale]
  | cons entry rest ih =>
    simp only [addStale, Reference.equals_iff hr]
    by_cases hentry : entry.reference = r
    · simp [hentry]
    · have hentry' : ¬r = entry.reference := fun heq => hentry heq.symm
      simp only [if_neg hentry, List.map_cons, ih, List.mem_cons, hentry', false_or]
      split <;> simp

end Stale

/-- The sum of the counts of all modules. -/
def totalHits (s : Store) : Int := Tally.sum (s.tallies.map Tally.total)

theorem totalHits_raise {t : Tally} {kind : ProbeKind} {id : Int} {arm : Option Int} {slot : Slot}
    (ht : s.tally? t.path = some t) (hslot : t.slotOf? kind id arm = some slot) (amount : Int) :
    (s.raise t slot amount).totalHits = s.totalHits + amount :=
  sum_raise ht hslot amount

theorem at?_raise_of_path {t : Tally} (ht : s.tally? t.path = some t) (slot : Slot) (amount : Int)
    (path : String) (other : Slot) :
    (s.raise t slot amount).at? path other
      = (s.at? path other).map (· + if (t.path, slot) = (path, other) then amount else 0) := by
  by_cases hpath : t.path = path
  · subst hpath
    rw [at?_raise ht]
    congr 1
    funext n
    by_cases hslot : slot = other <;> simp [hslot]
  · simp [at?, tally?_raise, hpath]

theorem addHit_of_count? (hpos : 0 ≤ h.amount)
    (hcount : s.count? h.reference h.amount = some s') : s.addHit h = s' := by
  simp only [addHit, add, if_neg (Int.not_lt.2 hpos), hcount]

theorem addHit_of_none (hpos : 0 ≤ h.amount) (hcount : s.count? h.reference h.amount = none) :
    s.addHit h = s.drop h.reference h.amount := by
  simp only [addHit, add, if_neg (Int.not_lt.2 hpos), hcount]

/-! ## What a list of hits does -/

/-- The hits that address a slot of a module. -/
def addressing (s : Store) (path : String) (slot : Slot) (hits : List DumpHits) : List DumpHits :=
  hits.filter fun h => s.place? h.reference = some (path, slot)

def accepted (s : Store) (hits : List DumpHits) : List DumpHits :=
  hits.filter fun h => (s.place? h.reference).isSome

def refused (s : Store) (hits : List DumpHits) : List DumpHits :=
  hits.filter fun h => (s.place? h.reference).isNone

/-- What hits make of a store. The shapes of all counts stay, every slot grows by the hits that
address it, the stale hits of every reference grow by those that are refused, and what was not stale
before stands behind what was, in the order in which it was first seen. -/
structure Receives (s : Store) (hits : List DumpHits) (s' : Store) : Prop where
  shapes : s'.shapes = s.shapes
  slots : ∀ path slot, s'.at? path slot
    = (s.at? path slot).map (· + DumpHits.sum (s.addressing path slot hits))
  totalHits : s'.totalHits = s.totalHits + DumpHits.sum (s.accepted hits)
  stale : ∀ r, StaleHits.of? s'.stale r
    = if r ∈ (s.refused hits).map DumpHits.reference then
        some ((StaleHits.of? s.stale r).getD 0
          + DumpHits.sum ((s.refused hits).filter fun h => h.reference = r))
      else StaleHits.of? s.stale r
  references : s'.stale.map StaleHits.reference = appendNew (s.stale.map StaleHits.reference)
    ((s.refused hits).map DumpHits.reference)

theorem Receives.nil (s : Store) : s.Receives [] s where
  shapes := rfl
  slots path slot := by simp [addressing, DumpHits.sum]
  totalHits := by simp [accepted, DumpHits.sum]
  stale r := by simp [refused]
  references := by simp [refused, appendNew]

/-- Behind hits one more is counted in the slot that it addresses. -/
theorem Receives.raise (hs : s.Receives hits s') {kind : ProbeKind} {t : Tally} {slot : Slot}
    (hplace : s.place? h.reference = some (t.path, slot)) (ht : s'.tally? t.path = some t)
    (hslot : t.slotOf? kind h.reference.id h.reference.arm = some slot) :
    s.Receives (hits ++ [h]) (s'.raise t slot h.amount) := by
  have hrefused : s.refused (hits ++ [h]) = s.refused hits := by simp [refused, hplace]
  constructor
  case shapes => rw [shapes_raise ht, hs.shapes]
  case slots =>
    intro path other
    rw [at?_raise_of_path ht, hs.slots, Option.map_map, addressing, addressing,
      DumpHits.sum_filter_concat, hplace]
    congr 1
    funext n
    simp [Int.add_assoc]
  case totalHits =>
    rw [totalHits_raise ht hslot, hs.totalHits, accepted, accepted, DumpHits.sum_filter_concat,
      hplace, Int.add_assoc]
    rfl
  case stale =>
    rw [hrefused]
    exact hs.stale
  case references =>
    rw [hrefused]
    exact hs.references

/-- Behind hits one more that addresses no slot becomes stale. -/
theorem Receives.drop (hs : s.Receives hits s') (hplace : s.place? h.reference = none)
    (hpath : ∃ path, h.reference.path = .string path) :
    s.Receives (hits ++ [h]) (s'.drop h.reference h.amount) := by
  have hrefused : s.refused (hits ++ [h]) = s.refused hits ++ [h] := by simp [refused, hplace]
  constructor
  case shapes => exact hs.shapes
  case slots =>
    intro path slot
    have hsame : s.addressing path slot (hits ++ [h]) = s.addressing path slot hits := by
      simp [addressing, hplace]
    rw [hsame]
    exact hs.slots path slot
  case totalHits =>
    have hsame : s.accepted (hits ++ [h]) = s.accepted hits := by simp [accepted, hplace]
    rw [hsame]
    exact hs.totalHits
  case stale =>
    intro r
    show StaleHits.of? (addStale h.reference h.amount s'.stale) r = _
    rw [of?_addStale hpath, hrefused, DumpHits.sum_filter_concat, hs.stale, hs.stale]
    by_cases hr : h.reference = r
    · subst hr
      by_cases hmem : h.reference ∈ (s.refused hits).map DumpHits.reference
      · simp [hmem, Int.add_assoc]
      · have hnone : ((s.refused hits).filter fun x => x.reference = h.reference) = [] := by
          rw [List.filter_eq_nil_iff]
          intro x hx
          have hne : x.reference ≠ h.reference := fun heq => hmem (heq ▸ List.mem_map_of_mem hx)
          simpa using hne
        simp [hmem, hnone, DumpHits.sum]
    · have hr' : ¬r = h.reference := fun heq => hr heq.symm
      simp [hr, hr']
  case references =>
    show (addStale h.reference h.amount s'.stale).map StaleHits.reference = _
    rw [references_addStale hpath, hrefused, hs.references, List.map_append, List.map_singleton,
      appendNew_concat]

/-- What one hit more does, wherever it goes. -/
theorem Receives.addHit (hs : s.Receives hits s') (hh : h.Proper) :
    s.Receives (hits ++ [h]) (s'.addHit h) := by
  have hplace := place?_congr hs.shapes h.reference
  rcases place?_cases s' h.reference with
    ⟨kind, t, slot, hat, ht, hslot, hcount⟩ | ⟨hat, hcount⟩
  · rw [addHit_of_count? hh.nonneg (hcount _)]
    exact hs.raise (hplace.symm.trans hat) ht hslot
  · rw [addHit_of_none hh.nonneg (hcount _)]
    exact hs.drop (hplace.symm.trans hat) hh.path

/-- What hits make of a store that they are added to one after the other. -/
theorem receives_foldl (s : Store) (hits : List DumpHits) (hproper : ∀ h ∈ hits, h.Proper) :
    s.Receives hits (hits.foldl Store.addHit s) := by
  induction hits using List.reverseRecOn with
  | nil => exact .nil s
  | append_singleton hits h ih =>
    rw [List.foldl_append]
    exact (ih fun x hx => hproper x (by simp [hx])).addHit (hproper h (by simp))

theorem accepted_congr (h : s'.shapes = s.shapes) (hits : List DumpHits) :
    s'.accepted hits = s.accepted hits := by
  simp only [accepted, place?_congr h]

end Store

namespace Dump
open Json
variable {d : Dump} {s s' : Store} {m : DumpModule} {hits : List DumpHits}

/-- Loading adds the hits one after the other, and returns the sum of those that are counted. -/
theorem addHits_eq (hproper : ∀ h ∈ hits, h.Proper) (s : Store) (applied : Int) :
    addHits s applied (hits.map .ok)
      = (.ok (applied + DumpHits.sum (s.accepted hits)), hits.foldl Store.addHit s) := by
  induction hits generalizing s applied with
  | nil => simp [addHits, Store.accepted, DumpHits.sum]
  | cons h rest ih =>
    have hpos := (hproper h (by simp)).nonneg
    have hrest := ih fun x hx => hproper x (by simp [hx])
    rw [List.map_cons, List.foldl_cons, addHits]
    rcases s.place?_cases h.reference with ⟨_, t, slot, hplace, ht, -, hcount⟩ | ⟨hplace, hcount⟩
    · have hsame := Store.accepted_congr (Store.shapes_raise ht slot h.amount) rest
      rw [Store.addHit_of_count? hpos (hcount _), hcount]
      show addHits (s.raise t slot h.amount) (applied + h.amount) (rest.map .ok) = _
      rw [hrest, hsame]
      simp [Store.accepted, hplace, DumpHits.sum, Int.add_assoc]
    · have hsame : (s.drop h.reference h.amount).accepted rest = s.accepted rest :=
        Store.accepted_congr rfl rest
      rw [Store.addHit_of_none hpos (hcount _), hcount]
      show addHits (s.drop h.reference h.amount) applied (rest.map .ok) = _
      rw [hrest, hsame]
      simp [Store.accepted, hplace]

/-! ## The counts of a dump -/

/-- The integer of a value; zero if it has none. -/
def number (v : Value) : Int := v.toInt.toOption.getD 0

/-- The counts of a branch with their arms. -/
def armCounts : Value → List (Int × Value)
  | .list items => items.mapIdx fun arm v => ((arm : Int), v)
  | .mapping entries => entries.map fun (key, v) => (number (.scalar key), v)
  | _ => []

/-- The hits of a count of a statement or a function. -/
def plainConverted (path : String) (kind : ProbeKind) (entry : Scalar × Value) : DumpHits :=
  ⟨⟨.string path, kind.code, number (.scalar entry.1), none⟩, number entry.2⟩

/-- The hits of the counts of a branch. -/
def branchConverted (path : String) (entry : Scalar × Value) : List DumpHits :=
  (armCounts entry.2).map fun (arm, v) =>
    ⟨⟨.string path, ProbeKind.branch.code, number (.scalar entry.1), some arm⟩, number v⟩

/-- The hits of all counts of a module. -/
def moduleConverted (m : DumpModule) : List DumpHits :=
  (m.counts .statement).map (plainConverted m.path .statement)
    ++ (m.counts .function).map (plainConverted m.path .function)
    ++ (m.counts .branch).flatMap (branchConverted m.path)

/-- The hits of all counts of a dump, with every key and every count as a number. -/
def converted (d : Dump) : List DumpHits := d.modules.flatMap moduleConverted

theorem number_of_toInt {v : Value} {n : Int} (h : v.toInt = .ok n) : number v = n := by
  rw [number, h]
  rfl

/-- Whether nothing in a list is faulty. -/
def Sound {ε α : Type} (l : List (Except ε α)) : Prop := ∀ x ∈ l, ∃ a, x = .ok a

theorem Sound.map_eq {ε α β : Type} {f : α → Except ε β} {g : α → β} {l : List α}
    (h : Sound (l.map f)) (hf : ∀ a b, f a = .ok b → b = g a) : l.map f = (l.map g).map .ok := by
  rw [List.map_map]
  apply List.map_congr_left
  intro a ha
  obtain ⟨b, hb⟩ := h (f a) (List.mem_map_of_mem ha)
  rw [hb, hf a b hb]
  rfl

theorem Sound.flatMap_eq {ε α β : Type} {f : α → List (Except ε β)} {g : α → List β} {l : List α}
    (h : Sound (l.flatMap f)) (hf : ∀ a, Sound (f a) → f a = (g a).map .ok) :
    l.flatMap f = (l.flatMap g).map .ok := by
  rw [List.map_flatMap]
  apply List.flatMap_congr
  intro a ha
  apply hf
  intro x hx
  exact h x (List.mem_flatMap.2 ⟨a, ha, hx⟩)

theorem sound_append {ε α : Type} {l l' : List (Except ε α)} :
    Sound (l ++ l') ↔ Sound l ∧ Sound l' := by
  simp only [Sound, List.mem_append, or_imp, forall_and]

theorem plainHits_eq {path : String} {kind : ProbeKind} {entry : Scalar × Value} {h : DumpHits}
    (hh : plainHits path kind entry = .ok h) : h = plainConverted path kind entry := by
  obtain ⟨id, hid, hh⟩ := Except.bind_ok hh
  obtain ⟨amount, hamount, hh⟩ := Except.bind_ok hh
  have hid : number (.scalar entry.1) = id := number_of_toInt (Except.mapError_eq_ok_iff.1 hid)
  have hamount : number entry.2 = amount := number_of_toInt (Except.mapError_eq_ok_iff.1 hamount)
  rw [(hitsOf_eq_ok_iff.1 hh).2, plainConverted, hid, hamount]

theorem listArms_eq {arm : Nat} {items : List Value} {numbers : List (Int × Int)}
    (h : listArms arm items = .ok numbers) :
    numbers = items.mapIdx fun i v => (((arm + i : Nat) : Int), number v) := by
  induction items generalizing arm numbers with
  | nil =>
    cases h
    rfl
  | cons v rest ih =>
    obtain ⟨amount, hamount, h⟩ := Except.bind_ok h
    obtain ⟨more, hmore, h⟩ := Except.bind_ok h
    cases h
    rw [List.mapIdx_cons, ← number_of_toInt hamount, ih hmore]
    simp only [Nat.add_zero, Nat.add_assoc, Nat.add_comm 1]
    rfl

theorem arms_eq {v : Value} {numbers : List (Int × Int)} (h : arms v = .ok numbers) :
    numbers = (armCounts v).map fun (arm, n) => (arm, number n) := by
  cases v with
  | list items =>
    rw [listArms_eq (Except.mapError_eq_ok_iff.1 h), armCounts]
    apply List.ext_getElem?
    intro i
    simp [List.getElem?_mapIdx, Function.comp_def]
  | mapping entries =>
    rw [armCounts, List.map_map]
    refine Except.eq_map_of_mapM_ok ?_ (Except.mapError_eq_ok_iff.1 h)
    intro entry numbered hentry
    obtain ⟨arm, harm, hentry⟩ := Except.bind_ok hentry
    obtain ⟨amount, hamount, hentry⟩ := Except.bind_ok hentry
    cases hentry
    have harm : number (.scalar entry.1) = arm := number_of_toInt harm
    simp only [Function.comp_apply, harm, number_of_toInt hamount]
  | scalar => cases h
  | set => cases h
  | pair => cases h

theorem branchHits_eq {path : String} {entry : Scalar × Value}
    (h : Sound (branchHits path entry)) :
    branchHits path entry = (branchConverted path entry).map .ok := by
  unfold branchHits at h ⊢
  cases harms : arms entry.2 with
  | error fault =>
    rw [harms] at h
    obtain ⟨_, hfault⟩ := h (.error fault) (by simp)
    cases hfault
  | ok numbers =>
    rw [harms] at h
    obtain rfl := arms_eq harms
    simp only [branchConverted] at h ⊢
    rw [List.map_map] at h ⊢
    refine h.map_eq ?_
    intro count hits hcount
    obtain ⟨id, hid, hcount⟩ := Except.bind_ok hcount
    have hid : number (.scalar entry.1) = id := number_of_toInt (Except.mapError_eq_ok_iff.1 hid)
    rw [(hitsOf_eq_ok_iff.1 hcount).2, hid]

theorem moduleHits_eq (h : Sound (moduleHits m)) : moduleHits m = (moduleConverted m).map .ok := by
  have hfound : Sound ((m.counts .statement).map (plainHits m.path .statement)
      ++ (m.counts .function).map (plainHits m.path .function)
      ++ (m.counts .branch).flatMap (branchHits m.path)) := by
    intro x hx
    obtain ⟨a, ha⟩ := h _ (List.mem_map_of_mem hx)
    exact ⟨a, Except.mapError_eq_ok_iff.1 ha⟩
  rw [sound_append, sound_append] at hfound
  obtain ⟨⟨hstatements, hfunctions⟩, hbranches⟩ := hfound
  rw [moduleHits, hstatements.map_eq fun _ _ => plainHits_eq,
    hfunctions.map_eq fun _ _ => plainHits_eq, hbranches.flatMap_eq fun _ => branchHits_eq,
    moduleConverted, ← List.map_append, ← List.map_append, List.map_map]
  rfl

/-- A dump without faults has a hit for every count, and no others. -/
theorem hits_eq_converted (h : Sound d.hits) : d.hits = d.converted.map .ok :=
  h.flatMap_eq fun _ => moduleHits_eq

theorem exists_path_of_mem_converted {h : DumpHits} (hh : h ∈ d.converted) :
    ∃ path, h.reference.path = .string path := by
  obtain ⟨m, -, hh⟩ := List.mem_flatMap.1 hh
  refine ⟨m.path, ?_⟩
  rcases List.mem_append.1 hh with hh | hh
  · rcases List.mem_append.1 hh with hh | hh
    all_goals
      obtain ⟨entry, -, rfl⟩ := List.mem_map.1 hh
      rfl
  · obtain ⟨entry, -, hh⟩ := List.mem_flatMap.1 hh
    obtain ⟨arm, -, rfl⟩ := List.mem_map.1 hh
    rfl

/-- A dump that can be loaded has no faults. -/
theorem sound_of_load {applied : Int} (hload : d.load s = (.ok applied, s')) : Sound d.hits := by
  rcases eq_map_ok_or_stopsAt d with ⟨front, hhits⟩ | ⟨front, e, hstop⟩
  · intro x hx
    rw [hhits] at hx
    obtain ⟨h, -, rfl⟩ := List.mem_map.1 hx
    exact ⟨h, rfl⟩
  · rw [hstop.load_eq] at hload
    cases hload

/-- Loading a dump conserves its hits. Where a dump is read and loaded, it has a hit for every
count. Each slot grows by the hits that address it, the stale hits of a reference by those that are
refused, and the number returned is what the counts of all modules have grown by. In another
spelling the dump is read as well, and loading it gives the same number and the same store. -/
theorem load_conserves {text : String} {applied : Int} (hparse : parse text = .ok d)
    (hload : d.load s = (.ok applied, s')) :
    d.hits = d.converted.map .ok ∧ s.Receives d.converted s'
      ∧ applied = s'.totalHits - s.totalHits
      ∧ ∀ v other text', Spells text v → Respelt v other → Spells text' other →
        ∃ d', parse text' = .ok d' ∧ d'.load s = (.ok applied, s') := by
  have hhits := hits_eq_converted (sound_of_load hload)
  have hproper : ∀ h ∈ d.converted, h.Proper := by
    intro h hh
    refine ⟨?_, exists_path_of_mem_converted hh⟩
    apply nonneg_of_mem_hits (d := d)
    rw [hhits]
    exact List.mem_map_of_mem hh
  have hreceives := s.receives_foldl d.converted hproper
  have hadd := addHits_eq hproper s 0
  rw [← hhits] at hadd
  have hboth := hload.symm.trans hadd
  rw [Prod.mk.injEq, Except.ok.injEq] at hboth
  obtain ⟨happlied, rfl⟩ := hboth
  refine ⟨hhits, hreceives, ?_, ?_⟩
  · have htotal := hreceives.totalHits
    omega
  · intro v other text' hv hrespelt hother
    obtain ⟨v', hv', hd⟩ := parse_eq_ok_iff.1 hparse
    obtain rfl := hv.unique hv'
    obtain ⟨d', hd', hsame⟩ := hrespelt.exists_ofValue hd
    refine ⟨d', parse_eq_ok_iff.2 ⟨other, hother, hd'⟩, ?_⟩
    rw [load, hsame]
    exact hload

/-- Counts of a module, and of one that is not registered. Two keys are the same id. -/
def sampleDump (functions arms : Value) : Value :=
  .object [("m.lua", .object [("s", .object [("0", .int 2), ("00", .int 3)]), ("f", functions),
      ("b", .object [("1", arms)])]),
    ("n.lua", .object [("f", .object [("5", .int 6)])])]

/-- Its JSON, with the arms of the branch as a list. -/
def listJson : String :=
  "\x7b\"m.lua\": \x7b\"s\": \x7b\"0\": 2, \"00\": 3\x7d, \"f\": [], "
    ++ "\"b\": \x7b\"1\": [4, 1]\x7d\x7d, \"n.lua\": \x7b\"f\": \x7b\"5\": 6\x7d\x7d\x7d"

/-- Its JSON, with the arms of the branch as a mapping. -/
def objectJson : String :=
  "\x7b\"m.lua\": \x7b\"s\": \x7b\"0\": 2, \"00\": 3\x7d, \"f\": \x7b\x7d, "
    ++ "\"b\": \x7b\"1\": \x7b\"0\": 4, \"1\": 1\x7d\x7d\x7d, "
    ++ "\"n.lua\": \x7b\"f\": \x7b\"5\": 6\x7d\x7d\x7d"

theorem plain_sampleDump {functions arms : Value} (hfunctions : Plain functions)
    (harms : Plain arms) : Plain (sampleDump functions arms) := by
  have hint : ∀ n : Int, Plain (.int n) := .int
  refine .object (by simp) ?_
  simp only [List.forall_mem_cons, List.not_mem_nil, false_imp_iff, implies_true, and_true]
  refine ⟨.object (by simp) ?_, .object (by simp) ?_⟩
  · simp only [List.forall_mem_cons, List.not_mem_nil, false_imp_iff, implies_true, and_true]
    refine ⟨.object (by simp) ?_, hfunctions, .object (by simp) ?_⟩
    · simp [hint]
    · simpa using harms
  · simp only [List.forall_mem_cons, List.not_mem_nil, false_imp_iff, implies_true, and_true]
    exact .object (by simp) (by simp [hint])

theorem spells_listJson : Spells listJson (sampleDump (.list []) (.list [.int 4, .int 1])) := by
  have hprint : print .inline (sampleDump (.list []) (.list [.int 4, .int 1])) = listJson := by
    decide +kernel
  rw [← hprint]
  refine spells_print (plain_sampleDump (.list (by simp)) (.list (by simp [Plain.int]))) ?_
  rw [hprint]
  decide +kernel

theorem spells_objectJson :
    Spells objectJson (sampleDump (.object []) (.object [("0", .int 4), ("1", .int 1)])) := by
  have hprint : print .inline (sampleDump (.object []) (.object [("0", .int 4), ("1", .int 1)]))
      = objectJson := by
    decide +kernel
  rw [← hprint]
  refine spells_print (plain_sampleDump (.object (by simp) (by simp))
    (.object (by simp) (by simp [Plain.int]))) ?_
  rw [hprint]
  decide +kernel

theorem respelt_sampleDump :
    Respelt (sampleDump (.list []) (.list [.int 4, .int 1]))
      (sampleDump (.object []) (.object [("0", .int 4), ("1", .int 1)])) := by
  have hzero : natText 0 = "0" := by decide +kernel
  have hone : natText 1 = "1" := by decide +kernel
  have harms : Value.object [("0", .int 4), ("1", .int 1)]
      = .mapping (indexed [.int 4, .int 1]) := by
    simp [Value.object, indexed, hzero, hone]
  rw [harms]
  refine .modules (.cons (.fields _ ?_) (.cons (.fields _ ?_) .nil))
  · exact .cons (.same _) (.cons (.counts .function (.empty _))
      (.cons (.counts .branch (.branches (.cons (.list _ _) .nil))) .nil))
  · exact .cons (.same _) .nil

/-- A store with counts of the module, and stale hits of the other one. -/
def partStore : Store :=
  ⟨[⟨"m.lua", 0, [1], [], [[0, 7], [1]]⟩], [⟨⟨.string "n.lua", "f", 5, none⟩, 2⟩]⟩

/-- Both keys of the statement add up, the second arm has no slot, and the stale hits grow. -/
def filledStore : Store :=
  ⟨[⟨"m.lua", 0, [6], [], [[0, 7], [5]]⟩],
    [⟨⟨.string "n.lua", "f", 5, none⟩, 8⟩, ⟨⟨.string "m.lua", "b", 1, some 1⟩, 1⟩]⟩

theorem load_conserves_sample :
    ∃ d, parse listJson = .ok d ∧ d.load partStore = (.ok 9, filledStore)
      ∧ partStore.Receives d.converted filledStore
      ∧ 9 = filledStore.totalHits - partStore.totalHits
      ∧ ∃ d', parse objectJson = .ok d' ∧ d'.load partStore = (.ok 9, filledStore) := by
  have hloaded : (parse listJson).toOption.map (fun d => d.load partStore)
      = some (.ok 9, filledStore) := by decide +kernel
  obtain ⟨d, hd, hload⟩ := Except.exists_of_toOption hloaded
  obtain ⟨-, hreceives, happlied, hrespelt⟩ := load_conserves hd hload
  exact ⟨d, hd, hload, hreceives, happlied,
    hrespelt _ _ _ spells_listJson respelt_sampleDump spells_objectJson⟩

end Dump

end LuaCoverage

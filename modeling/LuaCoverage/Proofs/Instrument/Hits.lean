import LuaCoverage.Instrument.Call
import LuaCoverage.Proofs.Analysis.Matching
import LuaCoverage.Proofs.Counter.Slot

/-!
# Hits of probe calls

A probe call that is written at a site passes its arguments on when it runs, and the store sees a
reference. A call around a condition makes one of two references, by the value of the condition.

When sites match the probes of a module, the references of their calls are exactly those of the
slots of the module. An analysis hands out ids, arms and sites in several places, and a store checks
the ids and arms of hits against the shape of the module; the two agree for every tree. So whatever
has been hit before, the hit of a probe call is counted, and every counter is raised by some probe
call.

Results:
* `Call.text_of_arguments`: the arguments stand in the text that is written.
* `Matches.mem_references`: the references of the calls are those of the slots.
* `Store.increment_reference`: a reference of a slot is counted there and nowhere else.
* `Store.Holds.incrementAll`: a store goes on holding a module through any run of hits.
* `Analyzer.ofTree_reached`: sites match probes, no hit is dropped, and every slot is reached.
-/

namespace LuaCoverage
open LuaCoverage.Decimal

/-- The arms that a call at a site of a mark may pass on: those of both outcomes for a condition,
and the one that it bears for all others. -/
def Site.armsOf (mark : Mark) : List (Option Int) :=
  match mark.1 with
  | .closer => []
  | .conditionOpener => [some 0, some 1]
  | _ => [mark.2]

/-- The arms of the counters of a probe. -/
def Demand.arms : Demand → List (Option Int)
  | .single => [none]
  | .branch _ n => (List.range n).map fun k : Nat => some (k : Int)

/-- The calls at the sites that a probe demands pass on the arms of its counters. -/
theorem Demand.Met.mem_arms {d : Demand} {marks : List Site.Mark} (h : d.Met marks)
    {arm : Option Int} : arm ∈ d.arms ↔ ∃ mark ∈ marks, arm ∈ Site.armsOf mark := by
  cases h with
  | single => simp [Demand.arms, Site.armsOf]
  | arms style perm =>
    rw [Demand.arms, ← perm.mem_iff, List.mem_map]
    have hone : ∀ mark ∈ marks, Site.armsOf mark = [mark.2] := by
      intro mark hm
      rcases style mark hm with hs | hs <;> simp [Site.armsOf, hs]
    constructor
    · rintro ⟨mark, hm, rfl⟩
      exact ⟨mark, hm, by simp [hone mark hm]⟩
    · rintro ⟨mark, hm, ha⟩
      rw [hone mark hm, List.mem_singleton] at ha
      exact ⟨mark, hm, ha.symm⟩
  | operands known pairs =>
    simp only [pairs.mem_iff, Site.pairMarks, List.mem_flatMap, ← List.range_eq_range',
      Demand.arms, List.mem_map]
    constructor
    · rintro ⟨k, hk, rfl⟩
      exact ⟨(.opener, some k), ⟨k, hk, by simp⟩, by simp [Site.armsOf]⟩
    · rintro ⟨mark, ⟨k, hk, hmark⟩, ha⟩
      simp only [List.mem_cons, List.not_mem_nil, or_false] at hmark
      rcases hmark with rfl | rfl
      · exact ⟨k, hk, (List.mem_singleton.1 ha).symm⟩
      · simp [Site.armsOf] at ha
  | condition known pair => simp [pair.mem_iff, Demand.arms, Site.armsOf, List.range_succ]

/-- The sites of a branch bear an arm, unless they are those around a condition. -/
theorem Demand.Met.isSome_arm {type : String} {n : Nat} {marks : List Site.Mark}
    (h : (branch type n).Met marks) {mark : Site.Mark} (hm : mark ∈ marks) :
    mark.1 = .conditionOpener ∨ mark.1 = .closer ∨ mark.2.isSome := by
  cases h with
  | arms style perm =>
    have hsnd := perm.mem_iff.1 (List.mem_map_of_mem hm)
    obtain ⟨k, -, hk⟩ := List.mem_map.1 hsnd
    exact .inr (.inr (by simp [← hk]))
  | operands known pairs =>
    have hpair := pairs.mem_iff.1 hm
    simp only [Site.pairMarks, List.mem_flatMap, List.mem_cons, List.not_mem_nil,
      or_false] at hpair
    obtain ⟨k, -, rfl | rfl⟩ := hpair
    · exact .inr (.inr rfl)
    · exact .inr (.inl rfl)
  | condition known pair =>
    have hpair := pair.mem_iff.1 hm
    simp only [List.mem_cons, List.not_mem_nil, or_false] at hpair
    rcases hpair with rfl | rfl
    · exact .inl rfl
    · exact .inr (.inl rfl)

namespace Call

/-- What a probe call passes on behind the path: a code, an id, and an arm if it names one. -/
structure Arguments where
  code : String
  id : Int
  arm : Option Int
  deriving DecidableEq, Repr

/-- The arguments of the call that is written at a site. A closer only ends a call. -/
def arguments? (s : Site) : Option Arguments :=
  match s.style with
  | .closer => none
  | .conditionOpener => some ⟨conditionCode, s.id, none⟩
  | .opener => some ⟨s.kind.code, s.id, s.arm⟩
  | .statement | .elseArm => some ⟨s.kind.code, s.id, if s.kind = .branch then s.arm else none⟩

namespace Arguments

/-- The arguments as they are written, behind the name of the probe function. -/
def text (name : ProbeName) (path : String) (a : Arguments) : String :=
  opening name path a.code a.id ++
    if a.code = conditionCode then ", nil" else (a.arm.map fun n => ", " ++ intText n).getD ""

/-- The references that a call may make when it runs. -/
def references (path : String) (a : Arguments) : List Reference :=
  if a.code = conditionCode then
    [⟨.string path, ProbeKind.branch.code, a.id, some 0⟩,
      ⟨.string path, ProbeKind.branch.code, a.id, some 1⟩]
  else [⟨.string path, a.code, a.id, a.arm⟩]

end Arguments

/-- The references that the calls at sites may make. -/
def references (path : String) (sites : List Site) : List Reference :=
  (sites.filterMap arguments?).flatMap (Arguments.references path)

theorem code_ne_conditionCode (kind : ProbeKind) : kind.code ≠ conditionCode := by
  cases kind <;> decide

theorem mem_references {path : String} {sites : List Site} {r : Reference} :
    r ∈ references path sites
      ↔ ∃ s ∈ sites, ∃ a, arguments? s = some a ∧ r ∈ a.references path := by
  simp only [references, List.mem_flatMap, List.mem_filterMap]
  constructor
  · rintro ⟨a, ⟨s, hs, ha⟩, hr⟩
    exact ⟨s, hs, a, ha, hr⟩
  · rintro ⟨s, hs, a, ha, hr⟩
    exact ⟨a, ⟨s, hs, ha⟩, hr⟩

/-- The references that the call at a site may make, by its mark. -/
theorem mem_site_references {s : Site} (hs : s.kind = .branch ∨ s.mark = (.statement, none))
    {path : String} {r : Reference} :
    (∃ a, arguments? s = some a ∧ r ∈ a.references path)
      ↔ ∃ arm ∈ Site.armsOf s.mark, r = ⟨.string path, s.kind.code, s.id, arm⟩ := by
  have hcode : s.kind.code ≠ conditionCode := code_ne_conditionCode s.kind
  rcases hs with hk | hmark
  · rw [hk] at hcode
    cases hstyle : s.style <;>
      simp [arguments?, Arguments.references, Site.armsOf, Site.mark, hstyle, hk, hcode]
  · obtain ⟨hstyle, harm⟩ := Prod.mk.inj hmark
    simp [arguments?, Arguments.references, Site.armsOf, Site.mark, hstyle, harm, hcode]

/-- The text of a call is its arguments, between a lead and a tail that depend on the style. -/
theorem text_of_arguments {s : Site} {a : Arguments} (h : arguments? s = some a)
    (arm : s.kind = .branch ∨ s.style = .opener → s.style ≠ .conditionOpener → s.arm.isSome)
    (name : ProbeName) (path : String) :
    ∃ lead ∈ [" ", " else "], ∃ tail ∈ [");", "); ", ", "],
      text name path s = lead ++ a.text name path ++ tail := by
  have hcode : s.kind.code ≠ conditionCode := code_ne_conditionCode s.kind
  simp only [arguments?] at h
  split at h
  · cases h
  · next style =>
    cases h
    refine ⟨" ", by simp, ", ", by simp, ?_⟩
    simp only [text, style, Arguments.text, if_true, String.append_assoc]
    rfl
  · next style =>
    cases h
    obtain ⟨n, hn⟩ := Option.isSome_iff_exists.1 (arm (.inr style) (by simp [style]))
    refine ⟨" ", by simp, ", ", by simp, ?_⟩
    simp only [text, style, Arguments.text, if_neg hcode, hn, armText, Option.map_some,
      Option.getD_some, String.append_assoc]
  · next style =>
    cases h
    refine ⟨" ", by simp, ");", by simp, ?_⟩
    simp only [text, style, alone, Arguments.text, if_neg hcode]
    split
    · next kind =>
      obtain ⟨n, hn⟩ := Option.isSome_iff_exists.1 (arm (.inl kind) (by simp [style]))
      simp only [hn, armText, Option.map_some, Option.getD_some, String.append_assoc]
    · simp only [Option.map_none, Option.getD_none, String.append_assoc]
  · next style =>
    cases h
    refine ⟨" else ", by simp, "); ", by simp, ?_⟩
    simp only [text, style, alone, Arguments.text, if_neg hcode]
    have htail : ");" ++ " " = "); " := rfl
    split
    · next kind =>
      obtain ⟨n, hn⟩ := Option.isSome_iff_exists.1 (arm (.inl kind) (by simp [style]))
      simp only [hn, armText, Option.map_some, Option.getD_some, String.append_assoc, htail]
    · simp only [Option.map_none, Option.getD_none, String.append_assoc, htail]

end Call

def Slot.arm : Slot → Option Int
  | .statement _ => none
  | .function _ => none
  | .path _ a => some a

namespace ProbeMap

def Has (m : ProbeMap) : Slot → Prop
  | .statement i => i < m.statements.length
  | .function i => i < m.functions.length
  | .path i a => ∃ probe, m.branches[i]? = some probe ∧ a < probe.pathCount

def reference (m : ProbeMap) (slot : Slot) : Reference :=
  ⟨.string m.path, slot.kind.code, m.idBase + slot.index, slot.arm⟩

theorem slot?_of_has {m : ProbeMap} {slot : Slot} (h : m.Has slot) :
    m.slot? slot.kind (m.idBase + slot.index) slot.arm = some slot := by
  have hindex : ∀ i : Nat, m.idBase + (i : Int) - m.idBase = i := by omega
  cases slot with
  | statement i =>
    have hi : Tally.slot? m.statements.length i = some i := Tally.slot?_eq_some_iff.2 ⟨rfl, h⟩
    simp [slot?, Slot.address?, Slot.kind, Slot.index, hindex, hi]
  | function i =>
    have hi : Tally.slot? m.functions.length i = some i := Tally.slot?_eq_some_iff.2 ⟨rfl, h⟩
    simp [slot?, Slot.address?, Slot.kind, Slot.index, hindex, hi]
  | path i a =>
    obtain ⟨probe, hprobe, ha⟩ := h
    obtain ⟨hlt, -⟩ := List.getElem?_eq_some_iff.1 hprobe
    have hi : Tally.slot? m.branches.length i = some i := Tally.slot?_eq_some_iff.2 ⟨rfl, hlt⟩
    have ha : Tally.slot? probe.pathCount a = some a := Tally.slot?_eq_some_iff.2 ⟨rfl, ha⟩
    simp [slot?, Slot.address?, Slot.kind, Slot.index, Slot.arm, hindex, hi, hprobe, ha]

theorem eq_single {m : ProbeMap} {kind : ProbeKind} (hk : kind ≠ .branch) {i : Nat} {id : Int}
    {d : Demand} (h : (m.demands kind)[i]? = some (id, d)) : d = .single := by
  cases kind with
  | statement =>
    simp only [demands, List.getElem?_map, Option.map_eq_some_iff, Prod.mk.injEq] at h
    obtain ⟨_, -, -, rfl⟩ := h
    rfl
  | function =>
    simp only [demands, List.getElem?_map, Option.map_eq_some_iff, Prod.mk.injEq] at h
    obtain ⟨_, -, -, rfl⟩ := h
    rfl
  | branch => exact absurd rfl hk

theorem exists_branch {m : ProbeMap} {i : Nat} {id : Int} {d : Demand}
    (h : (m.demands .branch)[i]? = some (id, d)) : ∃ type n, d = .branch type n := by
  simp only [demands, List.getElem?_map, Option.map_eq_some_iff, Prod.mk.injEq] at h
  obtain ⟨probe, -, -, rfl⟩ := h
  exact ⟨_, _, rfl⟩

/-- A probe that demands an arm has a slot for it. -/
theorem exists_slot {m : ProbeMap} {kind : ProbeKind} {i : Nat} {id : Int} {d : Demand}
    {arm : Option Int} (h : (m.demands kind)[i]? = some (id, d)) (ha : arm ∈ d.arms) :
    ∃ slot, m.Has slot ∧ slot.kind = kind ∧ slot.index = i ∧ slot.arm = arm := by
  cases kind with
  | statement =>
    simp only [demands, List.getElem?_map, Option.map_eq_some_iff, Prod.mk.injEq] at h
    obtain ⟨probe, hprobe, -, rfl⟩ := h
    obtain ⟨hlt, -⟩ := List.getElem?_eq_some_iff.1 hprobe
    exact ⟨.statement i, hlt, rfl, rfl, (List.mem_singleton.1 ha).symm⟩
  | function =>
    simp only [demands, List.getElem?_map, Option.map_eq_some_iff, Prod.mk.injEq] at h
    obtain ⟨probe, hprobe, -, rfl⟩ := h
    obtain ⟨hlt, -⟩ := List.getElem?_eq_some_iff.1 hprobe
    exact ⟨.function i, hlt, rfl, rfl, (List.mem_singleton.1 ha).symm⟩
  | branch =>
    simp only [demands, List.getElem?_map, Option.map_eq_some_iff, Prod.mk.injEq] at h
    obtain ⟨probe, hprobe, -, rfl⟩ := h
    simp only [Demand.arms, List.mem_map, List.mem_range] at ha
    obtain ⟨a, hlt, rfl⟩ := ha
    exact ⟨.path i a, ⟨probe, hprobe, hlt⟩, rfl, rfl, rfl⟩

theorem exists_demand {m : ProbeMap} {slot : Slot} (h : m.Has slot) :
    ∃ id d, (m.demands slot.kind)[slot.index]? = some (id, d) ∧ slot.arm ∈ d.arms := by
  cases slot with
  | statement i =>
    have hi : i < m.statements.length := h
    exact ⟨m.statements[i].id, .single, by simp [demands, Slot.kind, Slot.index, hi],
      by simp [Demand.arms, Slot.arm]⟩
  | function i =>
    have hi : i < m.functions.length := h
    exact ⟨m.functions[i].id, .single, by simp [demands, Slot.kind, Slot.index, hi],
      by simp [Demand.arms, Slot.arm]⟩
  | path i a =>
    obtain ⟨probe, hprobe, ha⟩ := h
    exact ⟨probe.id, .branch probe.type probe.pathCount,
      by simp [demands, Slot.kind, Slot.index, hprobe],
      List.mem_map.2 ⟨a, List.mem_range.2 ha, rfl⟩⟩

end ProbeMap

theorem Tally.Fits.isSome_at? {t : Tally} {m : ProbeMap} (h : t.Fits m) (slot : Slot) :
    (t.at? slot).isSome ↔ m.Has slot := by
  cases slot with
  | statement i => simp [at?, ProbeMap.Has, h.statements]
  | function i => simp [at?, ProbeMap.Has, h.functions]
  | path i a =>
    have hlen := congrArg (·[i]?) h.branches
    simp only [List.getElem?_map] at hlen
    simp only [at?, ProbeMap.Has]
    cases ht : t.branches[i]? with
    | none =>
      rw [ht, Option.map_none, eq_comm, Option.map_eq_none_iff] at hlen
      simp [hlen]
    | some arms =>
      rw [ht, Option.map_some, eq_comm, Option.map_eq_some_iff] at hlen
      obtain ⟨probe, hprobe, hlen⟩ := hlen
      simp [hprobe, hlen]

namespace Store

theorem isSome_at? {s : Store} {m : ProbeMap} (h : s.Holds m) (slot : Slot) :
    (s.at? m.path slot).isSome ↔ m.Has slot := by
  obtain ⟨t, ht, hfits⟩ := h
  rw [at?, ht, Option.bind_some, hfits.isSome_at?]

/-- A reference of a slot is counted there and nowhere else. -/
theorem increment_reference {s : Store} {m : ProbeMap} {slot : Slot} (h : s.Holds m)
    (hslot : m.Has slot) :
    (s.increment (m.reference slot)).1 = true
      ∧ (s.increment (m.reference slot)).2.stale = s.stale
      ∧ ∀ other, (s.increment (m.reference slot)).2.at? m.path other
        = (s.at? m.path other).map fun n => if slot = other then n + 1 else n := by
  obtain ⟨t, ht, hfits⟩ := h
  have hcount := count?_of_slot ht hfits (ProbeMap.slot?_of_has hslot) 1
  have hinc : s.increment (m.reference slot) = (true, s.raise t slot 1) := by
    simp only [increment, ProbeMap.reference, hcount]
  rw [hinc]
  refine ⟨rfl, rfl, fun other => ?_⟩
  have hpath : t.path = m.path := hfits.path
  rw [← hpath] at ht ⊢
  exact at?_raise ht slot other 1

end Store

namespace Matches
variable {m : ProbeMap} {sites : List Site}

/-- What the probe of a site demands, by its place among those of its kind. -/
theorem demand_of_mem (h : Matches m sites) {s : Site} (hs : s ∈ sites) :
    ∃ i d, (m.demands s.kind)[i]? = some (s.id, d) ∧ s.id = m.idBase + (i : Nat)
      ∧ d.Met (Site.marks s.kind s.id sites) := by
  obtain ⟨d, hd⟩ := h.owned s hs
  obtain ⟨i, hi⟩ := List.getElem?_of_mem hd
  exact ⟨i, d, hi, h.id_eq hi, h.met s.kind s.id d hd⟩

theorem mark_mem_marks {s : Site} (hs : s ∈ sites) : s.mark ∈ Site.marks s.kind s.id sites :=
  List.mem_map_of_mem (List.mem_filter.2 ⟨hs, Site.isOf_eq_true_iff.2 ⟨rfl, rfl⟩⟩)

/-- A mark that a probe demands is the mark of one of its sites. -/
theorem exists_site {kind : ProbeKind} {id : Int} {mark : Site.Mark}
    (h : mark ∈ Site.marks kind id sites) :
    ∃ s ∈ sites, s.kind = kind ∧ s.id = id ∧ s.mark = mark := by
  obtain ⟨s, hs, rfl⟩ := List.mem_map.1 h
  obtain ⟨hs, hof⟩ := List.mem_filter.1 hs
  obtain ⟨hk, hid⟩ := Site.isOf_eq_true_iff.1 hof
  exact ⟨s, hs, hk, hid, rfl⟩

/-- A site of a statement or a function bears the one mark that its probe demands. -/
theorem branch_or_mark (h : Matches m sites) {s : Site} (hs : s ∈ sites) :
    s.kind = .branch ∨ s.mark = (.statement, none) := by
  by_cases hk : s.kind = .branch
  · exact .inl hk
  · obtain ⟨i, d, hi, -, hmet⟩ := h.demand_of_mem hs
    obtain rfl := ProbeMap.eq_single hk hi
    have hmark := mark_mem_marks hs
    generalize Site.marks s.kind s.id sites = marks at hmet hmark
    cases hmet
    exact .inr (List.mem_singleton.1 hmark)

/-- The arguments of a call stand in the text that is written at its site. -/
theorem text_of_arguments (h : Matches m sites) {s : Site} (hs : s ∈ sites) {a : Call.Arguments}
    (ha : Call.arguments? s = some a) (name : ProbeName) :
    ∃ lead ∈ [" ", " else "], ∃ tail ∈ [");", "); ", ", "],
      Call.text name m.path s = lead ++ a.text name m.path ++ tail := by
  apply Call.text_of_arguments ha
  intro hcall hcond
  have hkind : s.kind = .branch := by
    rcases hcall with hkind | hopener
    · exact hkind
    · rcases h.branch_or_mark hs with hkind | hmark
      · exact hkind
      · simp [Site.mark, hopener] at hmark
  obtain ⟨i, d, hi, -, hmet⟩ := h.demand_of_mem hs
  obtain ⟨type, n, rfl⟩ := ProbeMap.exists_branch (hkind ▸ hi)
  rcases hmet.isSome_arm (mark_mem_marks hs) with hstyle | hstyle | harm
  · exact absurd hstyle hcond
  · simp [Call.arguments?, show s.style = .closer from hstyle] at ha
  · exact harm

/-- The references of the calls are those of the slots. -/
theorem mem_references (h : Matches m sites) {r : Reference} :
    r ∈ Call.references m.path sites ↔ ∃ slot, m.Has slot ∧ r = m.reference slot := by
  rw [Call.mem_references]
  constructor
  · rintro ⟨s, hs, hr⟩
    rw [Call.mem_site_references (h.branch_or_mark hs)] at hr
    obtain ⟨arm, harm, rfl⟩ := hr
    obtain ⟨i, d, hi, hid, hmet⟩ := h.demand_of_mem hs
    have hd : arm ∈ d.arms := hmet.mem_arms.2 ⟨s.mark, mark_mem_marks hs, harm⟩
    obtain ⟨slot, hslot, hkind, hindex, rfl⟩ := ProbeMap.exists_slot hi hd
    exact ⟨slot, hslot, by rw [ProbeMap.reference, hkind, hindex, hid]⟩
  · rintro ⟨slot, hslot, rfl⟩
    obtain ⟨id, d, hi, hd⟩ := ProbeMap.exists_demand hslot
    obtain rfl := h.id_eq hi
    obtain ⟨mark, hmark, harm⟩ :=
      (h.met _ _ d (List.mem_of_getElem? hi)).mem_arms.1 hd
    obtain ⟨s, hs, hkind, hid, rfl⟩ := exists_site hmark
    refine ⟨s, hs, (Call.mem_site_references (h.branch_or_mark hs)).2 ⟨slot.arm, harm, ?_⟩⟩
    rw [ProbeMap.reference, hkind, hid]

end Matches

/-! ## Every counter is reached -/

open LuaCoverage.Lua LuaCoverage.Text

namespace Store

/-- The store after a run of hits. -/
def incrementAll (s : Store) (hits : List Reference) : Store :=
  hits.foldl (fun s r => (s.increment r).2) s

theorem Holds.incrementAll {s : Store} {m : ProbeMap} (h : s.Holds m) (hits : List Reference) :
    (s.incrementAll hits).Holds m := by
  induction hits generalizing s with
  | nil => exact h
  | cons r rest ih => exact ih (h.increment r)

end Store

/-- The probe calls at the sites of a module serve a store: from now on every hit of a call is
counted, and every slot has a call that raises it and nothing else. -/
structure Served (m : ProbeMap) (sites : List Site) (s : Store) : Prop where
  counted : ∀ hits, ∀ r ∈ Call.references m.path sites,
    ((s.incrementAll hits).increment r).1 = true
      ∧ ((s.incrementAll hits).increment r).2.stale = (s.incrementAll hits).stale
  reached : ∀ slot, (s.at? m.path slot).isSome → ∃ r ∈ Call.references m.path sites,
    ∀ other, (s.increment r).2.at? m.path other
      = (s.at? m.path other).map fun n => if slot = other then n + 1 else n

theorem Matches.served {m : ProbeMap} {sites : List Site} (h : Matches m sites) {s : Store}
    (hs : s.Holds m) : Served m sites s where
  counted hits r hr := by
    obtain ⟨slot, hslot, rfl⟩ := h.mem_references.1 hr
    obtain ⟨hcounted, hstale, -⟩ := Store.increment_reference (hs.incrementAll hits) hslot
    exact ⟨hcounted, hstale⟩
  reached slot hslot := by
    have hhas : m.Has slot := (Store.isSome_at? hs slot).1 hslot
    exact ⟨m.reference slot, h.mem_references.2 ⟨slot, hhas, rfl⟩,
      (Store.increment_reference hs hhas).2.2⟩

namespace Analyzer

theorem matches_ofTree {idBase : Int} {path language : String} {source : Bytes} {root : Node}
    {a : Analysis} (h : ofTree idBase path language source root = .ok a) :
    a.map.path = path ∧ a.map.idBase = idBase ∧ Matches a.map a.sites := by
  obtain ⟨found, hfound, rfl⟩ := ofTree_cases h
  exact ⟨rfl, rfl, (Analysis.findings_match path hfound).perm (Site.sort_perm found.sites).symm⟩

/-- The sites of an analysis match its probes, and the calls at them serve every store in which
the module is registered. -/
theorem ofTree_reached {idBase : Int} {path language : String} {source : Bytes} {root : Node}
    {a : Analysis} (h : ofTree idBase path language source root = .ok a) :
    a.map.path = path ∧ a.map.idBase = idBase ∧ Matches a.map a.sites
      ∧ (∀ name, ∀ s ∈ a.sites, ∀ call, Call.arguments? s = some call →
        ∃ lead ∈ [" ", " else "], ∃ tail ∈ [");", "); ", ", "],
          Call.text name path s = lead ++ call.text name path ++ tail)
      ∧ (∀ s : Store, (s.register a.map).Holds a.map)
      ∧ ∀ s : Store, s.Holds a.map → Served a.map a.sites s := by
  obtain ⟨hpath, hbase, hm⟩ := matches_ofTree h
  refine ⟨hpath, hbase, hm, ?_, fun s => s.holds_register a.map, fun s hs => hm.served hs⟩
  intro name s hs call hcall
  rw [← hpath]
  exact hm.text_of_arguments hs hcall name

/-- All nine hits are counted behind each other, and some call raises the second operand of the
inner chain and not the first one. -/
theorem ofTree_reached_sample :
    let m := Analysis.sampleMap
    let hits := Call.references m.path Analysis.sampleSites
    let s := Store.empty.register m
    ofTree 7 "m.lua" "lua" Analysis.sampleSource Analysis.sampleTree = .ok Analysis.sample
      ∧ hits.length = 9
      ∧ (∀ r ∈ hits, ((s.incrementAll hits).increment r).1 = true)
      ∧ ∃ r ∈ hits, (s.increment r).2.at? m.path (.path 2 1) = some 1
        ∧ (s.increment r).2.at? m.path (.path 2 0) = some 0 := by
  intro m hits s
  obtain ⟨-, -, -, -, hregister, hserves⟩ := ofTree_reached ofTree_sample
  have hserved : Served m Analysis.sampleSites s := hserves s (hregister Store.empty)
  obtain ⟨r, hr, hraised⟩ := hserved.reached (.path 2 1) (by decide)
  refine ⟨ofTree_sample, by decide, fun r hr => (hserved.counted hits r hr).1, r, hr, ?_, ?_⟩
  · rw [hraised]
    decide
  · rw [hraised]
    decide

end Analyzer

end LuaCoverage

import LuaCoverage.Proofs.Report.Fitting
import LuaCoverage.Proofs.Report.Valid

/-!
# Reports are read as they are written

A record is *sound* when its tables go together: counts stand under the ids of locations, each id
once, and a branch has a count for every path. A record that was built is sound even if probes
share an id, because then the last of them gives both the location and the count. What is sound is
valid and so read back from its data, and a report of sound records is read back from its text.

Results:
* `Record.sound_ofTally`: counts that fit make a sound record, whatever the ids are.
* `Record.Sound.valid`: a sound record is valid, so it is read back from its data.
* `Report.parse_of_build`: a report that was built is read back from its text in any layout.
-/

namespace LuaCoverage
open LuaCoverage.Decimal
open Json (Plain)

variable {s : Store} {m : ProbeMap} {maps : List ProbeMap} {t : Tally}

namespace Record

/-- The tables of a record go together. -/
structure Sound (r : Record) : Prop where
  statements : List.Forall₂ (Table.Alike fun _ _ => True) r.statements r.statementMap
  functions : List.Forall₂ (Table.Alike fun _ _ => True) r.functions r.functionMap
  branches : List.Forall₂ (Table.Alike fun counts entry => counts.length = entry.locations.length)
    r.branches r.branchMap
  nodupStatements : r.statementMap.keys.Nodup
  nodupFunctions : r.functionMap.keys.Nodup
  nodupBranches : r.branchMap.keys.Nodup

/-! ## Building -/

/-- Counts and what is said about probes, under the same ids. -/
theorem forall₂_entries {π α β : Type} {R : β → α → Prop} {id : π → Int} {entry : π → α}
    {counts : List β} {probes : List π} (h : List.Forall₂ (fun n p => R n (entry p)) counts probes) :
    List.Forall₂ (Table.Alike R) (Table.ofPairs ((probes.map id).zip counts))
      (Table.ofPairs (probes.map fun p => (id p, entry p))) := by
  apply Table.forall₂_ofPairs
  induction h with
  | nil => exact .nil
  | cons hnp _ ih => exact .cons ⟨rfl, hnp⟩ ih

theorem forall₂_of_length {α β : Type} {l : List α} {k : List β} (h : l.length = k.length) :
    List.Forall₂ (fun _ _ => True) l k :=
  List.forall₂_iff_zip.2 ⟨h, fun _ => trivial⟩

/-- Counts that fit make a sound record, whatever the ids are. -/
theorem sound_ofTally (h : t.Fits m) : (ofTally m t).Sound where
  statements := forall₂_entries (forall₂_of_length h.statements)
  functions := forall₂_entries (forall₂_of_length h.functions)
  branches := by
    refine forall₂_entries ?_
    have hlengths : List.Forall₂ Eq (t.branches.map List.length)
        (m.branches.map BranchProbe.pathCount) := List.forall₂_eq_eq_eq ▸ h.branches
    rwa [List.forall₂_map_left_iff, List.forall₂_map_right_iff] at hlengths
  nodupStatements := Table.nodup_keys_ofPairs _
  nodupFunctions := Table.nodup_keys_ofPairs _
  nodupBranches := Table.nodup_keys_ofPairs _

/-! ## Reading back -/

theorem find?_of_alike {α β : Type} {R : α → β → Prop} {a : Table Int α} {b : Table Int β}
    (h : List.Forall₂ (Table.Alike R) a b) (hkeys : b.keys.Nodup) {entry : Int × α}
    (hentry : entry ∈ a) : ∃ v, b.find? entry.1 = some v ∧ R entry.2 v := by
  obtain ⟨i, hi, rfl⟩ := List.getElem_of_mem hentry
  have hlt : i < b.length := h.length_eq ▸ hi
  have halike := h.get hi hlt
  refine ⟨b[i].2, ?_, halike.2⟩
  rw [Table.find?_eq_some_iff hkeys]
  have hkey : a[i].1 = b[i].1 := halike.1
  rw [hkey]
  exact List.getElem_mem hlt

namespace Sound
variable {r : Record}

theorem keyed (h : r.Sound) : r.Keyed where
  statementMap := h.nodupStatements
  functionMap := h.nodupFunctions
  branchMap := h.nodupBranches
  statements := Table.keys_eq_of_forall₂ h.statements ▸ h.nodupStatements
  functions := Table.keys_eq_of_forall₂ h.functions ▸ h.nodupFunctions
  branches := Table.keys_eq_of_forall₂ h.branches ▸ h.nodupBranches

/-- A sound record is valid. -/
theorem valid (h : r.Sound) : r.Valid where
  keyed := h.keyed
  statements id := by rw [Table.keys_eq_of_forall₂ h.statements]
  functions id := by rw [Table.keys_eq_of_forall₂ h.functions]
  branches id := by rw [Table.keys_eq_of_forall₂ h.branches]
  paths := by
    intro id counts entry hcounts hentry
    have hmem := (Table.find?_eq_some_iff h.keyed.branches).1 hcounts
    obtain ⟨found, hfound, hlength⟩ := find?_of_alike h.branches h.nodupBranches hmem
    rw [hentry] at hfound
    rw [hlength, Option.some.inj hfound]

end Sound

end Record

/-! ## Plain data -/

theorem FunctionEntry.plain (e : FunctionEntry) : Plain e.toValue :=
  .object (by simp) (by
    simp only [List.forall_mem_cons]
    exact ⟨.string _, e.decl.plain, e.loc.plain, .int _, by simp⟩)

theorem BranchEntry.plain (e : BranchEntry) : Plain e.toValue :=
  .object (by simp) (by
    simp only [List.forall_mem_cons]
    exact ⟨.string _, .int _, e.loc.plain, plain_list Location.plain _, by simp⟩)

theorem Table.plain {α : Type} {encode : α → Value} (h : ∀ a, Plain (encode a))
    {table : Table Int α} (hkeys : table.keys.Nodup) : Plain (table.toValue encode) :=
  Json.plain_object (k := Prod.fst) hkeys fun e _ => h e.2

theorem Record.Keyed.plain {r : Record} (h : r.Keyed) : Plain r.toValue := by
  refine .object (by simp) ?_
  simp only [List.forall_mem_cons]
  exact ⟨.string _, Table.plain Location.plain h.statementMap,
    Table.plain FunctionEntry.plain h.functionMap, Table.plain BranchEntry.plain h.branchMap,
    Table.plain .int h.statements, Table.plain .int h.functions,
    Table.plain (plain_list .int) h.branches, by simp⟩

/-! ## Reports -/

namespace Report

/-- Every record of a report is sound and stands under its path, and no path comes twice. -/
structure Sound (r : Report) : Prop where
  nodup : r.records.keys.Nodup
  path : ∀ entry ∈ r.records, entry.2.path = entry.1
  records : ∀ entry ∈ r.records, entry.2.Sound

/-- A report that was built is sound. -/
theorem sound_build {r : Report} (h : build s maps = .ok r) : r.Sound := by
  obtain ⟨records, hrecords, h⟩ := Except.bind_ok h
  cases h
  have hentry : ∀ entry ∈ Table.ofPairs records, entry.2.path = entry.1 ∧ entry.2.Sound := by
    intro entry he
    obtain ⟨m, -, hm⟩ := Except.exists_of_mapM_ok hrecords (Table.mem_of_mem_ofPairs he)
    obtain ⟨record, hrecord, hm⟩ := Except.bind_ok hm
    cases hm
    obtain ⟨hfits, rfl⟩ := Record.build_cases hrecord
    exact ⟨rfl, Record.sound_ofTally hfits⟩
  exact ⟨Table.nodup_keys_ofPairs _, fun e he => (hentry e he).1, fun e he => (hentry e he).2⟩

theorem Sound.plain {r : Report} (h : r.Sound) : Plain r.toValue := by
  refine .object ?_ fun entry he => ?_
  · rw [List.map_map]
    exact h.nodup
  · obtain ⟨e, hmem, rfl⟩ := List.mem_map.1 he
    exact (h.records e hmem).keyed.plain

theorem Sound.ofValue_toValue {r : Report} (h : r.Sound) : ofValue r.toValue = .ok r := by
  have hrecords : ((r.records.map fun e => (e.1, e.2.toValue)).map
      fun e => (Scalar.string e.1, e.2)).mapM entryOf = .ok r.records := by
    rw [List.map_map]
    refine Except.mapM_map_ok fun e he => ?_
    simp only [Function.comp_apply, entryOf, (h.records e he).valid.ofValue_toValue, Except.ok_bind,
      Scalar.shown, h.path e he, if_true]
  rw [toValue, Value.object, ofValue, hrecords, Except.ok_bind, Table.ofPairs_of_nodup h.nodup]

/-- A report that was built can be read from its text, whatever the maps are and whichever layout
it is written in. All its records pass the check and are read back from their data, and the report
that is read has the same records in the same order. -/
theorem parse_of_build {s : Store} {maps : List ProbeMap} {r : Report} (h : build s maps = .ok r) :
    (∀ entry ∈ r.records, entry.2.check = none ∧ Record.ofValue entry.2.toValue = .ok entry.2)
      ∧ ∀ layout, parse (Json.print layout r.toValue) = .ok r := by
  have hsound := sound_build h
  refine ⟨fun entry he => ?_, fun layout => ?_⟩
  · have hrecord := hsound.records entry he
    exact ⟨(Record.valid_iff_check hrecord.keyed).1 hrecord.valid, hrecord.valid.ofValue_toValue⟩
  · rw [parse, hsound.plain.parse_print layout]
    exact hsound.ofValue_toValue

/-- Two maps of one module, with ids that come twice and one below zero. -/
def sampleMaps : List ProbeMap :=
  let loc : Nat → Location := fun line => ⟨⟨line, 0⟩, ⟨line, 5⟩⟩
  let map : String → ProbeMap := fun type =>
    ⟨"é/\x22😀\n.lua", 4, [⟨-3, loc 1⟩, ⟨5, loc 2⟩, ⟨-3, loc 3⟩], [],
      [⟨0, type, 1, loc 1, [loc 1, loc 2]⟩, ⟨0, type, 2, loc 2, [loc 3]⟩]⟩
  [map "if", map "while"]

/-- Counts of this module, one of them below zero. -/
def sampleStore : Store := ⟨[⟨"é/\x22😀\n.lua", 4, [1, 2, 7], [], [[1, 0], [-6]]⟩], []⟩

theorem parse_of_build_sample :
    ∃ r, build sampleStore sampleMaps = .ok r
      ∧ r.records.map (fun e => (e.2.statements, e.2.branches)) = [([(-3, 7), (5, 2)], [(0, [-6])])]
      ∧ (∀ entry ∈ r.records, Record.ofValue entry.2.toValue = .ok entry.2)
      ∧ parse (Json.print .inline r.toValue) = .ok r
      ∧ parse (Json.print (.lines 0) r.toValue) = .ok r := by
  have hbuilt : ((build sampleStore sampleMaps).toOption.map fun r =>
      r.records.map fun e => (e.2.statements, e.2.branches))
        = some [([(-3, 7), (5, 2)], [(0, [-6])])] := by decide +kernel
  obtain ⟨r, hr, hcounts⟩ := Except.exists_of_toOption hbuilt
  obtain ⟨hrecords, hlayouts⟩ := parse_of_build hr
  exact ⟨r, hr, hcounts, fun e he => (hrecords e he).2, hlayouts _, hlayouts _⟩

end Report

end LuaCoverage

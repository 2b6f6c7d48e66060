import LuaCoverage.Probe.ManifestFile
import LuaCoverage.Proofs.Files
import LuaCoverage.Proofs.Json.Printed

/-!
# Manifests are read as they are written

What stands for a probe map in a manifest stands for that map only, and is plain data. A manifest
that was written to a file is read back from it.

Results:
* `ProbeMap.ofValue_toValue`: a map is read back from its data.
* `Manifest.parse_text`: maps are read back from the text of a manifest.
* `ManifestFile.read_save`: they are read back from the file to which they were written.
-/

namespace LuaCoverage
open LuaCoverage.Text
open Json (Plain)

/-! ## Maps as data -/

theorem toLocations_map (locations : List Location) :
    (Value.list (locations.map Location.toValue)).toLocations = .ok locations := by
  rw [Value.toLocations, Value.toItems, Except.ok_bind]
  exact Except.mapM_map_ok fun loc _ => loc.ofValue_toValue

@[simp] theorem StatementProbe.ofValue_toValue (p : StatementProbe) :
    ofValue p.toValue = .ok p := by
  simp [ofValue, toValue, Value.object, Value.entry, Value.lookup]

@[simp] theorem FunctionProbe.ofValue_toValue (p : FunctionProbe) : ofValue p.toValue = .ok p := by
  simp [ofValue, toValue, Value.object, Value.entry, Value.lookup]

@[simp] theorem BranchProbe.ofValue_toValue (p : BranchProbe) : ofValue p.toValue = .ok p := by
  simp [ofValue, toValue, Value.object, Value.entry, Value.lookup, toLocations_map]

/-- A map is read back from its data. -/
theorem ProbeMap.ofValue_toValue (m : ProbeMap) : ofValue m.toValue = .ok m := by
  have hstatements := Except.mapM_map_ok (l := m.statements) fun p _ => p.ofValue_toValue
  have hfunctions := Except.mapM_map_ok (l := m.functions) fun p _ => p.ofValue_toValue
  have hbranches := Except.mapM_map_ok (l := m.branches) fun p _ => p.ofValue_toValue
  simp [ofValue, toValue, Value.object, Value.entry, Value.entry?, Value.itemsAt, Value.lookup,
    Value.toItems, hstatements, hfunctions, hbranches]

/-! ## Maps as plain data -/

theorem Position.plain (p : Position) : Plain p.toValue :=
  .object (by simp) (by
    simp only [List.forall_mem_cons]
    exact ⟨.int _, .int _, by simp⟩)

theorem Location.plain (l : Location) : Plain l.toValue :=
  .object (by simp) (by
    simp only [List.forall_mem_cons]
    exact ⟨l.start.plain, l.stop.plain, by simp⟩)

theorem plain_list {α : Type} {f : α → Value} (h : ∀ a, Plain (f a)) (l : List α) :
    Plain (.list (l.map f)) := by
  refine .list fun v hv => ?_
  obtain ⟨a, -, rfl⟩ := List.mem_map.1 hv
  exact h a

theorem StatementProbe.plain (p : StatementProbe) : Plain p.toValue :=
  .object (by simp) (by
    simp only [List.forall_mem_cons]
    exact ⟨.int _, p.loc.plain, by simp⟩)

theorem FunctionProbe.plain (p : FunctionProbe) : Plain p.toValue :=
  .object (by simp) (by
    simp only [List.forall_mem_cons]
    exact ⟨.int _, .string _, p.decl.plain, p.loc.plain, .int _, by simp⟩)

theorem BranchProbe.plain (p : BranchProbe) : Plain p.toValue :=
  .object (by simp) (by
    simp only [List.forall_mem_cons]
    exact ⟨.int _, .string _, .int _, p.loc.plain, plain_list Location.plain _, by simp⟩)

theorem ProbeMap.plain (m : ProbeMap) : Plain m.toValue :=
  .object (by simp) (by
    simp only [List.forall_mem_cons]
    exact ⟨.string _, .int _, plain_list StatementProbe.plain _, plain_list FunctionProbe.plain _,
      plain_list BranchProbe.plain _, by simp⟩)

namespace Manifest

theorem plain (maps : List ProbeMap) : Plain (toValue maps) :=
  .object (by simp) (by
    simp only [List.forall_mem_cons]
    exact ⟨.int _, plain_list ProbeMap.plain _, by simp⟩)

theorem ofValue_toValue (maps : List ProbeMap) : ofValue (toValue maps) = .ok maps := by
  have hversion : isVersion ((toValue maps).get? "version") = true := by
    simp [toValue, Value.object, Value.get?, Value.lookup, Value.int, isVersion, Scalar.equals,
      Scalar.int?]
  have hmaps := Except.mapM_map_ok (l := maps) fun m _ => m.ofValue_toValue
  have hitems : (toValue maps).itemsAt "modules" = .ok (maps.map ProbeMap.toValue) := by
    simp [toValue, Value.object, Value.itemsAt, Value.entry?, Value.lookup, Value.toItems]
  unfold ofValue
  split
  · rw [if_pos hversion, hitems, Except.ok_bind, hmaps]
    rfl
  · next hmapping => exact absurd rfl (hmapping _)

/-- Maps are read back from the text of a manifest. -/
theorem parse_text (file : String) (maps : List ProbeMap) : parse file (text maps) = .ok maps := by
  have hparse : Json.parse (text maps) = .ok (toValue maps) := (plain maps).parse_print (.lines 2)
  rw [parse]
  simp only [hparse, ofValue_toValue]
  rfl

end Manifest

namespace ManifestFile

theorem isDirectory_of_bytes? {files : Files} {p : Path} {bytes : Bytes}
    (h : files.bytes? p = some bytes) : files.isDirectory p = false := by
  simp [Files.isDirectory, Files.isFile, h]

/-- Maps are read back from the file to which they were written. -/
theorem read_save {files written : Files} {working p q : Path} {maps : List ProbeMap}
    (h : save files working p maps = .ok (q, written)) : read written working q = .ok maps := by
  have hbytes := bytes?_save h
  have hplace : place written working q = q := by
    rw [place, isDirectory_of_bytes? hbytes]
    rfl
  have hreturn : '\r' ∉ (Manifest.text maps).toList :=
    (Manifest.plain maps).return_not_mem_render (.lines 2) 0
  have htext : written.readText (working.resolve q) q.text = .ok (Manifest.text maps) :=
    Files.readText_of_bytes? hbytes hreturn q.text
  simp only [read, hplace, htext, Except.mapError_ok, Except.ok_bind, Manifest.parse_text]

end ManifestFile

end LuaCoverage

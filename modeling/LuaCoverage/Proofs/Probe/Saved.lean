import LuaCoverage.Proofs.Files
import LuaCoverage.Proofs.Probe.Manifest

/-!
# Manifests are read from where they were saved

A manifest is saved under a *target*: the path of a file, or of a directory that is there, in which
it gets a name of its own. The target leads to the same file before and behind the saving, so the
maps are read back under the target as well as under the path of the file.

Results:
* `ManifestFile.exists_save`: maps can be saved under every target.
* `ManifestFile.place_of_save`: the target goes on leading to the file that was written.
* `ManifestFile.read_saved`: maps are read back, whether they were made or were read from a file.
-/

namespace LuaCoverage.ManifestFile

/-- A path under which a manifest can be saved: it leads to a directory, or ends in the name of a
file, and nothing stands in the way of the file. -/
structure Target (files : Files) (working p : Path) : Prop where
  named : files.isDirectory (working.resolve p) = true ∨ p.EndsInName
  free : files.isFree (working.resolve (place files working p)) = true

variable {files written : Files} {working p q : Path} {maps : List ProbeMap}

theorem place_of_isDirectory (h : files.isDirectory (working.resolve p) = true) :
    place files working p = ⟨p.root, p.names ++ [Manifest.fileName]⟩ := by
  simp [place, h, Path.join, Path.ofNames, Path.isAbsolute]

theorem place_of_not_isDirectory (h : files.isDirectory (working.resolve p) = false) :
    place files working p = p := by
  simp [place, h]

theorem Target.endsInName (h : Target files working p) : (place files working p).EndsInName := by
  cases hdirectory : files.isDirectory (working.resolve p) with
  | true =>
    rw [place_of_isDirectory hdirectory]
    exact ⟨p.names, Manifest.fileName, rfl, by decide⟩
  | false =>
    rw [place_of_not_isDirectory hdirectory]
    exact h.named.resolve_left (by simp [hdirectory])

/-- Maps can be saved under every target. -/
theorem exists_save (h : Target files working p) (maps : List ProbeMap) :
    ∃ written, save files working p maps = .ok (place files working p, written) := by
  obtain ⟨hbelow, hparent⟩ := Path.isBelow_of_endsInName h.endsInName working
  obtain ⟨made, written, hmade, hwritten⟩ := Files.exists_written (hparent ▸ hbelow) h.free
    (place files working p).parent.text (place files working p).text (Manifest.text maps)
  exact ⟨written, by simp only [save, ← hparent, hmade, Except.ok_bind, hwritten]⟩

/-- A saving changes the bytes of its file only. -/
theorem bytes?_save_of_ne (h : save files working p maps = .ok (q, written)) {r : Path}
    (hr : r ≠ working.resolve q) : written.bytes? r = files.bytes? r := by
  obtain ⟨made, hmade, h⟩ := Except.bind_ok h
  obtain ⟨changed, hchanged, h⟩ := Except.bind_ok h
  cases h
  rw [Files.bytes?_writeText_eq hchanged, if_neg hr, Files.bytes?_makeDirectories hmade]

theorem eq_place_of_save (h : save files working p maps = .ok (q, written)) :
    q = place files working p := by
  obtain ⟨_, -, h⟩ := Except.bind_ok h
  obtain ⟨_, -, h⟩ := Except.bind_ok h
  cases h
  rfl

/-- A target goes on leading to the file that was written under it. -/
theorem place_of_save (h : save files working p maps = .ok (q, written)) :
    place written working p = q := by
  have hbytes := bytes?_save h
  have hq := eq_place_of_save h
  cases hdirectory : files.isDirectory (working.resolve p) with
  | false =>
    rw [place_of_not_isDirectory hdirectory] at hq
    rw [hq] at hbytes ⊢
    exact place_of_not_isDirectory (isDirectory_of_bytes? hbytes)
  | true =>
    rw [place_of_isDirectory hdirectory] at hq
    -- The file lies in the directory, which is no file before and therefore none behind.
    have hends : q.EndsInName := ⟨p.names, Manifest.fileName, by rw [hq], by decide⟩
    have hparent : q.parent = p := by rw [hq, Path.parent_concat]
    have hbelow := (Path.isBelow_of_endsInName hends working).1
    rw [hparent] at hbelow
    have hfile : written.isFile (working.resolve p) = false := by
      rw [Files.isFile, bytes?_save_of_ne h (Path.isBelow_asymm hbelow).1]
      simp only [Files.isDirectory, Bool.and_eq_true, Bool.not_eq_true'] at hdirectory
      exact hdirectory.1
    have hsaved : written.isFile (working.resolve q) = true := by simp [Files.isFile, hbytes]
    obtain ⟨bytes, hentry⟩ := Files.mem_of_isFile hsaved
    have hthere : written.isDirectory (working.resolve p) = true := by
      simp only [Files.isDirectory, hfile, Bool.not_false, Bool.true_and]
      exact List.any_eq_true.2 ⟨_, hentry, by simp [hbelow]⟩
    rw [place_of_isDirectory hthere, hq]

/-- Maps are read back under the path under which they were saved. -/
theorem read_target (h : save files working p maps = .ok (q, written)) :
    read written working p = .ok maps := by
  have hplace : place written working q = place written working p := by
    rw [place_of_save h]
    exact place_of_not_isDirectory (isDirectory_of_bytes? (bytes?_save h))
  have hread : read written working p = read written working q := by
    simp only [read, hplace]
  rw [hread, read_save h]

/-- Maps can be saved under every target, and are read back as they are, in their order, both under
the target and under the file that was written. That holds of all maps; and maps that were read from
any manifest are, when they are saved and read again, the same maps. -/
theorem read_saved (h : Target files working p) :
    (∀ maps, ∃ written, save files working p maps = .ok (place files working p, written)
      ∧ read written working p = .ok maps
      ∧ read written working (place files working p) = .ok maps)
    ∧ ∀ source found, read files working source = .ok found →
      ∃ written, save files working p found = .ok (place files working p, written)
        ∧ read written working p = .ok found := by
  have hall : ∀ maps, ∃ written, save files working p maps = .ok (place files working p, written)
      ∧ read written working p = .ok maps
      ∧ read written working (place files working p) = .ok maps := fun maps => by
    obtain ⟨written, hsave⟩ := exists_save h maps
    exact ⟨written, hsave, read_target hsave, read_save hsave⟩
  refine ⟨hall, fun source found _ => ?_⟩
  obtain ⟨written, hsave, hread, -⟩ := hall found
  exact ⟨written, hsave, hread⟩

/-- A directory, and beside it a manifest whose map has defaults and converted entries. -/
def sampleTree : Files where
  entries :=
    [(⟨"/", ["work", "out"]⟩, .directory),
      (⟨"/", ["work", "m.json"]⟩, .file (Text.Utf8.ofString <|
        "\x7b\"version\":1.0,\"modules\":[\x7b\"path\":null,\"statements\":[\x7b\"id\":true,\"loc\":"
        ++ "\x7b\"start\":\x7b\"line\":1,\"column\":1\x7d,\"end\":\x7b\"line\":2,\"column\":0\x7d\x7d\x7d]\x7d]\x7d"))]

def sampleSpan (start stop : Int) : Location := ⟨⟨1, start⟩, ⟨1, stop⟩⟩

def sampleMaps : List ProbeMap :=
  [⟨"b/m.lua", -7, [⟨-7, sampleSpan 0 34⟩, ⟨-6, sampleSpan 27 30⟩],
      [⟨-7, "f\n", sampleSpan 0 8, sampleSpan 8 20, 1⟩],
      [⟨-7, "while", 1, sampleSpan 0 34, [sampleSpan 6 23, sampleSpan 6 23]⟩]⟩,
    ⟨"a.lua", 0, [], [], []⟩]

def sampleFound : List ProbeMap := [⟨"None", 0, [⟨1, ⟨⟨1, 1⟩, ⟨2, 0⟩⟩⟩], [], []⟩]

theorem read_saved_sample :
    (∃ written, save sampleTree ⟨"/", ["work"]⟩ ⟨"", ["out"]⟩ sampleMaps
        = .ok (⟨"", ["out", "covpatch-map.json"]⟩, written)
      ∧ read written ⟨"/", ["work"]⟩ ⟨"", ["out"]⟩ = .ok sampleMaps
      ∧ read written ⟨"/", ["work"]⟩ ⟨"", ["out", "covpatch-map.json"]⟩ = .ok sampleMaps)
    ∧ (∃ written, save sampleTree ⟨"/", ["work"]⟩ ⟨"", ["new", "map.json"]⟩ sampleFound
        = .ok (⟨"", ["new", "map.json"]⟩, written)
      ∧ read written ⟨"/", ["work"]⟩ ⟨"", ["new", "map.json"]⟩ = .ok sampleFound) := by
  refine ⟨(read_saved ⟨.inl (by decide +kernel), by decide +kernel⟩).1 _, ?_⟩
  exact (read_saved ⟨.inr ⟨["new"], "map.json", rfl, by decide⟩, by decide +kernel⟩).2
    ⟨"", ["m.json"]⟩ _ (by decide +kernel)

end LuaCoverage.ManifestFile

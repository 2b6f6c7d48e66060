import LuaCoverage.Proofs.Engine.Overlaid

/-!
# The files of an output directory

An instrumentation writes the prelude first and then the modules with a map, one after the other. If
the output directory held no files, it holds these and no others behind it. Each module with a map
has its copy there. The prelude is there as it was written, unless a module of the source directory
bears its name: the copy of such a module takes its place.

Results:
* `Directory.bytes?_prelude`: the prelude behind an installation.
* `Engine.output_of_instrument`: the files of the output directory, and what they hold.
* `Engine.prelude_overwritten`: a module in place of the prelude.
-/

namespace LuaCoverage
open LuaCoverage.Text

variable {d : Directory} {files : Files}

theorem ProbeName.ofString?_text (name : ProbeName) : ofString? name.text = .ok name :=
  dif_pos name.isIdentifier

/-- What is written as the prelude is its text for the name of the probe function. -/
theorem Directory.bytes?_prelude {name : ProbeName} {written : Files}
    (h : d.writePrelude name.text files = .ok written) :
    written.bytes? (d.target Prelude.fileName) = some (Utf8.ofString (Prelude.text name)) := by
  obtain ⟨made, _, probe, -, hprobe, hwritten⟩ := Directory.exists_of_writePrelude h
  rw [ProbeName.ofString?_text] at hprobe
  cases hprobe
  rw [Directory.bytes?_write hwritten, if_pos rfl]

/-- The prelude starts with a comment. -/
theorem Prelude.head_text (name : ProbeName) :
    (Utf8.ofString (text name)).head? = some 0x2d := by
  have htext : ∃ rest, (text name).toList = '-' :: rest := by
    rw [text, String.toList_join, lines, List.map_cons, List.flatMap_cons, String.toList_append,
      List.append_assoc]
    exact ⟨_, rfl⟩
  obtain ⟨rest, hrest⟩ := htext
  rw [Utf8.ofString, hrest, Utf8.encode, List.flatMap_cons]
  rfl

/-- The modules whose copies an output directory holds, beside the prelude or in its place. -/
structure Workshop.Output (d : Directory) (analyzer : Analyzer)
    (instrumenter : Instrumenter) (files after : Files) (maps : List ProbeMap) : Prop where
  holds : ∀ q, q.isBelow d.output = true →
    (after.isFile q = true ↔ q = d.target Prelude.fileName ∨ ∃ m ∈ maps, q = d.target m.path)
  copied : ∀ m ∈ maps, ∃ text, Copy d analyzer instrumenter files m.path text
    ∧ after.bytes? (d.target m.path) = some (Utf8.ofString text)
  prelude : Prelude.fileName ∉ maps.map ProbeMap.path →
    after.bytes? (d.target Prelude.fileName)
      = some (Utf8.ofString (Prelude.text instrumenter.name))

namespace Workshop
variable {analyzer : Analyzer} {instrumenter : Instrumenter} {start : Files} {front : List String}
  {p : Progress Files}

/-- The files behind an instrumentation that started from the prelude in an empty directory. -/
theorem Overlaid.output (hd : d.Resolved) (hfiles : files.WellNamed)
    (hempty : ∀ q, q.isBelow d.output = true → files.isFile q = false)
    (hstart : d.writePrelude instrumenter.name.text files = .ok start)
    (hp : Overlaid d analyzer instrumenter files start front p) :
    Output d analyzer instrumenter files p.host p.maps where
  holds := by
    intro q hbelow
    by_cases hcopy : ∃ m ∈ p.maps, q = d.target m.path
    · obtain ⟨m, hm, rfl⟩ := hcopy
      obtain ⟨text, -, hbytes⟩ := hp.copied m hm
      have hfile : p.host.isFile (d.target m.path) = true := by
        rw [Files.isFile, hbytes]
        rfl
      exact iff_of_true hfile (.inr ⟨m, hm, rfl⟩)
    · have hkept : p.host.bytes? q = start.bytes? q :=
        hp.kept q fun m hm heq => hcopy ⟨m, hm, heq⟩
      by_cases hprelude : q = d.target Prelude.fileName
      · subst hprelude
        have hfile : p.host.isFile (d.target Prelude.fileName) = true := by
          rw [Files.isFile, hkept, Directory.bytes?_prelude hstart]
          rfl
        exact iff_of_true hfile (.inl rfl)
      · have hnone : p.host.isFile q = false := by
          rw [Files.isFile, hkept, Directory.bytes?_writePrelude hstart hprelude]
          exact hempty q hbelow
        simp [hnone, hprelude, hcopy]
  copied := hp.copied
  prelude := by
    intro hfree
    rw [hp.kept _ ?_, Directory.bytes?_prelude hstart]
    intro m hm
    have hne : m.path ≠ Prelude.fileName := fun heq => hfree (heq ▸ List.mem_map_of_mem hm)
    exact (Directory.target_ne_prelude hd hfiles (hp.modules _ (hp.handled m hm)) hne).symm

end Workshop

namespace Engine
variable {e : Engine}

/-- Behind an instrumentation that goes through, an output directory that held no files holds the
prelude and the copies of the modules with a map, and no other files. The prelude holds its text for
the probe name, unless there is a copy of a module of that name. -/
theorem output_of_instrument {working source output : Path} (hworking : working.isAbsolute = true)
    (hmake : Directory.make working source output = .ok d) (hfiles : files.WellNamed)
    (hempty : ∀ q, q.isBelow d.output = true → files.isFile q = false)
    (hidle : e.session = none) (included excluded : Option (List String))
    (hok : (e.instrument d.host included excluded files).error? = none) :
    let o := e.instrument d.host included excluded files
    ∃ name, ProbeName.ofString? e.options.probeName = .ok name
      ∧ Workshop.Output d ⟨e.parser, e.options.language, e.options.idBase⟩ ⟨e.parser, name, true⟩
        files o.host o.engine.maps := by
  obtain ⟨name, paths, p, hfinished, heq⟩ := finished_of_ok hidle hok
  intro o
  have hd : d.Resolved := Directory.resolved_of_make hworking hmake
  obtain ⟨start, hstart, hp⟩ := overlaid_of_finished hd hfiles hfinished
  have hmaps : o.engine.maps = p.maps := by simp [o, heq, maps, begun]
  have hhost : o.host = p.host := congrArg Outcome.host heq
  rw [hmaps, hhost]
  exact ⟨name, hfinished.named, hp.output hd hfiles hempty hstart⟩

theorem output_of_instrument_sample :
    let o := (ofOptions .ofGrammar .standard).instrument sampleDirectory.host none (some []) sampleTree
    o.engine.maps.map ProbeMap.path = ["m.lua"]
      ∧ o.host.bytes? (sampleDirectory.target Prelude.fileName)
        = some (Utf8.ofString (Prelude.text .standard))
      ∧ ∀ q, q.isBelow sampleDirectory.output = true → (o.host.isFile q = true
        ↔ q = sampleDirectory.target Prelude.fileName ∨ q = sampleDirectory.target "m.lua") := by
  intro o
  have hmake : Directory.make ⟨"/", []⟩ ⟨"", ["src"]⟩ ⟨"", ["out"]⟩ = .ok sampleDirectory := rfl
  have hnamed : sampleTree.WellNamed := by
    unfold Files.WellNamed
    decide
  have hempty : ∀ q, q.isBelow sampleDirectory.output = true → sampleTree.isFile q = false := by
    intro q hq
    have hne : q ≠ ⟨"/", ["src", "m.lua"]⟩ := by
      rintro rfl
      exact absurd hq (by decide)
    simp [Files.isFile, Files.bytes?, Files.find?, sampleTree, hne.symm]
  obtain ⟨name, hname, houtput⟩ := output_of_instrument rfl hmake hnamed hempty
    (rfl : (ofOptions .ofGrammar .standard).session = none) none (some []) (by decide +kernel)
  have hpaths : o.engine.maps.map ProbeMap.path = ["m.lua"] := by decide +kernel
  obtain rfl : name = .standard := by
    have hstandard : ProbeName.ofString? (ofOptions .ofGrammar .standard).options.probeName
        = .ok .standard := ProbeName.ofString?_text .standard
    rw [hstandard] at hname
    exact (Except.ok.inj hname).symm
  refine ⟨hpaths, houtput.prelude (by rw [hpaths]; decide), fun q hq => ?_⟩
  rw [houtput.holds q hq]
  have hmaps : (∃ m ∈ o.engine.maps, q = sampleDirectory.target m.path)
      ↔ ∃ path ∈ o.engine.maps.map ProbeMap.path, q = sampleDirectory.target path := by simp
  rw [hmaps, hpaths]
  simp

/-- A module that bears the name of the prelude. -/
def namesakeTree : Files :=
  ⟨[(⟨"/", ["src", Prelude.fileName]⟩, .file (Utf8.ofString "return 1"))]⟩

/-- The instrumentation goes through into an empty directory, and puts the copy of a module in place
of the prelude. -/
theorem prelude_overwritten :
    let o := (ofOptions .ofGrammar .standard).instrument sampleDirectory.host none (some []) namesakeTree
    (∀ q, q.isBelow sampleDirectory.output = true → namesakeTree.isFile q = false)
      ∧ o.error? = none ∧ o.engine.maps.map ProbeMap.path = [Prelude.fileName]
      ∧ o.host.bytes? (sampleDirectory.target Prelude.fileName)
        = some (Utf8.ofString " __covpatch(\"covpatch_prelude.lua\", \"s\", 0);return 1")
      ∧ o.host.bytes? (sampleDirectory.target Prelude.fileName)
        ≠ some (Utf8.ofString (Prelude.text .standard)) := by
  intro o
  have hempty : ∀ q, q.isBelow sampleDirectory.output = true → namesakeTree.isFile q = false := by
    intro q hq
    have hne : q ≠ ⟨"/", ["src", Prelude.fileName]⟩ := by
      rintro rfl
      exact absurd hq (by decide)
    simp [Files.isFile, Files.bytes?, Files.find?, namesakeTree, hne.symm]
  have hrun : (o.error?, o.engine.maps.map ProbeMap.path,
        o.host.bytes? (sampleDirectory.target Prelude.fileName))
      = (none, [Prelude.fileName],
        some (Utf8.ofString " __covpatch(\"covpatch_prelude.lua\", \"s\", 0);return 1")) := by
    decide +kernel
  simp only [Prod.mk.injEq] at hrun
  obtain ⟨herror, hpaths, hcopy⟩ := hrun
  refine ⟨hempty, herror, hpaths, hcopy, ?_⟩
  -- The copy starts with a call, and the prelude with a comment.
  rw [hcopy]
  intro heq
  have hhead := Prelude.head_text .standard
  rw [← Option.some.inj heq] at hhead
  exact absurd hhead (by decide +kernel)

end Engine

end LuaCoverage

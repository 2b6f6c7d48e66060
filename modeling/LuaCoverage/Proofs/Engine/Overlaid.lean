import LuaCoverage.Proofs.Engine.Accounted

/-!
# What stands in the output directory

A runtime that loads the output directory over the source directory gets a module from there if
there is a file at its path. An instrumentation writes the files of the modules with a map, and the
prelude. It removes nothing. So a file that an earlier run left for a module which is now excluded
or has an error is still there, and is what the runtime loads.

Results:
* `Workshop.overlaid_of_handled`: what a module changes in the output directory.
* `Engine.overlaid_of_instrument`: which modules have a file there, and what it holds.
* `Engine.overlay_left_behind`: a module without a map whose file is still there.
-/

namespace LuaCoverage
open LuaCoverage.Text

variable {d : Directory} {files : Files}

namespace Workshop

/-- The instrumented text of the source that a module has in some files. -/
structure Copy (d : Directory) (analyzer : Analyzer) (instrumenter : Instrumenter) (files : Files)
    (path text : String) : Prop where
  exists_source : ∃ source a, d.read path files = .ok source
    ∧ analyzer.analyze (Utf8.ofString source) path = .ok a ∧ instrumenter.instrument a = .ok text

/-- The files of an instrumentation that handled the modules at the front. Those of the modules with
a map hold their copies, and all others are as they were. -/
structure Overlaid (d : Directory) (analyzer : Analyzer) (instrumenter : Instrumenter)
    (files start : Files) (front : List String) (p : Progress Files) : Prop where
  modules : ∀ path ∈ front, path ∈ d.modules "" files
  handled : ∀ m ∈ p.maps, m.path ∈ front
  copied : ∀ m ∈ p.maps, ∃ text, Copy d analyzer instrumenter files m.path text
    ∧ p.host.bytes? (d.target m.path) = some (Utf8.ofString text)
  kept : ∀ q, (∀ m ∈ p.maps, q ≠ d.target m.path) → p.host.bytes? q = start.bytes? q

variable {analyzer : Analyzer} {instrumenter : Instrumenter} {start : Files}
  {front paths : List String} {p p' : Progress Files} {path : String}

/-- The source of a module is read as it is in the files from before, since no file outside the
output directory has changed. -/
theorem read_of_overlaid (hd : d.Resolved) (hfiles : files.WellNamed)
    (hstart : ∀ q, q.isBelow d.output = false → start.bytes? q = files.bytes? q)
    (hp : Overlaid d analyzer instrumenter files start front p)
    (hpath : path ∈ d.modules "" files) : d.read path p.host = d.read path files := by
  obtain ⟨names, -, -, -, -, hout⟩ := Directory.exists_of_mem_modules hd hfiles hpath
  refine Directory.read_congr ((hp.kept _ fun m hm heq => ?_).trans (hstart _ hout))
  obtain ⟨names, hne, hproper, hmap, -⟩ :=
    Directory.exists_of_mem_modules hd hfiles (hp.modules _ (hp.handled m hm))
  rw [heq, hmap, Directory.isBelow_target hd hne hproper] at hout
  cases hout

theorem overlaid_of_handled (hd : d.Resolved) (hfiles : files.WellNamed)
    (hstart : ∀ q, q.isBelow d.output = false → start.bytes? q = files.bytes? q)
    (hpath : path ∈ d.modules "" files) (hnew : path ∉ front)
    (hp : Overlaid d analyzer instrumenter files start front p)
    (hhandled : Handled ⟨d.host, analyzer, instrumenter⟩ path p p') :
    Overlaid d analyzer instrumenter files start (front ++ [path]) p' := by
  have hmodules : ∀ other ∈ front ++ [path], other ∈ d.modules "" files := by
    intro other hother
    rcases List.mem_append.1 hother with hother | hother
    · exact hp.modules other hother
    · rwa [List.mem_singleton.1 hother]
  have hold : ∀ m ∈ p.maps, m.path ∈ front ++ [path] := fun m hm =>
    List.mem_append_left _ (hp.handled m hm)
  cases hhandled with
  | skipped kind message => exact ⟨hmodules, hold, hp.copied, hp.kept⟩
  | @taken source text a hsource hanalysis htext hoverride =>
    obtain rfl := Analyzer.path_of_analyze hanalysis
    have hread : d.read a.map.path files = .ok source := by
      rw [← read_of_overlaid hd hfiles hstart hp hpath]
      exact hsource
    -- Overriding succeeds with what is written only.
    cases hwritten : d.write a.map.path text p.host with
    | error f =>
      simp only [Directory.host, hwritten, Directory.reply, Reply.fail] at hoverride
      cases hoverride
    | ok written =>
      have hstate : (d.host.override a.map.path text
          (d.host.resolve a.map.path p.host).state).state = written := by
        simp only [Directory.host, hwritten, Directory.reply, Reply.ok]
      have hne : ∀ m ∈ p.maps, d.target m.path ≠ d.target a.map.path := by
        intro m hm heq
        have hpaths := Directory.target_injective hd hfiles (hmodules _ (hold m hm)) hpath heq
        exact hnew (hpaths ▸ hp.handled m hm)
      refine ⟨hmodules, fun m hm => ?_, fun m hm => ?_, fun q hq => ?_⟩
      · rcases List.mem_append.1 hm with hm | hm
        · exact hold m hm
        · rw [List.mem_singleton.1 hm]
          simp
      · simp only [Progress.add, hstate, Directory.bytes?_write hwritten]
        rcases List.mem_append.1 hm with hm | hm
        · rw [if_neg (hne m hm)]
          exact hp.copied m hm
        · rw [List.mem_singleton.1 hm, if_pos rfl]
          exact ⟨text, ⟨source, a, hread, hanalysis, htext⟩, rfl⟩
      · simp only [Progress.add, List.mem_append, List.mem_singleton] at hq ⊢
        rw [hstate, Directory.bytes?_write hwritten, if_neg (hq a.map (.inr rfl))]
        exact hp.kept q fun m hm => hq m (.inl hm)

theorem overlaid_of_all (hd : d.Resolved) (hfiles : files.WellNamed)
    (hstart : ∀ q, q.isBelow d.output = false → start.bytes? q = files.bytes? q)
    (hnodup : paths.Nodup) (hpaths : ∀ path ∈ paths, path ∈ d.modules "" files)
    (hall : all ⟨d.host, analyzer, instrumenter⟩ paths ⟨start, Store.empty, [], [], []⟩
      = (none, p)) : Overlaid d analyzer instrumenter files start paths p := by
  refine all_keeps hnodup (fun front path p p' hmem hnew hp hhandled => ?_) ?_ hall
  · exact overlaid_of_handled hd hfiles hstart (hpaths path hmem) hnew hp hhandled
  · exact ⟨by simp, by simp, by simp, fun _ _ => rfl⟩

end Workshop

namespace Engine
variable {e : Engine} {s : Selection} {name : ProbeName} {paths : List String}
  {p : Progress Files}

/-- The probe of an instrumentation that goes through is the prelude, and its work starts from the
files with the prelude. -/
theorem overlaid_of_finished (hd : d.Resolved) (hfiles : files.WellNamed)
    (h : Finished d.host s e files name paths p) :
    ∃ start, d.writePrelude name.text files = .ok start
      ∧ Workshop.Overlaid d ⟨e.parser, e.options.language, e.options.idBase⟩ ⟨e.parser, name, true⟩ files start paths
        p := by
  have hlists := Directory.lists hd
  cases hstart : d.writePrelude name.text files with
  | error f =>
    have hinstalled := h.installed
    simp only [Directory.host, hstart, Directory.reply, Reply.fail] at hinstalled
    cases hinstalled
  | ok start =>
    have hinstalled : (d.host.installProbe name.text ⟨e.sessions⟩ files).state = start := by
      simp only [Directory.host, hstart, Directory.reply, Reply.ok]
    have hselected : (Workshop.select d.host s s.included []
        (d.host.installProbe name.text ⟨e.sessions⟩ files).state).state = start :=
      Workshop.select_keeps (P := (· = start)) (fun _ _ ht => ht) hinstalled
    have hworked := h.worked
    rw [hselected] at hworked
    refine ⟨start, rfl, Workshop.overlaid_of_all hd hfiles (fun q hout => ?_)
      (Workshop.nodup_select .nil h.listed) (fun path hpath => ?_) hworked⟩
    · refine Directory.bytes?_writePrelude hstart ?_
      rintro rfl
      rw [Directory.isBelow_prelude hd] at hout
      cases hout
    · have hmodule := ((Workshop.mem_selected hlists h.listed path).1 hpath).1
      exact (hlists.installProbe path _ _ files).1 hmodule

/-- Behind an instrumentation that goes through, a module has a file in the output directory if it
has a map, and holds the copy of its present source then. Without a map it has the file that it had
before, if it had one, and that file is what it was. Only the prelude is written in any case. -/
theorem overlaid_of_instrument {working source output : Path} (hworking : working.isAbsolute = true)
    (hmake : Directory.make working source output = .ok d) (hfiles : files.WellNamed)
    (hidle : e.session = none) (included excluded : Option (List String))
    (hok : (e.instrument d.host included excluded files).error? = none) :
    let o := e.instrument d.host included excluded files
    ∀ path ∈ d.modules "" files,
      (path ∈ o.engine.maps.map ProbeMap.path →
        ∃ name text, ProbeName.ofString? e.options.probeName = .ok name
          ∧ Workshop.Copy d ⟨e.parser, e.options.language, e.options.idBase⟩ ⟨e.parser, name, true⟩ files path text
          ∧ o.host.bytes? (d.target path) = some (Utf8.ofString text))
      ∧ (path ∉ o.engine.maps.map ProbeMap.path → path ≠ Prelude.fileName →
        o.host.bytes? (d.target path) = files.bytes? (d.target path))
      ∧ (o.host.isFile (d.target path) = true ↔ path ∈ o.engine.maps.map ProbeMap.path
        ∨ path = Prelude.fileName ∨ files.isFile (d.target path) = true) := by
  obtain ⟨name, paths, p, hfinished, heq⟩ := finished_of_ok hidle hok
  intro o
  have hd : d.Resolved := Directory.resolved_of_make hworking hmake
  obtain ⟨written, hwritten, hp⟩ := overlaid_of_finished hd hfiles hfinished
  have hmaps : o.engine.maps = p.maps := by simp [o, heq, maps, begun]
  have hhost : o.host = p.host := congrArg Outcome.host heq
  rw [hmaps, hhost]
  intro path hpath
  -- A module without a map has the file that it had when the work started.
  have hkept : path ∉ p.maps.map ProbeMap.path →
      p.host.bytes? (d.target path) = written.bytes? (d.target path) := by
    refine fun hnone => hp.kept _ fun m hm htarget => hnone ?_
    rw [Directory.target_injective hd hfiles hpath (hp.modules _ (hp.handled m hm)) htarget]
    exact List.mem_map_of_mem hm
  have hcopied : path ∈ p.maps.map ProbeMap.path →
      ∃ name text, ProbeName.ofString? e.options.probeName = .ok name
        ∧ Workshop.Copy d ⟨e.parser, e.options.language, e.options.idBase⟩ ⟨e.parser, name, true⟩ files path text
        ∧ p.host.bytes? (d.target path) = some (Utf8.ofString text) := by
    intro hmem
    obtain ⟨m, hm, rfl⟩ := List.mem_map.1 hmem
    obtain ⟨text, hcopy, hbytes⟩ := hp.copied m hm
    exact ⟨name, text, hfinished.named, hcopy, hbytes⟩
  have hbefore : path ∉ p.maps.map ProbeMap.path → path ≠ Prelude.fileName →
      p.host.bytes? (d.target path) = files.bytes? (d.target path) := fun hnone hne =>
    (hkept hnone).trans (Directory.bytes?_writePrelude hwritten
      (Directory.target_ne_prelude hd hfiles hpath hne))
  refine ⟨hcopied, hbefore, ?_⟩
  by_cases hmem : path ∈ p.maps.map ProbeMap.path
  · obtain ⟨_, _, _, _, hbytes⟩ := hcopied hmem
    simp [Files.isFile, hbytes, hmem]
  · by_cases hprelude : path = Prelude.fileName
    · have hfile : p.host.isFile (d.target path) = true := by
        rw [Files.isFile, hkept hmem, hprelude]
        exact Directory.isFile_prelude hwritten
      exact iff_of_true hfile (.inr (.inl hprelude))
    · simp [Files.isFile, hbefore hmem hprelude, hmem, hprelude]

/-- A module with an error, for which an earlier run left a file. -/
def staleTree : Files :=
  ⟨[(⟨"/", ["src", "m.lua"]⟩, .file (Utf8.ofString "return (")),
    (⟨"/", ["out", "m.lua"]⟩, .file (Utf8.ofString "return 1"))]⟩

theorem overlaid_of_instrument_sample :
    "m.lua" ∈ sampleDirectory.modules "" sampleTree
      ∧ ((ofOptions .ofGrammar .standard).instrument sampleDirectory.host none (some [])
        sampleTree).host.isFile (sampleDirectory.target "m.lua") = true := by
  have hmodule : "m.lua" ∈ sampleDirectory.modules "" sampleTree := by decide +kernel
  have hnamed : sampleTree.WellNamed := by
    unfold Files.WellNamed
    decide
  have hmake : Directory.make ⟨"/", []⟩ ⟨"", ["src"]⟩ ⟨"", ["out"]⟩ = .ok sampleDirectory := rfl
  have hidle : (ofOptions .ofGrammar .standard).session = none := rfl
  have hcopied := (overlaid_of_instrument rfl hmake hnamed hidle none (some [])
    (by decide +kernel) "m.lua" hmodule).2.2
  exact ⟨hmodule, hcopied.2 (.inl (by decide +kernel))⟩

/-- The instrumentation goes through, and the module has no map, but a file. -/
theorem overlay_left_behind :
    "m.lua" ∈ sampleDirectory.modules "" staleTree
      ∧ ((ofOptions .ofGrammar .standard).instrument sampleDirectory.host none (some []) staleTree).error?
        = none
      ∧ ((ofOptions .ofGrammar .standard).instrument sampleDirectory.host none (some [])
        staleTree).engine.maps.map ProbeMap.path = []
      ∧ ((ofOptions .ofGrammar .standard).instrument sampleDirectory.host none (some [])
        staleTree).host.isFile (sampleDirectory.target "m.lua") = true := by
  decide +kernel

end Engine

end LuaCoverage

import LuaCoverage.Proofs.Engine.Kept
import LuaCoverage.Proofs.Host.Listed

/-!
# Only the output directory changes

Wherever the two directories of a host lie, in one another or apart, the modules that are listed and
the files that are written do not meet: a file below the output directory is no module, and nothing
is written elsewhere. So an engine may be used on the same source directory again and again.

A tree is *framed* by an earlier one if it has the same files outside the output directory, with the
same bytes and in the same order.

Results:
* `Directory.modules_of_framed`, `Directory.read_of_framed`: what a frame keeps of the modules.
* `Directory.keeps_framed`: every call keeps a tree framed.
* `Directory.framed_of_turns`: so does a run of turns of an engine.
-/

namespace LuaCoverage.Directory
open LuaCoverage.Text

/-- The files outside the output directory are those of an earlier tree. -/
structure Framed (d : Directory) (files t : Files) : Prop where
  bytes : ∀ q, q.isBelow d.output = false → t.bytes? q = files.bytes? q
  outside : t.outside d.output = files.outside d.output

variable {d : Directory} {files t written : Files} {path name text scope : String}

theorem Framed.refl (d : Directory) (files : Files) : d.Framed files files := ⟨fun _ _ => rfl, rfl⟩

/-! ## What a frame keeps -/

/-- In a framed tree the same modules are listed, in the same order. -/
theorem modules_of_framed (h : d.Framed files t) (scope : String) :
    d.modules scope t = d.modules scope files := by
  have hfound : ∀ files : Files, (files.below d.source).filter
      (fun p => (Lua.Dialect.ofPath? p).isSome && !p.isBelow d.output)
      = ((files.below d.source).filter fun p => !p.isBelow d.output).filter
        fun p => (Lua.Dialect.ofPath? p).isSome := fun files => by
    rw [List.filter_filter]
  simp only [modules, hfound, Files.below_of_outside h.outside]

/-- In a framed tree the modules have the same sources. -/
theorem read_of_framed (hd : d.Resolved) (hfiles : files.WellNamed) (h : d.Framed files t)
    (hpath : path ∈ d.modules scope files) : d.read path t = d.read path files := by
  obtain ⟨names, -, -, -, -, hout⟩ := exists_of_mem_modules hd hfiles hpath
  exact read_congr (h.bytes _ hout)

/-! ## Calls -/

theorem ne_target_of_outside (hpath : (d.target path).isBelow d.output = true) {q : Path}
    (hq : q.isBelow d.output = false) : q ≠ d.target path := by
  rintro rfl
  rw [hpath] at hq
  cases hq

theorem Framed.write (h : d.Framed files t) (hpath : (d.target path).isBelow d.output = true)
    (hwritten : d.write path text t = .ok written) : d.Framed files written := by
  refine ⟨fun q hq => ?_, ?_⟩
  · rw [bytes?_write hwritten, if_neg (ne_target_of_outside hpath hq), h.bytes q hq]
  · obtain ⟨made, _, _, hmade, hwritten⟩ := exists_of_write hwritten
    rw [Files.outside_writeText hwritten hpath, Files.outside_makeDirectories hmade, h.outside]

theorem Framed.writePrelude (hd : d.Resolved) (h : d.Framed files t)
    (hwritten : d.writePrelude name t = .ok written) : d.Framed files written := by
  obtain ⟨made, _, probe, hmade, -, hwritten⟩ := exists_of_writePrelude hwritten
  have hframed : d.Framed files made := by
    refine ⟨fun q hq => ?_, ?_⟩
    · rw [Files.bytes?_makeDirectories hmade, h.bytes q hq]
    · rw [Files.outside_makeDirectories hmade, h.outside]
  exact hframed.write (isBelow_prelude hd) hwritten

theorem Framed.remove (h : d.Framed files t) (hpath : (d.target path).isBelow d.output = true) :
    d.Framed files (d.remove path t) := by
  simp only [Directory.remove]
  split
  · refine ⟨fun q hq => ?_, ?_⟩
    · have hne := ne_target_of_outside hpath hq
      exact (Files.bytes?_remove_of_ne t hne).trans (h.bytes q hq)
    · exact (Files.outside_remove t hpath).trans h.outside
  · exact h

/-- Files that are changed or kept. -/
theorem Framed.reply (h : d.Framed files t) {result : Except Fault Files}
    (hresult : ∀ written, result = .ok written → d.Framed files written) :
    d.Framed files (reply t result).state := by
  cases result with
  | ok written => exact hresult written rfl
  | error f => exact h

/-- Every call keeps a tree framed, if the modules that are overridden and restored are listed
ones. -/
theorem keeps_framed (hd : d.Resolved) (hfiles : files.WellNamed) :
    d.host.Keeps (· ∈ d.modules "" files) (d.Framed files) := by
  have htarget : ∀ path ∈ d.modules "" files, (d.target path).isBelow d.output = true := by
    intro path hpath
    obtain ⟨names, hne, hproper, rfl, -⟩ := exists_of_mem_modules hd hfiles hpath
    exact isBelow_target hd hne hproper
  constructor
  case listed =>
    rintro scope t _ ht ⟨⟩ path hpath
    rw [modules_of_framed ht] at hpath
    exact (mem_modules_scope.1 hpath).1
  case listModules => exact fun _ _ ht => ht
  case resolve => exact fun _ _ ht => ht
  case override =>
    exact fun path _ _ hpath ht => ht.reply fun _ hw => ht.write (htarget path hpath) hw
  case restore => exact fun path _ hpath ht => ht.remove (htarget path hpath)
  case installProbe => exact fun _ _ _ ht => ht.reply fun _ hw => ht.writePrelude hd hw
  case removeProbe => exact fun _ _ ht => ht.remove (isBelow_prelude hd)

/-- Whatever an engine does with the modules of a directory, in any number of sessions: only files
below the output directory come, go or change, and for every scope the same modules are listed, and
the same sources are read for them, as before. -/
theorem framed_of_turns {working source output : Path} (hworking : working.isAbsolute = true)
    (hmake : make working source output = .ok d) (hfiles : files.WellNamed) {e : Engine}
    (hidle : e.session = none) (turns : List Engine.Turn) :
    let after := (e.turns d.host files turns).2
    (∀ q, after.bytes? q ≠ files.bytes? q → q.isBelow d.output = true)
      ∧ ∀ scope, (d.host.listModules scope after).answer = (d.host.listModules scope files).answer
        ∧ ∀ paths, (d.host.listModules scope files).answer = .ok paths → ∀ path ∈ paths,
          (d.host.resolve path after).answer = (d.host.resolve path files).answer := by
  have hd := resolved_of_make hworking hmake
  have hframed := (Engine.turns_kept (keeps_framed hd hfiles) (Engine.overrides_of_idle hidle)
    (Framed.refl d files) turns).2
  refine ⟨fun q hq => ?_, fun scope => ⟨?_, ?_⟩⟩
  · cases hout : q.isBelow d.output with
    | true => rfl
    | false => exact absurd (hframed.bytes q hout) hq
  · exact congrArg Except.ok (modules_of_framed hframed scope)
  · rintro _ ⟨⟩ path hpath
    exact read_of_framed hd hfiles hframed hpath

/-- An output directory inside the source directory. -/
def nestedDirectory : Directory := ⟨⟨"/", ["src"]⟩, ⟨"/", ["src", "out"]⟩⟩

/-- A module beside an output directory that is still empty. -/
def nestedTree : Files where
  entries :=
    [(⟨"/", ["src", "m.lua"]⟩, .file (Utf8.ofString "return 1\n")),
      (⟨"/", ["src", "out"]⟩, .directory)]

theorem framed_of_turns_sample :
    let after := ((Engine.ofOptions .ofGrammar .standard).turns nestedDirectory.host nestedTree
      [.instrument none none, .cleanUp, .instrument (some ["m.lua"]) (some []), .cleanUp]).2
    (nestedDirectory.host.listModules "." after).answer = .ok ["m.lua"]
      ∧ (nestedDirectory.host.resolve "m.lua" after).answer = .ok "return 1\n"
      ∧ after.bytes? ⟨"/", ["src", "m.lua"]⟩ = some (Utf8.ofString "return 1\n") := by
  intro after
  have hmake : make ⟨"/", []⟩ ⟨"", ["src"]⟩ ⟨"", ["src", "out"]⟩ = .ok nestedDirectory := rfl
  have hnamed : nestedTree.WellNamed := by
    unfold Files.WellNamed
    decide
  have hlisted : (nestedDirectory.host.listModules "." nestedTree).answer = .ok ["m.lua"] := by
    decide +kernel
  obtain ⟨hbytes, hscope⟩ := framed_of_turns rfl hmake hnamed
    (rfl : (Engine.ofOptions .ofGrammar .standard).session = none)
    [.instrument none none, .cleanUp, .instrument (some ["m.lua"]) (some []), .cleanUp]
  obtain ⟨hlist, hread⟩ := hscope "."
  refine ⟨hlist.trans hlisted, (hread _ hlisted "m.lua" (by simp)).trans (by decide +kernel), ?_⟩
  refine Eq.trans (Decidable.byContradiction fun hne => ?_)
    (by decide +kernel : nestedTree.bytes? ⟨"/", ["src", "m.lua"]⟩ = some (Utf8.ofString "return 1\n"))
  exact absurd (hbytes _ hne) (by decide +kernel)

end LuaCoverage.Directory

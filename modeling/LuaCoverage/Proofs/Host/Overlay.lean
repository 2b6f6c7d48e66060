import LuaCoverage.Host.Directory
import LuaCoverage.Proofs.Except
import LuaCoverage.Proofs.Files
import LuaCoverage.Proofs.Path

/-!
# Writing below the output directory

What is loaded in place of a module of a directory stands in one file, the *target* of the module.
If the two directories are resolved and every name of the tree is proper, then the modules that are
listed have targets below the output directory, no two of them the same, and their sources lie
elsewhere. So a module is written without a change to any other, or to a source.

Results:
* `Directory.exists_of_mem_modules`: where the source and the target of a module are.
* `Directory.target_injective`: modules with one target are one.
* `Directory.bytes?_write`, `Directory.bytes?_writePrelude`: the bytes behind an operation.
* `Directory.mem_modules_congr`: the modules are the same behind it.
-/

namespace LuaCoverage

/-- Whether every name in a tree is proper. -/
def Files.WellNamed (files : Files) : Prop :=
  ∀ entry ∈ files.entries, ∀ name ∈ entry.1.names, Path.isProper name = true

namespace Directory
open LuaCoverage.Text

/-- The file in which what is loaded in place of a module stands. -/
def target (d : Directory) (path : String) : Path := (place d.output path).2

/-- Whether both directories are resolved. -/
structure Resolved (d : Directory) : Prop where
  source : d.source.IsResolved
  output : d.output.IsResolved

theorem resolved_of_make {working source output : Path} {d : Directory}
    (hworking : working.isAbsolute = true) (h : make working source output = .ok d) :
    d.Resolved := by
  simp only [make] at h
  split at h
  · cases h
  · cases h
    exact ⟨Path.isResolved_resolve hworking source, Path.isResolved_resolve hworking output⟩

variable {d : Directory} {files written : Files} {path scope text name : String} {q : Path}
  {names : List String}

/-! ## Targets -/

/-- Behind a resolved directory the text of proper names leads to these names. -/
theorem place_text {directory : Path} (hdirectory : directory.IsResolved) (hne : names ≠ [])
    (hproper : ∀ name ∈ names, Path.isProper name = true) :
    (place directory (Path.ofNames names).text).2 = ⟨directory.root, directory.names ++ names⟩ := by
  have hforward : ".." ∉ names := fun hmem => (Path.isProper_iff.1 (hproper _ hmem)).2.2.1 rfl
  rw [place, Path.ofString_text hne hproper]
  exact Path.resolve_join hdirectory hforward directory

theorem target_text (hd : d.Resolved) (hne : names ≠ [])
    (hproper : ∀ name ∈ names, Path.isProper name = true) :
    d.target (Path.ofNames names).text = ⟨d.output.root, d.output.names ++ names⟩ :=
  place_text hd.output hne hproper

theorem isBelow_target (hd : d.Resolved) (hne : names ≠ [])
    (hproper : ∀ name ∈ names, Path.isProper name = true) :
    (d.target (Path.ofNames names).text).isBelow d.output = true :=
  Path.isBelow_iff.2 ⟨names, hne, target_text hd hne hproper⟩

theorem target_prelude (hd : d.Resolved) :
    d.target Prelude.fileName = ⟨d.output.root, d.output.names ++ [Prelude.fileName]⟩ := by
  have hproper : ∀ name ∈ [Prelude.fileName], Path.isProper name = true := by decide
  have htext : (Path.ofNames [Prelude.fileName]).text = Prelude.fileName := by decide
  rw [← target_text hd (List.cons_ne_nil _ _) hproper, htext]

theorem isBelow_prelude (hd : d.Resolved) : (d.target Prelude.fileName).isBelow d.output = true :=
  Path.isBelow_iff.2 ⟨_, by simp, target_prelude hd⟩

/-! ## Modules -/

theorem mem_modules : path ∈ d.modules scope files
    ↔ ∃ p ∈ files.below d.source, (Lua.Dialect.ofPath? p).isSome = true
      ∧ p.isBelow d.output = false ∧ (Files.relative p d.source).text = path
      ∧ Scope.contains scope path = true := by
  simp only [modules, List.mem_filter, List.mem_map, Bool.and_eq_true, Bool.not_eq_true']
  constructor
  · rintro ⟨⟨p, ⟨hbelow, hdialect, hout⟩, rfl⟩, hscope⟩
    exact ⟨p, hbelow, hdialect, hout, rfl, hscope⟩
  · rintro ⟨p, hbelow, hdialect, hout, rfl, hscope⟩
    exact ⟨⟨p, ⟨hbelow, hdialect, hout⟩, rfl⟩, hscope⟩

/-- The modules of a scope are those of the directory that lie in it. -/
theorem mem_modules_scope : path ∈ d.modules scope files
    ↔ path ∈ d.modules "" files ∧ Scope.contains scope path = true := by
  simp only [mem_modules, Scope.contains_root, and_true]
  constructor
  · rintro ⟨p, hbelow, hdialect, hout, hpath, hscope⟩
    exact ⟨⟨p, hbelow, hdialect, hout, hpath⟩, hscope⟩
  · rintro ⟨⟨p, hbelow, hdialect, hout, hpath⟩, hscope⟩
    exact ⟨p, hbelow, hdialect, hout, hpath, hscope⟩

/-- If no file outside the output directory comes or goes, no module does. -/
theorem mem_modules_congr
    (h : ∀ q, q.isBelow d.output = false →
      (q ∈ written.below d.source ↔ q ∈ files.below d.source)) :
    path ∈ d.modules scope written ↔ path ∈ d.modules scope files := by
  simp only [mem_modules]
  constructor
  · rintro ⟨p, hbelow, hdialect, hout, hrest⟩
    exact ⟨p, (h p hout).1 hbelow, hdialect, hout, hrest⟩
  · rintro ⟨p, hbelow, hdialect, hout, hrest⟩
    exact ⟨p, (h p hout).2 hbelow, hdialect, hout, hrest⟩

/-- The path of a module is the text of the names behind the source directory. -/
theorem exists_of_mem_modules (hd : d.Resolved) (hfiles : files.WellNamed)
    (h : path ∈ d.modules scope files) :
    ∃ names, names ≠ [] ∧ (∀ name ∈ names, Path.isProper name = true)
      ∧ path = (Path.ofNames names).text
      ∧ (place d.source path).2 = ⟨d.source.root, d.source.names ++ names⟩
      ∧ (place d.source path).2.isBelow d.output = false := by
  obtain ⟨p, hbelow, -, hout, rfl, -⟩ := mem_modules.1 h
  obtain ⟨⟨bytes, hentry⟩, hin⟩ := Files.mem_below.1 hbelow
  obtain ⟨names, hne, rfl⟩ := Path.isBelow_iff.1 hin
  have hproper : ∀ name ∈ names, Path.isProper name = true := fun name hname =>
    hfiles _ hentry name (List.mem_append_right _ hname)
  have hrelative : Files.relative ⟨d.source.root, d.source.names ++ names⟩ d.source
      = Path.ofNames names := by
    rw [Files.relative, List.drop_left]
  rw [hrelative]
  have hplace := place_text hd.source hne hproper
  exact ⟨names, hne, hproper, rfl, hplace, hplace ▸ hout⟩

theorem target_injective (hd : d.Resolved) (hfiles : files.WellNamed) {other : String}
    (hpath : path ∈ d.modules scope files) (hother : other ∈ d.modules scope files)
    (h : d.target path = d.target other) : path = other := by
  obtain ⟨names, hne, hproper, rfl, -⟩ := exists_of_mem_modules hd hfiles hpath
  obtain ⟨names', hne', hproper', rfl, -⟩ := exists_of_mem_modules hd hfiles hother
  rw [target_text hd hne hproper, target_text hd hne' hproper', Path.mk.injEq,
    List.append_cancel_left_eq] at h
  rw [h.2]

theorem target_ne_prelude (hd : d.Resolved) (hfiles : files.WellNamed)
    (hpath : path ∈ d.modules scope files) (hne : path ≠ Prelude.fileName) :
    d.target path ≠ d.target Prelude.fileName := by
  obtain ⟨names, hnames, hproper, rfl, -⟩ := exists_of_mem_modules hd hfiles hpath
  rw [target_text hd hnames hproper, target_prelude hd]
  intro heq
  rw [Path.mk.injEq, List.append_cancel_left_eq] at heq
  rw [heq.2] at hne
  exact hne (by decide)

/-! ## Operations -/

/-- A text is written behind the directories that it lies in. -/
theorem exists_of_write (h : d.write path text files = .ok written) :
    ∃ made label label', files.makeDirectories (d.target path).parent label = .ok made
      ∧ made.writeText (d.target path) label' text = .ok written := by
  obtain ⟨made, hmade, hwritten⟩ := Except.bind_ok (Except.mapError_eq_ok_iff.1 h)
  exact ⟨made, _, _, hmade, hwritten⟩

theorem bytes?_write (h : d.write path text files = .ok written) (q : Path) :
    written.bytes? q = if q = d.target path then some (Utf8.ofString text) else files.bytes? q := by
  obtain ⟨made, _, _, hmade, hwritten⟩ := exists_of_write h
  rw [Files.bytes?_writeText_eq hwritten, Files.bytes?_makeDirectories hmade]

theorem mem_below_write (h : d.write path text files = .ok written) (hq : q ≠ d.target path)
    (directory : Path) : q ∈ written.below directory ↔ q ∈ files.below directory := by
  obtain ⟨made, _, _, hmade, hwritten⟩ := exists_of_write h
  rw [Files.mem_below_writeText hwritten hq, Files.mem_below_makeDirectories hmade]

/-- The prelude is written into the output directory. -/
theorem exists_of_writePrelude (h : d.writePrelude name files = .ok written) :
    ∃ made label probe, files.makeDirectories d.output label = .ok made
      ∧ ProbeName.ofString? name = .ok probe
      ∧ d.write Prelude.fileName (Prelude.text probe) made = .ok written := by
  obtain ⟨made, hmade, h⟩ := Except.bind_ok h
  obtain ⟨probe, hprobe, hwritten⟩ := Except.bind_ok h
  exact ⟨made, _, probe, Except.mapError_eq_ok_iff.1 hmade, Except.mapError_eq_ok_iff.1 hprobe,
    hwritten⟩

theorem bytes?_writePrelude (h : d.writePrelude name files = .ok written)
    (hq : q ≠ d.target Prelude.fileName) : written.bytes? q = files.bytes? q := by
  obtain ⟨made, _, probe, hmade, -, hwritten⟩ := exists_of_writePrelude h
  rw [bytes?_write hwritten, if_neg hq, Files.bytes?_makeDirectories hmade]

theorem isFile_prelude (h : d.writePrelude name files = .ok written) :
    written.isFile (d.target Prelude.fileName) = true := by
  obtain ⟨made, _, probe, -, -, hwritten⟩ := exists_of_writePrelude h
  rw [Files.isFile, bytes?_write hwritten, if_pos rfl]
  rfl

theorem mem_below_writePrelude (h : d.writePrelude name files = .ok written)
    (hq : q ≠ d.target Prelude.fileName) (directory : Path) :
    q ∈ written.below directory ↔ q ∈ files.below directory := by
  obtain ⟨made, _, probe, hmade, -, hwritten⟩ := exists_of_writePrelude h
  rw [mem_below_write hwritten hq, Files.mem_below_makeDirectories hmade]

/-- The source of a module depends on the bytes of its file only. -/
theorem read_congr (h : written.bytes? (place d.source path).2
    = files.bytes? (place d.source path).2) : d.read path written = d.read path files := by
  unfold read Files.isFile Files.readText
  simp only [h]
  generalize files.bytes? (place d.source path).2 = bytes?
  cases bytes? <;> rfl

end Directory

end LuaCoverage

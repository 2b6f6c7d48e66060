import LuaCoverage.Host.Basic
import LuaCoverage.Instrument.Prelude
import LuaCoverage.Lua.Dialect
import LuaCoverage.Scope.Basic

/-!
# Modules in a directory

A host over a tree of files. Modules are the Lua files below a source directory; what is loaded in
their place is written below an output directory, under the same relative paths, and beside it the
prelude, which defines the probe function for the runtime that loads them. If the output directory
lies inside the source directory, the files in it are no modules.

Results:
* `Directory.make_eq_error_iff`: the two directories have to differ.
-/

namespace LuaCoverage

/-- Where the modules are, and where they are written. -/
structure Directory where
  source : Path
  output : Path
  deriving DecidableEq, Repr

/-- Two directories that are one. -/
structure SameDirectory where
  path : Path
  deriving DecidableEq, Repr

def SameDirectory.message (_ : SameDirectory) : String :=
  "output directory must differ from the source directory"

namespace Directory

/-- The directories of two paths, seen from a working directory. -/
def make (working source output : Path) : Except SameDirectory Directory :=
  let source := working.resolve source
  let output := working.resolve output
  if output = source then .error ⟨source⟩ else .ok ⟨source, output⟩

theorem make_eq_error_iff (working source output : Path) :
    (∃ e, make working source output = .error e)
      ↔ working.resolve output = working.resolve source := by
  simp only [make]
  split <;> simp_all

/-- The path of a module below a directory, as it is written, and where it leads. -/
def place (directory : Path) (path : String) : Path × Path :=
  let written := directory.join (Path.ofString path)
  (written, directory.resolve written)

/-- The paths of the modules in a scope. -/
def modules (d : Directory) (scope : String) (files : Files) : List String :=
  let found := (files.below d.source).filter fun p =>
    (Lua.Dialect.ofPath? p).isSome && !p.isBelow d.output
  (found.map fun p => (Files.relative p d.source).text).filter fun path =>
    Scope.contains scope path

def read (d : Directory) (path : String) (files : Files) : Except Fault String :=
  let (written, p) := place d.source path
  if files.isFile p then (files.readText p written.text).mapError .file
  else .error (.unknownModule path)

/-- Writes a text at a path of the output directory. -/
def write (d : Directory) (path text : String) (files : Files) : Except Fault Files :=
  let (written, p) := place d.output path
  let result := do
    let files ← files.makeDirectories p.parent written.parent.text
    files.writeText p written.text text
  result.mapError .file

/-- Removes a file of the output directory, if it is there. -/
def remove (d : Directory) (path : String) (files : Files) : Files :=
  let (_, p) := place d.output path
  if files.isFile p then files.remove p else files

/-- Writes the prelude for a probe name. -/
def writePrelude (d : Directory) (name : String) (files : Files) : Except Fault Files := do
  let files ← (files.makeDirectories d.output d.output.text).mapError .file
  let name ← (ProbeName.ofString? name).mapError fun e => .invalid e.message
  d.write Prelude.fileName (Prelude.text name) files

/-- The reply that keeps the files unless they are changed. -/
def reply (files : Files) : Except Fault Files → Reply Files Unit
  | .ok changed => .ok () changed
  | .error f => .fail f files

def host (d : Directory) : Host Files where
  name := "directory"
  listModules scope files := .ok (d.modules scope files) files
  resolve path files := ⟨d.read path files, files⟩
  override path text files := reply files (d.write path text files)
  restore path files := .ok () (d.remove path files)
  installProbe name _ files := reply files (d.writePrelude name files)
  removeProbe _ files := .ok () (d.remove Prelude.fileName files)

end Directory

end LuaCoverage

import LuaCoverage.Files
import LuaCoverage.Probe.Manifest

/-!
# Manifests in files

A manifest is named by its file, or by the directory that holds it under its own name.

Results:
* `ManifestFile.bytes?_save`: the text of the maps stands in the file that is named as written.
-/

namespace LuaCoverage
open LuaCoverage.Text

/-- Why no maps can be read from a file. -/
inductive ManifestFileError
  | file (e : FileError)
  | content (e : ManifestError)
  deriving DecidableEq, Repr

def ManifestFileError.message : ManifestFileError → String
  | .file e => e.message
  | .content e => e.message

namespace ManifestFile

/-- The file that a path names, seen from a working directory. -/
def place (files : Files) (working p : Path) : Path :=
  if files.isDirectory (working.resolve p) then p.join (Path.ofNames [Manifest.fileName]) else p

def read (files : Files) (working p : Path) : Except ManifestFileError (List ProbeMap) := do
  let p := place files working p
  let text ← (files.readText (working.resolve p) p.text).mapError .file
  (Manifest.parse p.text text).mapError .content

/-- Writes a manifest. The answer is the file that was written, and the files with it. -/
def save (files : Files) (working p : Path) (maps : List ProbeMap) :
    Except FileError (Path × Files) := do
  let p := place files working p
  let files ← files.makeDirectories (working.resolve p.parent) p.parent.text
  let files ← files.writeText (working.resolve p) p.text (Manifest.text maps)
  .ok (p, files)

theorem bytes?_save {files written : Files} {working p q : Path} {maps : List ProbeMap}
    (h : save files working p maps = .ok (q, written)) :
    written.bytes? (working.resolve q) = some (Utf8.ofString (Manifest.text maps)) := by
  unfold save at h
  cases hm : files.makeDirectories (working.resolve (place files working p).parent)
      (place files working p).parent.text with
  | error e => simp [hm, bind, Except.bind] at h
  | ok made =>
    cases hw : made.writeText (working.resolve (place files working p))
        (place files working p).text (Manifest.text maps) with
    | error e => simp [hm, hw, bind, Except.bind] at h
    | ok changed =>
      simp only [hm, hw, bind, Except.bind, Except.ok.injEq, Prod.mk.injEq] at h
      obtain ⟨rfl, rfl⟩ := h
      exact Files.bytes?_writeText hw

end ManifestFile

end LuaCoverage

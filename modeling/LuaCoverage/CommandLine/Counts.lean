import LuaCoverage.Dump.Load
import LuaCoverage.Probe.ManifestFile

/-!
# Counts from files

The counts of a dump, for the modules of a manifest: every module starts from zero, and what the
dump says is added.

Results:
* `Counts.read_maps`: the maps are those of the manifest.
-/

namespace LuaCoverage

/-- Why there are no counts. -/
inductive CountsError
  | manifest (e : ManifestFileError)
  | file (e : FileError)
  | dump (e : DumpError)
  | load (e : LoadError)
  deriving DecidableEq, Repr

namespace CountsError

def message : CountsError → String
  | .manifest e => e.message
  | .file e => e.message
  | .dump e => e.message
  | .load e => e.message

/-- Whether a message is printed about an error. There is none about bytes that are no text, or
about a number beyond all integers. -/
def isReported : CountsError → Bool
  | .manifest (.file (.notUtf8 _)) | .file (.notUtf8 _) => false
  | .manifest (.file .nullCharacter) | .file .nullCharacter => false
  | .manifest (.content e) => !e.isOverflow
  | .load e => !e.isOverflow
  | .manifest (.file _) | .file _ | .dump _ => true

end CountsError

/-- The counts of modules, and their maps. -/
structure Counts where
  store : Store
  maps : List ProbeMap
  deriving Repr

namespace Counts

/-- The maps of modules in which nothing has run yet. -/
def ofMaps (maps : List ProbeMap) : Counts := ⟨maps.foldl Store.register Store.empty, maps⟩

def add (c : Counts) (d : Dump) : Except LoadError Counts :=
  match d.load c.store with
  | (.ok _, store) => .ok { c with store }
  | (.error e, _) => .error e

/-- The counts of a dump in a file, for the modules of a manifest. -/
def read (files : Files) (working dump manifest : Path) : Except CountsError Counts := do
  let maps ← (ManifestFile.read files working manifest).mapError .manifest
  let text ← (files.readText (working.resolve dump) dump.text).mapError .file
  let d ← (Dump.parse text).mapError .dump
  ((ofMaps maps).add d).mapError .load

theorem ok_of_mapError {ε ε' α : Type} {r : Except ε α} {f : ε → ε'} {a : α}
    (h : r.mapError f = .ok a) : r = .ok a := by
  cases r with
  | error e => cases h
  | ok b => cases h; rfl

theorem ok_of_mapError_bind {ε ε' α β : Type} {r : Except ε α} {f : ε → ε'}
    {k : α → Except ε' β} {b : β} (h : (r.mapError f >>= k) = .ok b) :
    ∃ a, r = .ok a ∧ k a = .ok b := by
  cases r with
  | error e => cases h
  | ok a => exact ⟨a, rfl, h⟩

theorem maps_add {c changed : Counts} {d : Dump} (h : c.add d = .ok changed) :
    changed.maps = c.maps := by
  unfold add at h
  split at h
  · cases h
    rfl
  · simp at h

theorem read_maps {files : Files} {working dump manifest : Path} {c : Counts}
    (h : read files working dump manifest = .ok c) :
    ManifestFile.read files working manifest = .ok c.maps := by
  unfold read at h
  obtain ⟨maps, hm, h⟩ := ok_of_mapError_bind h
  obtain ⟨text, ht, h⟩ := ok_of_mapError_bind h
  obtain ⟨d, hd, h⟩ := ok_of_mapError_bind h
  rw [hm, maps_add (ok_of_mapError h)]
  rfl

end Counts

end LuaCoverage

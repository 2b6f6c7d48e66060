import LuaCoverage.Path
import LuaCoverage.Text.Literal
import LuaCoverage.Text.Ends
import LuaCoverage.Text.Order
import LuaCoverage.Text.Utf8

/-!
# File trees

A tree of files is a list of absolute paths, each of which is a directory or a file with its
bytes. A directory is also there if something lies below it.

Text is written as UTF-8. When text is read, every line end becomes a newline. An operation that
fails leaves the tree as it was, and names its path by a label.

Results:
* `Files.bytes?_write`, `Files.bytes?_writeText`: what is written is read back.
* `Files.bytes?_remove`: what is removed is gone.
-/

namespace LuaCoverage
open LuaCoverage.Text

/-- What stands at a path. -/
inductive FileEntry
  | directory
  | file (bytes : Bytes)
  deriving DecidableEq, Repr

/-- A tree of files. -/
structure Files where
  entries : List (Path × FileEntry)
  deriving Repr

/-- Why a file cannot be read or written. -/
inductive FileError
  | absent (label : String)
  | alreadyThere (label : String)
  | notDirectory (label : String)
  | isDirectory (label : String)
  | nullCharacter
  | notUtf8 (e : Utf8.DecodeError)
  deriving DecidableEq, Repr

def FileError.message : FileError → String
  | .absent label => "[Errno 2] No such file or directory: " ++ Text.literal label
  | .alreadyThere label => "[Errno 17] File exists: " ++ Text.literal label
  | .notDirectory label => "[Errno 20] Not a directory: " ++ Text.literal label
  | .isDirectory label => "[Errno 21] Is a directory: " ++ Text.literal label
  | .nullCharacter => "embedded null byte"
  | .notUtf8 e => e.message

namespace Files

def empty : Files := ⟨[]⟩

def find? (files : Files) (p : Path) : Option FileEntry :=
  (files.entries.find? fun entry => entry.1 == p).map (·.2)

def bytes? (files : Files) (p : Path) : Option Bytes :=
  match files.find? p with
  | some (.file bytes) => some bytes
  | _ => none

/-- Whether there is a file at a path. -/
def isFile (files : Files) (p : Path) : Bool := (files.bytes? p).isSome

/-- Whether there is a directory at a path. -/
def isDirectory (files : Files) (p : Path) : Bool :=
  !files.isFile p && files.entries.any fun entry => entry.1 == p || entry.1.isBelow p

/-- Whether there is anything at a path. -/
def exists? (files : Files) (p : Path) : Bool := files.isFile p || files.isDirectory p

/-- Where the pieces of a text lead from a path, one after the other. Every piece starts from a
directory; an empty one and a dot stay there, and two dots go back. -/
def walk? (files : Files) : Path → List (List Char) → Option Path
  | p, [] => some p
  | p, piece :: rest =>
    if !files.isDirectory p then none
    else if piece = [] || piece = ['.'] then files.walk? p rest
    else if piece = ['.', '.'] then files.walk? p.parent rest
    else files.walk? (p.join (Path.ofNames [String.ofList piece])) rest

/-- Where a text leads from a working directory. There need not be anything; but an empty text leads
nowhere, and nor does one on whose way there is no directory. -/
def reach? (files : Files) (working : Path) (text : String) : Option Path :=
  if text.isEmpty then none
  else files.walk? (if Path.rootOf text.toList = "" then working else ⟨"/", []⟩)
    (Path.pieces text.toList)

/-- Whether a file stands above a path, where a directory would have to be. -/
def isBlocked (files : Files) (p : Path) : Bool :=
  files.entries.any fun entry => p.isBelow entry.1 && entry.2 != .directory

/-- The tree without the entry of a path. -/
def without (files : Files) (p : Path) : Files :=
  ⟨files.entries.filter fun entry => entry.1 != p⟩

/-- Makes a directory, unless there is something at its path. -/
def makeDirectory (files : Files) (p : Path) : Files :=
  if files.exists? p then files else ⟨files.entries ++ [(p, .directory)]⟩

/-- Removes a file. The directory that it was in stays. -/
def remove (files : Files) (p : Path) : Files := (files.makeDirectory p.parent).without p

/-- Puts a file in place of what stood at its path. -/
def write (files : Files) (p : Path) (bytes : Bytes) : Files :=
  ⟨(files.without p).entries ++ [(p, .file bytes)]⟩

/-- Whether a name of a path holds a null character, which no file system takes. -/
def isUnnamable (p : Path) : Bool := p.names.any fun name => name.toList.contains '\x00'

/-- Makes a directory and all that it lies in. One that is there already is left alone. -/
def makeDirectories (files : Files) (p : Path) (label : String) : Except FileError Files :=
  if isUnnamable p then .error .nullCharacter
  else if files.isDirectory p then .ok files
  else if files.isFile p then .error (.alreadyThere label)
  else if files.isBlocked p then .error (.notDirectory label)
  else .ok (files.makeDirectory p)

/-- Writes a text into a directory that is there. -/
def writeText (files : Files) (p : Path) (label text : String) : Except FileError Files :=
  if isUnnamable p then .error .nullCharacter
  else if files.isDirectory p then .error (.isDirectory label)
  else if files.isBlocked p then .error (.notDirectory label)
  else if !files.isDirectory p.parent then .error (.absent label)
  else .ok (files.write p (Utf8.ofString text))

def readText (files : Files) (p : Path) (label : String) : Except FileError String :=
  match files.bytes? p with
  | none =>
    .error
      (if files.isDirectory p then .isDirectory label
      else if files.isBlocked p then .notDirectory label
      else .absent label)
  | some bytes =>
    match Utf8.decode bytes with
    | .ok chars => .ok (String.ofList (unifyNewlines chars))
    | .error e => .error (.notUtf8 e)

/-- Whether the names of a path come no later than those of another, name by name. -/
def namesPrecede : List String → List String → Bool
  | [], _ => true
  | _ :: _, [] => false
  | a :: as, b :: bs => if a = b then namesPrecede as bs else Text.precedes a b

/-- The paths of the files below a directory, in order. -/
def below (files : Files) (directory : Path) : List Path :=
  let found := files.entries.filterMap fun entry =>
    match entry.2 with
    | .file _ => if entry.1.isBelow directory then some entry.1 else none
    | .directory => none
  found.mergeSort fun p q => namesPrecede p.names q.names

/-- The path seen from a directory above it. -/
def relative (p directory : Path) : Path := Path.ofNames (p.names.drop directory.names.length)

/-- The files that an earlier tree does not have, or has with other bytes. -/
def changedSince (files earlier : Files) : List (Path × Bytes) :=
  files.entries.filterMap fun (p, entry) =>
    match entry with
    | .file bytes => if earlier.bytes? p = some bytes then none else some (p, bytes)
    | .directory => none

/-- The paths of the files of an earlier tree that are no longer there. -/
def removedSince (files earlier : Files) : List Path :=
  (earlier.entries.map (·.1)).filter fun p => earlier.isFile p && !files.isFile p

theorem find?_without (files : Files) (p : Path) : (files.without p).find? p = none := by
  simp only [find?, without, Option.map_eq_none_iff, List.find?_eq_none, List.mem_filter]
  intro entry h
  simpa using h.2

theorem bytes?_remove (files : Files) (p : Path) : (files.remove p).bytes? p = none := by
  simp [bytes?, remove, find?_without]

theorem bytes?_write (files : Files) (p : Path) (bytes : Bytes) :
    (files.write p bytes).bytes? p = some bytes := by
  have h := find?_without files p
  simp only [find?, Option.map_eq_none_iff] at h
  simp [bytes?, find?, write, List.find?_append, h]

theorem bytes?_writeText {files written : Files} {p : Path} {label text : String}
    (h : files.writeText p label text = .ok written) :
    written.bytes? p = some (Utf8.ofString text) := by
  unfold writeText at h
  split at h
  · simp at h
  · split at h
    · simp at h
    · split at h
      · simp at h
      · split at h
        · simp at h
        · exact Except.ok.inj h ▸ bytes?_write files p _

end Files

end LuaCoverage

import LuaCoverage.Probe.Basic
import LuaCoverage.Text.Utf8

/-!
# Positions of byte offsets

Trees count bytes, reports count lines and characters. A line ends at a newline byte; a column is
the number of characters that the bytes before it in the line decode to.

Results:
* `splitLines_ne_nil`: every source has at least one line.
* `Line.ofSource_map_bytes`: lines with their lengths are lines.
-/

namespace LuaCoverage
open LuaCoverage.Text

/-- The lines of a source, without the newline bytes between them. -/
def splitLines : Bytes → List Bytes
  | [] => [[]]
  | b :: rest =>
    if b = 10 then [] :: splitLines rest
    else
      match splitLines rest with
      | [] => [[b]]
      | line :: more => (b :: line) :: more

theorem splitLines_ne_nil (source : Bytes) : splitLines source ≠ [] := by
  cases source with
  | nil => simp [splitLines]
  | cons b rest =>
    simp only [splitLines]
    split
    · simp
    · split <;> simp

/-- A line with its length, so that a line can be passed over without counting its bytes. -/
structure Line where
  bytes : Bytes
  width : Nat
  width_eq : width = bytes.length

namespace Line

def ofBytes (bytes : Bytes) : Line := ⟨bytes, bytes.length, rfl⟩

def ofSource (source : Bytes) : List Line := (splitLines source).map ofBytes

theorem ofSource_map_bytes (source : Bytes) : (ofSource source).map bytes = splitLines source := by
  simp [ofSource, ofBytes, Function.comp_def]

end Line

namespace Position

/-- The position of an offset in lines of which `row` come before them. -/
def inLines (row : Nat) : List Line → (offset : Nat) → Position
  | [], _ => ⟨row + 1, 0⟩
  | line :: rest, offset =>
    if offset ≤ line.width || rest.isEmpty then
      ⟨row + 1, (Utf8.decodeLossy (line.bytes.take offset)).length⟩
    else inLines (row + 1) rest (offset - line.width - 1)

/-- The position of an offset in a source that is cut into lines. -/
def ofOffset (lines : List Line) (offset : Nat) : Position := inLines 0 lines offset

end Position

end LuaCoverage

import LuaCoverage.Data.Convert
import LuaCoverage.Instrument.Prelude
import LuaCoverage.Json.Reader
import LuaCoverage.Probe.Basic

/-!
# Dumps

A dump is a JSON object with an entry for every module: for each kind of probe a mapping from ids
to counts. It stands alone in a text, or between two markers somewhere in a log; of several the
first counts. A list without items stands for a mapping without entries, because the tables that
are printed do not tell them apart.

Results:
* `Dump.length_splitAt?`: what follows a marker is shorter than the text.
-/

namespace LuaCoverage

/-- Why a text is no dump. -/
inductive DumpError
  | noBlock
  | openBlock
  | notJson (text : String)
  | notEntries
  | moduleNotEntries (path : String)
  | countsNotEntries (path key : String)
  deriving DecidableEq, Repr

def DumpError.message : DumpError → String
  | .noBlock => "no " ++ Dump.marker ++ " block found"
  | .openBlock => "unterminated " ++ Dump.marker ++ " block"
  | .notJson text => "dump is not valid JSON: " ++ text
  | .notEntries => "dump must be an object keyed by module path"
  | .moduleNotEntries path => path ++ ": module entry must be an object"
  | .countsNotEntries path key => path ++ ": '" ++ key ++ "' must be an object"

/-- The counts of a module in a dump: what stands under the codes of the kinds, and whatever else
the entry holds. -/
structure DumpModule where
  path : String
  entries : List (Scalar × Value)
  deriving Repr

/-- A dump. -/
structure Dump where
  modules : List DumpModule
  deriving Repr

namespace DumpModule

/-- The counts under the code of a kind. -/
def counts (m : DumpModule) (kind : ProbeKind) : List (Scalar × Value) :=
  match Value.lookup m.entries kind.code with
  | some (.mapping entries) => entries
  | _ => []

end DumpModule

namespace Dump

/-- Splits a text at the first occurrence of a pattern. -/
def splitAt? (pattern : List Char) : List Char → Option (List Char × List Char)
  | [] => if pattern.isEmpty then some ([], []) else none
  | c :: rest =>
    if pattern.isPrefixOf (c :: rest) then some ([], (c :: rest).drop pattern.length)
    else (splitAt? pattern rest).map fun (front, back) => (c :: front, back)

theorem length_splitAt? {pattern text front back : List Char}
    (h : splitAt? pattern text = some (front, back)) :
    front.length + pattern.length + back.length = text.length := by
  induction text generalizing front back with
  | nil =>
    simp only [splitAt?] at h
    split at h
    · next hp =>
      simp only [Option.some.injEq, Prod.mk.injEq] at h
      simp [← h.1, ← h.2, List.isEmpty_iff.1 hp]
    · simp at h
  | cons c rest ih =>
    simp only [splitAt?] at h
    split at h
    · next hp =>
      simp only [Option.some.injEq, Prod.mk.injEq] at h
      have := (List.isPrefixOf_iff_prefix.1 hp).length_le
      simp only [← h.1, ← h.2, List.length_nil, List.length_drop]
      omega
    · cases hs : splitAt? pattern rest with
      | none => simp [hs] at h
      | some parts =>
        obtain ⟨f, b⟩ := parts
        simp only [hs, Option.map_some, Option.some.injEq, Prod.mk.injEq] at h
        have := ih hs
        simp only [← h.1, ← h.2, List.length_cons]
        omega

/-- The text between the first marker and the next. -/
def extractChars (text : List Char) : Except DumpError (List Char) :=
  match splitAt? marker.toList text with
  | none => .error .noBlock
  | some (_, back) =>
    match splitAt? marker.toList back with
    | none => .error .openBlock
    | some (inside, _) => .ok inside

/-- The text between the first marker and the next. -/
def extract (text : String) : Except DumpError String :=
  (extractChars text.toList).map String.ofList

/-- The text of the dump in a log: what stands between the markers, or all if there are none. -/
def payload (text : List Char) : Except DumpError (List Char) :=
  if (splitAt? marker.toList text).isSome then extractChars text else .ok text

/-- Whether a value is a list without items. -/
def isEmptyList : Value → Bool
  | .list items => items.isEmpty
  | _ => false

def isMapping : Value → Bool
  | .mapping _ => true
  | _ => false

/-- Checks the counts under a key; no items become no entries. -/
def checkCounts (path : String) (entries : List (Scalar × Value)) (key : String) :
    Except DumpError (List (Scalar × Value)) :=
  match Value.lookup entries key with
  | none => .ok entries
  | some counts =>
    if isEmptyList counts then .ok (Value.put entries (.string key) (.mapping []))
    else if isMapping counts then .ok entries
    else .error (.countsNotEntries path key)

def moduleOf (entry : Scalar × Value) : Except DumpError DumpModule :=
  let path := entry.1.shown
  match entry.2 with
  | .mapping entries => do
    let entries ← checkCounts path entries ProbeKind.statement.code
    let entries ← checkCounts path entries ProbeKind.function.code
    let entries ← checkCounts path entries ProbeKind.branch.code
    .ok ⟨path, entries⟩
  | _ => .error (.moduleNotEntries path)

/-- The dump that a value stands for. -/
def ofValue : Value → Except DumpError Dump
  | .mapping entries => do
    let modules ← entries.mapM moduleOf
    .ok ⟨modules⟩
  | _ => .error .notEntries

def parse (text : String) : Except DumpError Dump := do
  let inside ← payload text.toList
  match Json.parse (String.ofList inside) with
  | .ok value => ofValue value
  | .error fault => .error (.notJson fault)

def toValue (d : Dump) : Value :=
  .mapping (d.modules.map fun m => (.string m.path, .mapping m.entries))

end Dump

end LuaCoverage

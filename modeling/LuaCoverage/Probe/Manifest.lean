import LuaCoverage.Json.Printer
import LuaCoverage.Json.Reader
import LuaCoverage.Probe.Encoding

/-!
# Manifests

A manifest is a JSON file that keeps the probe maps of an instrumented tree, with a version.

Results:
* `Manifest.fileName_ne_empty`: manifests have a name of their own in a directory.
-/

namespace LuaCoverage

/-- Why a text is no manifest. -/
inductive ManifestFault
  | notJson (text : String)
  | version
  | map (m : Mismatch)
  deriving DecidableEq, Repr

/-- A manifest that cannot be read, with the name of its file. -/
structure ManifestError where
  file : String
  fault : ManifestFault
  deriving DecidableEq, Repr

namespace ManifestError

/-- Whether the fault is a number beyond all integers. It is passed on as it is. -/
def isOverflow (e : ManifestError) : Bool :=
  match e.fault with
  | .map m => m.group == .overflow
  | _ => false

def message (e : ManifestError) : String :=
  match e.fault with
  | .notJson text => e.file ++ ": invalid map manifest (" ++ text ++ ")"
  | .version => e.file ++ ": unsupported map manifest version"
  | .map m =>
    if e.isOverflow then m.message
    else e.file ++ ": malformed boundary map (" ++ m.message ++ ")"

end ManifestError

namespace Manifest

/-- The name of the file in a directory. -/
def fileName : String := "covpatch-map.json"

theorem fileName_ne_empty : fileName ≠ "" := by decide

/-- The version that is written and read. -/
def version : Int := 1

def toValue (maps : List ProbeMap) : Value :=
  .object [("version", .int version), ("modules", .list (maps.map ProbeMap.toValue))]

def text (maps : List ProbeMap) : String := Json.print (.lines 2) (toValue maps)

/-- Whether a value is the version that is read. -/
def isVersion : Option Value → Bool
  | some (.scalar s) => s.equals (.int version)
  | _ => false

def ofValue (v : Value) : Except ManifestFault (List ProbeMap) :=
  match v with
  | .mapping _ =>
    if isVersion (v.get? "version") then
      (do (← v.itemsAt "modules").mapM ProbeMap.ofValue).mapError .map
    else .error .version
  | _ => .error .version

/-- The maps in the text of a file. -/
def parse (file text : String) : Except ManifestError (List ProbeMap) :=
  let result :=
    match Json.parse text with
    | .ok v => ofValue v
    | .error fault => .error (.notJson fault)
  result.mapError fun fault => ⟨file, fault⟩

end Manifest

end LuaCoverage

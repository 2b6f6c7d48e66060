import LuaCoverage.Config.Basic
import LuaCoverage.Config.Placeholder
import LuaCoverage.Data.Convert
import LuaCoverage.Files
import LuaCoverage.Yaml.Fault

/-!
# Reading a configuration

A configuration is read from a YAML file in a directory, by a reader that is given. What the file
does not say is taken from variables of the environment, or else is standard. A file that holds no
mapping says nothing; nor does a section that is none.

Results:
* `Config.ofEntries_nil`: without a file and without variables, everything is standard.
-/

namespace LuaCoverage

/-- Why a configuration cannot be read. -/
inductive ConfigError
  | file (e : FileError)
  | yaml (f : Yaml.Fault)
  | value (m : Mismatch)
  deriving DecidableEq, Repr

def ConfigError.message : ConfigError → String
  | .file e => e.message
  | .yaml f => f.message
  | .value m => m.message

namespace Value

/-- Whether a value means yes: the truth value, a number equal to it, or one of three words. Sets
can be asked about, lists and mappings cannot. -/
def meansYes : Value → Except Mismatch Bool
  | .scalar (.string text) => .ok (["true", "1", "yes"].contains text)
  | .scalar s => .ok (s.equals (.bool true))
  | .set _ => .ok false
  | other => .error (.notHashable other.typeName)

/-- The entries of a section; a value that is no mapping has none. -/
def entriesAt (name : String) (entries : List (Scalar × Value)) : List (Scalar × Value) :=
  match lookup entries name with
  | some (.mapping inner) => inner
  | _ => []

/-- The text of an entry, however it is given. -/
def textAt (key : String) (default : String) (entries : List (Scalar × Value)) : String :=
  ((lookup entries key).map shown).getD default

def integerAt (key : String) (default : Int) (entries : List (Scalar × Value)) :
    Except Mismatch Int :=
  ((lookup entries key).map toInt).getD (.ok default)

def flagAt (key : String) (default : String) (entries : List (Scalar × Value)) :
    Except Mismatch Bool :=
  ((lookup entries key).getD (.string default)).meansYes

/-- The scopes of an entry: what a value enumerates, or one text. -/
def scopesAt (key : String) (default : List String) (entries : List (Scalar × Value)) :
    Except Mismatch (List String) :=
  match lookup entries key with
  | none => .ok default
  | some (.scalar .null) => .ok default
  | some (.scalar (.string text)) => .ok [text]
  | some v => do .ok ((← v.toItems).map shown)

end Value

namespace Config

def fileName : String := ".covpatch.yml"

/-- The variables that stand for entries of the file. -/
def variableNames : List String :=
  ["COVPATCH_PROBE_NAME", "COVPATCH_THREAD_SAFE", "COVPATCH_OUTPUT_DIR"]

def variableOr (env : Environment) (name default : String) : String :=
  (env.find? name).getD default

def instrumentOf (env : Environment) (entries : List (Scalar × Value)) :
    Except Mismatch InstrumentOptions := do
  let o := InstrumentOptions.standard
  let included ← Value.scopesAt "include" o.included entries
  let excluded ← Value.scopesAt "exclude" o.excluded entries
  let language := Value.textAt "language" o.language entries
  let probeName :=
    Value.textAt "probe_name" (variableOr env "COVPATCH_PROBE_NAME" o.probeName) entries
  let idBase ← Value.integerAt "id_base" o.idBase entries
  let isThreadSafe ← Value.flagAt "thread_safe" (variableOr env "COVPATCH_THREAD_SAFE" "") entries
  .ok ⟨included, excluded, language, probeName, idBase, isThreadSafe⟩

def reportOf (env : Environment) (entries : List (Scalar × Value)) :
    Except Mismatch ReportOptions := do
  let o := ReportOptions.standard
  let outputDirectory :=
    Value.textAt "output_dir" (variableOr env "COVPATCH_OUTPUT_DIR" o.outputDirectory) entries
  let summary ← Value.flagAt "summary" "" entries
  .ok ⟨outputDirectory, summary⟩

def statsOf (entries : List (Scalar × Value)) : Except Mismatch StatsDefaults := do
  let o := StatsDefaults.standard
  let limit ← Value.integerAt "limit" o.limit entries
  let minHits ← Value.integerAt "min_hits" o.minHits entries
  .ok ⟨limit, minHits⟩

/-- The configuration that the entries of a file and the environment give. -/
def ofEntries (env : Environment) (root : String) (entries : List (Scalar × Value)) :
    Except Mismatch Config := do
  let instrument ← instrumentOf env (Value.entriesAt "instrument" entries)
  let report ← reportOf env (Value.entriesAt "report" entries)
  let stats ← statsOf (Value.entriesAt "stats" entries)
  .ok ⟨root, instrument, report, stats⟩

theorem ofEntries_nil (root : String) : ofEntries [] root [] = .ok (standard root) := by
  rfl

/-- The entries of a text, with its placeholders filled in. -/
def entriesOf (yaml : Yaml.Reader) (env : Environment) (text : String) :
    Except Yaml.Fault (List (Scalar × Value)) := do
  match ← yaml text with
  | some (.mapping entries) => .ok (Placeholder.fillEntries env entries)
  | _ => .ok []

/-- The entries of the file of a directory, none if there is no file. -/
def readEntries (yaml : Yaml.Reader) (files : Files) (env : Environment) (root : Path) :
    Except ConfigError (List (Scalar × Value)) :=
  let p := root.join (Path.ofString fileName)
  if files.isFile p then do
    let text ← (files.readText p p.text).mapError .file
    (entriesOf yaml env text).mapError .yaml
  else .ok []

def load (yaml : Yaml.Reader) (files : Files) (env : Environment) (root : Path) :
    Except ConfigError Config := do
  let entries ← readEntries yaml files env root
  (ofEntries env root.text entries).mapError .value

end Config

end LuaCoverage

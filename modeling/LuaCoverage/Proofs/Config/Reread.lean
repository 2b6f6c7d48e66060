import LuaCoverage.Data.Value
import LuaCoverage.Proofs.Config.Complaint
import LuaCoverage.Proofs.Config.Filled
import LuaCoverage.Yaml.Reader

/-!
# Reading a configuration back

A configuration written as data has a value for every entry, so neither a standard value nor a
variable of the environment is asked for when it is read back. Every entry is read as it was
written.

Results:
* `Config.fillEntries_entries`: what filling in changes of the data of a configuration.
* `Config.ofEntries_entries`: the data of a configuration is read as the configuration.
* `Config.load_reread`: a configuration that was loaded is loaded again from its own data.
-/

namespace LuaCoverage
open Placeholder (Free fill fillItem fillEntries)

namespace Config

/-- The texts in the options of a configuration. -/
def texts (c : Config) : List String :=
  c.instrument.included ++ c.instrument.excluded
    ++ [c.instrument.language, c.instrument.probeName, c.report.outputDirectory]

variable {env : Environment} {c : Config}

/-! ## Filling in -/

theorem map_fillItem_of_free (env : Environment) {texts : List String} (h : ∀ s ∈ texts, Free s) :
    (texts.map Value.string).map (fillItem env) = texts.map Value.string := by
  rw [List.map_map]
  refine List.map_congr_left fun s hs => ?_
  exact congrArg Value.string (Placeholder.fill_of_free (h s hs))

/-- If the options have no placeholders, filling in leaves their data as it is. -/
theorem fillEntries_entries (hfree : ∀ s ∈ c.texts, Free s) :
    fillEntries env c.entries = { c with root := fill env c.root }.entries := by
  have hincluded : ∀ s ∈ c.instrument.included, Free s :=
    fun s hs => hfree s (by simp [texts, hs])
  have hexcluded : ∀ s ∈ c.instrument.excluded, Free s :=
    fun s hs => hfree s (by simp [texts, hs])
  have hlanguage : fill env c.instrument.language = c.instrument.language :=
    Placeholder.fill_of_free (hfree _ (by simp [texts]))
  have hprobeName : fill env c.instrument.probeName = c.instrument.probeName :=
    Placeholder.fill_of_free (hfree _ (by simp [texts]))
  have houtput : fill env c.report.outputDirectory = c.report.outputDirectory :=
    Placeholder.fill_of_free (hfree _ (by simp [texts]))
  simp only [entries, InstrumentOptions.toValue, ReportOptions.toValue, StatsDefaults.toValue,
    Value.object, List.map_cons, List.map_nil, Placeholder.fillEntries, Placeholder.fillValue,
    Placeholder.fillItem, Value.string, Value.int, Value.bool]
  simp only [map_fillItem_of_free env hincluded, map_fillItem_of_free env hexcluded, hlanguage,
    hprobeName, houtput]

/-! ## Reading -/

section
variable {entries : List (Scalar × Value)} {key : String}

theorem scopesAt_list {texts : List String}
    (h : Value.lookup entries key = some (.list (texts.map .string))) (default : List String) :
    Value.scopesAt key default entries = .ok texts := by
  have hshown : (texts.map Value.string).map Value.shown = texts := by
    rw [List.map_map]
    exact List.map_id texts
  rw [Value.scopesAt, h]
  simp only [Value.toItems, Except.ok_bind, hshown]

theorem textAt_string {s : String} (h : Value.lookup entries key = some (.string s))
    (default : String) : Value.textAt key default entries = s := by
  rw [Value.textAt, h]
  rfl

theorem integerAt_int {n : Int} (h : Value.lookup entries key = some (.int n)) (default : Int) :
    Value.integerAt key default entries = .ok n := by
  rw [Value.integerAt, h]
  rfl

theorem flagAt_bool {b : Bool} (h : Value.lookup entries key = some (.bool b)) (default : String) :
    Value.flagAt key default entries = .ok b := by
  rw [Value.flagAt, h]
  cases b <;> rfl

end

theorem instrumentOf_toValue (env : Environment) (o : InstrumentOptions)
    {entries : List (Scalar × Value)} (h : o.toValue = .mapping entries) :
    instrumentOf env entries = .ok o := by
  cases h
  rw [instrumentOf, scopesAt_list rfl, scopesAt_list rfl, textAt_string rfl, textAt_string rfl,
    integerAt_int rfl, flagAt_bool rfl]
  rfl

theorem reportOf_toValue (env : Environment) (o : ReportOptions)
    {entries : List (Scalar × Value)} (h : o.toValue = .mapping entries) :
    reportOf env entries = .ok o := by
  cases h
  rw [reportOf, textAt_string rfl, flagAt_bool rfl]
  rfl

theorem statsOf_toValue (o : StatsDefaults) {entries : List (Scalar × Value)}
    (h : o.toValue = .mapping entries) : statsOf entries = .ok o := by
  cases h
  rw [statsOf, integerAt_int rfl, integerAt_int rfl]
  rfl

/-- The data of a configuration is read as the configuration, with the directory that it is read
for. -/
theorem ofEntries_entries (env : Environment) (root : String) (c : Config) :
    ofEntries env root c.entries = .ok { c with root } := by
  have hinstrument : instrumentOf env (Value.entriesAt "instrument" c.entries) = .ok c.instrument :=
    instrumentOf_toValue env c.instrument rfl
  have hreport : reportOf env (Value.entriesAt "report" c.entries) = .ok c.report :=
    reportOf_toValue env c.report rfl
  have hstats : statsOf (Value.entriesAt "stats" c.entries) = .ok c.stats :=
    statsOf_toValue c.stats rfl
  rw [ofEntries, hinstrument, hreport, hstats]
  rfl

/-! ## Loading -/

variable {yaml : Yaml.Reader} {files written : Files} {other : Environment} {root : Path}
  {text : String}

/-- A configuration is for the directory that it was loaded from. -/
theorem root_of_load (h : load yaml files env root = .ok c) : c.root = root.text := by
  obtain ⟨entries, -, h⟩ := Except.bind_ok h
  obtain ⟨instrument, -, h⟩ := Except.bind_ok (Except.mapError_eq_ok_iff.1 h)
  obtain ⟨report, -, h⟩ := Except.bind_ok h
  obtain ⟨stats, -, h⟩ := Except.bind_ok h
  cases h
  rfl

theorem load_of_tells {entries : List (Scalar × Value)} (htells : Tells files root text)
    (hread : yaml text = .ok (some (.mapping entries))) :
    load yaml files env root = (ofEntries env root.text (fillEntries env entries)).mapError .value := by
  have hentries : readEntries yaml files env root = .ok (fillEntries env entries) := by
    unfold readEntries
    rw [if_pos (Files.isFile_of_readText htells), htells, Except.mapError_ok, Except.ok_bind,
      entriesOf, hread]
    rfl
  rw [load, hentries]
  rfl

/-- If the strings of a configuration that was loaded have no placeholders, its own data as the
content of the file makes it be loaded again, whatever the variables of the environment are. -/
theorem load_reread (hload : load yaml files env root = .ok c) (hfree : ∀ s ∈ c.texts, Free s)
    (htells : Tells written root text) (hread : yaml text = .ok (some c.toValue)) :
    load yaml written other root = .ok c := by
  rw [load_of_tells htells hread, fillEntries_entries hfree, ofEntries_entries]
  have hroot := root_of_load hload
  rw [← hroot]
  rfl

def directoryOf (text : String) : Files :=
  ⟨[(⟨"/", ["w", fileName]⟩, .file (Text.Utf8.ofString text))]⟩

/-- A configuration with a single scope, read from a placeholder. -/
def sampleConfig : Config where
  root := "/w"
  instrument := ⟨["a"], [], "lua", "p", 0, true⟩
  report := ⟨"o", false⟩
  stats := .standard

/-- Its data as the lines of a file. -/
def sampleLines : List String :=
  ["root: /w", "instrument:", "  include: [a]", "  exclude: []", "  language: lua",
    "  probe_name: p", "  id_base: 0", "  thread_safe: yes", "report:", "  output_dir: o",
    "  summary: no", "stats:", "  limit: 10", "  min_hits: 1"]

def sampleData : String := String.ofList (sampleLines.flatMap fun line => line.toList ++ ['\n'])

theorem load_reread_sample :
    load .standard (directoryOf "instrument:\n  include: $\x7bS\x7d\n  exclude: []\n")
        [("S", "a"), ("COVPATCH_PROBE_NAME", "p"), ("COVPATCH_THREAD_SAFE", "yes"),
          ("COVPATCH_OUTPUT_DIR", "o")] ⟨"/", ["w"]⟩
      = .ok sampleConfig
    ∧ load .standard (directoryOf sampleData) [("S", "b"), ("COVPATCH_PROBE_NAME", "q")] ⟨"/", ["w"]⟩
      = .ok sampleConfig := by
  have hload : load .standard (directoryOf "instrument:\n  include: $\x7bS\x7d\n  exclude: []\n")
      [("S", "a"), ("COVPATCH_PROBE_NAME", "p"), ("COVPATCH_THREAD_SAFE", "yes"),
        ("COVPATCH_OUTPUT_DIR", "o")] ⟨"/", ["w"]⟩ = .ok sampleConfig := by
    decide +kernel
  have hfree : ∀ s ∈ sampleConfig.texts, Free s := by
    simp only [Placeholder.free_iff]
    decide +kernel
  have hreturn : '\r' ∉ sampleData.toList := by
    rw [sampleData, String.toList_ofList]
    decide +kernel
  have htells : Tells (directoryOf sampleData) ⟨"/", ["w"]⟩ sampleData :=
    Files.readText_of_bytes? rfl hreturn _
  have hread : Yaml.Reader.standard sampleData = .ok (some sampleConfig.toValue) := by
    rw [Yaml.Reader.standard, sampleData, String.toList_ofList]
    decide +kernel
  exact ⟨hload, load_reread hload hfree htells hread⟩

end Config

end LuaCoverage

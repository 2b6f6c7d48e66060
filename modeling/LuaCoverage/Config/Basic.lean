import LuaCoverage.Data.Value
import LuaCoverage.Instrument.Prelude
import LuaCoverage.Scope.Basic

/-!
# Configuration

What is instrumented and how, where reports go, and how long the lists of the statistics are. A
configuration may hold values that are not valid; see `LuaCoverage.Config.Problem`.

Results:
* `Config.standard_probeName`: the standard probe name is a valid one.
-/

namespace LuaCoverage

/-- Which modules are instrumented, and how. -/
structure InstrumentOptions where
  included : List String
  excluded : List String
  language : String
  probeName : String
  idBase : Int
  isThreadSafe : Bool
  deriving DecidableEq, Repr

/-- Where reports go, and whether the lines of every module are summed up. -/
structure ReportOptions where
  outputDirectory : String
  summary : Bool
  deriving DecidableEq, Repr

/-- The length of the lists of the statistics, and the hits that an entry needs. -/
structure StatsDefaults where
  limit : Int
  minHits : Int
  deriving DecidableEq, Repr

/-- A configuration, and the directory that it is for. -/
structure Config where
  root : String
  instrument : InstrumentOptions
  report : ReportOptions
  stats : StatsDefaults
  deriving DecidableEq, Repr

def InstrumentOptions.standard : InstrumentOptions :=
  ⟨Scope.standardIncludes, Scope.standardExcludes, "lua", ProbeName.standard.text, 0, false⟩

def ReportOptions.standard : ReportOptions := ⟨"coverage", false⟩

def StatsDefaults.standard : StatsDefaults := ⟨10, 1⟩

/-- The configuration that is used for a directory if none is given. -/
def Config.standard (root : String) : Config := ⟨root, .standard, .standard, .standard⟩

theorem Config.standard_probeName (root : String) :
    ProbeName.ofString? (standard root).instrument.probeName = .ok ProbeName.standard := by
  simp [standard, InstrumentOptions.standard, ProbeName.ofString?, ProbeName.standard.isIdentifier]

def InstrumentOptions.toValue (o : InstrumentOptions) : Value :=
  .object [("include", .list (o.included.map .string)), ("exclude", .list (o.excluded.map .string)),
    ("language", .string o.language), ("probe_name", .string o.probeName),
    ("id_base", .int o.idBase), ("thread_safe", .bool o.isThreadSafe)]

def ReportOptions.toValue (o : ReportOptions) : Value :=
  .object [("output_dir", .string o.outputDirectory), ("summary", .bool o.summary)]

def StatsDefaults.toValue (o : StatsDefaults) : Value :=
  .object [("limit", .int o.limit), ("min_hits", .int o.minHits)]

/-- The entries of a configuration as data. -/
def Config.entries (c : Config) : List (Scalar × Value) :=
  [(.string "root", .string c.root), (.string "instrument", c.instrument.toValue),
    (.string "report", c.report.toValue), (.string "stats", c.stats.toValue)]

def Config.toValue (c : Config) : Value := .mapping c.entries

end LuaCoverage

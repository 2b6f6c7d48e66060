import LuaCoverage.Config.Basic
import LuaCoverage.Lua.Dialect

/-!
# Problems of a configuration

What a configuration has to satisfy: scopes to include, a language that is known, a probe name that
is an identifier, a directory for reports, and no negative numbers. All problems are listed.

Results:
* `Config.problems_standard`: the standard configuration has no problems.
-/

namespace LuaCoverage
open LuaCoverage.Decimal

/-- What is wrong with a configuration. -/
inductive ConfigProblem
  | noScopes
  | language (name : String)
  | probeName (e : InvalidName)
  | noOutput
  | negative (key : String) (n : Int)
  deriving DecidableEq, Repr

def ConfigProblem.message : ConfigProblem → String
  | .noScopes => "instrument.include must name at least one scope"
  | .language name => "instrument.language must be one of ['lua', 'luau'] (got: " ++ name ++ ")"
  | .probeName e => "instrument.probe_name must be a valid identifier (got: "
      ++ Text.literal e.text ++ ")"
  | .noOutput => "report.output_dir is required"
  | .negative key n => key ++ " must be non-negative (got: " ++ intText n ++ ")"

namespace Config

/-- A problem if a number is negative. -/
def negativeProblem (key : String) (n : Int) : List ConfigProblem :=
  if n < 0 then [.negative key n] else []

/-- The problems of the options of an instrumentation. -/
def instrumentProblems (o : InstrumentOptions) : List ConfigProblem :=
  (if o.included.isEmpty then [.noScopes] else [])
    ++ (if (Lua.Dialect.ofName? o.language).isNone then [.language o.language] else [])
    ++ (match ProbeName.ofString? o.probeName with
      | .ok _ => []
      | .error e => [.probeName e])
    ++ negativeProblem "instrument.id_base" o.idBase

def problems (c : Config) : List ConfigProblem :=
  instrumentProblems c.instrument
    ++ (if c.report.outputDirectory.isEmpty then [.noOutput] else [])
    ++ negativeProblem "stats.limit" c.stats.limit
    ++ negativeProblem "stats.min_hits" c.stats.minHits

theorem problems_standard (root : String) : (standard root).problems = [] := by
  have h := standard_probeName root
  simp only [problems, instrumentProblems, h]
  simp [standard, InstrumentOptions.standard, ReportOptions.standard, StatsDefaults.standard,
    Scope.standardIncludes, negativeProblem, Lua.Dialect.ofName?]

end Config

end LuaCoverage

import LuaCoverage.Data.Show

/-!
# Diagnostics

A problem that does not stop the work: a module that was left as it is, or hits that were dropped.
-/

namespace LuaCoverage

/-- What a diagnostic is about. -/
inductive DiagnosticKind
  | analysis
  | instrumentation
  | staleProbe
  deriving DecidableEq, Repr

def DiagnosticKind.name : DiagnosticKind → String
  | .analysis => "analysis"
  | .instrumentation => "instrumentation"
  | .staleProbe => "stale_probe"

def DiagnosticKind.ofName? (name : String) : Option DiagnosticKind :=
  [analysis, instrumentation, staleProbe].find? fun kind => kind.name == name

/-- A problem, and the module it is about. The path of dropped hits may be any scalar. -/
structure Diagnostic where
  kind : DiagnosticKind
  path : Scalar
  message : String
  deriving DecidableEq, Repr

end LuaCoverage

import LuaCoverage.Data.Table
import LuaCoverage.Host.Basic
import LuaCoverage.Scope.Basic

/-!
# Modules in memory

A host that keeps sources and overrides in tables, and the probe functions under their names. It
runs nothing.

Results:
* `Memory.load_overriding`, `Memory.load_restoring`: what is loaded behind an override and a
  restore.
-/

namespace LuaCoverage

/-- Modules in memory. -/
structure Memory where
  sources : Table String String
  overrides : Table String String
  probes : Table String Recorder
  deriving DecidableEq, Repr

namespace Memory

/-- Modules that are loaded as they are. -/
def ofSources (sources : Table String String) : Memory := ⟨sources, [], []⟩

/-- The paths of the modules in a scope. -/
def modules (m : Memory) (scope : String) : List String :=
  Text.sortTexts (m.sources.keys.filter fun path => Scope.contains scope path)

/-- The text that is loaded for a module. -/
def load (m : Memory) (path : String) : Except Fault String :=
  match m.sources.find? path with
  | none => .error (.unknownModule path)
  | some source => .ok ((m.overrides.find? path).getD source)

/-- Loads a text in place of a module. -/
def overriding (m : Memory) (path text : String) : Memory :=
  { m with overrides := m.overrides.put path text }

/-- Loads a module as it is again. -/
def restoring (m : Memory) (path : String) : Memory :=
  { m with overrides := m.overrides.erase path }

/-- Whether a text is loaded in place of a module. -/
def isOverridden (m : Memory) (path : String) : Bool := (m.overrides.find? path).isSome

def probe? (m : Memory) (name : String) : Option Recorder := m.probes.find? name

theorem load_overriding {m : Memory} {path source : String} (text : String)
    (h : m.sources.find? path = some source) : (m.overriding path text).load path = .ok text := by
  simp [load, overriding, h, Table.find?_put_self]

theorem load_restoring {m : Memory} {path source : String}
    (h : m.sources.find? path = some source) : (m.restoring path).load path = .ok source := by
  simp [load, restoring, h, Table.find?_erase_self]

def host : Host Memory where
  name := "memory"
  listModules scope m := .ok (m.modules scope) m
  resolve path m :=
    match m.sources.find? path with
    | some source => .ok source m
    | none => .fail (.unknownModule path) m
  override path text m :=
    match m.sources.find? path with
    | some _ => .ok () (m.overriding path text)
    | none => .fail (.unknownModule path) m
  restore path m := .ok () (m.restoring path)
  installProbe name recorder m := .ok () { m with probes := m.probes.put name recorder }
  removeProbe name m := .ok () { m with probes := m.probes.erase name }

end Memory

end LuaCoverage

import LuaCoverage.Data.Table
import LuaCoverage.Host.Basic
import LuaCoverage.Scope.Basic

/-!
# Modules of an interpreter

A host inside an interpreter: every module carries its source and what is loaded in its place, and
the probe function is a global function like those that the interpreter has itself.

Results:
* `Interpreter.update_map_path`: an update keeps the modules and their order.
-/

namespace LuaCoverage

/-- A module of an interpreter. -/
structure LoadedModule where
  path : String
  source : String
  replacement : Option String
  deriving DecidableEq, Repr

def LoadedModule.text (m : LoadedModule) : String := m.replacement.getD m.source

/-- A global function: one of the interpreter itself, or a probe function. -/
inductive GlobalFunction
  | builtIn
  | probe (r : Recorder)
  deriving DecidableEq, Repr

/-- The modules and the global functions of an interpreter. -/
structure Interpreter where
  modules : List LoadedModule
  globals : Table String GlobalFunction
  deriving DecidableEq, Repr

namespace Interpreter

/-- The functions that an interpreter has from the start. -/
def builtIns : List String :=
  ["assert", "collectgarbage", "dofile", "error", "getmetatable", "ipairs", "load", "loadfile",
    "next", "pairs", "pcall", "print", "rawequal", "rawget", "rawlen", "rawset", "require",
    "select", "setmetatable", "tonumber", "tostring", "type", "warn", "xpcall"]

/-- An interpreter whose modules are loaded as they are. -/
def ofSources (sources : Table String String) : Interpreter where
  modules := sources.map fun (path, source) => ⟨path, source, none⟩
  globals := builtIns.map fun name => (name, .builtIn)

def module? (i : Interpreter) (path : String) : Option LoadedModule :=
  i.modules.find? fun m => m.path == path

/-- The text that is loaded for a path. -/
def sourceOf? (i : Interpreter) (path : String) : Option String :=
  (i.module? path).map LoadedModule.text

/-- Sets what is loaded in place of a module. -/
def update (path : String) (replacement : Option String) (modules : List LoadedModule) :
    List LoadedModule :=
  modules.map fun m => if m.path = path then { m with replacement } else m

theorem update_map_path (path : String) (replacement : Option String)
    (modules : List LoadedModule) :
    (update path replacement modules).map LoadedModule.path = modules.map LoadedModule.path := by
  simp only [update, List.map_map]
  refine List.map_congr_left fun m _ => ?_
  simp only [Function.comp]
  split <;> rfl

/-- Whether there is a global function of a name. -/
def hasFunction (i : Interpreter) (name : String) : Bool := (i.globals.find? name).isSome

def host : Host Interpreter where
  name := "lupa"
  listModules scope i :=
    let paths := i.modules.map LoadedModule.path
    .ok (Text.sortTexts (paths.filter fun path => Scope.contains scope path)) i
  resolve path i :=
    match i.module? path with
    | some m => .ok m.source i
    | none => .fail (.unknownModule path) i
  override path text i :=
    if (i.module? path).isSome then
      .ok () { i with modules := update path (some text) i.modules }
    else .fail (.unknownModule path) i
  restore path i := .ok () { i with modules := update path none i.modules }
  installProbe name recorder i := .ok () { i with globals := i.globals.put name (.probe recorder) }
  removeProbe name i := .ok () { i with globals := i.globals.erase name }

end Interpreter

end LuaCoverage

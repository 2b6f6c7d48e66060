import LuaCoverage.Text.Class.Identifier
import LuaCoverage.Text.Literal

/-!
# The prelude

Instrumented modules call a global function, the probe; its name has to be an identifier. The
prelude is a Lua script that is loaded before them. It defines the probe, which counts in tables,
and a second function that prints the counts as a dump: a JSON object between two markers.

Results:
* `ProbeName.ofString?_eq_ok_iff`: a name is accepted if and only if it is an identifier.
-/

namespace LuaCoverage

/-- An identifier that names the probe function. -/
structure ProbeName where
  text : String
  isIdentifier : Text.isIdentifier text.toList = true

/-- A text that is no identifier and so no probe name. -/
structure InvalidName where
  text : String
  deriving DecidableEq, Repr

def InvalidName.message (e : InvalidName) : String :=
  "probe name must be a valid identifier (got: " ++ Text.literal e.text ++ ")"

namespace ProbeName

def ofString? (text : String) : Except InvalidName ProbeName :=
  if h : Text.isIdentifier text.toList = true then .ok ⟨text, h⟩ else .error ⟨text⟩

theorem ofString?_eq_ok_iff (text : String) :
    (∃ name, ofString? text = .ok name) ↔ Text.isIdentifier text.toList = true := by
  unfold ofString?
  split <;> simp_all

theorem text_of_ofString? {text : String} {name : ProbeName} (h : ofString? text = .ok name) :
    name.text = text := by
  unfold ofString? at h
  split at h
  · cases h
    rfl
  · cases h

/-- The name that is used if none is given. -/
def standard : ProbeName := ⟨"__covpatch", by decide +kernel⟩

end ProbeName

/-- What stands in front of a dump and behind it. -/
def Dump.marker : String := "__COVPATCH__"

namespace Prelude

/-- The name of the file that holds the prelude. -/
def fileName : String := "covpatch_prelude.lua"

def lines (name : ProbeName) : List String :=
  let n := name.text
  let counts := n ++ "_counts"
  ["-- covpatch runtime prelude: load before any instrumented module.",
    "local counts = " ++ counts ++ " or \x7b\x7d",
    counts ++ " = counts",
    "",
    "local function bump(path, kind, id, arm)",
    "  local module = counts[path]",
    "  if module == nil then",
    "    module = \x7b s = \x7b\x7d, f = \x7b\x7d, b = \x7b\x7d \x7d",
    "    counts[path] = module",
    "  end",
    "  if kind == \"b\" then",
    "    local arms = module.b[id]",
    "    if arms == nil then",
    "      arms = \x7b\x7d",
    "      module.b[id] = arms",
    "    end",
    "    arms[arm] = (arms[arm] or 0) + 1",
    "  else",
    "    local bucket = module[kind]",
    "    bucket[id] = (bucket[id] or 0) + 1",
    "  end",
    "end",
    "",
    n ++ " = function(path, kind, id, arm, ...)",
    "  if kind == \"c\" then",
    "    if (...) then arm = 0 else arm = 1 end",
    "    kind = \"b\"",
    "  end",
    "  pcall(bump, path, kind, id, arm)",
    "  return ...",
    "end",
    "",
    "local function quote(text)",
    "  local escaped = string.gsub(text, '[%c\"\\\\]', function(c)",
    "    return string.format(\"\\\\u%04x\", string.byte(c))",
    "  end)",
    "  return '\"' .. escaped .. '\"'",
    "end",
    "",
    "local function encode_counts(bucket)",
    "  local parts = \x7b\x7d",
    "  for id, hits in pairs(bucket) do",
    "    parts[#parts + 1] = quote(tostring(id)) .. \":\" .. string.format(\"%d\", hits)",
    "  end",
    "  return \"\x7b\" .. table.concat(parts, \",\") .. \"\x7d\"",
    "end",
    "",
    n ++ "_dump = function()",
    "  local modules = \x7b\x7d",
    "  for path, module in pairs(counts) do",
    "    local branches = \x7b\x7d",
    "    for id, arms in pairs(module.b) do",
    "      branches[#branches + 1] = quote(tostring(id)) .. \":\" .. encode_counts(arms)",
    "    end",
    "    modules[#modules + 1] = quote(path)",
    "      .. ':\x7b\"s\":' .. encode_counts(module.s)",
    "      .. ',\"f\":' .. encode_counts(module.f)",
    "      .. ',\"b\":\x7b' .. table.concat(branches, \",\") .. \"\x7d\x7d\"",
    "  end",
    "  local text = \"" ++ Dump.marker ++ "\x7b\" .. table.concat(modules, \",\") .. \"\x7d"
      ++ Dump.marker ++ "\"",
    "  print(text)",
    "  return text",
    "end"]

def text (name : ProbeName) : String := String.join ((lines name).map fun line => line ++ "\n")

end Prelude

end LuaCoverage

import LuaCoverage.Analysis.Basic
import LuaCoverage.Cache
import LuaCoverage.Digest.Sha256

/-!
# Analyses that remember trees

The trees that were used last are kept, those of sources that do not fit among them. A tree is
filed under the fingerprint of its source and the language, so a source that was parsed before is
not parsed again, whatever the path and the first id are now.

Results:
* `Trees.tree?_of_get`: a tree that is kept is given back.
-/

namespace LuaCoverage
open LuaCoverage.Lua LuaCoverage.Text

abbrev Trees := Cache (Except Flawed Node)

namespace Trees

/-- No trees yet, and room for 256. -/
def empty : Trees := Cache.empty 256

/-- The name that a tree is filed under. -/
def key (language : String) (source : Bytes) : String :=
  Digest.fingerprint source ++ ":" ++ language

/-- The tree of a source, kept or new. In a language that is not known there is none. -/
def tree? (trees : Trees) (parser : Parser) (language : String) (source : Bytes) :
    Option (Except Flawed Node) × Trees :=
  match trees.get (key language source) with
  | (some tree, trees) => (some tree, trees)
  | (none, trees) =>
    match Dialect.ofName? language with
    | none => (none, trees)
    | some dialect =>
      let tree := parser dialect source
      (some tree, (trees.put? (key language source) tree).getD trees)

/-- The root of the tree that was asked for in a language. -/
def root (language : String) : Option (Except Flawed Node) → Except Analysis.Cause Node
  | none => .error (.unknownLanguage language)
  | some tree => tree.mapError fun flawed => .notParsed flawed.ranges

theorem tree?_of_get {trees : Trees} {language : String} {source : Bytes}
    {tree : Except Flawed Node} (h : (trees.get (key language source)).1 = some tree)
    (parser : Parser) : (trees.tree? parser language source).1 = some tree := by
  unfold tree?
  split
  · next kept _ hget =>
    rw [hget] at h
    exact h
  · next hget =>
    rw [hget] at h
    cases h

end Trees

namespace Analyzer

/-- Analyses a module with the trees that are kept. -/
def analyzeWith (a : Analyzer) (source : Bytes) (path : String) (trees : Trees) :
    Except AnalysisError Analysis × Trees :=
  let language := a.languageOf path
  let (tree?, trees) := trees.tree? a.parser language source
  let result := do
    let root ← Trees.root language tree?
    ofTree a.idBase path language source root
  (result.mapError fun cause => ⟨path, cause⟩, trees)

end Analyzer

end LuaCoverage

import LuaCoverage.Counter.Store
import LuaCoverage.Data.Convert
import LuaCoverage.Probe.Basic
import LuaCoverage.Text.Order

/-!
# Statistics

Which probes ran most often. The totals of a kind cover all its probes; the lists hold the probes
with enough hits, those with more hits first, then those with the smaller id, then in the order of
their files. The hottest files are ranked by the hits of all their probes, whichever kinds take
part.

The options say how many entries a list has, how many hits an entry needs, and which kinds of probes
take part. Neither number can be negative.

Results:
* `StatsOptions.make_standard`: the options that are used if none are given.
* `Stats.length_rank_le`: no list is longer than its limit.
-/

namespace LuaCoverage

/-- What the statistics show. -/
structure StatsOptions where
  limit : Nat
  minHits : Nat
  statements : Bool
  functions : Bool
  branches : Bool
  deriving DecidableEq, Repr

namespace StatsOptions

def standard : StatsOptions := ⟨10, 1, true, true, true⟩

/-- Whether a kind of probes takes part. -/
def shows (o : StatsOptions) : ProbeKind → Bool
  | .statement => o.statements
  | .function => o.functions
  | .branch => o.branches

/-- Options with numbers that may turn out negative. -/
def make (limit minHits : Int) (statements functions branches : Bool) :
    Except Mismatch StatsOptions :=
  if limit < 0 then .error (.negative "limit" limit)
  else if minHits < 0 then .error (.negative "min_hits" minHits)
  else .ok ⟨limit.toNat, minHits.toNat, statements, functions, branches⟩

theorem make_standard : make 10 1 true true true = .ok standard := rfl

/-- Whether an entry that may be left out holds. -/
def flagAt (key : String) (v : Value) : Bool :=
  match v.get? key with
  | some flag => !flag.isFalsy
  | none => true

/-- The integer of an entry that may be left out. -/
def intAt (key : String) (default : Int) (v : Value) : Except Mismatch Int :=
  match v.get? key with
  | some n => n.toInt
  | none => .ok default

def ofValue (v : Value) : Except Mismatch StatsOptions := do
  let limit ← intAt "limit" standard.limit v
  let minHits ← intAt "minHits" standard.minHits v
  make limit minHits (flagAt "includeStatements" v) (flagAt "includeFunctions" v)
    (flagAt "includeBranches" v)

end StatsOptions

/-- A probe with its hits, and what is needed to find it. -/
structure HotSpot where
  id : Int
  file : String
  line : Int
  hits : Int
  name : Option String
  counts : Option (List Int)
  deriving DecidableEq, Repr

/-- A file with the hits of its probes. -/
structure HotFile where
  file : String
  hits : Int
  deriving DecidableEq, Repr

/-- The probes of a kind: how many there are, their hits, and the hottest of them. -/
structure Category where
  points : Nat
  hits : Int
  top : List HotSpot
  deriving DecidableEq, Repr

/-- The statistics of a store. -/
structure Stats where
  statements : Category
  functions : Category
  branches : Category
  files : List HotFile
  deriving DecidableEq, Repr

namespace HotSpot

/-- Whether a probe is ranked no lower than another. -/
def precedes (a b : HotSpot) : Bool :=
  a.hits > b.hits || (a.hits == b.hits
    && (a.id < b.id || (a.id == b.id && Text.precedes a.file b.file)))

def toValue (s : HotSpot) : Value :=
  .object ([("id", .int s.id), ("file", .string s.file), ("line", .int s.line),
      ("hits", .int s.hits)]
    ++ (s.name.map fun name => ("name", Value.string name)).toList
    ++ (s.counts.map fun counts => ("counts", Value.list (counts.map Value.int))).toList)

end HotSpot

namespace HotFile

/-- Whether a file is ranked no lower than another. -/
def precedes (a b : HotFile) : Bool :=
  a.hits > b.hits || (a.hits == b.hits && Text.precedes a.file b.file)

def toValue (f : HotFile) : Value := .object [("file", .string f.file), ("hits", .int f.hits)]

end HotFile

namespace Stats

/-- The probes of a module by their kinds. -/
structure Spots where
  statements : List HotSpot
  functions : List HotSpot
  branches : List HotSpot
  deriving Repr

def Spots.ofKind (s : Spots) : ProbeKind → List HotSpot
  | .statement => s.statements
  | .function => s.functions
  | .branch => s.branches

def sumHits (spots : List HotSpot) : Int := Tally.sum (spots.map HotSpot.hits)

/-- The probes of a module with their hits. -/
def spots (m : ProbeMap) (t : Tally) : Except LengthError Spots := do
  let statements ← pair m.statements t.statements
  let functions ← pair m.functions t.functions
  let branches ← pair m.branches t.branches
  .ok ⟨statements.map fun (p, hits) => ⟨p.id, m.path, p.loc.start.line, hits, none, none⟩,
    functions.map fun (p, hits) => ⟨p.id, m.path, p.line, hits, some p.name, none⟩,
    branches.map fun (p, arms) => ⟨p.id, m.path, p.line, Tally.sum arms, none, some arms⟩⟩

/-- The first probes with enough hits, ranked. -/
def rank (o : StatsOptions) (all : List HotSpot) : List HotSpot :=
  ((all.filter fun s => s.hits ≥ Int.ofNat o.minHits).mergeSort HotSpot.precedes).take o.limit

theorem length_rank_le (o : StatsOptions) (all : List HotSpot) : (rank o all).length ≤ o.limit := by
  simp only [rank, List.length_take]
  omega

def category (o : StatsOptions) (kind : ProbeKind) (modules : List Spots) : Category :=
  let all := if o.shows kind then modules.flatMap fun s => s.ofKind kind else []
  ⟨all.length, sumHits all, rank o all⟩

def moduleHits (s : Spots) : Int := sumHits s.statements + sumHits s.functions + sumHits s.branches

/-- The first files with enough hits, ranked. -/
def rankFiles (o : StatsOptions) (files : Table String Int) : List HotFile :=
  let all := files.map fun (path, hits) => HotFile.mk path hits
  ((all.filter fun f => f.hits ≥ Int.ofNat o.minHits).mergeSort HotFile.precedes).take o.limit

/-- The statistics of modules with their counts. -/
def build (s : Store) (maps : List ProbeMap) (o : StatsOptions) : Except LengthError Stats := do
  let modules ← (ProbeMap.sort maps).mapM fun m => do
    let found ← spots m (s.tallyFor m)
    .ok (m.path, found)
  let all := modules.map (·.2)
  let files := Table.ofPairs (modules.map fun (path, found) => (path, moduleHits found))
  .ok ⟨category o .statement all, category o .function all, category o .branch all,
    rankFiles o files⟩

/-- The totals of a category as data. -/
def totals (c : Category) : Value := .object [("points", .nat c.points), ("hits", .int c.hits)]

/-- The list of a category as data. -/
def top (c : Category) : Value := .list (c.top.map HotSpot.toValue)

def toValue (s : Stats) : Value :=
  .object [
    ("totals", .object [("statements", totals s.statements), ("functions", totals s.functions),
      ("branches", totals s.branches)]),
    ("topStatements", top s.statements), ("topFunctions", top s.functions),
    ("topBranches", top s.branches), ("hotFiles", .list (s.files.map HotFile.toValue))]

end Stats

end LuaCoverage

import LuaCoverage.Console.Table
import LuaCoverage.Decimal.Shortest
import LuaCoverage.Diagnostic
import LuaCoverage.Report.Record
import LuaCoverage.Stats.Basic

/-!
# Console output

Messages, the coverage of modules, and the statistics, as they are printed. How much of what could
run did run is a percentage with one place, and the two numbers; nothing to run counts as all of it.
A long path is cut off in front.

Results:
* `Rate.percent_of_total_zero`: nothing to run is a full rate.
* `expandTabs_of_not_mem`: a text without tabs is printed as it is.
* `shorten_of_le`: a path that is short enough is printed whole.
-/

namespace LuaCoverage.Console
open LuaCoverage.Decimal

/-- How many of a total are covered. -/
structure Rate where
  covered : Int
  total : Int
  deriving DecidableEq, Repr

namespace Rate

def add (a b : Rate) : Rate := ⟨a.covered + b.covered, a.total + b.total⟩

/-- The percentage, rounded as a quotient and then as a product. -/
def percent (r : Rate) : Binary64 :=
  if r.total = 0 then Binary64.ofInt 100
  else
    let negative := (r.covered < 0) != (r.total < 0)
    (Binary64.ofRatio negative r.covered.natAbs r.total.natAbs).mul (Binary64.ofInt 100)

theorem percent_of_total_zero (covered : Int) :
    percent ⟨covered, 0⟩ = Binary64.ofInt 100 := rfl

/-- Whether the percentage is at least a whole number. -/
def atLeast (bound : Int) (r : Rate) : Bool :=
  match r.percent with
  | .infinity negative => !negative
  | x =>
    match x.toRatio? with
    | some (num, den) => num ≥ bound * den
    | none => false

def color (r : Rate) : String :=
  if r.atLeast 80 then "green" else if r.atLeast 50 then "yellow" else "red"

def percentText (r : Rate) : String := r.percent.fixed 1 ++ "%"

def countText (r : Rate) : String := "(" ++ intText r.covered ++ "/" ++ intText r.total ++ ")"

def text (r : Rate) : String := r.percentText ++ " " ++ r.countText

/-- The rate as text with marks for its colours. -/
def markup (r : Rate) (bold : Bool) : String :=
  let style := if bold then "bold " ++ r.color else r.color
  "[" ++ style ++ "]" ++ r.percentText ++ "[/" ++ style ++ "] [dim]" ++ r.countText ++ "[/dim]"

end Rate

/-- How far apart the columns are to which tabs lead. -/
def tabStop : Nat := 8

/-- Puts blanks in place of tabs, from a column on: as many as lead to the next stop. -/
def expandTabs : (column : Nat) → List Char → List Char
  | _, [] => []
  | column, c :: rest =>
    if c = '\t' then
      let blanks := tabStop - column % tabStop
      List.replicate blanks ' ' ++ expandTabs (column + blanks) rest
    else if c = '\n' then c :: expandTabs 0 rest
    else c :: expandTabs (column + Text.cellWidth c) rest

theorem expandTabs_of_not_mem {text : List Char} (h : '\t' ∉ text) (column : Nat) :
    expandTabs column text = text := by
  induction text generalizing column with
  | nil => rfl
  | cons c rest ih =>
    simp only [List.mem_cons, not_or] at h
    simp [expandTabs, Ne.symm h.1, ih h.2]

/-- A message without the characters that move the cursor, on a line of its own. -/
def line (text : String) : String :=
  String.ofList (expandTabs 0 (text.toList.filter fun c => !isCursorControl c)) ++ "\n"

/-- What a message is about. -/
inductive Level
  | success
  | error
  | warning
  | info
  deriving DecidableEq, Repr

def Level.ofName? (name : String) : Option Level :=
  if name = "success" then some .success
  else if name = "error" then some .error
  else if name = "warning" then some .warning
  else if name = "info" then some .info
  else none

/-- A message with the mark of its level. -/
def message (level : Level) (text : String) : String :=
  match level with
  | .success => line ("✓ " ++ text)
  | .error => line ("✗ " ++ text)
  | .warning => line ("⚠ " ++ text)
  | .info => line text

def diagnostics (all : List Diagnostic) : String :=
  String.join (all.map fun d =>
    message .warning (d.path.shown ++ " (" ++ d.kind.name ++ "): " ++ d.message))

def maxPathLength : Nat := 50

/-- The end of a path, with a mark in front if something is cut off. -/
def shorten (path : String) : String :=
  let chars := path.toList
  if chars.length ≤ maxPathLength then path
  else String.ofList ('…' :: chars.drop (chars.length - (maxPathLength - 1)))

theorem shorten_of_le {path : String} (h : path.toList.length ≤ maxPathLength) :
    shorten path = path := by
  simp only [shorten]
  rw [if_pos h]

def rateOf (counts : List Int) : Rate :=
  ⟨((counts.filter fun n => n > 0).length : Int), (counts.length : Int)⟩

/-- The rates of statements, functions and branches. -/
structure Rates where
  statements : Rate
  functions : Rate
  branches : Rate
  deriving Repr

namespace Rates

def zero : Rates := ⟨⟨0, 0⟩, ⟨0, 0⟩, ⟨0, 0⟩⟩

def ofRecord (r : Record) : Rates :=
  ⟨rateOf r.statements.values, rateOf r.functions.values, rateOf r.branches.values.flatten⟩

def add (a b : Rates) : Rates :=
  ⟨a.statements.add b.statements, a.functions.add b.functions, a.branches.add b.branches⟩

/-- A row of rates behind a name. -/
def row (name : String) (r : Rates) : List String :=
  [name, r.statements.text, r.functions.text, r.branches.text]

end Rates

/-- The coverage of the modules of a report, and of all of them together. -/
def coverage (r : Report) : String :=
  let records := r.records.mergeSort fun a b => Text.precedes a.1 b.1
  let rates := records.map fun (path, record) => (path, Rates.ofRecord record)
  let all := (rates.map (·.2)).foldl Rates.add Rates.zero
  let table : Table := {
    title := "Coverage Summary"
    columns := [⟨"Module", .left⟩, ⟨"Statements", .right⟩, ⟨"Functions", .right⟩,
      ⟨"Branches", .right⟩]
    sections := [rates.map fun (path, rates) => rates.row (shorten path), [all.row "Overall"]] }
  table.text

/-- The totals of the kinds of probes. -/
def totals (s : Stats) : Table where
  title := "Runtime Totals"
  columns := [⟨"Category", .left⟩, ⟨"Points", .right⟩, ⟨"Hits", .right⟩]
  sections :=
    let row := fun (name : String) (c : Category) => [name, natText c.points, intText c.hits]
    [[row "Statements" s.statements, row "Functions" s.functions, row "Branches" s.branches]]

def place (spot : HotSpot) : String := shorten spot.file ++ ":" ++ intText spot.line

def topStatements (spots : List HotSpot) : Table where
  title := "Top Statements"
  columns := [⟨"Id", .right⟩, ⟨"Location", .left⟩, ⟨"Hits", .right⟩]
  sections := [spots.map fun spot => [intText spot.id, place spot, intText spot.hits]]

def topFunctions (spots : List HotSpot) : Table where
  title := "Top Functions"
  columns := [⟨"Id", .right⟩, ⟨"Name", .left⟩, ⟨"Location", .left⟩, ⟨"Hits", .right⟩]
  sections := [spots.map fun spot =>
    [intText spot.id, spot.name.getD "", place spot, intText spot.hits]]

def topBranches (spots : List HotSpot) : Table where
  title := "Top Branches"
  columns := [⟨"Id", .right⟩, ⟨"Location", .left⟩, ⟨"Hits", .right⟩, ⟨"Paths", .left⟩]
  sections := [spots.map fun spot =>
    [intText spot.id, place spot, intText spot.hits,
      " / ".intercalate ((spot.counts.getD []).map intText)]]

def hotFiles (files : List HotFile) : Table where
  title := "Hot Files"
  columns := [⟨"File", .left⟩, ⟨"Hits", .right⟩]
  sections := [files.map fun f => [shorten f.file, intText f.hits]]

/-- The statistics: the totals, and every list that is not empty. -/
def statistics (s : Stats) : String :=
  let drawn := fun (isEmpty : Bool) (t : Table) => if isEmpty then "" else t.text
  (totals s).text
    ++ drawn s.statements.top.isEmpty (topStatements s.statements.top)
    ++ drawn s.functions.top.isEmpty (topFunctions s.functions.top)
    ++ drawn s.branches.top.isEmpty (topBranches s.branches.top)
    ++ drawn s.files.isEmpty (hotFiles s.files)

end LuaCoverage.Console

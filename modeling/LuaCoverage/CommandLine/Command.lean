import LuaCoverage.CommandLine.Arguments
import LuaCoverage.Config.Reading
import LuaCoverage.Data.Convert
import LuaCoverage.Files
import LuaCoverage.Probe.Manifest

/-!
# Commands

What the program is asked for: to instrument a source tree, to make a report or statistics of a
dump, to show a configuration or to check it. Paths stand in a command as they were given.

A command names paths that have to be there, or must not be something else; this is checked against
the files before it runs.

Results:
* `Request.read_version`: whatever follows, the version is shown if it is asked for.
-/

namespace LuaCoverage.CommandLine

/-- A request to instrument a source tree. -/
structure InstrumentRequest where
  source : String
  output : String
  included : List String
  excluded : List String
  config : String
  deriving DecidableEq, Repr

/-- A request for a report. -/
structure ReportRequest where
  dump : String
  map : String
  output : Option String
  summary : Option Bool
  config : String
  deriving DecidableEq, Repr

/-- A request for statistics. -/
structure StatsRequest where
  dump : String
  map : String
  limit : Option Nat
  minHits : Option Nat
  statements : Bool
  functions : Bool
  branches : Bool
  asJson : Bool
  config : String
  deriving DecidableEq, Repr

/-- What is to be done. -/
inductive Command
  | instrument (r : InstrumentRequest)
  | report (r : ReportRequest)
  | stats (r : StatsRequest)
  | showConfig (config : String) (asJson : Bool)
  | checkConfig (config : String)
  deriving DecidableEq, Repr

/-- What the program is asked for. -/
inductive Request
  | run (c : Command)
  | version
  | help
  deriving DecidableEq, Repr

/-- The directory of the configuration, here unless it is given. -/
def configOf (a : Arguments) : String := (a.value? "--path").getD "."

/-- The value of an option that has to be given. -/
def required (a : Arguments) (option : String) : Except UsageError String :=
  match a.value? option with
  | some value => .ok value
  | none => .error (.missing option)

def operand (what : String) (a : Arguments) : Except UsageError String :=
  match a.operands with
  | [] => .error (.missing what)
  | [text] => .ok text
  | _ :: argument :: _ => .error (.surplus argument)

/-- Makes sure that there are no operands. -/
def noOperand (a : Arguments) : Except UsageError Unit :=
  match a.operands with
  | [] => .ok ()
  | argument :: _ => .error (.surplus argument)

/-- The number that is the value of an option. -/
def numberOf (a : Arguments) (option : String) : Except UsageError (Option Nat) :=
  match a.value? option with
  | none => .ok none
  | some text =>
    match (Value.string text).toInt with
    | .ok (.ofNat n) => .ok (some n)
    | _ => .error (.notNumber option text)

/-- A reader of the arguments of a command. -/
abbrev CommandReader := List String → Except UsageError Request

/-- Reads the arguments of a command, which may ask for help. -/
def readCommand (t : OptionTable) (make : Arguments → Except UsageError Command) :
    CommandReader := fun arguments => do
  let a ← t.read true arguments
  if a.has "--help" then .ok .help else .ok (.run (← make a))

/-- Reads a request to instrument a source tree. -/
def readInstrument : CommandReader :=
  readCommand ⟨["--help"], ["--out", "--include", "--exclude", "--path"], []⟩ fun a => do
    .ok (.instrument {
      source := ← operand "SOURCE_DIR" a
      output := ← required a "--out"
      included := a.values "--include"
      excluded := a.values "--exclude"
      config := configOf a })

def readReport : CommandReader :=
  readCommand ⟨["--help", "--summary", "--no-summary"], ["--map", "--out", "--path"], []⟩
    fun a => do
      .ok (.report {
        dump := ← operand "DUMP" a
        map := ← required a "--map"
        output := a.value? "--out"
        summary := (a.last? ["--summary", "--no-summary"]).map (· == "--summary")
        config := configOf a })

def readStats : CommandReader :=
  readCommand
    ⟨["--help", "--no-statements", "--no-functions", "--no-branches", "--json-output"],
      ["--map", "--limit", "--min-hits", "--path"], []⟩
    fun a => do
      .ok (.stats {
        dump := ← operand "DUMP" a
        map := ← required a "--map"
        limit := ← numberOf a "--limit"
        minHits := ← numberOf a "--min-hits"
        statements := !a.has "--no-statements"
        functions := !a.has "--no-functions"
        branches := !a.has "--no-branches"
        asJson := a.has "--json-output"
        config := configOf a })

/-- Reads a request to show a configuration. -/
def readShow : CommandReader :=
  readCommand ⟨["--help", "--json-output"], ["--path"], []⟩ fun a => do
    noOperand a
    .ok (.showConfig (configOf a) (a.has "--json-output"))

/-- Reads a request to check a configuration. -/
def readCheck : CommandReader :=
  readCommand ⟨["--help"], ["--path"], []⟩ fun a => do
    noOperand a
    .ok (.checkConfig (configOf a))

/-- The options in front of the name of a command. -/
def programOptions : OptionTable := ⟨["--help", "--version", "--verbose"], [], [('v', "--verbose")]⟩

/-- What the options in front of a command ask for by themselves; the first of them counts. -/
def asked? (a : Arguments) : Option Request :=
  (a.first? ["--help", "--version"]).map fun name =>
    if name = "--help" then .help else .version

/-- Reads a command among others: its name, and its arguments behind that. What stands in place of
a name and looks like an option may still ask for something by itself. -/
def readNamed (t : OptionTable) (commands : List (String × CommandReader)) : CommandReader :=
  fun arguments => do
  let a ← t.read false arguments
  match asked? a with
  | some request => .ok request
  | none =>
    match a.operands with
    | [] => .error .noCommand
    | name :: rest =>
      match commands.lookup name with
      | some read => read rest
      | none =>
        if isOption name then
          match asked? (← t.read false (name :: rest)) with
          | some request => .ok request
          | none => .error (.unknownCommand name)
        else .error (.unknownCommand name)

def readConfig : CommandReader :=
  readNamed ⟨["--help"], [], []⟩ [("show", readShow), ("validate", readCheck)]

def Request.read : CommandReader :=
  readNamed programOptions [("instrument", readInstrument), ("report", readReport),
    ("stats", readStats), ("config", readConfig)]

theorem Request.read_version (rest : List String)
    (h : ∃ a, programOptions.read false rest = .ok a) :
    Request.read ("--version" :: rest) = .ok .version := by
  obtain ⟨a, ha⟩ := h
  have hr : programOptions.read false ("--version" :: rest) = .ok (a.withFlags ["--version"]) := by
    unfold OptionTable.read
    have ho : isOption "--version" = true := by decide
    have hm : programOptions.readOption "--version" = .ok (.flags ["--version"]) := by rfl
    simp [ho, hm, ha, Except.map]
  have hq : asked? (a.withFlags ["--version"]) = some .version := by
    simp [asked?, Arguments.first?, Arguments.withFlags]
  simp [Request.read, readNamed, hr, hq, bind, Except.bind]

/-- What a path has to be. A path that is resolved is taken name by name, dots included, whether or
not there is anything on the way. -/
structure PathRule where
  what : String
  mustExist : Bool
  allowsFile : Bool
  allowsDirectory : Bool
  isResolved : Bool
  deriving DecidableEq, Repr

namespace PathRule

def directory (what : String) : PathRule := ⟨what, true, false, true, true⟩

def newDirectory (what : String) (isResolved : Bool) : PathRule :=
  ⟨what, false, false, true, isResolved⟩

def file (what : String) : PathRule := ⟨what, true, true, false, false⟩

def anything (what : String) : PathRule := ⟨what, true, true, true, false⟩

/-- What is wrong with a path, seen from a working directory. -/
def check (rule : PathRule) (files : Files) (working : Path) (text : String) :
    Option UsageError :=
  let place :=
    if rule.isResolved then some (working.resolve (Path.ofString text))
    else files.reach? working text
  let fault : Option PathFault :=
    match place.filter files.exists? with
    | none => if rule.mustExist then some .absent else none
    | some p =>
      if files.isFile p then if rule.allowsFile then none else some .isFile
      else if rule.allowsDirectory then none else some .isDirectory
  fault.map (UsageError.path rule.what text)

end PathRule

namespace Command

/-- The paths of a command, and what they have to be. -/
def paths : Command → List (PathRule × String)
  | .instrument r =>
    [(.directory "SOURCE_DIR", r.source), (.newDirectory "--out" true, r.output),
      (.directory "--path", r.config)]
  | .report r =>
    [(.file "DUMP", r.dump), (.anything "--map", r.map)]
      ++ r.output.toList.map (fun text => (.newDirectory "--out" false, text))
      ++ [(.directory "--path", r.config)]
  | .stats r =>
    [(.file "DUMP", r.dump), (.anything "--map", r.map), (.directory "--path", r.config)]
  | .showConfig config _ => [(.directory "--path", config)]
  | .checkConfig config => [(.directory "--path", config)]

/-- The trees that a command looks at. -/
def trees : Command → List String
  | .instrument r => [r.source, r.output]
  | _ => []

/-- The files and directories that a command looks at, those of its trees apart. -/
def places : Command → List Path
  | .instrument r => [configFile r.config]
  | .report r => [Path.ofString r.dump, manifestIn r.map, configFile r.config]
      ++ r.output.toList.map Path.ofString
  | .stats r => [Path.ofString r.dump, manifestIn r.map, configFile r.config]
  | .showConfig config _ => [configFile config]
  | .checkConfig config => [configFile config]
where
  configFile (directory : String) : Path :=
    (Path.ofString directory).join (Path.ofNames [Config.fileName])
  manifestIn (directory : String) : Path :=
    (Path.ofString directory).join (Path.ofNames [Manifest.fileName])

/-- What is wrong with the paths of a command. -/
def check (c : Command) (files : Files) (working : Path) : Option UsageError :=
  c.paths.findSome? fun (rule, text) => rule.check files working text

end Command

end LuaCoverage.CommandLine

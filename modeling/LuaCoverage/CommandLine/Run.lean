import LuaCoverage.CommandLine.Command
import LuaCoverage.CommandLine.Counts
import LuaCoverage.Config.Problem
import LuaCoverage.Config.Reading
import LuaCoverage.Console.Output
import LuaCoverage.Engine.Results
import LuaCoverage.Host.Directory
import LuaCoverage.Report.Lines
import LuaCoverage.Yaml.Printer

/-!
# Running commands

A command runs in a working directory, over the files that are there and with the variables of the
environment. It prints a text and leaves files behind. If it cannot go on, it prints a line that
says why; only a few errors end it without a word.

Results:
* `Workspace.run_misused`: arguments that cannot be understood change no file.
* `Workspace.stats_files`, `Workspace.showConfig_files`, `Workspace.checkConfig_files`: these
  commands only look.
-/

namespace LuaCoverage.CommandLine

/-- Where a command runs, and the parser of sources and the reader of YAML that it runs with. -/
structure Workspace where
  parser : Lua.Parser
  yaml : Yaml.Reader
  files : Files
  working : Path
  environment : Environment

/-- An error that ends a command without a word. -/
inductive Failure
  | config (e : ConfigError)
  | counts (e : CountsError)
  | engine (e : EngineError)
  | options (m : Mismatch)
  | length (e : LengthError)
  | file (e : FileError)
  deriving DecidableEq, Repr

def Failure.message : Failure → String
  | .config e => e.message
  | .counts e => e.message
  | .engine e => e.message
  | .options m => m.message
  | .length e => e.message
  | .file e => e.message

/-- How a command ends. -/
inductive Ending
  | success
  | aborted
  | failed (f : Failure)
  | misused (e : UsageError)
  deriving DecidableEq, Repr

/-- The status of the program behind a command. -/
def Ending.status : Ending → Nat
  | .success => 0
  | .aborted => 1
  | .failed _ => 1
  | .misused _ => 2

/-- What comes of a command. -/
structure Result where
  ending : Ending
  output : String
  files : Files

/-- Why a command does not go on: for a reason that it prints, or without a word. -/
inductive Stop
  | abort (reason : String)
  | failure (f : Failure)

def versionText : String := "covpatch, version 0.1.0\n"

def helpText : String :=
  "Usage: covpatch [--verbose] [--version] COMMAND\n\n"
    ++ "Coverage instrumentation and reporting for Lua/Luau modules.\n\n"
    ++ "Commands:\n"
    ++ "  instrument SOURCE_DIR --out DIR [--include SCOPE] [--exclude SCOPE] [--path DIR]\n"
    ++ "  report DUMP --map PATH [--out DIR] [--summary | --no-summary] [--path DIR]\n"
    ++ "  stats DUMP --map PATH [--limit N] [--min-hits N] [--no-statements] [--no-functions]\n"
    ++ "        [--no-branches] [--json-output] [--path DIR]\n"
    ++ "  config show [--json-output] [--path DIR]\n"
    ++ "  config validate [--path DIR]\n"

/-- The name of the file of a report. -/
def reportName : String := "coverage-final.json"

/-- The name of the file of line summaries. -/
def linesName : String := "coverage-lines.json"

/-- Whether a message is printed about an error of a configuration. There is none about values
that are looked for and not found, about a number beyond all integers, or about a document that
holds itself. -/
def isReportedConfig : ConfigError → Bool
  | .file (.notUtf8 _) | .file .nullCharacter => true
  | .file _ => false
  | .yaml (.codePoint isHuge) => !isHuge
  | .yaml .recursive | .yaml .emptyNumber | .yaml (.bool _) | .yaml .timestamp => false
  | .yaml _ => true
  | .value m => m.group == .type || m.group == .value

/-- Whether a message is printed about an error of an engine. There is none about most faults of
the host in answering a question. -/
def isReportedEngine : EngineError → Bool
  | .probeName _ | .hook _ _ => true
  | .host (.invalid _) | .host (.file (.notUtf8 _)) | .host (.file .nullCharacter) => true
  | .host _ => false

/-- Writes texts into a directory one by one, until one cannot be written. -/
def writeAll (working directory : Path) :
    List (String × String) → Files → Option FileError × Files
  | [], files => (none, files)
  | (name, text) :: rest, files =>
    let p := directory.join (Path.ofNames [name])
    match files.writeText (working.resolve p) p.text text with
    | .ok files => writeAll working directory rest files
    | .error e => (some e, files)

/-- Makes a directory and writes texts into it one by one, until one cannot be written. -/
def writeInto (working directory : Path) (texts : List (String × String)) (files : Files) :
    Option FileError × Files :=
  match files.makeDirectories (working.resolve directory) directory.text with
  | .ok files => writeAll working directory texts files
  | .error e => (some e, files)

/-- The statistics options of a request; what is not given is configured. -/
def StatsRequest.options (r : StatsRequest) (d : StatsDefaults) : Except Mismatch StatsOptions :=
  StatsOptions.make ((r.limit.map Int.ofNat).getD d.limit)
    ((r.minHits.map Int.ofNat).getD d.minHits) r.statements r.functions r.branches

/-- The directory that a report is written to; without a name it is the configured one. -/
def ReportRequest.target (r : ReportRequest) (o : ReportOptions) : Path :=
  match r.output with
  | some text => Path.ofString (if text.isEmpty then o.outputDirectory else text)
  | none => Path.ofString o.outputDirectory

/-- Scopes that are given, if there are any. -/
def given (scopes : List String) : Option (List String) :=
  if scopes.isEmpty then none else some scopes

/-- The lines about the problems of a configuration, counted from a number on. -/
def problemLines : (number : Nat) → List ConfigProblem → String
  | _, [] => ""
  | number, problem :: rest =>
    Console.line ("  " ++ Decimal.natText number ++ ". " ++ problem.message)
      ++ problemLines (number + 1) rest

namespace Workspace

/-- The result of a command that prints a text and changes no file. -/
def shown (w : Workspace) (output : String) : Result := ⟨.success, output, w.files⟩

/-- The result of a command that does not go on. -/
def stopped (w : Workspace) : Stop → Result
  | .abort reason => ⟨.aborted, Console.message .error reason, w.files⟩
  | .failure f => ⟨.failed f, "", w.files⟩

def configOf (w : Workspace) (directory : String) : Except Stop Config :=
  (Config.load w.yaml w.files w.environment (w.working.resolve (Path.ofString directory))).mapError
    fun e =>
      if isReportedConfig e then .abort ("Failed to load configuration: " ++ e.message)
      else .failure (.config e)

/-- The counts of a dump. `purpose` is what fails if they cannot be read. -/
def countsOf (w : Workspace) (purpose dump map : String) : Except Stop Counts :=
  (Counts.read w.files w.working (Path.ofString dump) (Path.ofString map)).mapError fun e =>
    if e.isReported then .abort (purpose ++ ": " ++ e.message) else .failure (.counts e)

/-- Writes the manifest of an instrumented tree and prints what was done. -/
def finishInstrument (w : Workspace) (d : Directory) (e : Engine) : Result :=
  match ManifestFile.save w.files w.working d.output e.maps with
  | .error error => w.stopped (.failure (.file error))
  | .ok (p, files) =>
    ⟨.success,
      Console.diagnostics e.allDiagnostics
        ++ Console.message .success ("Instrumented " ++ Decimal.natText e.maps.length
          ++ " module(s) into " ++ d.output.text)
        ++ Console.message .info ("Load " ++ Prelude.fileName
          ++ " before any module; maps: " ++ p.text),
      files⟩

def instrument (w : Workspace) (r : InstrumentRequest) : Result :=
  match w.configOf r.config with
  | .error stop => w.stopped stop
  | .ok config =>
    match Directory.make w.working (Path.ofString r.source) (Path.ofString r.output) with
    | .error e => w.stopped (.abort ("Instrumentation failed: " ++ e.message))
    | .ok d =>
      let o := (Engine.ofOptions w.parser config.instrument).instrument d.host (given r.included)
        (given r.excluded) w.files
      let w := { w with files := o.host }
      match o.error? with
      | none => w.finishInstrument d o.engine
      | some e =>
        w.stopped (if isReportedEngine e then .abort ("Instrumentation failed: " ++ e.message)
          else .failure (.engine e))

/-- The texts of a report by the names of their files. -/
def reportTexts (report : Report) (summary : Bool) : List (String × String) :=
  (reportName, Json.print (.lines 2) report.toValue)
    :: (if summary then [(linesName, Json.print (.lines 2) report.summaryValue)] else [])

/-- A configuration, and the report of a dump. -/
def reportOf (w : Workspace) (r : ReportRequest) : Except Stop (Config × Report) := do
  let config ← w.configOf r.config
  let purpose := "Failed to build report"
  let counts ← w.countsOf purpose r.dump r.map
  let report ← (Report.build counts.store counts.maps).mapError fun e =>
    Stop.abort (purpose ++ ": " ++ e.message)
  .ok (config, report)

def report (w : Workspace) (r : ReportRequest) : Result :=
  match w.reportOf r with
  | .error stop => w.stopped stop
  | .ok (config, report) =>
    let target := r.target config.report
    let texts := reportTexts report (r.summary.getD config.report.summary)
    match writeInto w.working target texts w.files with
    | (some e, files) => { w with files }.stopped (.failure (.file e))
    | (none, files) =>
      ⟨.success,
        Console.coverage report
          ++ Console.message .success
            ("Wrote " ++ (target.join (Path.ofNames [reportName])).text),
        files⟩

def statsOf (w : Workspace) (r : StatsRequest) : Except Stop Stats := do
  let config ← w.configOf r.config
  let options ← (r.options config.stats).mapError fun m => Stop.failure (.options m)
  let counts ← w.countsOf "Failed to read counts" r.dump r.map
  (Stats.build counts.store counts.maps options).mapError fun e => Stop.failure (.length e)

def stats (w : Workspace) (r : StatsRequest) : Result :=
  match w.statsOf r with
  | .error stop => w.stopped stop
  | .ok stats =>
    w.shown (if r.asJson then Json.print (.lines 2) stats.toValue ++ "\n"
      else Console.statistics stats)

def showConfig (w : Workspace) (directory : String) (asJson : Bool) : Result :=
  match w.configOf directory with
  | .error stop => w.stopped stop
  | .ok config =>
    w.shown (if asJson then Json.print (.lines 2) config.toValue ++ "\n"
      else "Configuration:\n" ++ Yaml.print config.entries ++ "\n")

def checkConfig (w : Workspace) (directory : String) : Result :=
  match w.configOf directory with
  | .error stop => w.stopped stop
  | .ok config =>
    match config.problems with
    | [] => w.shown (Console.message .success "Configuration is valid!")
    | problems =>
      ⟨.aborted,
        Console.message .error
            ("Found " ++ Decimal.natText problems.length ++ " configuration error(s):")
          ++ problemLines 1 problems,
        w.files⟩

/-- Runs a command whose paths are as they have to be. -/
def perform (w : Workspace) : Command → Result
  | .instrument r => w.instrument r
  | .report r => w.report r
  | .stats r => w.stats r
  | .showConfig directory asJson => w.showConfig directory asJson
  | .checkConfig directory => w.checkConfig directory

/-- The result of arguments that are wrong. -/
def misused (w : Workspace) (e : UsageError) : Result := ⟨.misused e, "", w.files⟩

def run (w : Workspace) (arguments : List String) : Result :=
  match Request.read arguments with
  | .error e => w.misused e
  | .ok .version => w.shown versionText
  | .ok .help => w.shown helpText
  | .ok (.run c) =>
    match c.check w.files w.working with
    | some e => w.misused e
    | none => w.perform c

theorem run_misused (w : Workspace) {arguments : List String} {e : UsageError}
    (h : Request.read arguments = .error e) : (w.run arguments).files = w.files := by
  simp [run, h, misused]

@[simp] theorem stopped_files (w : Workspace) (stop : Stop) : (w.stopped stop).files = w.files := by
  cases stop <;> rfl

theorem stats_files (w : Workspace) (r : StatsRequest) : (w.stats r).files = w.files := by
  unfold stats
  split
  · simp
  · rfl

theorem showConfig_files (w : Workspace) (directory : String) (asJson : Bool) :
    (w.showConfig directory asJson).files = w.files := by
  unfold showConfig
  split
  · simp
  · rfl

theorem checkConfig_files (w : Workspace) (directory : String) :
    (w.checkConfig directory).files = w.files := by
  unfold checkConfig
  split
  · simp
  · split <;> rfl

end Workspace

end LuaCoverage.CommandLine

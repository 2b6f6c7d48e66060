import LuaCoverage.CommandLine.Run
import LuaCoverage.Yaml.Reader

/-!
# The program

Reads the files and the variables that a command looks at, runs the command over them with the
parser and the reader of this library, and writes the files that it changed.
-/

namespace LuaCoverage.CommandLine

/-- Adds what stands at a path of the file system, and what it lies in. -/
def readPlace (working p : Path) (files : Files) : IO Files := do
  let root ← IO.currentDir
  let mut files := files
  for n in List.range (p.names.length + 1) do
    let place := working.resolve ⟨p.root, p.names.take n⟩
    let found := root / place.text
    if ← found.isDir then files := files.makeDirectory place
    else if ← found.pathExists then
      files := files.write place (← IO.FS.readBinFile found).toList
  return files

/-- Adds what stands below a directory of the file system. -/
partial def readBelow (directory : Path) (files : Files) : IO Files := do
  let mut files := files
  let found := (← IO.currentDir) / directory.text
  if ← found.isDir then
    files := files.makeDirectory directory
    for entry in ← found.readDir do
      let place := directory.join (Path.ofNames [entry.fileName])
      if ← entry.path.isDir then files ← readBelow place files
      else files := files.write place (← IO.FS.readBinFile entry.path).toList
  return files

/-- The files that a command looks at. -/
def readFiles (working : Path) (c : Command) : IO Files := do
  let mut files := Files.empty.makeDirectory working
  for (_, text) in c.paths do
    files ← readPlace working (Path.ofString text) files
  for place in c.places do
    files ← readPlace working place files
  for text in c.trees do
    files ← readBelow (working.resolve (Path.ofString text)) files
  return files

/-- The variables that stand for entries of a configuration, and those that files have
placeholders for. -/
def readEnvironment (files : Files) : IO Environment := do
  let mut environment : Environment := []
  let mut names := Config.variableNames
  for (p, _) in files.entries do
    if p.name = Config.fileName then
      names := names ++ Placeholder.names (Text.Utf8.decodeLossy ((files.bytes? p).getD []))
  for name in names do
    if let some value ← IO.getEnv name then
      environment := environment.put name value
  return environment

/-- Writes the files that are not as they were. -/
def writeFiles (earlier files : Files) : IO Unit := do
  let root ← IO.currentDir
  for p in files.removedSince earlier do
    IO.FS.removeFile (root / p.text)
  for (p, bytes) in files.changedSince earlier do
    IO.FS.createDirAll (root / p.parent.text)
    IO.FS.writeBinFile (root / p.text) ⟨bytes.toArray⟩

/-- What is written to the error stream behind a command. -/
def complaint : Ending → String
  | .misused e => "Error: " ++ e.message ++ "\n"
  | .failed f => "Error: " ++ f.message ++ "\n"
  | .aborted => "Aborted!\n"
  | .success => ""

end LuaCoverage.CommandLine

open LuaCoverage LuaCoverage.CommandLine in
/-- Runs the program. -/
def main (arguments : List String) : IO UInt32 := do
  let working := Path.ofString (← IO.currentDir).toString
  let files ←
    match Request.read arguments with
    | .ok (.run c) => readFiles working c
    | _ => pure Files.empty
  let result := Workspace.run
    ⟨.ofGrammar, .standard, files, working, ← readEnvironment files⟩ arguments
  writeFiles files result.files
  IO.print result.output
  IO.eprint (complaint result.ending)
  return result.ending.status.toUInt32

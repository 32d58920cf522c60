import TreeQuery.Command.Line

/-!
# The program

The outer layer: it gathers the files that a command line may read, runs the command line on them,
prints what it printed, and writes back the files that changed.  No database driver is built in, so
commands that need a database report that they cannot reach one.
-/

namespace TreeQuery.Program

def noDriver : String := "no database driver is built in"

def unreachable : Store.Connection Unit where
  connect db := (.error noDriver, db)
  ping db := (.error noDriver, db)
  exec _ db := (.error noDriver, db)
  begin db := (.error noDriver, db)
  rollback db := (.error noDriver, db)
  query _ _ db := (.error noDriver, db)
  prepare _ db := (.error noDriver, db)
  run _ _ db := (.error noDriver, db)
  close _ db := (.error noDriver, db)

/-- The text of an argument that may be a path: all of it, or the value after an equals sign. -/
def pathIn (arg : String) : String :=
  if arg.startsWith "-" then String.ofList ((arg.toList.dropWhile (· != '=')).drop 1) else arg

/-- The files that a command line may read: those that it names, the settings, and the state beside
them. -/
def pathsOf (home : Option String) (args : List String) : List String :=
  let named := (args.map pathIn).filter fun p => !p.isEmpty && !p.toList.contains '\n'
  let all := Config.defaultPath home :: named
  all ++ all.map fun p => LastQuery.path (Path.directory p)

/-- The audit log that a file names, if it holds settings. -/
def auditPath? (path content : String) : Option String :=
  match Config.ofText? content with
  | none => none
  | some c =>
    let log := Command.auditPath ⟨path, c, ⟨0⟩⟩
    if log.isEmpty then none else some log

def auditPaths (files : Files) : List String :=
  files.contents.filterMap fun (path, _, content) => auditPath? path content

def gather (files : Files) (path : String) : IO Files := do
  let here := (← IO.currentDir) / path
  if ← here.isDir then return (files.makeDirectories path).2
  else if ← here.pathExists then
    let content ← IO.FS.readFile here
    let files := (files.makeDirectories (Path.directory path)).2
    return (files.write path content).toOption.getD files
  else return files

def store (before after : Files) : IO Unit := do
  for (path, mode, content) in after.contents do
    if (before.read path).toOption != some content then
      let here := (← IO.currentDir) / path
      if let some dir := here.parent then IO.FS.createDirAll dir
      IO.FS.writeFile here content
      if mode == LastQuery.fileMode then
        IO.setAccessRights here { user := { read := true, write := true } }

partial def readInput (input : IO.FS.Stream) (sofar : String) : IO String := do
  let line ← input.getLine
  if line.isEmpty then return sofar else readInput input (sofar ++ line)

/-- The present moment, which the clock of the file system tells. -/
def moment : IO Timestamp := do
  let (_, path) ← IO.FS.createTempFile
  let time := (← path.metadata).modified
  IO.FS.removeFile path
  return Timestamp.ofClock time.sec.toNat time.nsec.toNat

def surroundings (args : List String) : IO Command.Surroundings := do
  let output ← IO.getStdout
  let input ← if args.contains "-" then readInput (← IO.getStdin) "" else pure ""
  let columns := ((← IO.getEnv "COLUMNS").bind String.toNat?).getD Markdown.defaultWidth
  return {
    home := ← IO.getEnv "HOME"
    input := .ok input
    columns := if ← output.isTty then some columns else none
    toolchain := "lean"
    platform := "any"
    now := ← moment
    mark := toString (← IO.rand 0 4294967295) }

end TreeQuery.Program

open TreeQuery in
/-- Runs a command line; the exit code tells whether all went well. -/
def main (args : List String) : IO UInt32 := do
  let s ← Program.surroundings args
  let named ← (Program.pathsOf s.home args).foldlM Program.gather Files.empty
  let files ← (Program.auditPaths named).foldlM Program.gather named
  let outcome := Command.run Program.unreachable s files () args
  Program.store files outcome.files
  IO.print outcome.output
  IO.eprint outcome.errors
  return if outcome.ok then 0 else 1

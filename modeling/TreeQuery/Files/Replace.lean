import TreeQuery.Files

/-!
# Replacing a file

A file is replaced as a whole: the new content goes to a staging file beside it, which is then
moved to the file's place, so that nobody sees half of it.  If anything fails the staging file is
removed, and the file is what it was before.

Between its making and its move the staging file gets its permission bits and its content and is
brought to the disk.  Why the disk fails at one of these steps is beyond the tree of files, so that
is a parameter (`Disk`).
-/

namespace TreeQuery.Files

/-- What is done with a staging file before it is moved. -/
inductive StagingStep where
  | create
  | chmod
  | write
  | sync
  | close
  deriving DecidableEq, Repr

def StagingStep.name : StagingStep → String
  | .create => "create"
  | .chmod => "chmod"
  | .write => "write"
  | .sync => "sync"
  | .close => "close"

/-- **How a disk takes staging files**: the steps that it fails at, and what it has of the content
if it fails at writing that. -/
structure Disk where
  fault? : StagingStep → Option FileFault := fun _ => none
  written : String := ""

inductive ReplaceError where
  | directory (path : String) (cause : FileError)
  | staging (step : StagingStep) (cause : FileError)
  | move (source target : String) (fault : FileFault)
  deriving DecidableEq, Repr

def ReplaceError.message : ReplaceError → String
  | .directory path cause => "create directory " ++ path ++ ": " ++ cause.message
  | .staging step cause => step.name ++ " temp file: " ++ cause.message
  | .move source target fault =>
    "replace " ++ target ++ ": rename " ++ source ++ " " ++ target ++ ": " ++ fault.text

/-- The permission bits that the file at a path has, those of a new file if there is none. -/
def modeOf (f : Files) (path : String) : Nat :=
  match f.stat path with
  | .ok (.file mode _) => mode
  | .ok (.directory mode) => mode
  | .ok (.device _) => 0o666
  | .error _ => newMode

def stagingMode : Nat := 0o600

/-- Makes a new and empty file, which must not exist, for its owner alone. -/
def create (f : Files) (path : String) : Except FileError (List String × Files) :=
  match f.locate path with
  | .error e => .error ⟨"open", path, e⟩
  | .ok (_, some _) => .error ⟨"open", path, .alreadyExists⟩
  | .ok (place, none) =>
    if f.isWritable (above place) then .ok (place, f.put place (.file stagingMode ""))
    else .error ⟨"open", path, .denied⟩

/-- The path of the staging file for a path, marked to tell it from others. -/
def stagingPath (path mark : String) : String :=
  let dir := Path.directory path
  let name := "." ++ Path.base path ++ "." ++ mark
  if dir.endsWith "/" then dir ++ name else dir ++ "/" ++ name

/-- A step with a staging file: what the file is after it, and what it is if the step fails. -/
structure Staging where
  step : StagingStep
  done : FileNode
  failed : FileNode

def stagings (mode : Nat) (content : String) (disk : Disk) : List Staging :=
  let whole : FileNode := .file mode content
  [⟨.chmod, .file mode "", .file stagingMode ""⟩, ⟨.write, whole, .file mode disk.written⟩,
   ⟨.sync, whole, whole⟩, ⟨.close, whole, whole⟩]

/-- Takes steps with the staging file at a place, one after the other, until the disk fails. -/
def stage (f : Files) (place : List String) (disk : Disk) :
    List Staging → Option (StagingStep × FileFault) × Files
  | [] => (none, f)
  | s :: rest =>
    match disk.fault? s.step with
    | some fault => (some (s.step, fault), f.put place s.failed)
    | none => stage (f.put place s.done) place disk rest

def moveTarget (f : Files) (path : String) : Except FileFault (List String) :=
  match f.locate path with
  | .error e => .error e
  | .ok (_, some (.directory _)) => .error .alreadyExists
  | .ok (place, _) => if f.isWritable (above place) then .ok place else .error .denied

/-- **Replaces the file at a path**, making its directory if needed.  Permission bits of zero keep
those of the file that is replaced. -/
def replace (f : Files) (path content : String) (mode : Nat) (mark : String) (disk : Disk := {}) :
    Except ReplaceError Unit × Files :=
  let mode := (if mode = 0 then f.modeOf path else mode) % 512
  let dir := Path.directory path
  match f.makeDirectories dir with
  | (.error e, f) => (.error (.directory dir e), f)
  | (.ok (), f) =>
    let source := stagingPath path mark
    match f.create source with
    | .error e => (.error (.staging .create e), f)
    | .ok (staged, g) =>
      match g.stage staged disk (stagings mode content disk) with
      | (some (step, fault), g) =>
        (.error (.staging step ⟨step.name, source, fault⟩), g.erase staged)
      | (none, g) =>
        match g.moveTarget path with
        | .error e => (.error (.move source path e), g.erase staged)
        | .ok place => (.ok (), (g.erase staged).put place (.file mode content))

end TreeQuery.Files

import TreeQuery.Files.Path

/-!
# Files

The files that the commands read and write, as a tree below the working directory.  A place in
the tree is named by its components; absolute places start with the component `/`.  Besides files
and directories there are devices: one that swallows what is written to it and one that is always
full.  Files and directories have permission bits, of which those of the owner count: a directory
is passed with leave to search it, and changed with leave to write as well.

The operations report a failure by what was tried, on which path, and its cause.
-/

namespace TreeQuery

inductive FileFault where
  | notFound
  | notDirectory
  | isDirectory
  | alreadyExists
  | nameTooLong
  | noSpace
  | denied
  | invalid
  | device
  deriving DecidableEq, Repr

def FileFault.text : FileFault → String
  | .notFound => "no such file or directory"
  | .notDirectory => "not a directory"
  | .isDirectory => "is a directory"
  | .alreadyExists => "file exists"
  | .nameTooLong => "file name too long"
  | .noSpace => "no space left on device"
  | .denied => "permission denied"
  | .invalid => "invalid argument"
  | .device => "input/output error"

/-- A failed operation: what was tried, on which path, and why it failed. -/
structure FileError where
  operation : String
  path : String
  fault : FileFault
  deriving DecidableEq, Repr

def FileError.message (e : FileError) : String :=
  e.operation ++ " " ++ e.path ++ ": " ++ e.fault.text

/-- What stands at a place of the tree. -/
inductive FileNode where
  | file (mode : Nat) (content : String)
  | directory (mode : Nat)
  /-- A device that swallows writes or, if it is full, refuses them. -/
  | device (full : Bool)
  deriving DecidableEq, Repr

/-- **A tree of files** below the working directory, and the few absolute places in use. -/
structure Files where
  entries : List (List String × FileNode)
  deriving Repr

/-- Whether the owner may do something: the bit of reading is 4, of writing 2, of searching 1. -/
def FileNode.allows (n : FileNode) (bit : Nat) : Bool :=
  match n with
  | .file mode _ => mode / 64 % 8 / bit % 2 == 1
  | .directory mode => mode / 64 % 8 / bit % 2 == 1
  | .device _ => true

namespace Files

def newDirectoryMode : Nat := 0o755

def empty : Files :=
  ⟨[(["/", "dev"], .directory newDirectoryMode), (["/", "dev", "null"], .device false),
    (["/", "dev", "full"], .device true)]⟩

def maxName : Nat := 255

def maxPath : Nat := 4095

def newMode : Nat := 0o644

/-- What stands at a place.  The working directory and the topmost directory always exist. -/
def node? (f : Files) (place : List String) : Option FileNode :=
  match f.entries.lookup place with
  | some n => some n
  | none => if place == [] || place == ["/"] then some (.directory newDirectoryMode) else none

def put (f : Files) (place : List String) (n : FileNode) : Files :=
  ⟨(place, n) :: f.entries.filter fun e => e.1 != place⟩

def erase (f : Files) (place : List String) : Files :=
  ⟨f.entries.filter fun e => e.1 != place⟩

def above (place : List String) : List String :=
  if place == ["/"] then place else place.dropLast

/-- Whether the directory at a place may be searched. -/
def isOpen (f : Files) (place : List String) : Bool :=
  ((f.node? place).map fun n => n.allows 1).getD false

/-- Whether entries of the directory at a place may be made and removed. -/
def isWritable (f : Files) (place : List String) : Bool :=
  ((f.node? place).map fun n => n.allows 1 && n.allows 2).getD false

/-- Follows components down from a directory: the place at their end and what stands there, `none`
for a place that is free. -/
def walk (f : Files) (here : List String) :
    List String → Except FileFault (List String × Option FileNode)
  | [] => .ok (here, f.node? here)
  | c :: rest =>
    if !f.isOpen here then .error .denied
    else if c == "." then walk f here rest
    else if c == ".." then walk f (above here) rest
    else if Text.bytes c.toList > maxName then .error .nameTooLong
    else
      match f.node? (here ++ [c]) with
      | some (.directory _) => walk f (here ++ [c]) rest
      | some n => if rest.isEmpty then .ok (here ++ [c], some n) else .error .notDirectory
      | none => if rest.isEmpty then .ok (here ++ [c], none) else .error .notFound

/-- The components that a path names; a slash at its end asks for a directory. -/
def steps (path : String) : List String :=
  (Path.parts path).filter (· != "") ++ (if path.endsWith "/" then ["."] else [])

/-- **The place a path leads to**, and what stands there. -/
def locate (f : Files) (path : String) : Except FileFault (List String × Option FileNode) :=
  if path.toList.contains '\x00' then .error .invalid
  else if path.isEmpty then .error .notFound
  else if Text.bytes path.toList > maxPath then .error .nameTooLong
  else f.walk (if Path.isAbsolute path then ["/"] else []) (steps path)

def stat (f : Files) (path : String) : Except FileFault FileNode :=
  match f.locate path with
  | .error e => .error e
  | .ok (_, none) => .error .notFound
  | .ok (_, some n) => .ok n

def isPresent (f : Files) (path : String) : Bool :=
  match f.stat path with
  | .ok _ => true
  | .error _ => false

def read (f : Files) (path : String) : Except FileError String :=
  match f.stat path with
  | .error e => .error ⟨"open", path, e⟩
  | .ok n =>
    if !n.allows 4 then .error ⟨"open", path, .denied⟩
    else
      match n with
      | .directory _ => .error ⟨"read", path, .isDirectory⟩
      | .file _ content => .ok content
      | .device _ => .ok ""

def makeDirectory (f : Files) (path : String) : Except FileError Files :=
  match f.locate path with
  | .error e => .error ⟨"mkdir", path, e⟩
  | .ok (_, some (.directory _)) => .ok f
  | .ok (_, some _) => .error ⟨"mkdir", path, .notDirectory⟩
  | .ok (place, none) =>
    if f.isWritable (above place) then .ok (f.put place (.directory newDirectoryMode))
    else .error ⟨"mkdir", path, .denied⟩

/-- Makes directories one after the other; what was made before a failure stays. -/
def makeEach (f : Files) : List String → Except FileError Unit × Files
  | [] => (.ok (), f)
  | p :: rest =>
    match f.makeDirectory p with
    | .error e => (.error e, f)
    | .ok g => makeEach g rest

/-- **Makes a directory** with the directories above it that are missing. -/
def makeDirectories (f : Files) (path : String) : Except FileError Unit × Files :=
  f.makeEach (Path.ancestors path)

/-- Why a path cannot be opened for writing, or the place and what stands there. -/
def openForWriting (f : Files) (path : String) :
    Except FileFault (List String × Option FileNode) :=
  match f.locate path with
  | .error e => .error (if e == .notFound && path.endsWith "/" then .isDirectory else e)
  | .ok (_, some (.directory _)) => .error .isDirectory
  | .ok (place, some n) => if n.allows 2 then .ok (place, some n) else .error .denied
  | .ok (place, none) => if f.isWritable (above place) then .ok (place, none) else .error .denied

/-- **Adds a text at the end of a file**, which is made if it is missing. -/
def append (f : Files) (path content : String) : Except FileError Files :=
  match f.openForWriting path with
  | .error e => .error ⟨"open", path, e⟩
  | .ok (place, some (.file mode old)) => .ok (f.put place (.file mode (old ++ content)))
  | .ok (place, none) => .ok (f.put place (.file newMode content))
  | .ok (_, some (.device true)) => .error ⟨"write", path, .noSpace⟩
  | .ok (_, some _) => .ok f

/-- **Writes a file** in place, which is made if it is missing. -/
def write (f : Files) (path content : String) : Except FileError Files :=
  match f.openForWriting path with
  | .error e => .error ⟨"open", path, e⟩
  | .ok (place, some (.file mode _)) => .ok (f.put place (.file mode content))
  | .ok (place, none) => .ok (f.put place (.file newMode content))
  | .ok (_, some (.device true)) => .error ⟨"write", path, .noSpace⟩
  | .ok (_, some _) => .ok f

def pathOf (place : List String) : String :=
  match place with
  | "/" :: rest => "/" ++ "/".intercalate rest
  | ps => "/".intercalate ps

def contents (f : Files) : List (String × Nat × String) :=
  f.entries.filterMap fun (place, n) =>
    match n with
    | .file mode content => some (pathOf place, mode, content)
    | _ => none

end Files

end TreeQuery

import TreeQuery.Files
import TreeQuery.Json.Members
import TreeQuery.Json.Relation
import TreeQuery.Query.Mutation
import TreeQuery.Text.Lower
import TreeQuery.Timestamp

/-!
# The log of mutations

Every mutation that has run is added to a log, one JSON object a line: when it ran, what it did to
which table, its statement and values, and how many rows it returned.  `Log.add` appends an entry
and `readLog` reads all of them back.
-/

namespace TreeQuery.Audit

structure Entry where
  time : Timestamp := .zero
  operation : String := ""
  table : String := ""
  sql : String := ""
  args : List Value := []
  rows : Int := 0
  deriving Repr

def Entry.line? (e : Entry) : Option String := do
  let time ← e.time.text?
  let args ← Json.encodeList e.args
  return Json.object ([("ts", Json.string time), ("op", Json.string e.operation)] ++
    Json.textMember "table" e.table ++ [("sql", Json.string e.sql)] ++
    Json.listMember "args" args ++ [("rows", toString e.rows)]) ++ "\n"

def Entry.take (e : Entry) (name : String) : Json.Reader Entry :=
  match name with
  | "ts" => Json.moment.into fun time => { e with time := time.getD e.time }
  | "op" => Json.text.into fun s => { e with operation := s }
  | "table" => Json.text.into fun s => { e with table := s }
  | "sql" => Json.text.into fun s => { e with sql := s }
  | "args" => (Json.listOf Json.anything).into fun vs => { e with args := vs }
  | "rows" => Json.wholeNumber.into fun n => { e with rows := n.getD e.rows }
  | _ => Json.unknown.into fun _ => e

def Entry.read (line : String) : Option Entry :=
  Json.readRecord Entry.take {} line

inductive LogError where
  | unwritableEntry
  | directory (cause : FileError)
  | «open» (cause : FileError)
  | write (cause : FileError)
  | read (cause : FileError)
  | lineTooLong
  /-- A line, counted from one, that is no entry. -/
  | badLine (number : Nat)
  deriving DecidableEq, Repr

def LogError.message : LogError → String
  | .unwritableEntry => "failed to marshal audit entry"
  | .directory cause => "failed to create audit directory: " ++ cause.message
  | .open cause => "failed to open audit log: " ++ cause.message
  | .write cause => "failed to write audit entry: " ++ cause.message
  | .read cause => "failed to read audit log: " ++ cause.message
  | .lineTooLong => "failed to read audit log: bufio.Scanner: token too long"
  | .badLine number => "audit log line " ++ toString number

/-- **A log** at a path; an empty path turns logging off. -/
structure Log where
  path : String
  deriving DecidableEq, Repr

namespace Log

def ofPath (path : String) : Log := ⟨Text.trimmed path⟩

def isEnabled (l : Log) : Bool := !l.path.isEmpty

/-- **Adds an entry**, with the present moment if it has none. -/
def add (l : Log) (f : Files) (now : Timestamp) (e : Entry) : Except LogError Unit × Files :=
  if !l.isEnabled then (.ok (), f)
  else
    match ({ e with time := e.time.orElse now } : Entry).line? with
    | none => (.error .unwritableEntry, f)
    | some line =>
      match f.makeDirectories (Path.directory l.path) with
      | (.error err, f) => (.error (.directory err), f)
      | (.ok (), f) =>
        match f.append l.path line with
        | .ok f => (.ok (), f)
        | .error err => (.error (if err.operation == "open" then .open err else .write err), f)

/-- The first word of a statement, up to a blank, tab or newline, in lower case. -/
def operationOf (sql : String) : String :=
  Text.lowered (String.ofList (sql.toList.takeWhile fun c => c != ' ' && c != '\t' && c != '\n'))

def entryOf (root : Query.Relation) (rows : Int) : Entry :=
  { operation := operationOf root.sql, table := root.table, sql := root.sql,
    args := root.bindings, rows := rows }

/-- **Adds a mutation** that returned a number of rows; any other query is not logged. -/
def addMutation (l : Log) (f : Files) (now : Timestamp) (root : Query.Relation) (rows : Int) :
    Except LogError Unit × Files :=
  if root.isMutation then l.add f now (entryOf root rows) else (.ok (), f)

end Log

/-! ## Reading -/

/-- Lines of this many bytes or more are not read. -/
def maxLine : Nat := 1024 * 1024

/-- The entries of lines, the first of which has the given number. -/
def entriesFrom (number : Nat) : List (List Char) → Except LogError (List Entry)
  | [] => .ok []
  | l :: rest =>
    if Text.bytes l ≥ maxLine then .error .lineTooLong
    else
      let l := (Text.dropEnd? ['\r'] l).getD l
      if (Text.trim l).isEmpty then entriesFrom (number + 1) rest
      else
        match Entry.read (String.ofList l) with
        | none => .error (.badLine number)
        | some e =>
          match entriesFrom (number + 1) rest with
          | .ok es => .ok (e :: es)
          | .error err => .error err

/-- The lines of a file; the end of its last line starts no further one. -/
def fileLines (text : String) : List (List Char) :=
  let ls := Text.lines text.toList
  if ls.getLast? == some [] then ls.dropLast else ls

/-- **The entries of the log at a path**, oldest first; a log that is missing has none. -/
def readLog (f : Files) (path : String) : Except LogError (List Entry) :=
  match f.read path with
  | .ok text => entriesFrom 1 (fileLines text)
  | .error e =>
    if e.fault == .notFound then .ok []
    else .error (if e.operation == "open" then .open e else .read e)

end TreeQuery.Audit

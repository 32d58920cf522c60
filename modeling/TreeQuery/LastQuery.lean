import TreeQuery.Files.Replace
import TreeQuery.Json.Members
import TreeQuery.Json.Write
import TreeQuery.Timestamp

/-!
# The last query

The query that ran last is kept in a state file beside the settings, so that it can be run again:
its blocks, the values as they were written on the command line, and the marker.
-/

namespace TreeQuery

structure LastQuery where
  source : String := ""
  /-- The blocks, if there is a list of them. -/
  blocks : Option (List String) := none
  args : List String := []
  marker : String := ""
  time : Timestamp := .zero
  deriving DecidableEq, Repr

namespace LastQuery

def fileName : String := "last-query.json"

def path (dir : String) : String := Path.join [dir, fileName]

/-! ## Writing -/

/-- A list of texts, one a line, indented under its member. -/
def listText (texts : List String) : String :=
  if texts.isEmpty then "[]"
  else "[\n" ++ ",\n".intercalate (texts.map fun s => "    " ++ Json.string s) ++ "\n  ]"

/-- The members of the state file with their texts; an empty marker and an empty list of values are
left out. -/
def members (q : LastQuery) : List (String × String) :=
  [("source", Json.string q.source),
   ("blocks", match q.blocks with
    | some bs => listText bs
    | none => "null")] ++
  (if q.args.isEmpty then [] else [("args", listText q.args)]) ++
  (if q.marker.isEmpty then [] else [("marker", Json.string q.marker)]) ++
  [("timestamp", Json.string q.time.text)]

def text (q : LastQuery) : String :=
  "\x7b\n" ++ ",\n".intercalate (q.members.map fun (k, v) => "  " ++ Json.string k ++ ": " ++ v) ++
    "\n\x7d"

def fileMode : Nat := 0o600

/-- **Records a query** in a directory, with the present moment if it has none. -/
def store (q : LastQuery) (f : Files) (dir : String) (now : Timestamp) (mark : String) :
    Except Files.ReplaceError Unit × Files :=
  f.replace (path dir) ({ q with time := q.time.orElse now } : LastQuery).text fileMode mark

def storeMessage (e : Files.ReplaceError) : String :=
  "failed to write last query: " ++ e.message

/-! ## Reading -/

def take (q : LastQuery) (name : String) : Json.Reader LastQuery :=
  match name with
  | "source" => Json.text.into fun s => { q with source := s }
  | "blocks" => (Json.listOf Json.text).into fun ss => { q with blocks := some ss }
  | "args" => (Json.listOf Json.text).into fun ss => { q with args := ss }
  | "marker" => Json.text.into fun s => { q with marker := s }
  | "timestamp" => Json.moment.into fun time => { q with time := time.getD q.time }
  | _ => Json.unknown.into fun _ => q

inductive RecallError where
  | none
  | unreadable (cause : FileError)
  | undecodable
  deriving DecidableEq, Repr

def RecallError.message : RecallError → String
  | .none => "no last query available"
  | .unreadable cause => "failed to read last query: " ++ cause.message
  | .undecodable => "failed to parse last query"

def find (f : Files) (dir : String) : Except RecallError LastQuery :=
  match f.read (path dir) with
  | .error e => .error (if e.fault == .notFound then .none else .unreadable e)
  | .ok text =>
    match Json.readRecord take {} text with
    | Option.none => .error .undecodable
    | some q => if (q.blocks.getD []).isEmpty then .error .none else .ok q

end LastQuery

end TreeQuery

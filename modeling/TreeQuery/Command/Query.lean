import TreeQuery.Audit
import TreeQuery.Command.Action
import TreeQuery.Command.Source
import TreeQuery.Display.Table
import TreeQuery.Execute.Resolve
import TreeQuery.Json.Argument
import TreeQuery.LastQuery
import TreeQuery.Query.Batch
import TreeQuery.Yaml.Write

/-!
# Running queries

A query command finds its query, binds the values, runs every block, and prints the results.  A
query that went well is kept as the last one, and its mutations are noted in the audit log.
-/

namespace TreeQuery.Command

/-- **A query as it was given**: its text, and the values and the marker as they were written. -/
structure Given where
  source : Source
  args : List String
  marker : String
  deriving DecidableEq, Repr

variable {δ : Type}

/-! ## Finding the query -/

/-- The last query, with values and marker replaced by those of the options. -/
def Given.ofLast (o : Options) (q : LastQuery) : Given where
  source := ⟨q.source, q.blocks.getD []⟩
  args := o.args.getD q.args
  marker := o.marker.getD (if q.marker.isEmpty then Query.Template.defaultMarker else q.marker)

/-- **The query that a command is given.** -/
def Given.find (s : Surroundings) (o : Options) (g : Settings) (args : List String) :
    Action δ Given := do
  let files ← Action.files
  if o.last then
    if !args.isEmpty || !o.file.isEmpty then
      Action.fail o .invalidInput "--last cannot be combined with a query"
    else
      let q ← Action.orFail o (LastQuery.find files g.stateDirectory)
        (fun e => if e = .none then .queryNotFound else .fileReadError)
        LastQuery.RecallError.message
        fun e => if e = .none then "Run a query first" else ""
      return Given.ofLast o q
  else
    let source ← Action.orFail o (Source.resolve files g.config s.input o.file args)
      SourceError.code SourceError.message fun _ => SourceError.suggestion
    return ⟨source, o.args.getD [], o.marker.getD Query.Template.defaultMarker⟩

def blockMessage (blocks index : Nat) (message : String) : String :=
  if blocks > 1 then "block " ++ toString index ++ ": " ++ message else message

/-- Reads templates one after the other; a failure comes with the number of the block, counted from
one. -/
def parseAll (index : Nat) :
    List Query.Template → Except (Nat × Query.QueryError) (List Query.Relation)
  | [] => .ok []
  | t :: rest =>
    match t.parse with
    | .error e => .error (index, e)
    | .ok root =>
      match parseAll (index + 1) rest with
      | .error e => .error e
      | .ok roots => .ok (root :: roots)

def Given.templates (given : Given) : Except Query.BatchError (List Query.Template) :=
  Query.deal given.source.blocks given.marker (given.args.map Json.argument)

/-- **The queries of the blocks**, their values bound. -/
def Given.queries (o : Options) (given : Given) : Action δ (List Query.Relation) := do
  let templates ← Action.orFail o given.templates
    (fun _ => .invalidInput) Query.BatchError.message
    fun _ => "Pass one --arg per " ++ Query.Template.defaultMarker ++ " marker"
  Action.orFail o (parseAll 1 templates) (fun _ => .queryInvalid)
    (fun (i, e) => blockMessage templates.length i e.message) fun _ => ""

/-! ## Running -/

/-- Runs queries one after the other; a failure comes with the number of the query, counted from
one. -/
def executeAll {σ : Type} (A : Store.Adapter σ) (d : Sql.Dialect) (index : Nat) :
    List Query.Relation → Store.Session σ →
      Except (Nat × Failure) (List Value) × Store.Session σ
  | [], s => (.ok [], s)
  | root :: rest, s =>
    match (Execute.execute A d root).run.run s with
    | (.error e, s) => (.error (index, e), s)
    | (.ok v, s) =>
      match executeAll A d (index + 1) rest s with
      | (.error e, s) => (.error e, s)
      | (.ok vs, s) => (.ok (v :: vs), s)

/-- **Runs the queries** through a store; gives the results and the calls that were made. -/
def runAll (C : Store.Connection δ) (a : Store.Access) (d : Sql.Dialect) (g : Settings)
    (roots : List Query.Relation) :
    Action δ (Except (Nat × Failure) (List Value) × List Store.Call) := do
  let (r, s) ← Action.onDatabase fun db =>
    let (r, s) := executeAll (Store.adapter C a) d 1 roots
      ({ store := { database := db } } : Store.Session (Store.Client δ))
    ((r, s), s.store.database)
  Action.remark g.threshold .debug s.notes
  return (r, s.calls)

def resultsOrFail (o : Options) (roots : List Query.Relation)
    (r : Except (Nat × Failure) (List Value)) : Action δ (List Value) :=
  Action.orFail o r (fun (_, e) => .ofFailure e)
    (fun (i, e) => blockMessage roots.length i e.message)
    fun (_, e) => (ErrorCode.ofFailure e).suggestion

/-! ## Remembering -/

/-- The path of the audit log: relative paths start from the directory of the settings. -/
def auditPath (g : Settings) : String :=
  let path := Text.trimmed g.config.auditLog
  if path.isEmpty || Path.isAbsolute path then path else Path.join [g.stateDirectory, path]

def auditLog (g : Settings) : Audit.Log := .ofPath (auditPath g)

/-- **Notes the mutations** among queries in the audit log, with the sizes of their results. -/
def noteMutations (s : Surroundings) (g : Settings) : List (Query.Relation × Value) → Action δ Unit
  | [] => pure ()
  | (root, v) :: rest => do
    let r ← Action.onFiles fun f => (auditLog g).addMutation f s.now root (Execute.count v)
    match r with
    | .ok () => pure ()
    | .error e =>
      Action.remark g.threshold .warn [⟨"failed to write audit log", [("err", .text e.message)]⟩]
    noteMutations s g rest

def Given.record (given : Given) : LastQuery where
  source := given.source.name
  blocks := some given.source.blocks
  args := given.args
  marker := given.marker

/-- **Keeps a query as the last one.** -/
def remember (s : Surroundings) (g : Settings) (given : Given) : Action δ Unit := do
  let r ← Action.onFiles fun f => given.record.store f g.stateDirectory s.now s.mark
  match r with
  | .ok () => pure ()
  | .error e =>
    Action.remark g.threshold .warn
      [⟨"failed to record last query", [("err", .text (LastQuery.storeMessage e))]⟩]

/-! ## Commands -/

def printDocument (n : Option Yaml.Node) : Action δ Unit :=
  match n with
  | some n => Action.print (n.document 2)
  | none => throw (.failed "yaml")

def dataOf (results : List Value) : Value :=
  match results with
  | [v] => v
  | vs => .list vs

/-- What comes before queries are run: they are found and read, and the database is opened. -/
def opened (C : Store.Connection δ) (s : Surroundings) (o : Options) (g : Settings)
    (args : List String) : Action δ (Given × List Query.Relation × Sql.Dialect) := do
  let given ← Given.find s o g args
  let roots ← given.queries o
  return (given, roots, ← openDatabase C o g)

def printed (s : Surroundings) (o : Options) (results : List Value) : Action δ Unit :=
  let data := dataOf results
  if o.json then
    Action.print (Envelope.ofResult data
      { count := Execute.count data, milliseconds := s.milliseconds })
  else printDocument (Yaml.ofValue data)

/-- What comes after queries that have all succeeded: remarks, notes, and the results. -/
def concluded (s : Surroundings) (o : Options) (g : Settings) (given : Given)
    (roots : List Query.Relation) (results : List Value) : Action δ Unit := do
  Action.remark g.threshold .info [⟨"query finished",
    [("blocks", .int roots.length), ("duration", .text (toString s.milliseconds ++ "ms"))]⟩]
  noteMutations s g (roots.zip results)
  remember s g given
  printed s o results

def runQuery (C : Store.Connection δ) (s : Surroundings) (o : Options) (g : Settings)
    (args : List String) : Action δ Unit := do
  let (given, roots, d) ← opened C s o g args
  let (r, _) ← runAll C (.ofDialect d false) d g roots
  concluded s o g given roots (← resultsOrFail o roots r)

def listQueries (o : Options) (g : Settings) : Action δ Unit := do
  let names := g.config.queryNames
  if o.json then
    Action.answer (Json.object [("queries", Json.array (names.map Json.string))])
      (some { count := names.length })
  else if names.isEmpty then
    Action.printLine "No saved queries. Add one with 'sgq config save <name> <query>'."
  else
    let rows := names.map fun n => [n, Display.firstLine ((g.config.saved? n).getD "")]
    Action.print ("Saved queries " ++ Display.count names.length "name" ++ "\n\n")
    Action.printLine (Display.table ["NAME", "QUERY"] rows)

def runParse (s : Surroundings) (o : Options) (g : Settings) (args : List String) :
    Action δ Unit := do
  let given ← Given.find s o g args
  let roots ← given.queries o
  match o.json, roots with
  | true, [root] =>
    match Json.ofRelation root with
    | some t => Action.answer t (some { count := 1 })
    | none => pure ()
  | true, _ =>
    match Json.ofRelations roots with
    | some ts => Action.answer (Json.array ts) (some { count := roots.length })
    | none => pure ()
  | false, [root] => printDocument (Yaml.ofRelation root)
  | false, _ => printDocument ((Yaml.ofRelations roots).map .sequence)

end TreeQuery.Command

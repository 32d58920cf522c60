import TreeQuery.Command.Query
import TreeQuery.Explain
import TreeQuery.Markdown.Render

/-!
# Looking at queries and tables

`explain` runs a query inside a transaction that is always undone, and shows the statements that it
issued.  `schema` shows the columns and foreign keys of a table as queries see them.
-/

namespace TreeQuery.Command

variable {δ : Type}

/-! ## Statements -/

/-- The JSON text of the values of a run; a run without values has none. -/
def runJson (args : List Value) : Option String :=
  if args.isEmpty then some "null" else Json.encode (.list args)

def runsJson : List (List Value) → Option (List String)
  | [] => some []
  | r :: rest =>
    match runJson r with
    | none => none
    | some t => (runsJson rest).map (t :: ·)

def statementJson (s : Explain.Statement) : Option String :=
  (runsJson s.runs).map fun runs =>
    Json.object ([("kind", Json.string s.kind), ("sql", Json.string s.sql),
      ("runs", toString s.runs.length)] ++ Json.listMember "args" runs)

def statementsJson : List Explain.Statement → Option (List String)
  | [] => some []
  | s :: rest =>
    match statementJson s with
    | none => none
    | some t => (statementsJson rest).map (t :: ·)

/-- Markdown as it is shown: laid out on a terminal, as it stands elsewhere. -/
def shown (s : Surroundings) (g : Settings) (markdown : String) : String :=
  match s.columns with
  | some width => String.ofList (Markdown.rendered g.config.accent width markdown)
  | none => markdown

/-- **Runs queries inside a transaction** that is undone in any case. -/
def runUndone (C : Store.Connection δ) (d : Sql.Dialect) (o : Options) (g : Settings)
    (roots : List Query.Relation) :
    Action δ (Except (Nat × Failure) (List Value) × List Store.Call) := do
  let begun ← Action.onDatabase C.begin
  Action.orFail o begun (fun _ => .databaseError)
    (fun e => "failed to begin transaction: " ++ e) fun _ => ""
  let r ← runAll C (.ofDialect d true) d g roots
  let _ ← Action.onDatabase C.rollback
  return r

/-- What is shown of the calls that queries made. -/
def explained (s : Surroundings) (o : Options) (g : Settings) (calls : List Store.Call) :
    Action δ Unit :=
  let statements := Explain.statements calls
  if o.json then
    match statementsJson statements with
    | none => pure ()
    | some ts =>
      let list := if ts.isEmpty then "null" else Json.array ts
      Action.answer (Json.object [("statements", list)]) (some { statements := ts.length })
  else Action.print (shown s g (Explain.report statements))

def runExplain (C : Store.Connection δ) (s : Surroundings) (o : Options) (g : Settings)
    (args : List String) : Action δ Unit := do
  let (_, roots, d) ← opened C s o g args
  let (r, calls) ← runUndone C d o g roots
  let _ ← resultsOrFail o roots r
  explained s o g calls

/-! ## Tables -/

def referenceOf (k : Schema.ForeignKey) : String :=
  k.table ++ "." ++ (if k.target.isEmpty then "id" else k.target)

def tableJson (table : String) (columns : List Schema.Column) (keys : List Schema.ForeignKey) :
    String :=
  let column (c : Schema.Column) : String :=
    Json.object [("name", Json.string c.name), ("type", Json.string c.type),
      ("json", if c.isText then "true" else "false")]
  let key (k : Schema.ForeignKey) : String :=
    Json.object [("column", Json.string k.source), ("references", Json.string (referenceOf k))]
  Json.object [("columns", Json.array (columns.map column)),
    ("foreign_keys", Json.array (keys.map key)), ("table", Json.string table)]

def tableText (table : String) (columns : List Schema.Column) (keys : List Schema.ForeignKey) :
    String :=
  Display.block table ++ " " ++ Display.count columns.length "column" ++ "\n\n" ++
    Display.table ["COLUMN", "TYPE", "JSON"]
      (columns.map fun c => [c.name, c.type, if c.isText then "yes" else ""]) ++ "\n" ++
    (if keys.isEmpty then ""
     else "\nForeign keys " ++ Display.count keys.length "key" ++ "\n\n" ++
       Display.table ["COLUMN", "REFERENCES"] (keys.map fun k => [k.source, referenceOf k]) ++ "\n")

def askCatalog {α : Type} (C : Store.Connection δ) (d : Sql.Dialect) (o : Options)
    (ask : Store.Adapter (Store.Client δ) → Schema.Catalog → Work (Store.Client δ) α) :
    Action δ α := do
  let r ← Action.onDatabase fun db =>
    let (r, s) := (ask (Store.adapter C (.ofDialect d false)) (.ofDialect d)).run.run
      ({ store := { database := db } } : Store.Session (Store.Client δ))
    (r, s.store.database)
  Action.orFail o r (fun _ => .databaseError) Failure.message fun _ => ""

def runSchema (C : Store.Connection δ) (o : Options) (g : Settings) (args : List String) :
    Action δ Unit := do
  let table := args.headD ""
  let d ← openDatabase C o g
  let columns ← askCatalog C d o fun A c => Schema.columns A c table
  if columns.isEmpty then
    Action.fail o .tableNotFound ("table " ++ Text.quoted table ++ " not found")
  let keys ← askCatalog C d o fun A c => Schema.foreignKeys A c table
  if o.json then Action.answer (tableJson table columns keys) (some { count := columns.length })
  else Action.print (tableText table columns keys)

end TreeQuery.Command

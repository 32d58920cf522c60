import TreeQuery.Execute.Filter
import TreeQuery.Execute.Plan
import TreeQuery.Json.Document

/-!
# Execution

A query tree is resolved from the top.  Each relation is one prepared statement, run once for
every parent row:

    WITH temp AS (SELECT * FROM "cars" WHERE "userId" = ?)
    SELECT "id","brand" FROM temp ORDER BY brand

The rows it returns are resolved in turn before they are attached to their parents.  A relation
whose name the parents already carry looks into the documents they hold there instead.  Which of
these it is, and whether a relation has one related row or many, is decided by the first parent.

A mutation runs first, with a clause that returns the changed rows, and its nested relations are
resolved for those.
-/

namespace TreeQuery.Execute

open Query Schema Store

variable {σ : Type}

/-- The document that a column's value holds.  Null and the empty text hold none; values other
than texts stand for themselves. -/
inductive Held where
  | nothing
  | document (v : Value)
  | undecodable

def heldText (cs : List Char) : Held :=
  if cs.isEmpty then .nothing
  else
    match Json.decodeDocument cs with
    | some v => .document v
    | none => .undecodable

def held : Value → Held
  | .null => .nothing
  | .text s => heldText s.toList
  | .bytes bs => heldText (Text.decode bs)
  | .garbled bs => heldText (Text.decode bs)
  | v => .document v

def filterParents (child : Relation) : List Record → Except Failure (List Record)
  | [] => .ok []
  | parent :: rest =>
    match held ((parent.get? child.type).getD .null) with
    | .nothing => (filterParents child rest).map (parent :: ·)
    | .document v =>
      (filterParents child rest).map (parent.set child.type (filter child v) :: ·)
    | .undecodable => .error (.undecodable child.type)

def lookInside (child : Relation) (parents : List Record) : Work σ (List Record) := do
  Work.note "filtering json relation"
    [("relation", .text child.type), ("parents", .int parents.length)]
  match filterParents child parents with
  | .ok parents => pure parents
  | .error e => throw e

/-- The statement of a relation.  An empty key selects from the whole table. -/
def statementText (d : Sql.Dialect) (join : Join) (keyed : Bool) (proj : Projection)
    (clause : String) : String :=
  "WITH temp AS (SELECT * FROM " ++ d.quote join.table ++
    (if keyed then " WHERE " ++ d.quote join.key ++ " = ?" else "") ++
    ") SELECT " ++ proj.sql ++ " FROM temp" ++
    (if clause.isEmpty then "" else " " ++ clause)

/-- The table and key of a relation: found by foreign keys when the parents are rows of a table,
the table of that name otherwise. -/
def joinFor (A : Adapter σ) (c : Catalog) (table type : String) (isSingular : Bool) :
    Work σ Join :=
  if table.isEmpty then pure ⟨type, ""⟩
  else if isSingular then singular A c table type
  else plural A c table type

def firstHas (parents : List Record) (key : String) : Bool :=
  (parents.head?.map fun r => r.has key).getD false

/-- What a relation has for one parent: the statement is run with the parent's key and the values of
the clause, and the rows it gives are resolved. -/
def relatedTo (A : Adapter σ) (nested : List Record → Work σ (List Record)) (child : Relation)
    (keyed isSingular : Bool) (hidden : List String) (stmt : Statement) (parent : Record) :
    Work σ Value := do
  let key := if isSingular then idColumn child.type else "id"
  let args := (if keyed then [(parent.get? key).getD .null] else []) ++ child.bindings
  if isSingular then
    match ← Work.call (Session.runOne A stmt args) with
    | none => pure .null
    | some row =>
      let rows ← nested [row.hide hidden]
      pure ((rows.head?.map .row).getD .null)
  else
    let rows ← Work.call (Session.runAll A stmt args)
    let rows ← nested (rows.map fun r => r.hide hidden)
    pure (.rows rows)

/-- Serves all parents from one prepared statement, once the table is known. -/
def serveAll {α : Type} (A : Adapter σ) (d : Sql.Dialect) (child : Relation)
    (keyed isSingular : Bool) (parents : List Record) (target : Join)
    (serve : List String → Statement → Record → Work σ α) : Work σ (List α) := do
  let cols ← columns A (Catalog.ofDialect d) target.table
  match plan? d cols child with
  | none => throw (.noAttributes child.type)
  | some proj =>
    let text := statementText d target keyed proj child.sql
    Work.withStatement A text fun stmt => do
      Work.note "prepared relation"
        [("relation", .text child.type), ("table", .text target.table),
         ("singular", .bool isSingular), ("parents", .int parents.length), ("sql", .text text)]
      parents.mapM (serve proj.hidden stmt)

mutual

/-- **Resolves a relation** for rows of a table: the parents with the related rows attached. -/
def join (A : Adapter σ) (d : Sql.Dialect) (table : String) :
    Relation → List Record → Work σ (List Record)
  | ⟨type, childTable, sql, bindings, attributes, relations⟩, parents => do
    let child : Relation := ⟨type, childTable, sql, bindings, attributes, relations⟩
    let isSingular := firstHas parents (idColumn type)
    let keyed := !table.isEmpty
    let target ← joinFor A (Catalog.ofDialect d) table type isSingular
    serveAll A d child keyed isSingular parents target fun hidden stmt parent => do
      let nested := fun rows => resolve A d target.table relations rows
      let v ← relatedTo A nested child keyed isSingular hidden stmt parent
      pure (parent.set type v)

/-- **Resolves relations one after the other** for rows of a table.  Without rows nothing is
asked of the store. -/
def resolve (A : Adapter σ) (d : Sql.Dialect) (table : String) :
    List Relation → List Record → Work σ (List Record)
  | [], parents => pure parents
  | child :: rest, parents =>
    if parents.isEmpty then pure []
    else do
      let parents ←
        if firstHas parents child.type then lookInside child parents
        else join A d table child parents
      resolve A d table rest parents

end

/-- The columns that a mutation selects from, if its table is known. -/
def mutationColumns (A : Adapter σ) (d : Sql.Dialect) (table : String) : Work σ (List Column) :=
  if table.isEmpty then pure [] else columns A (Catalog.ofDialect d) table

/-- Runs a mutation at the root with its `RETURNING` clause, and resolves what is nested in it. -/
def mutateOver (A : Adapter σ) (d : Sql.Dialect) (root : Relation)
    (nested : List Record → Work σ (List Record)) (cols : List Column) : Work σ (List Record) := do
  match plan? d cols root with
  | none => throw (.noAttributes "")
  | some proj =>
    let text := root.sql ++ " RETURNING " ++ proj.sql
    Work.note "running mutation" [("table", .text root.table), ("sql", .text text)]
    let rows ← Work.call (Session.all A text root.bindings)
    nested (rows.map fun r => r.hide proj.hidden)

def mutate (A : Adapter σ) (d : Sql.Dialect) (root : Relation) : Work σ (List Record) :=
  if d.returning then
    mutationColumns A d root.table >>= mutateOver A d root (resolve A d root.table root.relations)
  else throw (.returningUnsupported d.name)

/-- The result read off the resolved root: the value of a lone relation, or all of them. -/
def resultOf (root : Relation) (parents : List Record) : Value :=
  let parent := parents.head?.getD Row.empty
  match root.relations with
  | [only] => (parent.get? only.type).getD .null
  | _ => .row parent

/-- **The result of a query**: the returned rows of a mutation, the value of a lone top-level
relation, or a row with the value of each of several relations. -/
def execute (A : Adapter σ) (d : Sql.Dialect) (root : Relation) : Work σ Value :=
  if root.isMutation then mutate A d root >>= fun rows => pure (.rows rows)
  else
    resolve A d "" root.relations [Row.empty] >>= fun parents => pure (resultOf root parents)

def count : Value → Nat
  | .null => 0
  | .rows rs => rs.length
  | .list elements => elements.length
  | _ => 1

end TreeQuery.Execute

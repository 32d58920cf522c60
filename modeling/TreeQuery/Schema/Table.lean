import TreeQuery.Failure
import TreeQuery.Schema.Catalog
import TreeQuery.Text.Utf8
import TreeQuery.Value.Display

/-!
# Tables and their joins

The columns and foreign keys of a table, read from the store's catalog each time they are needed,
and the two ways in which a nested relation joins its parent.  A parent with a column named after
the relation and followed by `Id` has one related row, in the table that this foreign key refers
to (`singular`).  Otherwise the related rows are those of the relation's own table whose only
foreign key to the parent's table refers to the parent (`plural`).
-/

namespace TreeQuery.Schema

open Store

structure Column where
  name : String
  type : String
  /-- Whether the column can hold a JSON document. -/
  isText : Bool
  deriving DecidableEq, Repr

/-- One column of a foreign key: the column `source` of the table refers to the column `target` of
another table; an empty target is left implicit. -/
structure ForeignKey where
  source : String
  table : String
  target : String
  deriving DecidableEq, Repr

/-- **How related rows are found**: those of a table whose key column equals a value of the
parent. -/
structure Join where
  table : String
  key : String
  deriving DecidableEq, Repr

/-- The text of a row's value: empty when missing or null, otherwise as it is displayed. -/
def textOf (row : Record) (key : String) : String :=
  match row.get? key with
  | none => ""
  | some .null => ""
  | some (.text s) => s
  | some (.bytes bs) => String.ofList (Text.decode bs)
  | some v => v.display

variable {σ : Type} (A : Adapter σ) (c : Catalog)

def columnOf (row : Record) : Column :=
  let type := textOf row "type"
  ⟨textOf row "name", type, c.isText type⟩

def foreignKeyOf (row : Record) : ForeignKey :=
  ⟨textOf row "from", textOf row "table", textOf row "to"⟩

def columns (table : String) : Work σ (List Column) := do
  let rows ← Work.call (Session.all A c.columns [.text table])
  return rows.map (columnOf c)

def foreignKeys (table : String) : Work σ (List ForeignKey) := do
  let rows ← Work.call (Session.all A c.foreignKeys [.text table])
  return rows.map foreignKeyOf

/-- The name of the column that refers to the one related row of a type. -/
def idColumn (type : String) : String := type ++ "Id"

def singularJoin (parent child : String) (keys : List ForeignKey) : Except RelationError Join :=
  match keys.find? fun k => k.source == idColumn child with
  | some k => .ok ⟨k.table, if k.target.isEmpty then "id" else k.target⟩
  | none => .error (.notFound parent child)

def pluralJoin (parent child : String) (keys : List ForeignKey) : Except RelationError Join :=
  match keys.filter fun k => k.table == parent with
  | [] => .error (.notFound child parent)
  | [k] => .ok ⟨child, k.source⟩
  | ks => .error (.ambiguous child parent (ks.map ForeignKey.source))

def orFail {α : Type} : Except RelationError α → Work σ α
  | .ok a => pure a
  | .error e => throw (.relation e)

/-- **The join of the one related row** of a child type. -/
def singular (parent child : String) : Work σ Join := do
  orFail (singularJoin parent child (← foreignKeys A c parent))

/-- **The join of the related rows** of a child table. -/
def plural (parent child : String) : Work σ Join := do
  orFail (pluralJoin parent child (← foreignKeys A c child))

end TreeQuery.Schema

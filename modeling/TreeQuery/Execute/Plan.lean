import TreeQuery.Query.Relation
import TreeQuery.Schema.Table

/-!
# Select lists

What a statement selects for one level of a query.  First come the columns that the nested
relations need: the column itself for a relation that looks into a document, the joining column
for a relation that lives in a table.  Then come the attributes asked for.  Each name is selected
once.  A known column is quoted; any other attribute is an expression and passes as it is.

A joining column that was not asked for is fetched all the same, and hidden.
-/

namespace TreeQuery.Execute

open Query Schema

/-- **A select list**: its text, and the columns that are fetched but not shown. -/
structure Projection where
  sql : String
  hidden : List String
  deriving DecidableEq, Repr

/-- The column of a name; of several, the last one. -/
def column? (columns : List Column) (name : String) : Option Column :=
  columns.reverse.find? fun c => c.name == name

def isKnown (columns : List Column) (name : String) : Bool :=
  (column? columns name).isSome

/-- Whether a nested relation looks into a document: its name is a textual column. -/
def looksInside (columns : List Column) (child : Relation) : Bool :=
  ((column? columns child.type).map Column.isText).getD false

def joinColumn (columns : List Column) (child : Relation) : String :=
  if isKnown columns (idColumn child.type) then idColumn child.type else "id"

/-- A select list in the making: the names selected so far, their texts, and the hidden names. -/
structure Selection where
  names : List String := []
  items : List String := []
  hidden : List String := []
  deriving Repr

namespace Selection

def add (s : Selection) (name item : String) : Selection :=
  if s.names.contains name then s
  else { s with names := s.names ++ [name], items := s.items ++ [item] }

def hide (s : Selection) (name : String) : Selection :=
  if s.hidden.contains name then s else { s with hidden := s.hidden ++ [name] }

def addChild (d : Sql.Dialect) (columns : List Column) (rel : Relation) (s : Selection)
    (child : Relation) : Selection :=
  if looksInside columns child then s.add child.type (d.quote child.type)
  else
    let name := joinColumn columns child
    let s := if rel.hasAttribute name then s else s.hide name
    s.add name (d.quote name)

def addAttribute (d : Sql.Dialect) (columns : List Column) (s : Selection) (name : String) :
    Selection :=
  s.add name (if isKnown columns name then d.quote name else name)

end Selection

/-- **The select list of a relation** over the columns of its table.  A relation without
attributes and nested relations has none. -/
def plan? (d : Sql.Dialect) (columns : List Column) (rel : Relation) : Option Projection :=
  let s := rel.relations.foldl (Selection.addChild d columns rel) {}
  let s := rel.attributes.foldl (Selection.addAttribute d columns) s
  if s.items.isEmpty then none else some ⟨",".intercalate s.items, s.hidden⟩

end TreeQuery.Execute

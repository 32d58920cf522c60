import TreeQuery.Query.Relation
import TreeQuery.Schema.Table

/-!
# Databases, and what a query means on them

A database is a list of tables: columns with their declared types, foreign keys, and rows in order.
Every table has a column `id`, and every foreign key refers to the `id` of a table.

The meaning of a query tree is a nested join that is read off the tables alone.  A relation is
linked to the table above it in one of two ways (`Link`): the table has a column named after the
relation and followed by `Id`, and refers to one row of another table; or else the relation's own
table has just one foreign key to the table above it.  A row shows the columns asked for and, under
the type of each nested relation, what it is linked to (`Database.shownRow`).  `Fits` says for which
trees that meaning is the right one.
-/

namespace TreeQuery.Relational

open Query Schema

/-- The value of a row in a column: null where the row has none. -/
def cell (row : Record) (column : String) : Value :=
  (row.get? column).getD .null

structure Table where
  name : String
  /-- The columns, by name and declared type. -/
  columns : List (String × String)
  keys : List ForeignKey
  rows : List Record
  /-- The empty name stands for no table. -/
  name_ne_empty : name ≠ ""
  id_mem : "id" ∈ columns.map Prod.fst
  source_mem : ∀ k ∈ keys, k.source ∈ columns.map Prod.fst
  /-- A foreign key refers to the column `id`, named or left implicit. -/
  target_id : ∀ k ∈ keys, k.target = "id" ∨ k.target = ""

namespace Table

def names (T : Table) : List String :=
  T.columns.map Prod.fst

def describe (T : Table) (c : Catalog) : List Column :=
  T.columns.map fun col => ⟨col.1, col.2, c.isText col.2⟩

/-- The column by which the rows of a table are joined to a nested relation. -/
def joinName (T : Table) (type : String) : String :=
  if idColumn type ∈ T.names then idColumn type else "id"

/-- The columns by which the rows of a table are joined to the relations nested in a relation. -/
def joinNames (T : Table) (rel : Relation) : List String :=
  rel.relations.map fun child => T.joinName child.type

/-- The columns fetched for a relation, each once: those that join come first. -/
def fetched (T : Table) (rel : Relation) : List String :=
  (T.joinNames rel ++ rel.attributes).eraseDups

/-- What a row shows of its own columns: those asked for. -/
def shownCells (T : Table) (rel : Relation) (row : Record) : List (String × Value) :=
  ((T.fetched rel).filter fun n => n ∈ rel.attributes).map fun n => (n, (cell row n).shown)

theorem isEmpty_name (T : Table) : T.name.isEmpty = false := by
  rw [Bool.eq_false_iff]
  exact fun h => T.name_ne_empty (String.isEmpty_iff.mp h)

end Table

/-- **A database**: tables, and what it takes two values to be equal in a comparison. -/
structure Database where
  tables : List Table
  equal : Value → Value → Bool
  equal_null : ∀ v, equal v .null = false ∧ equal .null v = false
  /-- A foreign key refers to a table of the database. -/
  closed : ∀ T ∈ tables, ∀ k ∈ T.keys, ∃ U ∈ tables, U.name = k.table

/-- Values found for a relation, put into one: the first of them or null, or the list of them. -/
def gather (isOne : Bool) (values : List Value) : Value :=
  if isOne then values.head?.getD .null else .list values

/-- **A link** from the rows of one table to those of another: a row is linked to the rows whose
value in `target` equals its own in `source`. -/
structure Link where
  table : Table
  source : String
  target : String
  /-- Whether a row is linked to one row at most. -/
  isOne : Bool

namespace Database

variable (db : Database)

def table? (name : String) : Option Table :=
  db.tables.find? fun T => T.name == name

/-- The columns of a table as the catalog gives them: none for a table that does not exist. -/
def columns (name : String) : List (String × String) :=
  ((db.table? name).map Table.columns).getD []

/-- The foreign keys of a table as the catalog gives them. -/
def keys (name : String) : List ForeignKey :=
  ((db.table? name).map Table.keys).getD []

/-- **The link from a table to a relation nested in it.** -/
def link? (T : Table) (type : String) : Option Link :=
  if idColumn type ∈ T.names then
    (T.keys.find? fun k => k.source == idColumn type).bind fun k =>
      (db.table? k.table).map fun U => ⟨U, idColumn type, "id", true⟩
  else
    (db.table? type).bind fun U =>
      match U.keys.filter fun k => k.table == T.name with
      | [k] => some ⟨U, "id", k.source, false⟩
      | _ => none

end Database

namespace Link

def rows (L : Link) (db : Database) (row : Record) : List Record :=
  L.table.rows.filter fun r => db.equal (cell r L.target) (cell row L.source)

/-- What a row holds of the rows it is linked to, in some view of these. -/
def value (L : Link) (db : Database) (row : Record) (view : Record → Value) : Value :=
  gather L.isOne ((L.rows db row).map view)

end Link

namespace Database

mutual

/-- **What a row of a table shows for a relation**: the columns asked for, and what it holds of each
nested relation. -/
def shownRow (db : Database) (T : Table) (row : Record) : Relation → Value
  | ⟨type, table, sql, bindings, attributes, relations⟩ =>
    .map (T.shownCells ⟨type, table, sql, bindings, attributes, relations⟩ row ++
      shownRelated db T row relations)

/-- What a row shows of nested relations. -/
def shownRelated (db : Database) (T : Table) (row : Record) : List Relation → List (String × Value)
  | [] => []
  | child :: rest =>
    (child.type,
      match db.link? T child.type with
      | none => .null
      | some L => L.value db row fun r => shownRow db L.table r child) ::
      shownRelated db T row rest

end

/-- What a row holds of one nested relation. -/
def related (db : Database) (T : Table) (row : Record) (child : Relation) : Value :=
  match db.link? T child.type with
  | none => .null
  | some L => L.value db row fun r => db.shownRow L.table r child

/-- What a query shows of a relation at its top: all rows of the table of that name. -/
def shownTable (db : Database) (child : Relation) : Value :=
  match db.table? child.type with
  | none => .null
  | some T => gather false (T.rows.map fun row => db.shownRow T row child)

/-- **The meaning of a query**: what a lone relation at its top shows, or a map of what each of
several shows. -/
def meaning (db : Database) (root : Relation) : Value :=
  match root.relations with
  | [only] => db.shownTable only
  | children => .map (children.map fun child => (child.type, db.shownTable child))

/-! ## Reading the definitions -/

theorem shownRelated_eq_map (db : Database) (T : Table) (row : Record) (children : List Relation) :
    db.shownRelated T row children =
      children.map fun child => (child.type, db.related T row child) := by
  induction children with
  | nil => rfl
  | cons child rest ih =>
    rw [shownRelated, ih, List.map_cons]
    rfl

theorem shownRow_eq (db : Database) (T : Table) (row : Record) (rel : Relation) :
    db.shownRow T row rel =
      .map (T.shownCells rel row ++
        rel.relations.map fun child => (child.type, db.related T row child)) := by
  cases rel
  rw [shownRow, shownRelated_eq_map]

theorem name_of_table? {db : Database} {name : String} {T : Table} (h : db.table? name = some T) :
    T.name = name := by
  have hname := List.find?_some h
  exact beq_iff_eq.mp hname

theorem exists_table?_of_key {db : Database} {name : String} {T : Table}
    (h : db.table? name = some T) {k : ForeignKey} (hk : k ∈ T.keys) :
    ∃ U, db.table? k.table = some U := by
  obtain ⟨U, hU, hname⟩ := db.closed T (List.mem_of_find?_eq_some h) k hk
  have hsome : (db.table? k.table).isSome = true :=
    List.find?_isSome.mpr ⟨U, hU, beq_iff_eq.mpr hname⟩
  exact Option.isSome_iff_exists.mp hsome

end Database

/-! ## The trees with that meaning -/

/-- The types of sibling relations are distinct, and none is another one followed by `Id`. -/
def Distinguished (children : List Relation) : Prop :=
  (children.map Relation.type).Nodup ∧
    ∀ child ∈ children, ∀ other ∈ children, child.type ≠ idColumn other.type

instance (children : List Relation) : Decidable (Distinguished children) :=
  inferInstanceAs (Decidable (_ ∧ _))

/-- The relations nested in a relation of a table are told apart from each other and from the
columns that are fetched with them. -/
structure Apart (T : Table) (c : Catalog) (rel : Relation) : Prop where
  distinguished : Distinguished rel.relations
  ne_id : ∀ child ∈ rel.relations, child.type ≠ "id"
  not_text : ∀ child ∈ rel.relations, ∀ col ∈ T.columns, col.1 = child.type → c.isText col.2 = false
  not_attribute : ∀ child ∈ rel.relations, child.type ∉ rel.attributes

/-- **A relation fits a table** when it has no clause, asks for columns of the table, tells its
nested relations apart, and these fit the tables they are linked to. -/
inductive Fits (db : Database) (c : Catalog) : Table → Relation → Prop
  | intro {T : Table} {rel : Relation} (sql : rel.sql = "")
      (attributes : ∀ a ∈ rel.attributes, a ∈ T.names) (apart : Apart T c rel)
      (nested : ∀ child ∈ rel.relations, ∀ L, db.link? T child.type = some L →
        Fits db c L.table child) : Fits db c T rel

/-- A relation without nested ones only has to ask for columns of the table. -/
theorem Fits.leaf {db : Database} {c : Catalog} {T : Table} {rel : Relation} (hsql : rel.sql = "")
    (hattr : ∀ a ∈ rel.attributes, a ∈ T.names) (hrel : rel.relations = []) : Fits db c T rel := by
  refine .intro hsql hattr ?_ ?_
  · constructor <;> simp [hrel, Distinguished]
  · simp [hrel]

/-- **A query fits a database** when the relations at its top are told apart and fit the tables that
they name. -/
structure QueryFits (db : Database) (c : Catalog) (root : Relation) : Prop where
  not_mutation : root.isMutation = false
  distinguished : Distinguished root.relations
  relations : ∀ child ∈ root.relations, ∃ T, db.table? child.type = some T ∧ Fits db c T child

end TreeQuery.Relational

import TreeQuery.Sql.Dialect
import TreeQuery.Text.Blank
import TreeQuery.Text.Lower

/-!
# Catalogs

Tables are described by the database itself.  A catalog holds the two statements that ask for the
description, each with the table's name as its only argument: one gives the columns, by `name` and
`type`, the other the foreign keys, by `from`, `table` and `to`.  A column whose declared type is
textual may hold a JSON document.
-/

namespace TreeQuery.Schema

/-- **The statements that describe a table**, and the declared types that hold text. -/
structure Catalog where
  columns : String
  foreignKeys : String
  textTypes : List String
  deriving DecidableEq, Repr

namespace Catalog

def sqlite : Catalog where
  columns := "SELECT \"name\", \"type\" FROM pragma_table_info(?) ORDER BY \"cid\""
  foreignKeys :=
    "SELECT \"table\", \"from\", \"to\" FROM pragma_foreign_key_list(?) ORDER BY \"id\", \"seq\""
  textTypes := ["text", "json"]

def postgres : Catalog where
  columns :=
    "SELECT column_name AS \"name\", data_type AS \"type\"\n" ++
    "FROM information_schema.columns\n" ++
    "WHERE table_schema = current_schema() AND table_name = ?\n" ++
    "ORDER BY ordinal_position"
  foreignKeys :=
    "SELECT ccu.table_name AS \"table\", kcu.column_name AS \"from\", " ++
    "ccu.column_name AS \"to\"\n" ++
    "FROM information_schema.table_constraints tc\n" ++
    "JOIN information_schema.key_column_usage kcu\n" ++
    "\tON tc.constraint_name = kcu.constraint_name AND tc.table_schema = kcu.table_schema\n" ++
    "JOIN information_schema.constraint_column_usage ccu\n" ++
    "\tON tc.constraint_name = ccu.constraint_name AND tc.table_schema = ccu.table_schema\n" ++
    "WHERE tc.constraint_type = 'FOREIGN KEY' AND tc.table_schema = current_schema() " ++
    "AND tc.table_name = ?\n" ++
    "ORDER BY tc.constraint_name, kcu.ordinal_position"
  textTypes := ["text", "json", "jsonb", "character varying"]

def mysql : Catalog where
  columns :=
    "SELECT COLUMN_NAME AS `name`, DATA_TYPE AS `type`\n" ++
    "FROM information_schema.COLUMNS\n" ++
    "WHERE TABLE_SCHEMA = DATABASE() AND TABLE_NAME = ?\n" ++
    "ORDER BY ORDINAL_POSITION"
  foreignKeys :=
    "SELECT REFERENCED_TABLE_NAME AS `table`, COLUMN_NAME AS `from`, " ++
    "REFERENCED_COLUMN_NAME AS `to`\n" ++
    "FROM information_schema.KEY_COLUMN_USAGE\n" ++
    "WHERE TABLE_SCHEMA = DATABASE() AND TABLE_NAME = ? AND REFERENCED_TABLE_NAME IS NOT NULL\n" ++
    "ORDER BY CONSTRAINT_NAME, ORDINAL_POSITION"
  textTypes := ["text", "tinytext", "mediumtext", "longtext", "json", "varchar"]

/-- The catalog of a dialect, by its name; a dialect without one takes the first. -/
def ofDialect (d : Sql.Dialect) : Catalog :=
  if d.name == Sql.Dialect.postgres.name then postgres
  else if d.name == Sql.Dialect.mysql.name then mysql
  else sqlite

/-- Whether a declared type holds text.  Letter case, blanks around the name and a length in
parentheses do not matter. -/
def isText (c : Catalog) (type : String) : Bool :=
  let lower := Text.trim (type.toList.map Text.lowerChar)
  let bare :=
    if lower.contains '(' then Text.trim (lower.takeWhile (· != '(')) else lower
  c.textTypes.contains (String.ofList bare)

end Catalog

end TreeQuery.Schema

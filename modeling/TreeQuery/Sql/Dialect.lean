import TreeQuery.Sql.Placeholder
import TreeQuery.Text.Blank
import TreeQuery.Text.Lower
import TreeQuery.Text.Quoted

/-!
# Dialects

What the statements built here depend on: the character that quotes names, the form of the
placeholders, and whether a mutation can return the rows it changed.  Three dialects are built
in; `lookup` finds one by its name or by a usual other name.
-/

namespace TreeQuery.Sql

namespace Identifier

def double (q : Char) : List Char → List Char
  | [] => []
  | c :: rest => if c = q then c :: c :: double q rest else c :: double q rest

/-- **A name in quotes**, so that it may hold any character: a quote inside of it is doubled. -/
def quote (q : Char) (name : List Char) : List Char :=
  q :: (double q name ++ [q])

end Identifier

structure Dialect where
  name : String
  /-- The character around a quoted name, a double quote when none is set. -/
  identifierQuote : Option Char := none
  /-- Whether placeholders are numbered `$1`, `$2`, …. -/
  numbered : Bool := false
  returning : Bool := false
  deriving DecidableEq, Repr

namespace Dialect

def sqlite : Dialect :=
  { name := "sqlite", identifierQuote := some '"', returning := true }

def postgres : Dialect :=
  { name := "postgres", identifierQuote := some '"', numbered := true, returning := true }

def mysql : Dialect :=
  { name := "mysql", identifierQuote := some '\x60' }

def all : List Dialect := [sqlite, postgres, mysql]

def aliases : List (String × Dialect) :=
  [("", sqlite), ("sqlite", sqlite), ("sqlite3", sqlite),
   ("postgres", postgres), ("postgresql", postgres), ("pg", postgres),
   ("mysql", mysql), ("mariadb", mysql)]

/-- The dialect with a name, in any letter case and with blanks around it; no name means the
first dialect. -/
def lookup (name : String) : Option Dialect :=
  aliases.lookup (Text.lowered (Text.trimmed name))

def unknownMessage (name : String) : String :=
  "unknown driver " ++ Text.quoted name ++ " (expected sqlite, postgres or mysql)"

def quote (d : Dialect) (name : String) : String :=
  String.ofList (Identifier.quote (d.identifierQuote.getD '"') name.toList)

def bind (d : Dialect) (sql : String) : String :=
  if d.numbered then Placeholder.numbered sql else sql

end Dialect

end TreeQuery.Sql

/-!
# The bundled guides

The guides that come with the program, each as the lines of its Markdown file.
-/

namespace TreeQuery.Docs

def mutations : List String := [
  "# Mutations",
  "",
  "A query that starts with `INSERT`, `UPDATE` or `REPLACE` runs the statement",
  "with a `RETURNING` clause built from the columns in its body:",
  "",
  "```sgq",
  "INSERT INTO brands (id, name) VALUES ($\x7b\x7d, $\x7b\x7d) \x7b",
  "\tid",
  "\tname",
  "\x7d",
  "```",
  "",
  "The statement header must fit on the first line. Nested relations are",
  "resolved against the returned rows like any other query.",
  "",
  "MySQL has no `RETURNING` clause, so mutations are rejected there.",
  "",
  "Set `audit_log` in the config file to append every mutation to a JSON lines",
  "file."]

def queryLanguage : List String := [
  "# Query language",
  "",
  "A query is a list of relations. Each relation names a table, may carry a SQL",
  "clause, and lists the columns to return between braces:",
  "",
  "```sgq",
  "users WHERE name = $\x7b\x7d ORDER BY name \x7b",
  "\tname",
  "\tcars ORDER BY license \x7b",
  "\t\tlicense",
  "\t\x7d",
  "\x7d",
  "```",
  "",
  "- The first word of a relation line is the table or relation name.",
  "- Everything between the name and the opening `\x7b` is SQL appended to the",
  "  generated `SELECT`.",
  "- Each line inside the braces is a column name, a SQL expression such as",
  "  `COUNT(*) AS length`, or a nested relation.",
  "- A relation closes on a line holding only `\x7d`.",
  "",
  "Nested relations return one object or a list depending on how the tables",
  "are joined; see the relations topic."]

def relations : List String := [
  "# Relations",
  "",
  "A nested relation is resolved against each row of its parent:",
  "",
  "1. If the parent row has a column with the relation's name, that column",
  "   holds JSON. `specs` inside `cars` decodes `cars.specs`; list `*` to keep",
  "   every property. Keys keep the order they have in the document.",
  "2. If the parent row has a column named after the relation plus `Id`, the",
  "   relation is singular. `brand` inside `cars` follows the foreign key on",
  "   `cars.brandId` and returns one object or null.",
  "3. Otherwise the relation is plural. `cars` inside `users` follows the",
  "   foreign key on `cars` that references `users` and returns a list.",
  "",
  "Top-level relations select their whole table.",
  "",
  "When more than one foreign key joins the two tables the query fails. Query",
  "the table directly with a WHERE clause instead."]

def templates : List String := [
  "# Values",
  "",
  "Values are never spliced into SQL. Each `$\x7b\x7d` marker becomes a placeholder",
  "and the value is bound to it:",
  "",
  "```sh",
  "sgq query 'users WHERE name = $\x7b\x7d \x7b",
  "\tname",
  "\x7d' --arg John",
  "```",
  "",
  "- `--arg` values are decoded as JSON when possible, so `--arg 3` binds a",
  "  number and `--arg '\"3\"'` binds a string.",
  "- A JSON array expands to one placeholder per element, for `IN ($\x7b\x7d)`.",
  "- Markdown files run every fenced `sgq` block, taking values in order.",
  "- `--marker` changes the marker for queries that contain `$\x7b\x7d` literally."]

def guides : List (String × Option String) :=
  [("mutations.md", some (String.join (mutations.map (· ++ "\n")))),
   ("query-language.md", some (String.join (queryLanguage.map (· ++ "\n")))),
   ("relations.md", some (String.join (relations.map (· ++ "\n")))),
   ("templates.md", some (String.join (templates.map (· ++ "\n"))))]

end TreeQuery.Docs

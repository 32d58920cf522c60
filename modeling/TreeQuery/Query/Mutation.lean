import TreeQuery.Query.Line

/-!
# Mutations

A query whose first line opens with `INSERT`, `UPDATE` or `REPLACE` is a mutation: the line up to
its final brace is a statement to run, and the body names what to return of the changed rows.
-/

namespace TreeQuery.Query

inductive MutationKeyword where
  | insert
  | update
  | replace
  deriving DecidableEq, Repr

namespace MutationKeyword

def lower : MutationKeyword → String
  | .insert => "insert"
  | .update => "update"
  | .replace => "replace"

/-- Whether the text opens with the keyword, in any letter case, followed by white space: by a
character that is, not by a byte. -/
def opens (k : MutationKeyword) (cs : List Char) : Bool :=
  let n := k.lower.length
  Text.sameLetters (cs.take n) k.lower.toList &&
    match cs.drop n with
    | c :: _ => c.isWhitespace || c == '\x0b' || c == '\x0c'
    | [] => false

def ofText? (cs : List Char) : Option MutationKeyword :=
  [insert, update, replace].find? fun k => k.opens cs

end MutationKeyword

def Line.mutation? (l : Line) : Option MutationKeyword :=
  MutationKeyword.ofText? l.text

/-- The name that a word of a statement spells: the text up to the closing quote of a quoted
name, and the text up to a parenthesis or semicolon of a plain one.  A quote that is not closed
names nothing. -/
def unquoteName : List Char → List Char
  | [] => []
  | c :: rest =>
    if c = '"' ∨ c = '\x60' ∨ c = '[' then
      let closing := if c = '[' then ']' else c
      if rest.contains closing then rest.takeWhile (· != closing) else []
    else (c :: rest).takeWhile fun d => d != '(' && d != ';'

/-- The word of a statement that names its table: after the keyword, an optional `OR` with its
action, and the `INTO` that all statements but an update need. -/
def targetWord? : List (List Char) → Option (List Char)
  | first :: second :: rest =>
    let afterOr := if Text.sameLetters second "OR".toList then rest.drop 1 else second :: rest
    if Text.sameLetters first "UPDATE".toList then afterOr.head?
    else
      match afterOr with
      | into :: table :: _ => if Text.sameLetters into "INTO".toList then some table else none
      | _ => none
  | _ => none

/-- **The table that a statement changes**, or the empty name when the statement does not name
one plainly. -/
def targetTable (sql : List Char) : List Char :=
  match targetWord? (Text.words sql) with
  | some word => unquoteName word
  | none => []

end TreeQuery.Query

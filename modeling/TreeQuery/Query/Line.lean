import TreeQuery.Text.Blank
import TreeQuery.Text.Search

/-!
# Lines of a query

A query is read line by line.  `scan` gives the lines of a text that are not blank, trimmed of
blanks, each with the byte interval it occupies.  Texts are made of Unicode characters, and only
positions count bytes: of malformed encodings, and of what a single byte of a character looks like,
there is nothing here.
-/

namespace TreeQuery.Query

/-- **A line**: its trimmed text and the position of its first byte in the query. -/
structure Line where
  text : List Char
  start : Nat
  deriving DecidableEq, Repr

namespace Line

def stop (l : Line) : Nat :=
  l.start + Text.bytes l.text

/-- The lines among `raws`, the first of which stands at byte `pos`; each but the last is followed
by a newline. -/
def scanFrom (pos : Nat) : List (List Char) → List Line
  | [] => []
  | raw :: rest =>
    let text := Text.trim raw
    let start := pos + Text.bytes (raw.takeWhile Text.isBlank)
    let later := scanFrom (pos + Text.bytes raw + 1) rest
    if text.isEmpty then later else ⟨text, start⟩ :: later

/-- **The trimmed lines of a text** that are not blank, in order. -/
def scan (literal : List Char) : List Line :=
  scanFrom 0 (Text.lines literal)

def isFinish (l : Line) : Bool :=
  l.text == ['}']

def opens (l : Line) : Bool :=
  l.text.getLast? == some '{'

def body (l : Line) : List Char :=
  l.text.dropLast

end Line

/-- The first line of a relation: the relation's type, and the text of its clause with the
position where that text starts. -/
structure RelationStart where
  type : List Char
  clause : List Char
  start : Nat
  deriving DecidableEq, Repr

namespace RelationStart

def stop (m : RelationStart) : Nat :=
  m.start + Text.bytes m.clause

end RelationStart

/-- **The start of a relation**, `type clause {`.  The type is the leading run of characters that
are not blank, the closing brace excluded; it must not be empty. -/
def Line.relationStart? (l : Line) : Option RelationStart :=
  if l.opens then
    let type := l.body.takeWhile fun c => !Text.isBlank c
    let clause := l.body.dropWhile fun c => !Text.isBlank c
    if type.isEmpty then none
    else some ⟨type, clause, l.start + Text.bytes type⟩
  else none

end TreeQuery.Query

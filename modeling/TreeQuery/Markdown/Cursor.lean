import TreeQuery.Text.Search

/-!
# A place in a text of lines

Blocks of Markdown are told apart by how far lines are indented, counted in columns: a tab reaches
to the next multiple of four.  A `Cursor` stands in a line of a text.  When only some of the columns
of a tab have been passed, those left count as blanks: they are the cursor's *pad*.
-/

namespace TreeQuery.Markdown

def isSpace (c : Char) : Bool := c == ' ' || c == '\t' || c == '\n' || c == '\r'

def isBlankText (cs : List Char) : Bool := cs.all isSpace

def trimStart (cs : List Char) : List Char := cs.dropWhile isSpace

def trimEnd (cs : List Char) : List Char := (cs.reverse.dropWhile isSpace).reverse

def trimBoth (cs : List Char) : List Char := trimEnd (trimStart cs)

def linesOf : List Char → List (List Char)
  | [] => []
  | c :: rest =>
    if c = '\n' then [c] :: linesOf rest
    else
      match linesOf rest with
      | [] => [[c]]
      | l :: ls => (c :: l) :: ls

/-! ## Columns -/

def tabWidth (column : Nat) : Nat := 4 - column % 4

def columnAfter (column : Nat) (c : Char) : Nat :=
  if c = '\t' then column + tabWidth column else column + 1

/-- The blanks and tabs at the front of a text: their columns, when it starts at a column, and their
number. -/
def indentation (column : Nat) : List Char → Nat × Nat
  | c :: rest =>
    if c = ' ' ∨ c = '\t' then
      let width := columnAfter column c - column
      let (columns, count) := indentation (column + width) rest
      (width + columns, count + 1)
    else (0, 0)
  | [] => (0, 0)

/-- The number of characters that make up at least `width` columns of blanks and the columns beyond
them; `used` columns have been counted, and the next `pad` characters are what is left of a tab. -/
def indentPlaceFrom (column width : Nat) (used pad : Nat) : List Char → Option (Nat × Nat)
  | [] => if width ≤ used then some (0, used - width) else none
  | c :: rest =>
    let next (columns pad : Nat) : Option (Nat × Nat) :=
      (indentPlaceFrom column width (used + columns) pad rest).map
        fun (n, beyond) => (n + 1, beyond)
    match pad with
    | pad + 1 => next 1 pad
    | 0 =>
      if c = '\t' ∧ used < width then next (tabWidth (column + used)) 0
      else if c = ' ' ∧ used < width then next 1 0
      else if width ≤ used then some (0, used - width)
      else none

/-- **The place behind `width` columns of blanks** in a line that starts at a column with a pad: the
number of characters to pass, the pad apart, and the pad there. -/
def indentPlace (column pad width : Nat) (line : List Char) : Option (Nat × Nat) :=
  if width = 0 then some (0, pad)
  else (indentPlaceFrom column width 0 pad line).map fun (n, beyond) => (n - pad, beyond)

/-! ## Cursors -/

/-- **A place in a text of lines.** -/
structure Cursor where
  /-- The column behind the characters that were passed. -/
  column : Nat
  /-- The last character that was passed on this line, with the column before it. -/
  previous : Option (Char × Nat)
  pad : Nat
  rest : List Char
  later : List (List Char)
  deriving DecidableEq, Repr

namespace Cursor

def atStart : List (List Char) → Cursor
  | [] => ⟨0, none, 0, [], []⟩
  | l :: ls => ⟨0, none, 0, l, ls⟩

def nextLine (c : Cursor) : Cursor := atStart c.later

def isAtEnd (c : Cursor) : Bool := c.rest.isEmpty

/-- The column that the line is read from, the pad being still to be passed. -/
def offset (c : Cursor) : Nat := c.column - c.pad

/-- **The line from here on**, the pad included. -/
def line (c : Cursor) : List Char :=
  if c.rest.isEmpty then [] else List.replicate c.pad ' ' ++ c.rest

def isBlank (c : Cursor) : Bool := isBlankText c.line

def indent (c : Cursor) : Nat × Nat := indentation c.offset c.line

/-- **The place a number of characters further on**; the end of a line is passed as a character. -/
def advance : Nat → Cursor → Cursor
  | 0, c => c
  | n + 1, c =>
    match c.pad, c.rest with
    | _, [] => c
    | pad + 1, _ => advance n { c with pad := pad }
    | 0, d :: rest =>
      if d = '\n' then advance n c.nextLine
      else
        advance n { c with column := columnAfter c.column d, previous := some (d, c.column), rest }

/-- The place a number of characters further on, with a pad if that is wider than the one there. -/
def advanceTo (place : Nat × Nat) (c : Cursor) : Cursor :=
  let d := c.advance place.1
  { d with pad := max place.2 d.pad }

/-- Whether the character before the cursor, a tab that was passed in part, still counts as a whole
when the text has an indentation. -/
def keepsTab (c : Cursor) (indent : Nat) : Bool :=
  match c.previous with
  | some (_, column) => c.offset + indent == column
  | none => c.offset + indent == 0

end Cursor

end TreeQuery.Markdown

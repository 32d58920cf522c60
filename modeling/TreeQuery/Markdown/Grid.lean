import TreeQuery.Markdown.Block

/-!
# Tables in a text

A line of hyphens, colons and bars under another line makes a table of both and of the lines after
them.  Bars divide the cells of a row, unless a backslash stands before them; colons tell how a
column is aligned.
-/

namespace TreeQuery.Markdown

/-- The alignment that a piece of the line under the header tells. -/
def columnAlignment? (piece : List Char) : Option (Option Display.Alignment) :=
  let body := trimBoth piece
  let left := body.head? == some ':'
  let right := body.getLast? == some ':'
  let hyphens := if left then body.drop 1 else body
  let hyphens := if right then hyphens.dropLast else hyphens
  if hyphens.isEmpty || !hyphens.all (· == '-') then none
  else
    some (match left, right with
      | true, true => some .center
      | true, false => some .left
      | false, true => some .right
      | false, false => none)

/-- The pieces of a line between its bars, without a blank one at either end. -/
def barPieces (line : List Char) : List (List Char) :=
  let pieces := Text.splitOn ['|'] line
  let pieces := match pieces with
    | p :: rest => if isBlankText p then rest else pieces
    | [] => []
  match pieces.getLast? with
  | some p => if isBlankText p then pieces.dropLast else pieces
  | none => pieces

/-- The alignment of the columns that a line tells, if it is the line under a header. -/
def columns? (line : List Char) : Option (List (Option Display.Alignment)) :=
  let inDivider (c : Char) : Bool := isSpace c || c == '-' || c == '|' || c == ':'
  if 3 < (indentation 0 line).1 || !line.all inDivider then none
  else
    match (barPieces line).mapM columnAlignment? with
    | some [] => none
    | found => found

/-- The cells of a row, the bars at its ends apart; `before` is the character before the rest of
it. -/
def cellsFrom (before : Char) : List Char → List (List Char)
  | [] => [[]]
  | c :: rest =>
    if c = '|' ∧ before ≠ '\\' then
      match rest with
      | [] => [[]]
      | _ => [] :: cellsFrom c rest
    else
      match cellsFrom c rest with
      | cell :: cells => (c :: cell) :: cells
      | [] => [[c]]

def rowCells (line : List Char) : List (List Char) :=
  let body := trimBoth line
  let (before, body) := if body.head? == some '|' then ('|', body.drop 1) else ('\n', body)
  let body := if body.getLast? == some '|' then body.dropLast else body
  if body.isEmpty then [] else (cellsFrom before body).map trimBoth

def fitted (columns : Nat) (cells : List (List Char)) : List (List Char) :=
  (cells ++ List.replicate (columns - cells.length) []).take columns

/-- The table that lines end with, and the lines before it; `header` is the line before `lines`, and
`before` the lines before that, last one first. -/
def splitTable (before : List (List Char)) (header : List Char) :
    List (List Char) → Option (List (List Char) × Block)
  | [] => none
  | line :: rest =>
    match columns? line with
    | none => splitTable (header :: before) line rest
    | some columns =>
      let n := columns.length
      let cells := fitted n (rowCells header)
      if (rowCells header).length ≤ n ∧ 0 < n then
        some (before.reverse, .table columns cells (rest.map fun l => fitted n (rowCells l)))
      else none

/-- **The table in the lines of a paragraph**, with the lines before it. -/
def table? (lines : List (List Char)) : Option (List (List Char) × Block) :=
  match lines with
  | header :: rest => splitTable [] header rest
  | [] => none

end TreeQuery.Markdown

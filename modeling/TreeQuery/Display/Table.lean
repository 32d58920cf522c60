import TreeQuery.Display.Message

/-!
# Tables

Rows are shown under a line of headers and a rule.  A column is as wide as its widest cell, and two
blanks follow each cell.  A cell may span lines; the row is then as high as its highest cell.  A
header has one line, and a mark where the rest is cut off.
-/

namespace TreeQuery.Display

def cellGap : Nat := 2

def cellWidth (cs : List Char) : Nat := widest (Text.lines cs)

def cell (row : List String) (column : Nat) : List Char := (row[column]?.getD "").toList

def columnWidth (rows : List (List String)) (column : Nat) : Nat :=
  (rows.map fun r => cellWidth (cell r column)).foldl max 0 + cellGap

/-- The number of lines that a cell needs in a column that leaves it a width. -/
def cellHeight (width : Nat) (cs : List Char) : Nat :=
  if width = 0 then 1
  else
    ((Text.lines (Text.replaceAll ['\r', '\n'] ['\n'] cs)).map fun l =>
      (Text.lines (Terminal.wrap width [] l)).length).foldr (· + ·) 0

/-- The lines of boxes of one height that stand side by side. -/
def sideBySide (height : Nat) (boxes : List (List (List Char))) : List (List Char) :=
  (List.range height).map fun k => boxes.flatMap fun b => b[k]?.getD []

def cutMark : List Char := ['…']

def headerLines (widths : List Nat) (headers : List String) : List (List Char) :=
  sideBySide 1 (widths.mapIdx fun i w =>
    cellBox .left cellGap w 1 (Terminal.truncate (w - cellGap) cutMark (cell headers i)))

def rowLines (widths : List Nat) (row : List String) : List (List Char) :=
  let height := (widths.mapIdx fun i w => cellHeight (w - cellGap) (cell row i)).foldl max 1
  sideBySide height (widths.mapIdx fun i w => cellBox .left cellGap w height (cell row i))

def tableLines (headers : List String) (rows : List (List String)) : List (List Char) :=
  let columns := (rows.map List.length).foldl max headers.length
  let all := if headers.isEmpty then rows else headers :: rows
  let widths := (List.range columns).map (columnWidth all)
  let rule := List.replicate (widths.foldr (· + ·) 0) '─'
  let head := if headers.isEmpty then [] else headerLines widths headers ++ [rule]
  fillLines .left 0 (head ++ rows.flatMap (rowLines widths))

def table (headers : List String) (rows : List (List String)) : String :=
  "\n".intercalate ((tableLines headers rows).map String.ofList)

end TreeQuery.Display

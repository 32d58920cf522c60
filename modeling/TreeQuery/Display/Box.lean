import TreeQuery.Terminal.StyledWrap

/-!
# Boxes of text

A **box** is a block of lines of one width.  `cell` makes the box of a table's cell: the text is
broken to fit the column, and what is too wide or too high is cut off.
-/

namespace TreeQuery.Display

def tabText : List Char := [' ', ' ', ' ', ' ']

/-- The text of a box with its tabs as blanks and its lines ended alike. -/
def plainText (cs : List Char) : List Char :=
  Text.replaceAll ['\r', '\n'] ['\n'] (Text.replaceAll ['\t'] tabText cs)

def widest (lines : List (List Char)) : Nat := (lines.map Terminal.width).foldl max 0

inductive Alignment where
  | left
  | center
  | right
  deriving DecidableEq, Repr

def fillLine (a : Alignment) (width : Nat) (l : List Char) : List Char :=
  let short := width - Terminal.width l
  match a with
  | .left => l ++ List.replicate short ' '
  | .right => List.replicate short ' ' ++ l
  | .center =>
    let left := short / 2
    List.replicate left ' ' ++ l ++ List.replicate (short - left) ' '

/-- The lines filled up to the widest of them, or to a width if that is greater. -/
def fillLines (a : Alignment) (width : Nat) (lines : List (List Char)) : List (List Char) :=
  let w := max width (widest lines)
  lines.map (fillLine a w)

/-- **The lines of a box** as wide as its widest line. -/
def fill (cs : List Char) : List (List Char) :=
  fillLines .left 0 (Text.lines (plainText cs))

/-- **The box of a cell** in a column of a width, with a margin after its lines, at most and at
least `height` lines high.  A width of zero does not limit the lines. -/
def cellBox (a : Alignment) (margin width height : Nat) (text : List Char) : List (List Char) :=
  let lines := Text.lines (Terminal.styledWrap (width - margin) (plainText text))
  let lines := lines.map (· ++ List.replicate margin ' ')
  let lines := lines ++ List.replicate (height - lines.length) []
  let filled := fillLines a width lines
  (if width = 0 then filled else filled.map (Terminal.truncate width [])).take height

end TreeQuery.Display

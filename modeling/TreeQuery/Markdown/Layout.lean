import TreeQuery.Display.Table

/-!
# Laying out tables

A table fills a width: columns are as wide as their widest cells, and then the narrowest of them
grow, or the widest shrink, until all of them fit together.  A bar stands between the cells of a
row, and a rule under the header.
-/

namespace TreeQuery.Markdown.Layout

/-- The place of the greatest of some values that are asked for; of equal ones the first. -/
def greatest (values : List (Option Int)) : Option Nat :=
  let better (best : Option (Int × Nat)) (v : Option Int × Nat) : Option (Int × Nat) :=
    match v.1, best with
    | some n, none => some (n, v.2)
    | some n, some (m, i) => if m < n then some (n, v.2) else some (m, i)
    | none, best => best
  ((values.zipIdx.foldl better none)).map (·.2)

/-- The columns that a width is divided among, and a column for each bar and both edges. -/
def total (widths : List Nat) : Nat := widths.foldr (· + ·) 0 + widths.length + 1

def grown (widths : List Nat) (i : Nat) : List Nat := widths.modify i (· + 1)

def shrunk (widths : List Nat) (i : Nat) : List Nat := widths.modify i (· - 1)

/-- The widths after the narrowest columns have grown until all fill a width.  A column without
width stays without, unless all are. -/
def grow (width : Nat) : Nat → List Nat → List Nat
  | 0, widths => widths
  | fuel + 1, widths =>
    if width ≤ total widths then widths
    else
      let narrowness (w : Nat) : Option Int := if w = 0 then none else some (-(w : Int))
      grow width fuel (grown widths ((greatest (widths.map narrowness)).getD 0))

/-- The widths after columns have shrunk that a measure picks, the greatest first, until all fit in
a width or none is picked. -/
def shrink (measure : Nat → Nat → Option Int) (width : Nat) : Nat → List Nat → List Nat
  | 0, widths => widths
  | fuel + 1, widths =>
    if total widths ≤ width then widths
    else
      match greatest (widths.mapIdx fun i w => if w = 0 then none else measure i w) with
      | some i => shrink measure width fuel (shrunk widths i)
      | none => widths

def median (ns : List Nat) : Nat :=
  let sorted := ns.mergeSort (· ≤ ·)
  let half := sorted.length / 2
  if sorted.length % 2 = 0 then (sorted[half - 1]?.getD 0 + sorted[half]?.getD 0) / 2
  else sorted[half]?.getD 0

def cellAt (row : List (List Char)) (i : Nat) : List Char := row[i]?.getD []

/-- **The widths of columns** in a table of a width; zero does not limit it.  Columns of at least
half the width shrink first, then those that are wider than most of their cells. -/
def widths (width columns : Nat) (header : List (List Char)) (rows : List (List (List Char))) :
    List Nat :=
  let sizes (i : Nat) : List Nat := rows.map fun r => Display.cellWidth (cellAt r i)
  let natural := (List.range columns).map fun i =>
    (sizes i).foldl max (Display.cellWidth (cellAt header i))
  let medians := (List.range columns).map fun i => median (sizes i)
  let filled := natural.foldr (· + ·) 0
  let fuel := filled + width + 1
  if width = 0 then natural
  else if filled ≤ width then grow width fuel natural
  else
    let isHuge (_ w : Nat) : Option Int := if width / 2 ≤ w then some w else none
    let excess (i w : Nat) : Option Int :=
      let m := medians[i]?.getD 0
      if m < w then some ((w : Int) - m) else none
    let any (_ w : Nat) : Option Int := some w
    shrink any width fuel (shrink excess width fuel (shrink isHuge width fuel natural))

def bar : List Char := ['│']

def alignment (columns : List (Option Display.Alignment)) (i : Nat) : Display.Alignment :=
  (columns[i]?.getD none).getD .left

/-- The lines of boxes of one height that stand side by side, with bars between them. -/
def barred (height : Nat) (boxes : List (List (List Char))) : List (List Char) :=
  (List.range height).map fun k => bar.intercalate (boxes.map fun b => b[k]?.getD [])

def tableLines (width : Nat) (columns : List (Option Display.Alignment))
    (header : List (List Char)) (rows : List (List (List Char))) : List (List Char) :=
  let ws := widths width columns.length header rows
  let box (height : Nat) (row : List (List Char)) (i w : Nat) : List (List Char) :=
    Display.cellBox (alignment columns i) 0 w height (cellAt row i)
  let cut := header.mapIdx fun i h => Terminal.truncate (ws[i]?.getD 0) Display.cutMark h
  let head := barred 1 (ws.mapIdx (box 1 cut))
  let rule := bar.intercalate (ws.map fun w => List.replicate w '─')
  let rowLines (row : List (List Char)) : List (List Char) :=
    let height := (ws.mapIdx fun i w => Display.cellHeight w (cellAt row i)).foldl max 1
    barred height (ws.mapIdx (box height row))
  let lines := Display.fillLines .left 0 (head ++ rule :: rows.flatMap rowLines)
  if width = 0 then lines else lines.map (Terminal.truncate width [])

def table (width : Nat) (columns : List (Option Display.Alignment)) (header : List (List Char))
    (rows : List (List (List Char))) : List Char :=
  ['\n'].intercalate (tableLines width columns header rows)

end TreeQuery.Markdown.Layout

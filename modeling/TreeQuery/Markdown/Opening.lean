import TreeQuery.Markdown.Cursor

/-!
# How blocks begin

The signs at the front of a line tell which block it begins: a rule, a heading, a fence, or an item
of a list.  Each is recognised from the line alone.
-/

namespace TreeQuery.Markdown

/-! ## Rules and headings -/

/-- Whether a line that starts at a column is a rule: at least three stars, hyphens or underscores,
all alike, and white space. -/
def isRule (column : Nat) (line : List Char) : Bool :=
  let (width, count) := indentation column line
  let signs := (line.drop count).filter (!isSpace ·)
  width ≤ 3 && 3 ≤ signs.length &&
    match signs with
    | c :: rest => (c == '*' || c == '-' || c == '_') && rest.all (· == c)
    | [] => false

/-- The level of the heading that a line makes of the paragraph before it. -/
def underlineLevel? (line : List Char) : Option Nat :=
  let blanks := (line.takeWhile (· == ' ')).length
  let bar := trimEnd (line.drop blanks)
  if 3 < blanks ∨ bar.isEmpty then none
  else if bar.all (· == '=') then some 1
  else if bar.all (· == '-') then some 2
  else none

def withoutClosing (body : List Char) : List Char :=
  let front := (body.reverse.dropWhile (· == '#')).reverse
  match front.getLast? with
  | none => []
  | some c => if front.length = body.length ∨ isSpace c then front else body

/-- The heading that a line begins, the indentation apart: its level and its text. -/
def heading? (line : List Char) : Option (Nat × List Char) :=
  let level := (line.takeWhile (· == '#')).length
  let rest := line.drop level
  if level = 0 ∨ 6 < level then none
  else
    match rest with
    | [] => some (level, [])
    | c :: _ => if isSpace c then some (level, withoutClosing (trimBoth rest)) else none

/-! ## Fences -/

/-- **A fence**: its sign, their number, the indentation, and what stands after it. -/
structure Fence where
  sign : Char
  length : Nat
  indent : Nat
  info : List Char
  deriving DecidableEq, Repr

/-- The fence that a line begins after an indentation.  A single character after it is not read. -/
def fence? (indent : Nat) (line : List Char) : Option Fence :=
  match line with
  | sign :: _ =>
    let length := (line.takeWhile (· == sign)).length
    let rest := line.drop length
    let info := if Text.bytes rest ≤ 1 then [] else trimBoth rest
    if (sign ≠ '\x60' ∧ sign ≠ '~') ∨ length < 3 then none
    else if sign = '\x60' ∧ info.contains '\x60' then none
    else some ⟨sign, length, indent, info⟩
  | [] => none

/-- Whether a line closes a fence, the indentation apart. -/
def Fence.isClosedBy (f : Fence) (line : List Char) : Bool :=
  let length := (line.takeWhile (· == f.sign)).length
  f.length ≤ length && isBlankText (line.drop length)

/-! ## List items -/

structure ItemMark where
  indent : Nat
  stop : Nat
  sign : Char
  number : Option Nat
  body : List Char
  deriving DecidableEq, Repr

def maxItemDigits : Nat := 9

def followsMark (cs : List Char) : Bool :=
  match cs with
  | [] => true
  | c :: _ => c == '\n' || c == ' ' || c == '\t'

def itemMark? (line : List Char) : Option ItemMark :=
  let indent := (line.takeWhile (· == ' ')).length
  let rest := line.drop indent
  let digits := rest.takeWhile Char.isDigit
  if 3 < indent then none
  else
    match rest.drop digits.length with
    | sign :: body =>
      if !followsMark body then none
      else if digits.isEmpty then
        if sign = '-' ∨ sign = '*' ∨ sign = '+' then some ⟨indent, indent + 1, sign, none, body⟩
        else none
      else if (sign = '.' ∨ sign = ')') ∧ digits.length ≤ maxItemDigits then
        let number := digits.foldl (fun n c => n * 10 + (c.toNat - 48)) 0
        some ⟨indent, indent + digits.length + 1, sign, some number, body⟩
      else none
    | [] => none

namespace ItemMark

def isEmpty (m : ItemMark) : Bool := isBlankText m.body

/-- The columns between the mark and the text of the item.  Five or more make the text code, which
starts after the first of them. -/
def gap (m : ItemMark) : Nat :=
  if m.isEmpty then 1
  else
    let (width, _) := indentation m.stop m.body
    if 4 < width then 1 else width

def offset (m : ItemMark) : Nat := m.stop + m.gap

end ItemMark

end TreeQuery.Markdown

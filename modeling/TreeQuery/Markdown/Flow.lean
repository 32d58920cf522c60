import TreeQuery.Terminal.Margin
import TreeQuery.Text.Blank
import TreeQuery.Text.Search

/-!
# Breaking lines

A text is broken into lines of at most a number of columns.  Lines break at blanks and after
hyphens; a word that is wider than a line is left whole.  Line breaks already in the text stay.
Hyphens do not count towards the length of a line, and escape sequences are parts of words without
any columns.
-/

namespace TreeQuery.Markdown

/-- **What has been laid out**, and the blanks and the word that are still to be placed; these two
last character first. -/
structure Flow where
  done : Array Char := #[]
  length : Nat := 0
  space : List Char := []
  word : List Char := []
  wordLength : Nat := 0
  hidden : Bool := false
  deriving Repr

namespace Flow

/-- The columns of blanks, counted in bytes. -/
def spaceLength (f : Flow) : Nat := Text.bytes f.space

def addSpace (f : Flow) : Flow :=
  { f with done := f.done ++ f.space.reverse, length := f.length + f.spaceLength, space := [] }

def addWord (f : Flow) : Flow :=
  if f.word.isEmpty then f
  else
    let g := f.addSpace
    { g with
      done := g.done ++ g.word.reverse, length := g.length + g.wordLength, word := []
      wordLength := 0 }

def newLine (f : Flow) : Flow :=
  { f with done := f.done.push '\n', length := 0, space := [] }

def endLine (limit : Int) (f : Flow) : Flow :=
  if !f.word.isEmpty then f
  else if limit < f.length + f.spaceLength then { f with length := 0, space := [] }
  else { f with done := f.done ++ f.space.reverse, space := [] }

def step (limit : Int) (f : Flow) (c : Char) : Flow :=
  if c = Terminal.escapeSign then { f with word := c :: f.word, hidden := true }
  else if f.hidden then { f with word := c :: f.word, hidden := !Terminal.endsSequence c }
  else if c = '\n' then (f.endLine limit).addWord.newLine
  else if Text.isBlank c then
    let f := f.addWord
    { f with space := c :: f.space }
  else if c = '-' then
    let f := f.addSpace.addWord
    { f with done := f.done.push c }
  else
    let f := { f with word := c :: f.word, wordLength := f.wordLength + Text.charWidth c }
    if limit < f.length + f.spaceLength + f.wordLength ∧ f.wordLength < limit then f.newLine else f

end Flow

/-- **A text broken into lines** of at most a number of columns; zero leaves it as it is. -/
def flowed (limit : Int) (cs : List Char) : List Char :=
  if limit = 0 then cs else (cs.foldl (Flow.step limit) {}).addWord.done.toList

/-- A text on one line, without blanks at its ends, broken into lines of at most a number of
columns; zero leaves it as it is. -/
def reflowed (limit : Int) (cs : List Char) : List Char :=
  if limit = 0 then cs
  else flowed limit ((Text.trim cs).map fun c => if c = '\n' then ' ' else c)

end TreeQuery.Markdown

import TreeQuery.Text.Blank
import TreeQuery.Text.Grapheme
import TreeQuery.Text.Search
import TreeQuery.Text.Utf8

/-!
# Text on a terminal

A terminal shows characters, obeys control characters, and takes escape sequences without showing
them.  `State.step` is the reader that tells them apart, and `marks` cuts a text into what it meets.

`width`, `truncate`, `wordwrap` and `wrap` are made of the marks.  A word is a run of marks without
a blank; a blank is as wide as its encoding has bytes.  `wordwrap` breaks lines at blanks and after
breakpoints and leaves long words whole; `wrap` breaks long words too.
-/

namespace TreeQuery.Terminal

/-- **Where the reader stands.** -/
inductive State where
  | ground
  | escape
  | escapeIntermediate
  | controlEntry
  | controlParameter
  | controlIntermediate
  | deviceEntry
  | deviceParameter
  | deviceIntermediate
  | deviceString
  | commandString
  | otherString
  deriving DecidableEq, Repr

inductive Action where
  | print
  | execute
  | hide
  deriving DecidableEq, Repr

namespace State

def stepEscape (c : Char) : State × Action :=
  let n := c.toNat
  if n < 0x20 then (.escape, .execute)
  else if n = 0x7F then (.escape, .hide)
  else if n < 0x30 then (.escapeIntermediate, .hide)
  else if c = 'P' then (.deviceEntry, .hide)
  else if c = '[' then (.controlEntry, .hide)
  else if c = ']' then (.commandString, .hide)
  else if c = 'X' ∨ c = '^' ∨ c = '_' then (.otherString, .hide)
  else (.ground, .hide)

/-- The step inside a control sequence, which parameters may lead on to `parameters`. -/
def stepControl (here parameters : State) (c : Char) : State × Action :=
  let n := c.toNat
  if n < 0x20 then (here, .execute)
  else if n = 0x7F then (here, .hide)
  else if n < 0x30 then (.controlIntermediate, .hide)
  else if n < 0x40 then (parameters, .hide)
  else (.ground, .hide)

def stepDevice (here parameters : State) (c : Char) : State × Action :=
  let n := c.toNat
  if n < 0x20 ∨ n = 0x7F then
    (if here = .deviceEntry ∧ 0x08 ≤ n ∧ n ≤ 0x0D then .deviceString else here, .hide)
  else if n < 0x30 then (.deviceIntermediate, .hide)
  else if n < 0x40 then (parameters, .hide)
  else (.deviceString, .hide)

def isString : State → Bool
  | .deviceString | .commandString | .otherString => true
  | _ => false

/-- **A step of the reader** over a character of one byte. -/
def step (s : State) (c : Char) : State × Action :=
  let n := c.toNat
  if n = 0x1B then (.escape, .hide)
  else if n = 0x18 ∨ n = 0x1A then (.ground, if s.isString then .hide else .execute)
  else
    match s with
    | .ground => (.ground, if 0x20 ≤ n ∧ n < 0x7F then .print else .execute)
    | .escape => stepEscape c
    | .escapeIntermediate =>
      if n < 0x20 then (s, .execute)
      else if n < 0x30 ∨ n = 0x7F then (s, .hide)
      else (.ground, .hide)
    | .controlEntry => stepControl s .controlParameter c
    | .controlParameter => stepControl s .controlParameter c
    | .controlIntermediate => stepControl s .ground c
    | .deviceEntry => stepDevice s .deviceParameter c
    | .deviceParameter => stepDevice s .deviceParameter c
    | .deviceIntermediate => stepDevice s .deviceString c
    | .commandString => (if n = 0x07 then .ground else s, .hide)
    | s => (s, .hide)

/-- Whether a character of several bytes is a hidden part of a string. -/
def hidesWide : State → Bool
  | .deviceString | .commandString => true
  | _ => false

/-- The state after a hidden character of several bytes; one of its bytes may end the string. -/
def afterWide (s : State) (c : Char) : State :=
  if (Text.encodeChar c).contains 0x9C then .ground else s

end State

/-- **What the reader meets.** -/
inductive Mark where
  | print (c : Char)
  | execute (c : Char)
  | hidden (c : Char)
  | cluster (cs : List Char)
  deriving DecidableEq, Repr

namespace Mark

def width : Mark → Nat
  | .print _ => 1
  | .execute _ => 0
  | .hidden _ => 0
  | .cluster cs => Text.clusterWidth cs

def text : Mark → List Char
  | .print c => [c]
  | .execute c => [c]
  | .hidden c => [c]
  | .cluster cs => cs

end Mark

/-- The marks of a text that the reader comes to in a state. -/
def marksFrom (s : State) (cs : List Char) : List Mark :=
  match cs with
  | [] => []
  | c :: rest =>
    if c.toNat < 0x80 then
      match s.step c with
      | (s, .print) => .print c :: marksFrom s rest
      | (s, .execute) => .execute c :: marksFrom s rest
      | (s, .hide) => .hidden c :: marksFrom s rest
    else if s.hidesWide then .hidden c :: marksFrom (s.afterWide c) rest
    else
      .cluster (c :: (Text.splitJoined (.start (Text.breakClass c)) rest).1) ::
        marksFrom .ground (Text.splitJoined (.start (Text.breakClass c)) rest).2
termination_by cs.length
decreasing_by
  all_goals simp_wf
  have := Text.splitJoined_length (.start (Text.breakClass c)) rest
  omega

def marks (cs : List Char) : List Mark := marksFrom .ground cs

/-- **The number of columns of a text** on one line. -/
def width (cs : List Char) : Nat := ((marks cs).map Mark.width).foldr (· + ·) 0

/-! ## Truncating -/

/-- The marks up to a width, with a tail where the first one is left out.  Escape sequences are
kept, and control characters too. -/
def truncateMarks (limit used : Nat) (full : Bool) (tail : List Char) : List Mark → List Char
  | [] => []
  | .cluster cs :: rest =>
    let w := Text.clusterWidth cs
    if full then truncateMarks limit used true tail rest
    else if limit < used + w then tail ++ truncateMarks limit used true tail rest
    else cs ++ truncateMarks limit (used + w) false tail rest
  | .print c :: rest =>
    if full then truncateMarks limit used true tail rest
    else if used = limit then tail ++ truncateMarks limit used true tail rest
    else c :: truncateMarks limit (used + 1) false tail rest
  | m :: rest => m.text ++ truncateMarks limit used full tail rest

/-- **A text cut to a width**, a tail telling that something is missing. -/
def truncate (limit : Nat) (tail : List Char) (cs : List Char) : List Char :=
  if width cs ≤ limit then cs
  else if limit < width tail then []
  else truncateMarks (limit - width tail) 0 false tail (marks cs)

/-! ## Breaking lines -/

/-- **Lines in the making**: what has been written, the blanks and the word that wait to be, and the
widths of the line and of the word. -/
structure Wrapping where
  written : Array Char := #[]
  blanks : List Char := []
  word : List Char := []
  lineWidth : Nat := 0
  wordWidth : Nat := 0
  deriving DecidableEq, Repr

namespace Wrapping

def blankWidth (w : Wrapping) : Nat := Text.bytes w.blanks

def addBlanks (w : Wrapping) : Wrapping :=
  { w with
    written := w.written ++ w.blanks
    lineWidth := w.lineWidth + w.blankWidth
    blanks := [] }

def addWord (w : Wrapping) : Wrapping :=
  if w.word.isEmpty then w
  else
    let w := w.addBlanks
    { w with
      written := w.written ++ w.word
      lineWidth := w.lineWidth + w.wordWidth
      word := []
      wordWidth := 0 }

def put (w : Wrapping) (cs : List Char) (width : Nat) : Wrapping :=
  { w with written := w.written ++ cs, lineWidth := w.lineWidth + width }

def grow (w : Wrapping) (cs : List Char) (width : Nat) : Wrapping :=
  { w with word := w.word ++ cs, wordWidth := w.wordWidth + width }

def addBlank (w : Wrapping) (c : Char) : Wrapping :=
  let w := w.addWord
  { w with blanks := w.blanks ++ [c] }

/-- Starts a line; the waiting blanks are dropped. -/
def newLine (w : Wrapping) : Wrapping :=
  { w with written := w.written.push '\n', lineWidth := 0, blanks := [] }

/-- Ends a line: blanks at its end are kept if they fit. -/
def finishLine (limit : Nat) (w : Wrapping) : Wrapping :=
  if w.wordWidth = 0 then
    if limit < w.lineWidth + w.blankWidth then ({ w with lineWidth := 0, blanks := [] }).addWord
    else ({ w with written := w.written ++ w.blanks, blanks := [] }).addWord
  else w.addWord

def fullWidth (w : Wrapping) : Nat := w.lineWidth + w.blankWidth + w.wordWidth

end Wrapping

def isBreakingBlank (c : Char) : Bool := Text.isBlank c && c != '\u00a0'

def isBreakpoint (breakpoints : List Char) : Mark → Bool
  | .print c => c == '-' || breakpoints.contains c
  | .execute c => breakpoints.contains c
  | .hidden _ => false
  | .cluster cs => cs.any breakpoints.contains

def blank? : Mark → Option Char
  | .print c => if Text.isBlank c then some c else none
  | .execute c => if Text.isBlank c then some c else none
  | .hidden _ => none
  | .cluster cs =>
    match cs with
    | c :: _ => if isBreakingBlank c then some c else none
    | [] => none

/-- The columns that a mark is counted with when lines are broken: a control counts as one. -/
def countedWidth : Mark → Nat
  | .execute _ => 1
  | m => m.width

def wordwrapStep (limit : Nat) (breakpoints : List Char) (w : Wrapping) (m : Mark) : Wrapping :=
  match m with
  | .hidden c => { w with word := w.word ++ [c] }
  | .execute '\n' => (w.finishLine limit).newLine
  | m =>
    match blank? m with
    | some c => w.addBlank c
    | none =>
      if isBreakpoint breakpoints m then (w.addBlanks.addWord).put m.text 1
      else
        let w := w.grow m.text (countedWidth m)
        if limit < w.fullWidth && w.wordWidth < limit then w.newLine else w

/-- **A text with its lines broken** at blanks and after breakpoints; long words are left whole. -/
def wordwrap (limit : Nat) (breakpoints : List Char) (cs : List Char) : List Char :=
  if limit = 0 then cs
  else (((marks cs).foldl (wordwrapStep limit breakpoints) {}).finishLine limit).written.toList

/-- Adds a breakpoint, to the line if there is room for it and else to the word. -/
def addBreakpoint (limit : Nat) (w : Wrapping) (m : Mark) : Wrapping :=
  let w := w.addBlanks
  if limit < w.lineWidth + w.wordWidth + countedWidth m then w.grow m.text (countedWidth m)
  else w.addWord.put m.text (countedWidth m)

/-- Adds a mark to the word; a word that fills the line is written. -/
def addToWord (limit : Nat) (w : Wrapping) (m : Mark) : Wrapping :=
  let w :=
    match m with
    | .cluster cs =>
      let n := Text.clusterWidth cs
      (if limit < w.wordWidth + n then w.addWord else w).grow cs n
    | m =>
      let w := w.grow m.text (countedWidth m)
      if w.wordWidth = limit then w.addWord else w
  if limit < w.fullWidth then w.newLine else w

def wrapStep (limit : Nat) (breakpoints : List Char) (w : Wrapping) (m : Mark) : Wrapping :=
  match m with
  | .hidden c => { w with word := w.word ++ [c] }
  | .execute '\n' => (w.finishLine limit).newLine
  | m =>
    match blank? m with
    | some c => w.addBlank c
    | none =>
      if isBreakpoint breakpoints m then addBreakpoint limit w m else addToWord limit w m

/-- **A text with its lines broken**, inside a word if the word is longer than a line. -/
def wrap (limit : Nat) (breakpoints : List Char) (cs : List Char) : List Char :=
  if limit = 0 then cs
  else (((marks cs).foldl (wrapStep limit breakpoints) {}).finishLine limit).written.toList

end TreeQuery.Terminal

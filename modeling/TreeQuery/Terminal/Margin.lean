import TreeQuery.Text.Width

/-!
# Margins

A text gets blanks in front of each of its lines and behind them, up to a width.  The sequences that
set the look of the text are remembered: before the blanks in front the look is reset, and after
them it is set again.  Blanks in front do not count towards the width.
-/

namespace TreeQuery.Terminal

def escapeSign : Char := '\x1b'

def resetSequence : List Char := [escapeSign, '[', '0', 'm']

def endsSequence (c : Char) : Bool := c == '@' || c.isAlpha

/-- **The looks that were set** since the last reset, the sequence that is being read, and whether
any has been read since. -/
structure Memory where
  looks : List Char := []
  /-- The sequence that is being read, last character first. -/
  partly : List Char := []
  changed : Bool := false
  deriving DecidableEq, Repr

namespace Memory

def isInside (m : Memory) : Bool := !m.partly.isEmpty

/-- The memory after a character, and what can be passed on: a sequence is passed on whole. -/
def take (m : Memory) (c : Char) : Memory × List Char :=
  if c = escapeSign then ({ m with partly := c :: m.partly, changed := true }, [])
  else if m.isInside then
    let partly := c :: m.partly
    if endsSequence c then
      let whole := partly.reverse
      if partly.take 3 = ['m', '0', '['] then (⟨[], [], false⟩, whole)
      else if c = 'm' then (⟨m.looks ++ whole, [], m.changed⟩, whole)
      else ({ m with partly := [] }, whole)
    else ({ m with partly }, [])
  else (m, [c])

def reset (m : Memory) : List Char := if m.changed then resetSequence else []

end Memory

/-! ## Blanks behind lines -/

structure Filling where
  memory : Memory := {}
  written : Array Char := #[]
  lineWidth : Nat := 0
  deriving DecidableEq, Repr

namespace Filling

/-- The text after one more character; `blank` is written for each column that a line lacks. -/
def take (width : Nat) (blank : List Char) (f : Filling) (c : Char) : Filling :=
  let hidden := c == escapeSign || f.memory.isInside
  let (memory, out) := f.memory.take c
  if hidden then { f with memory, written := f.written ++ out }
  else if c = '\n' then
    let blanks := (List.replicate (width - f.lineWidth) blank).flatten
    { f with
      memory, lineWidth := 0, written := f.written ++ blanks ++ f.memory.reset ++ out }
  else
    { f with memory, lineWidth := f.lineWidth + Text.charWidth c, written := f.written ++ out }

end Filling

/-! ## Blanks in front of lines -/

/-- A text whose lines are being moved to the right. -/
structure Moving where
  memory : Memory := {}
  isMoved : Bool := false
  filling : Filling := {}
  deriving DecidableEq, Repr

namespace Moving

def pass (width : Nat) (blank : List Char) (m : Moving) (cs : List Char) : Moving :=
  { m with filling := cs.foldl (Filling.take width blank) m.filling }

def move (indent width : Nat) (blank : List Char) (m : Moving) : Moving :=
  let m := m.pass width blank m.memory.reset
  let f := m.filling
  let m := { m with
    isMoved := true
    filling := { f with written := f.written ++ List.replicate indent ' ' } }
  m.pass width blank m.memory.looks

def take (indent width : Nat) (blank : List Char) (m : Moving) (c : Char) : Moving :=
  let hidden := c == escapeSign || m.memory.isInside
  let m := if hidden || m.isMoved then m else m.move indent width blank
  let (memory, out) := m.memory.take c
  let m := { m with memory, isMoved := m.isMoved && (hidden || c != '\n') }
  m.pass width blank out

end Moving

/-- **A text with blanks** in front of its lines, and behind them up to a width; a line that does
not end has none behind it. -/
def withMargin (indent width : Nat) (blank : List Char) (cs : List Char) : List Char :=
  (cs.foldl (Moving.take indent width blank) {}).filling.written.toList

/-- **A text with blanks** in front of its lines. -/
def indented (indent : Nat) (cs : List Char) : List Char := withMargin indent 0 [] cs

end TreeQuery.Terminal

import TreeQuery.Text.Blank
import TreeQuery.Text.Punctuation

/-!
# Parts of a text and emphasis

The text of a paragraph or heading has parts of its own: code, emphasis, links.  Runs of stars,
underscores and tildes stand around what they emphasise or strike out.  A text is first cut into
tokens; then runs are paired from left to right, each closing run with the nearest one that opens
(`pairRuns`).  Signs that are left over are text.
-/

namespace TreeQuery.Markdown

inductive Inline where
  | text (cs : List Char)
  | code (cs : List Char)
  | emphasis (strong : Bool) (parts : List Inline)
  | struck (parts : List Inline)
  | link (parts : List Inline) (target : List Char)
  | image (parts : List Inline) (target : List Char)
  /-- An address that stands in the text, with the target it leads to. -/
  | address (label target : List Char)
  | html (cs : List Char)
  | box (isChecked : Bool)
  deriving Repr

/-- **A run of signs** that may open or close. -/
structure Run where
  sign : Char
  length : Nat
  /-- The length before any of the signs was used. -/
  full : Nat
  opens : Bool
  closes : Bool
  deriving DecidableEq, Repr

/-- **A token**: a part that is finished, a run of signs, or the bracket that may open a link, with
the text behind it. -/
inductive Token where
  | part (i : Inline)
  | run (r : Run)
  | bracket (isImage : Bool) (after : List Char)
  deriving Repr

namespace Run

/-- The run of a sign between the character before it and the one after.  Runs open before text and
close behind it; a run of underscores does not do both inside a word. -/
def between (sign : Char) (length : Nat) (before : Char) (after : Option Char) : Run :=
  let after := after.getD ' '
  let left := !Text.isBlank after &&
    (!Text.isPunctuation after || Text.isBlank before || Text.isPunctuation before)
  let right := !Text.isBlank before &&
    (!Text.isPunctuation before || Text.isBlank after || Text.isPunctuation after)
  if sign == '_' then
    ⟨sign, length, length, left && (!right || Text.isPunctuation before),
      right && (!left || Text.isPunctuation after)⟩
  else ⟨sign, length, length, left, right⟩

/-- Whether a run closes what another has opened.  Runs that both open and close only pair if their
lengths do not add up to a multiple of three, unless both are one. -/
def pairs (opener closer : Run) : Bool :=
  opener.sign == closer.sign && opener.opens && 0 < opener.length &&
    !((opener.closes || closer.opens) && (opener.full + closer.full) % 3 == 0 &&
      closer.full % 3 != 0)

def used (opener closer : Run) : Nat := if 2 ≤ opener.length ∧ 2 ≤ closer.length then 2 else 1

def unused (r : Run) : List Inline :=
  if r.length = 0 then [] else [.text (List.replicate r.length r.sign)]

end Run

def bracketSign (isImage : Bool) : List Char := if isImage then ['!', '['] else ['[']

/-- Tokens, last one first, as parts in order; what is left over is text. -/
def settle (tokens : List Token) : List Inline :=
  tokens.reverse.flatMap fun
    | .part i => [i]
    | .run r => r.unused
    | .bracket isImage _ => [.text (bracketSign isImage)]

/-- The tokens above the last run that a closer pairs with, that run, and the tokens below. -/
def splitAtOpener (closer : Run) : List Token → Option (List Token × Run × List Token)
  | [] => none
  | .run r :: below =>
    if r.pairs closer then some ([], r, below)
    else (splitAtOpener closer below).map fun (above, o, rest) => (.run r :: above, o, rest)
  | t :: below =>
    (splitAtOpener closer below).map fun (above, o, rest) => (t :: above, o, rest)

/-- The tokens, last one first, after a run has closed all that it can. -/
def closeRun (fuel : Nat) (closer : Run) (stack : List Token) : List Token :=
  match fuel with
  | 0 => .run closer :: stack
  | fuel + 1 =>
    if closer.length = 0 then stack
    else if !closer.closes then .run closer :: stack
    else
      match splitAtOpener closer stack with
      | none => .run closer :: stack
      | some (above, opener, below) =>
        let used := opener.used closer
        let made := if opener.sign == '~' then Inline.struck (settle above)
          else Inline.emphasis (used == 2) (settle above)
        let opener := { opener with length := opener.length - used }
        let below := if opener.length = 0 then below else .run opener :: below
        closeRun fuel { closer with length := closer.length - used } (.part made :: below)

def pairRuns (tokens : List Token) : List Inline :=
  settle (tokens.foldl (fun stack t =>
    match t with
    | .run r => closeRun (r.length + 1) r stack
    | t => t :: stack) [])

end TreeQuery.Markdown

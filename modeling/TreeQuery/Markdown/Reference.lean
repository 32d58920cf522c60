import TreeQuery.Markdown.Cursor
import TreeQuery.Text.Fold

/-!
# Targets of links

A link names its target in brackets behind its text, or it names a label whose target is given
elsewhere: a paragraph may begin with such *definitions*, a label in brackets, a colon, the target
and perhaps a title.  Labels are compared without regard to letter case and to the width of the
blanks in them.
-/

namespace TreeQuery.Markdown

/-- Whether a character is a punctuation mark of ASCII: a backslash protects it. -/
def isMark (c : Char) : Bool :=
  let n := c.toNat
  (33 ≤ n && n ≤ 47) || (58 ≤ n && n ≤ 64) || (91 ≤ n && n ≤ 96) || (123 ≤ n && n ≤ 126)

/-- The text before the sign that closes a bracket, and the text after it.  The sign that opens one
must not occur; a backslash protects both. -/
def closure? (opener closer : Char) : List Char → Option (List Char × List Char)
  | [] => none
  | '\\' :: c :: rest =>
    if isMark c then
      (closure? opener closer rest).map fun (inside, after) => ('\\' :: c :: inside, after)
    else (closure? opener closer (c :: rest)).map fun (inside, after) => ('\\' :: inside, after)
  | c :: rest =>
    if c = closer then some ([], rest)
    else if c = opener then none
    else (closure? opener closer rest).map fun (inside, after) => (c :: inside, after)

/-- A target in angle brackets, the first of them having been read. -/
def bracketedTarget? : List Char → Option (List Char × List Char)
  | [] => none
  | '\\' :: c :: rest =>
    if isMark c then (bracketedTarget? rest).map fun (t, after) => ('\\' :: c :: t, after)
    else (bracketedTarget? (c :: rest)).map fun (t, after) => ('\\' :: t, after)
  | c :: rest =>
    if c = '>' then some ([], rest)
    else if c = '\n' then none
    else (bracketedTarget? rest).map fun (t, after) => (c :: t, after)

/-- A target without brackets around it: it ends before white space and before a parenthesis that
was not opened. -/
def bareTarget (opened : Nat) : List Char → List Char × List Char
  | [] => ([], [])
  | '\\' :: c :: rest =>
    if isMark c then
      let (t, after) := bareTarget opened rest
      ('\\' :: c :: t, after)
    else
      let (t, after) := bareTarget opened (c :: rest)
      ('\\' :: t, after)
  | c :: rest =>
    if isSpace c ∨ (c = ')' ∧ opened = 0) then ([], c :: rest)
    else
      let opened := if c = '(' then opened + 1 else if c = ')' then opened - 1 else opened
      let (t, after) := bareTarget opened rest
      (c :: t, after)

/-- **The target at the front of a text**, and the text after it. -/
def target? (cs : List Char) : Option (List Char × List Char) :=
  match trimStart cs with
  | '<' :: rest => bracketedTarget? rest
  | cs =>
    match bareTarget 0 cs with
    | ([], _) => none
    | found => some found

def titleCloser? (opener : Char) : Option Char :=
  if opener = '"' ∨ opener = '\'' then some opener
  else if opener = '(' then some ')'
  else none

def afterTitle? (cs : List Char) : Option (List Char) :=
  match trimStart cs with
  | opener :: rest => do
    let closer ← titleCloser? opener
    let (_, after) ← closure? opener closer rest
    return after
  | [] => none

/-! ## Labels -/

def narrowed : List Char → List Char
  | [] => []
  | c :: rest =>
    if isSpace c then
      match narrowed rest with
      | ' ' :: more => ' ' :: more
      | more => ' ' :: more
    else c :: narrowed rest

def labelOf (cs : List Char) : List Char :=
  narrowed ((trimBoth cs).flatMap Text.foldCharFully)

def maxLabel : Nat := 999

/-- **What labels stand for**, the earlier definition of a label first. -/
abbrev References := List (List Char × List Char)

def References.target? (refs : References) (cs : List Char) : Option (List Char) :=
  refs.lookup (labelOf cs)

/-! ## Definitions -/

/-- A definition at the front of a text: the label, the target, the text after it, and the text
after the last line that it takes. -/
structure Definition where
  label : List Char
  target : List Char
  after : List Char
  remaining : List Char
  deriving DecidableEq, Repr

def nextLineOf (cs : List Char) : List Char := (cs.dropWhile (· != '\n')).drop 1

def restIsBlank (cs : List Char) : Bool := isBlankText (cs.takeWhile (· != '\n'))

/-- The text from the start of the line on in which a later part of it stands. -/
def fromLineOf (whole part : List Char) : List Char :=
  let before := whole.take (whole.length - part.length)
  whole.drop (before.length - (before.reverse.takeWhile (· != '\n')).length)

/-- The definition with a target, the text behind which is `after`; `whole` is the text that it
starts, from its first line on.  A title must stand alone on the rest of its line; one that does not
is no part of the definition if the target ends a line. -/
def definitionWith? (whole label target after : List Char) : Option Definition :=
  let ended := restIsBlank after
  let rest := trimStart after
  let untitled (from' : List Char) : Option Definition :=
    if ended then some ⟨label, target, from', nextLineOf after⟩ else none
  match rest with
  | opener :: title =>
    match titleCloser? opener with
    | none => untitled rest
    | some closer =>
      if rest.length = after.length then none
      else
        match closure? opener closer title with
        | none => untitled []
        | some (_, tail) =>
          if restIsBlank tail then some ⟨label, target, tail, nextLineOf tail⟩
          else if !ended then none
          else
            let line := fromLineOf whole after
            let remaining := if line.length = whole.length then nextLineOf after else line
            some ⟨label, target, tail, remaining⟩
  | [] => untitled []

def definition? (cs : List Char) : Option Definition :=
  match trimStart cs with
  | '[' :: rest => do
    let (label, after) ← closure? '[' ']' rest
    if isBlankText label then none
    else
      match after with
      | ':' :: after => do
        let (target, after) ← target? after
        definitionWith? (fromLineOf cs ('[' :: rest)) (labelOf label) target after
      | _ => none
  | _ => none

/-- The definitions at the front of a text, which was read up to `cs`, and what is left of it. -/
def definitionsFrom (fuel : Nat) (remaining cs : List Char) : References × List Char :=
  match fuel with
  | 0 => ([], remaining)
  | fuel + 1 =>
    match definition? cs with
    | none => ([], remaining)
    | some d =>
      let (more, rest) := definitionsFrom fuel d.remaining d.after
      ((d.label, d.target) :: more, rest)

/-- **The definitions that a paragraph begins with**, and the rest of its text. -/
def takeDefinitions (cs : List Char) : References × List Char :=
  definitionsFrom (cs.length + 1) cs cs

end TreeQuery.Markdown

import TreeQuery.Markdown.Address
import TreeQuery.Markdown.Emphasis
import TreeQuery.Markdown.Html

/-!
# Reading the text inside blocks

A text is cut into tokens from left to right.  At each punctuation mark, at each blank, and after
each part, the parts are tried that may begin there; a link is made when its closing bracket is met.
A backslash keeps the mark after it from beginning a part.  Blanks at the ends of lines are dropped.
-/

namespace TreeQuery.Markdown

structure Reading where
  tokens : List Token := []
  /-- The text since the last place where a part was tried, last character first. -/
  pending : List Char := []
  before : Char := '\n'
  escaped : Bool := false
  /-- Whether no character was read since the last part or line. -/
  fresh : Bool := true
  deriving Repr

namespace Reading

def flush (r : Reading) : Reading :=
  if r.pending.isEmpty then r
  else { r with tokens := .part (.text r.pending.reverse) :: r.tokens, pending := [] }

def take (r : Reading) (c : Char) : Reading :=
  { r with
    pending := c :: r.pending
    before := c
    escaped := !r.escaped && c == '\\'
    fresh := false }

def endLine (r : Reading) : Reading :=
  let line := (r.pending.dropWhile isSpace).reverse ++ ['\n']
  { r with tokens := .part (.text line) :: r.tokens, pending := [], before := '\n', fresh := true }

def finish (r : Reading) : List Inline :=
  let last := (r.pending.dropWhile isSpace).reverse
  pairRuns (if last.isEmpty then r.tokens else .part (.text last) :: r.tokens).reverse

/-- The reading with a token after the pending text, the character before being known. -/
def push (r : Reading) (t : Token) (before : Char) : Reading :=
  { r with tokens := t :: r.tokens, before, fresh := true, escaped := false }

def isInBracket (r : Reading) : Bool :=
  r.tokens.any fun
    | .bracket _ _ => true
    | _ => false

end Reading

/-! ## Lines -/

/-- The text after the end of the line, if only the end is left.  Two blanks or a backslash before
it belong to it. -/
def afterLineEnd? (r : Reading) (cs : List Char) : Option (List Char) :=
  let protects := r.fresh || r.before != '\\'
  match cs with
  | '\n' :: rest => some rest
  | ' ' :: ' ' :: '\n' :: rest => some rest
  | ' ' :: ' ' :: '\r' :: '\n' :: rest => some rest
  | '\\' :: '\n' :: rest => if protects then some rest else none
  | '\\' :: '\r' :: '\n' :: rest => if protects then some rest else none
  | _ => none

/-! ## Code -/

/-- The text before a closing run of backquotes of a length, and the text after it. -/
def codeEnd? (length : Nat) : Nat → List Char → Option (List Char × List Char)
  | _, [] => none
  | 0, '\x60' :: rest =>
    let run := (rest.takeWhile (· == '\x60')).length + 1
    if run = length then some ([], rest.drop (run - 1))
    else (codeEnd? length (run - 1) rest).map fun (body, after) => ('\x60' :: body, after)
  | skip, c :: rest =>
    (codeEnd? length (skip - 1) rest).map fun (body, after) => (c :: body, after)

/-- The text of code without one blank at either end, unless it is blank. -/
def codeBody (cs : List Char) : List Char :=
  let isEdge (c : Char) : Bool := c == ' ' || c == '\n'
  match cs, cs.getLast? with
  | c :: rest, some d => if isEdge c && isEdge d && !isBlankText cs then rest.dropLast else cs
  | _, _ => cs

/-! ## Links -/

/-- The target of a link and the text after it, its opening parenthesis having been read. -/
def linkTail? (cs : List Char) : Option (List Char × List Char) :=
  match trimStart cs with
  | ')' :: after => some ([], after)
  | body => do
    let (target, rest) ← target? body
    match trimStart rest with
    | ')' :: after => return (target, after)
    | rest =>
      let tail ← afterTitle? rest
      match trimStart tail with
      | ')' :: after => return (target, after)
      | _ => none

/-- The target of the label in a text, if it is not too long. -/
def labelTarget? (refs : References) (label : List Char) : Option (List Char) :=
  if maxLabel < Text.bytes label then none else refs.target? label

/-- **The target of a link** with a text and the text after it; `rest` follows its closing bracket.
The target stands in parentheses, or it is that of a label in brackets, or that of the text. -/
def linkTarget? (refs : References) (label rest : List Char) : Option (List Char × List Char) :=
  let alone := (labelTarget? refs label).map fun t => (t, rest)
  match rest with
  | '(' :: inside => linkTail? inside <|> alone
  | '[' :: inside =>
    match closure? '[' ']' inside with
    | some (name, after) =>
      (labelTarget? refs (if isBlankText name then label else name)).map fun t => (t, after)
    | none => alone
  | _ => alone

mutual

def Inline.holdsLink : Inline → Bool
  | .link _ _ => true
  | .emphasis _ ps => holdLink ps
  | .struck ps => holdLink ps
  | .image ps _ => holdLink ps
  | _ => false

def holdLink : List Inline → Bool
  | [] => false
  | p :: rest => p.holdsLink || holdLink rest

end

/-- The tokens after the last open bracket, the bracket, and the tokens before it. -/
def splitAtBracket : List Token → Option (List Token × (Bool × List Char) × List Token)
  | [] => none
  | .bracket isImage after :: below => some ([], (isImage, after), below)
  | t :: below => (splitAtBracket below).map fun (above, b, rest) => (t :: above, b, rest)

def withoutBracket (tokens : List Token) : List Token :=
  match splitAtBracket tokens with
  | some (above, (isImage, _), below) => above ++ .part (.text (bracketSign isImage)) :: below
  | none => tokens

/-- The last of the characters that were passed between two places. -/
def lastPassed (fromHere toHere : List Char) : Char :=
  (fromHere.take (fromHere.length - toHere.length)).getLast?.getD '\n'

/-- Closes a bracket: makes a link, or gives the tokens in which the bracket is text. -/
def closeBracket (refs : References) (tokens : List Token) (cs : List Char) :
    List Token × Option (List Char) :=
  match splitAtBracket tokens with
  | none => (tokens, none)
  | some (above, (isImage, after), below) =>
    let label := after.take (after.length - cs.length)
    let parts := pairRuns above.reverse
    let nested := !isImage && holdLink (settle above)
    match if nested then none else linkTarget? refs label (cs.drop 1) with
    | some (target, rest) =>
      let made := if isImage then Inline.image parts target else Inline.link parts target
      (.part made :: below, some rest)
    | none => (withoutBracket tokens, none)

/-! ## Parts -/

def taskBox? (cs : List Char) : Option (Inline × List Char) :=
  match cs with
  | '[' :: c :: ']' :: rest =>
    let isBlank (d : Char) : Bool := isSpace d || d == '\x0c'
    let afterBlanks := rest.dropWhile fun d => isBlank d && d != '\n'
    let after := match afterBlanks with
      | '\n' :: next => next
      | tail => tail
    if c == 'x' || c == 'X' then some (.box true, after)
    else if isBlank c then some (.box false, after)
    else none
  | _ => none

/-- Reads an address that needs no brackets, behind a blank or another sign before it. -/
def readAddress? (r : Reading) (cs : List Char) : Option (Reading × List Char) :=
  if r.isInBracket then none
  else
    let leads (c : Char) : Bool := [' ', '*', '_', '~', '('].contains c
    let (lead, body) := match cs with
      | c :: rest => if leads c then ([c], rest) else ([], cs)
      | [] => ([], [])
    (bareAddress? body).map fun a =>
      let r := if lead.isEmpty then r else r.push (.part (.text lead)) ' '
      (r.push (.part (.address a.label a.target)) (lastPassed cs a.after), a.after)

def readRun (r : Reading) (sign : Char) (cs : List Char) : Reading × List Char :=
  let length := (cs.takeWhile (· == sign)).length
  let after := cs.drop length
  (r.push (.run (Run.between sign length r.before after.head?)) sign, after)

/-- **Reads the part that begins here**, if one does.  A reading may change even if none does: a
bracket that closes nothing makes the one before it text. -/
def readPart (refs : References) (inTask : Bool) (r : Reading) (sign : Char) (cs : List Char) :
    Reading × Option (List Char) :=
  let found (o : Option (Reading × List Char)) : Reading × Option (List Char) :=
    match o with
    | some (r, rest) => (r, some rest)
    | none => (r, none)
  let piece (i : Inline) (rest : List Char) : Reading × Option (List Char) :=
    (r.push (.part i) (lastPassed cs rest), some rest)
  let rest := cs.drop 1
  if sign = '\x60' then
    let length := (cs.takeWhile (· == '\x60')).length
    match codeEnd? length 0 (cs.drop length) with
    | some (code, after) => piece (.code (codeBody code)) after
    | none => piece (.text (List.replicate length '\x60')) (cs.drop length)
  else if sign = '!' then
    match rest with
    | '[' :: after => (r.push (.bracket true after) '[', some after)
    | _ => (r, none)
  else if sign = '[' then
    match if inTask && r.tokens.isEmpty then taskBox? cs else none with
    | some (box, after) => piece box after
    | none => (r.push (.bracket false rest) '[', some rest)
  else if sign = ']' then
    let (tokens, after) := closeBracket refs r.tokens cs
    match after with
    | some after =>
      ({ r with tokens, before := lastPassed cs after, fresh := true, escaped := false },
        some after)
    | none => ({ r with tokens }, none)
  else if sign = '<' then
    match bracketedAddress? rest with
    | some a => piece (.address a.label a.target) a.after
    | none =>
      match Html.afterPiece? rest with
      | some after => piece (.html (cs.take (cs.length - after.length))) after
      | none => (r, none)
  else if sign = '*' ∨ sign = '_' then found (some (readRun r sign cs))
  else if sign = '~' then
    if 2 < (cs.takeWhile (· == '~')).length ∨ r.before = '~' then found (readAddress? r cs)
    else found (some (readRun r sign cs))
  else if sign = ' ' ∨ sign = '(' then found (readAddress? r cs)
  else (r, none)

/-- The signs at which parts begin; a blank stands for all blanks and for other text. -/
def partSigns : List Char := ['\x60', '!', '[', ']', '<', '*', '_', '~', '(', ' ']

def readFrom (refs : References) (inTask : Bool) (fuel : Nat) (r : Reading) (cs : List Char) :
    List Inline :=
  match fuel with
  | 0 => r.finish
  | fuel + 1 =>
    match afterLineEnd? r cs with
    | some rest => readFrom refs inTask fuel r.endLine rest
    | none =>
      match cs with
      | [] => r.finish
      | c :: rest =>
        let isBlank := c == ' ' || c == '\t'
        let sign := if isBlank || (r.fresh && !isMark c) then ' ' else c
        if ((isMark c && !r.escaped) || isBlank || r.fresh) && partSigns.contains sign then
          match readPart refs inTask r.flush sign cs with
          | (r, some after) => readFrom refs inTask fuel r after
          | (r, none) => readFrom refs inTask fuel ({ r with escaped := false }.take c) rest
        else readFrom refs inTask fuel (r.take c) rest

/-- **The parts of a text.**  Only a text that begins a list item may begin with the box of a
task. -/
def Inline.read (refs : References) (inTask : Bool) (cs : List Char) : List Inline :=
  readFrom refs inTask (cs.length + 1) {} cs

end TreeQuery.Markdown

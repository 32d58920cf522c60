import TreeQuery.Yaml.Scalar

/-!
# YAML layout

A document as a tree of scalars, sequences and mappings, and its layout in indented blocks.  What
stands inside a mapping is indented to the next multiple of the chosen width; what stands inside a
sequence is indented by two, after its dash.

A row that is nested in a document is written and read back before it is placed there (`settled`).
This fixes the style of every scalar in it, and a plain `<<` comes back with its tag.  A block of
lines whose first one is blank or indented announces its indentation.  Where the announcement is
more than the lines have, the block ends there: what is left of it must be comments, or the document
cannot be read back and has no layout.
-/

namespace TreeQuery.Yaml

/-- How a scalar is meant, if that is written before it. -/
inductive Tag where
  | implicit
  | merge
  | binary
  deriving DecidableEq, Repr

def Tag.text : Tag → List Char
  | .implicit => []
  | .merge => "!!merge".toList
  | .binary => "!!binary".toList

/-- **A YAML document.** -/
inductive Node where
  | scalar (text : List Char) (style : Style) (tag : Tag)
  | sequence (items : List Node)
  | mapping (entries : List (Node × Node))
  deriving Repr

/-- Text in the making, and whether it stands at the start of a line. -/
structure Block where
  text : List Char
  atLineStart : Bool
  deriving Repr

def blanks (n : Nat) : List Char := List.replicate n ' '

def nextIndent (width indent : Nat) : Nat :=
  width * ((indent + width) / width)

/-- The lines of a literal block.  The line that the block's header stands on is ended by the
first break of the text, or by a newline if the text does not start with one. -/
def literalLines (indent : Nat) (inHeader lineStart : Bool) : List Char → List Char
  | [] => []
  | c :: rest =>
    if isBreak c then c :: literalLines indent false true rest
    else
      (if inHeader then ['\n'] else []) ++ (if inHeader || lineStart then blanks indent else []) ++
        c :: literalLines indent false false rest

/-- How many breaks end a text, of the last two characters. -/
def chomping (cs : List Char) : List Char :=
  match cs.reverse with
  | [] => ['-']
  | c :: rest =>
    if !isBreak c then ['-']
    else
      match rest with
      | [] => ['+']
      | d :: _ => if isBreak d then ['+'] else []

def announces : List Char → Bool
  | [] => false
  | c :: _ => c == ' ' || isBreak c

def literal (width indent : Nat) (cs : List Char) : List Char :=
  '|' :: ((if announces cs then Nat.toDigits 10 width else []) ++ chomping cs ++
    literalLines indent true false cs)

def Block.newLine (b : Block) (indent : Nat) : List Char :=
  b.text ++ (if b.atLineStart then [] else ['\n']) ++ blanks indent

def Block.after (front : List Char) (b : Block) : Block :=
  { b with text := front ++ b.text }

def Tag.front : Tag → List Char
  | .implicit => []
  | t => t.text ++ [' ']

/-- A scalar in the style it settles on, behind its tag. -/
def scalarBlock (width indent : Nat) (cs : List Char) (style : Style) (tag : Tag) : Block :=
  let bare : Block :=
    match settleStyle cs style with
    | .plain => ⟨cs, false⟩
    | .singleQuoted => ⟨singleQuoted indent cs, false⟩
    | .doubleQuoted => ⟨doubleQuoted cs, false⟩
    | .literal => ⟨literal width indent cs, (cs.getLast?.map isBreak).getD false⟩
  bare.after tag.front

/-- The text of a key that fits on the line of its value: a scalar on one line, not too long. -/
def simpleKey? (width indent : Nat) : Node → Option (List Char)
  | .scalar cs style tag =>
    if cs.any isBreak || 128 < tag.text.length + (cs.map Char.utf8Size).foldr (· + ·) 0 then none
    else
      let style := if style = .literal then .doubleQuoted else style
      if cs.isEmpty && style = .plain then some (tag.front ++ ['\'', '\''])
      else some (scalarBlock width indent cs style tag).text
  | _ => none

def Node.startsInline : Node → Bool
  | .scalar _ _ _ => true
  | .sequence items => items.isEmpty
  | .mapping entries => entries.isEmpty

mutual

def layout (width indent : Nat) : Node → Block
  | .scalar cs style tag => scalarBlock width indent cs style tag
  | .sequence [] => ⟨['[', ']'], false⟩
  | .sequence items => layoutItems width indent items
  | .mapping [] => ⟨['{', '}'], false⟩
  | .mapping entries => layoutEntries width indent entries

def layoutItems (width indent : Nat) : List Node → Block
  | [] => ⟨[], true⟩
  | item :: rest =>
    let first := (layout width (indent + 2) item).after ['-', ' ']
    if rest.isEmpty then first
    else (layoutItems width indent rest).after (first.newLine indent)

def layoutEntries (width indent : Nat) : List (Node × Node) → Block
  | [] => ⟨[], true⟩
  | (key, value) :: rest =>
    let inner := nextIndent width indent
    let content := layout width inner value
    let first : Block :=
      match simpleKey? width inner key with
      | some k =>
        if value.startsInline then content.after (k ++ [':', ' '])
        else content.after (k ++ [':', '\n'] ++ blanks inner)
      | none =>
        let marked := (layout width inner key).after ['?', ' ']
        let gap := if value.startsInline then [' '] else blanks (inner - (indent + 1))
        content.after (marked.newLine indent ++ ':' :: gap)
    if rest.isEmpty then first
    else (layoutEntries width indent rest).after (first.newLine indent)

end

/-- **The text of a document**, with the given width of indentation. -/
def Node.document (width : Nat) (n : Node) : String :=
  let b := match n with
    | .scalar _ _ _ => layout width width n
    | _ => layout width 0 n
  String.ofList (b.text ++ if b.atLineStart then [] else ['\n'])

/-! ## Written and read back -/

def settleWidth : Nat := 4

/-- The lines of a text, each with the break that ends it; the last one need not have any. -/
def brokenLines : List Char → List (List Char × Option Char)
  | [] => []
  | c :: rest =>
    if isBreak c then ([], some c) :: brokenLines rest
    else
      match brokenLines rest with
      | [] => [([c], none)]
      | (l, b) :: ls => (c :: l, b) :: ls

/-- Whether lines outside of a block are blank or comments. -/
def areComments (lines : List (List Char × Option Char)) : Bool :=
  lines.all fun (l, _) => (l.dropWhile (· == ' ')).head?.all (· == '#')

/-- The lines of a block that lack `missing` blanks of the announced indentation, as they are read
back: the characters up to the last line, its break, and the breaks of the empty lines after it.
Lines that cannot be made up for end the block. -/
def readLines (missing : Nat) (text lineEnd breaks : List Char) :
    List (List Char × Option Char) → Option (List Char × List Char × List Char)
  | [] => some (text, lineEnd, breaks)
  | (l, b) :: rest =>
    let ending := [b.getD '\n']
    if l.isEmpty then readLines missing text lineEnd (breaks ++ ending) rest
    else if (l.takeWhile (· == ' ')).length < missing then
      if areComments ((l, b) :: rest) then some (text, lineEnd, breaks) else none
    else readLines missing (text ++ lineEnd ++ breaks ++ l.drop missing) ending [] rest

/-- A literal text as it is read back, written at an indentation when `expected` is the one that
its header announces. -/
def readBackLiteral (indent expected : Nat) (cs : List Char) : Option (List Char) :=
  match cs with
  | [] => some []
  | c :: rest =>
    if c = '\t' then none
    else
      let body := if isBreak c then rest else cs
      let missing := if announces cs then expected - indent else 0
      (readLines missing [] [] [] (brokenLines body)).map fun (text, lineEnd, breaks) =>
        match chomping cs with
        | ['-'] => text
        | ['+'] => text ++ lineEnd ++ breaks
        | _ => text ++ lineEnd

def settledScalar (indent expected : Nat) (cs : List Char) (style : Style) (tag : Tag) :
    Option Node :=
  match settleStyle cs style with
  | .literal => (readBackLiteral indent expected cs).map fun cs => .scalar cs .literal tag
  | .plain =>
    some (.scalar cs .plain (if tag = .implicit ∧ cs = ['<', '<'] then .merge else tag))
  | s => some (.scalar cs s tag)

mutual

/-- A node as it is read back, its block indented by `indent` inside one that is indented by
`outer`. -/
def settledAt (outer indent : Nat) : Node → Option Node
  | .scalar cs style tag => settledScalar indent (outer + settleWidth) cs style tag
  | .sequence items => (settledItems indent items).map .sequence
  | .mapping entries => (settledEntries indent entries).map .mapping

def settledItems (indent : Nat) : List Node → Option (List Node)
  | [] => some []
  | n :: rest =>
    match settledAt indent (indent + 2) n with
    | none => none
    | some n => (settledItems indent rest).map (n :: ·)

def settledEntries (indent : Nat) : List (Node × Node) → Option (List (Node × Node))
  | [] => some []
  | (k, v) :: rest =>
    let inner := nextIndent settleWidth indent
    match settledAt indent inner k, settledAt indent inner v with
    | some k, some v => (settledEntries indent rest).map ((k, v) :: ·)
    | _, _ => none

end

/-- **A document as it is read back**, if it can be. -/
def Node.settled (n : Node) : Option Node :=
  match n with
  | .scalar cs style tag => settledScalar settleWidth settleWidth cs style tag
  | n => settledAt 0 0 n

end TreeQuery.Yaml

import TreeQuery.Markdown.Grid
import TreeQuery.Markdown.Html
import TreeQuery.Markdown.Opening
import TreeQuery.Markdown.Reference
import TreeQuery.Text.Fold

/-!
# Reading blocks

A text is read line by line.  What has been read is an `Outline`: the containers that are open, one
inside the other, and the leaf that is open in the innermost of them.  A line first goes through the
open containers from the outside in, each taking its part of it (`Outline.takeLine`).  Where one
does not go on, or behind the last, new blocks may open (`Outline.openAt`); the blocks that do not
go on are closed then, unless the line goes on with an open paragraph.
-/

namespace TreeQuery.Markdown

/-- **A block that has blocks inside.** -/
inductive Container where
  | document
  | quote
  | list (sign : Char) (start : Option Nat)
  | item (offset : Nat)
  | definitions (offset : Nat)
  | description (tight : Bool)
  deriving DecidableEq, Repr

/-- An open container with the blocks that were closed in it, last one first. -/
structure Frame where
  kind : Container
  inside : List Block
  deriving Repr

/-- **A block that has none inside**, with its lines, last one first. -/
inductive Leaf where
  | none
  | paragraph (lines : List (List Char))
  | code (lines : List (List Char))
  | fence (f : Fence) (lines : List (List Char))
  | html (ending : Html.Ending) (lines : List (List Char))
  | finished (b : Block)
  deriving Repr

namespace Leaf

def isParagraph : Leaf → Bool
  | .paragraph _ => true
  | _ => false

def isNone : Leaf → Bool
  | .none => true
  | _ => false

end Leaf

/-- **The open blocks**: containers, innermost first and the document last, and the leaf; with what
has been learnt on the way. -/
structure Outline where
  frames : List Frame
  leaf : Leaf
  references : References
  /-- Whether blank lines followed the mark of an item without text. -/
  emptyItem : Bool
  deriving Repr

/-! ## Closing -/

/-- The lines of a paragraph without white space at their starts and at the end. -/
def trimmedLines (lines : List (List Char)) : List Char := trimEnd (lines.map trimStart).flatten

/-- The blocks that a paragraph turns out to be.  It may begin with the targets of labels and end
with a table, if tables are known. -/
def paragraphBlocks (extended : Bool) (text : List Char) : References × List Block :=
  let (refs, rest) := takeDefinitions text
  if rest.isEmpty then (refs, [.empty])
  else
    let lines := linesOf rest
    match if extended then table? lines else none with
    | some (before, table) =>
      (refs, (if before.isEmpty then [] else [.paragraph (trimmedLines before)]) ++ [table])
    | none => (refs, [.paragraph (trimmedLines lines)])

/-- The text of a paragraph that is left after all, and the blocks beside it. -/
def leftParagraph? : List Block → Option (List Char × List Block)
  | .paragraph text :: rest => some (text, rest)
  | _ => none

/-- The lines of code without blank ones at the end, kept last one first. -/
def codeText (lines : List (List Char)) : List Char :=
  (lines.dropWhile isBlankText).reverse.flatten

/-- The description with its first paragraph as plain text. -/
def withPlainFirst : List Block → List Block
  | .paragraph text :: rest => .plain text :: rest
  | b :: rest => b :: withPlainFirst rest
  | [] => []

def Container.block (kind : Container) (blocks : List Block) : Block :=
  match kind with
  | .document => .quote blocks
  | .quote => .quote blocks
  | .list _ start => .list start blocks
  | .item offset => .item offset blocks
  | .definitions _ => .definitions blocks
  | .description tight => .description (if tight then withPlainFirst blocks else blocks)

namespace Outline

def add (b : Block) (o : Outline) : Outline :=
  match o.frames with
  | f :: rest => { o with frames := { f with inside := b :: f.inside } :: rest }
  | [] => o

def addAll (bs : List Block) (o : Outline) : Outline := bs.foldl (fun o b => o.add b) o

def closeLeaf (extended : Bool) (o : Outline) : Outline :=
  let bare := { o with leaf := .none }
  match o.leaf with
  | .none => o
  | .paragraph lines =>
    let (refs, blocks) := paragraphBlocks extended lines.reverse.flatten
    { bare with references := o.references ++ refs }.addAll blocks
  | .code lines => bare.add (.code (codeText lines))
  | .fence f lines => bare.add (.fence f.info lines.reverse.flatten)
  | .html _ lines => bare.add (.html lines.reverse.flatten)
  | .finished b => bare.add b

def closeFrames : Nat → Outline → Outline
  | 0, o => o
  | n + 1, o =>
    match o.frames with
    | f :: g :: rest =>
      closeFrames n ({ o with frames := g :: rest }.add (f.kind.block f.inside.reverse))
    | _ => o

/-- **Closes what is open** inside the container at a depth. -/
def closeTo (extended : Bool) (depth : Nat) (o : Outline) : Outline :=
  (o.closeLeaf extended).closeFrames (o.frames.length - depth)

def push (kind : Container) (inside : List Block) (o : Outline) : Outline :=
  { o with frames := ⟨kind, inside⟩ :: o.frames }

def top (o : Outline) : Frame := o.frames.headD ⟨.document, []⟩

end Outline

/-! ## Lines of code -/

def withLineEnd (cs : List Char) : List Char :=
  if cs.isEmpty || cs.getLast? == some '\n' then cs else cs ++ ['\n']

/-- A blank line without a number of columns of its blanks; one character is kept. -/
def dropColumns (width : Nat) : List Char → List Char
  | c :: d :: rest =>
    if width = 0 then c :: d :: rest
    else if c = ' ' then dropColumns (width - 1) (d :: rest)
    else if c = '\t' then
      if 4 ≤ width then dropColumns (width - 4) (d :: rest)
      else List.replicate (4 - width) ' ' ++ d :: rest
    else c :: d :: rest
  | cs => cs

def codeLine (c : Cursor) : List Char :=
  if c.pad ≠ 0 ∧ c.keepsTab 0 then
    withLineEnd ((c.previous.map (·.1)).toList ++ c.rest)
  else withLineEnd c.line

def firstNonBlank (line : List Char) : Nat :=
  let n := (indentation 0 line).2
  match (line.drop n).head? with
  | some '\n' => 0
  | some _ => n
  | none => 0

/-- A line of fenced code without the indentation of its fence, as far as it has it. -/
def fencedLine (indent : Nat) (c : Cursor) : List Char :=
  let (n, pad) := (indentPlace c.offset c.pad indent c.line).getD (firstNonBlank c.line, 0)
  if pad ≠ 0 ∧ c.keepsTab indent then
    withLineEnd (((c.previous.map (·.1)).toList ++ c.rest).drop n)
  else
    let body := c.rest.drop n
    if body.isEmpty then [] else withLineEnd (List.replicate pad ' ' ++ body)

/-! ## Going on -/

def passQuoteMark? (c : Cursor) : Option Cursor :=
  let (width, count) := c.indent
  match c.line.drop count with
  | '>' :: after =>
    if 3 < width then none
    else
      let d := c.advance (count + 1)
      match after with
      | ' ' :: _ => some (d.advanceTo (1, 0))
      | '\t' :: _ => some (d.advanceTo (1, tabWidth d.offset - 1))
      | _ => some d
  | _ => none

def passIndent (width : Nat) (c : Cursor) : Cursor :=
  match indentPlace c.offset 0 width c.line with
  | some place => c.advanceTo place
  | none => c

/-- The last item of a list: the column of its text, and whether it is empty.  `inner` are the open
containers inside the list, outermost first. -/
def lastItem (list : Frame) (inner : List Frame) (leaf : Leaf) : Nat × Bool :=
  match inner, list.inside with
  | ⟨.item offset, inside⟩ :: deeper, _ =>
    (offset, inside.isEmpty && deeper.isEmpty && leaf.isNone)
  | _, .item offset blocks :: _ => (offset, blocks.isEmpty)
  | _, _ => (0, false)

/-- Whether a line that is not blank goes on with a list. -/
def listGoesOn (sign : Char) (offset : Nat) (isEmpty : Bool) (o : Outline) (c : Cursor) : Bool :=
  let (indent, _) := c.indent
  let goesInside := !(isEmpty && indent < offset) && !o.emptyItem
  if indent < offset || isEmpty then
    match if indent < 4 then itemMark? c.line else none with
    | some m =>
      let tail := c.line.drop (m.stop - 1)
      m.sign == sign &&
        (!isRule 0 tail || (o.leaf.isParagraph && underlineLevel? tail == some 2))
    | none => isEmpty && goesInside
  else goesInside

/-- **A container goes on** with a line, or it does not; `inner` are the open containers inside it.
The outline is changed only in what it has learnt. -/
def continueFrame (f : Frame) (inner : List Frame) (o : Outline) (c : Cursor) :
    Outline × Option Cursor :=
  match f.kind with
  | .document => (o, some c)
  | .quote => (o, passQuoteMark? c)
  | .list sign _ =>
    let (offset, isEmpty) := lastItem f inner o.leaf
    if c.isBlank then ({ o with emptyItem := o.emptyItem || isEmpty }, some c)
    else (o, if listGoesOn sign offset isEmpty o c then some c else none)
  | .item offset =>
    if c.isBlank then (o, some (c.advance (c.line.length - 1)))
    else
      let isEmpty := f.inside.isEmpty && inner.isEmpty && o.leaf.isNone
      let (indent, _) := c.indent
      if (isEmpty || indent < offset) && indent < 4 then
        (o, if isEmpty && (itemMark? c.line).isNone then some (passIndent offset c) else none)
      else (o, some (passIndent offset c))
  | .definitions offset =>
    if c.isBlank then (o, some c)
    else (o, if c.indent.1 < offset then none else some (passIndent offset c))
  | .description _ => (o, some c)

/-- **A leaf goes on** with a line, or ends before it or with it: the leaf after the line, the place
in it, and whether the leaf goes on. -/
def continueLeaf (leaf : Leaf) (c : Cursor) : Leaf × Cursor × Bool :=
  match leaf with
  | .none => (leaf, c, false)
  | .paragraph _ => (leaf, c, false)
  | .finished _ => (leaf, c, false)
  | .code lines =>
    if c.isBlank then (.code (dropColumns 4 c.line :: lines), c, true)
    else
      match indentPlace c.offset 0 4 c.line with
      | some place => (.code (codeLine (c.advanceTo place) :: lines), c, true)
      | none => (leaf, c, false)
  | .fence f lines =>
    let (width, count) := c.indent
    if width < 4 ∧ f.isClosedBy (c.line.drop count) then
      let length := c.line.length - (if c.line.getLast? == some '\n' then 1 else 0)
      (leaf, c.advance length, false)
    else (.fence f (fencedLine f.indent c :: lines), c, true)
  | .html ending lines =>
    match ending with
    | .blankLine =>
      if c.isBlank then (leaf, c, false) else (.html ending (c.line :: lines), c, true)
    | _ =>
      if lines.length = 1 ∧ (lines.any ending.isMet) then (leaf, c, false)
      else if ending.isMet c.line then
        let length := match ending with
          | .verbatim => (trimEnd c.line).length
          | _ => c.line.length
        (.html ending (c.line :: lines), c.advance length, false)
      else (.html ending (c.line :: lines), c, true)

/-! ## Opening -/

/-- **Where blocks may open**: the outline with all closed that does not go on, except for a
paragraph directly in the innermost container, whose lines are kept apart. -/
structure Site where
  outline : Outline
  paragraph : Option (List (List Char))
  /-- Whether a paragraph is open, here or further in, that the line may go on with. -/
  inParagraph : Bool
  opened : Bool
  cursor : Cursor
  deriving Repr

namespace Site

def settled (extended : Bool) (s : Site) : Outline :=
  match s.paragraph with
  | some lines => { s.outline with leaf := .paragraph lines }.closeLeaf extended
  | none => s.outline

/-- Whether only blocks may open that interrupt a paragraph. -/
def mustInterrupt (s : Site) : Bool := s.inParagraph && !s.opened

def inside (o : Outline) (c : Cursor) : Site := ⟨o, none, false, true, c⟩

end Site

inductive Opening where
  /-- A leaf or a container without text was opened: nothing more opens on this line. -/
  | leaf (o : Outline) (c : Cursor)
  /-- A container was opened: more may open inside. -/
  | container (o : Outline) (c : Cursor)
  /-- The paragraph before turned out to be something else: all is tried again. -/
  | again (s : Site)
  deriving Repr

/-- The paragraph of a site closed, for a block that needs it: the outline without it, and its text
if there is any left. -/
def takeParagraph (extended : Bool) (s : Site) (lines : List (List Char)) :
    Outline × Option (List Char) :=
  let (refs, blocks) := paragraphBlocks extended (trimmedLines lines.reverse)
  let o := { s.outline with references := s.outline.references ++ refs }
  match leftParagraph? blocks with
  | some (text, beside) => (o.addAll beside, some text)
  | none => (o.addAll blocks, none)

def openUnderlined (extended : Bool) (s : Site) : Option Opening := do
  let lines ← s.paragraph
  let level ← underlineLevel? s.cursor.line
  match takeParagraph extended s lines with
  | (o, some text) => return .leaf { o with leaf := .finished (.heading level text) } s.cursor
  | (o, none) => return .again ⟨o, none, false, s.opened, s.cursor⟩

def terms (text : List Char) : List Block := (linesOf text).map fun l => .term (trimEnd l)

/-- Opens a description in a list of definitions whose parts are given, last one first. -/
def openDescription (blank : Bool) (parts : List Block) (o : Outline) (c : Cursor) :
    Option Opening :=
  let body := c.line.drop 1
  let width := (indentation 1 body).1
  let width := if 8 ≤ width then 5 else width
  (indentPlace 1 0 width body).map fun (n, pad) =>
    let o := (o.push (.definitions (width + 1)) parts).push (.description (!blank)) []
    .container o (c.advanceTo (n + 1, pad))

/-- Opens a description: of the terms in the paragraph before, or in the list of definitions
before. -/
def openDefinition (extended blank : Bool) (s : Site) : Option Opening :=
  let top := s.outline.top
  let body := s.cursor.line.drop 1
  let under (inside : List Block) : Outline :=
    { s.outline with frames := ⟨top.kind, inside⟩ :: s.outline.frames.drop 1 }
  let describe (parts : List Block) (o : Outline) : Option Opening :=
    openDescription blank parts o s.cursor
  if !extended || s.cursor.line.head? != some ':' || (indentation 1 body).1 == 0 then none
  else
    match s.paragraph, top.inside with
    | some lines, .definitions parts :: inside =>
      describe ((terms lines.reverse.flatten).reverse ++ parts.reverse) (under inside)
    | some lines, _ =>
      match takeParagraph extended s lines with
      | (o, some text) => describe (terms text).reverse o
      | (o, none) => some (.again ⟨o, none, false, s.opened, s.cursor⟩)
    | none, .paragraph text :: .definitions parts :: inside =>
      describe ((terms text).reverse ++ parts.reverse) (under inside)
    | none, .paragraph text :: inside => describe (terms text).reverse (under inside)
    | none, .definitions parts :: inside => describe parts.reverse (under inside)
    | none, _ => none

def openItem (m : ItemMark) (o : Outline) (c : Cursor) : Opening :=
  let o := { o with emptyItem := false }.push (.item m.offset) []
  if m.isEmpty then .leaf o c
  else
    let (n, pad) := (indentPlace m.stop 0 m.gap m.body).getD (0, 0)
    .container o (c.advanceTo (m.stop + n, pad))

/-- Opens an item, in a list of its own if it does not go on with one.  Only items with text, and
numbered ones only if they start with one, interrupt a paragraph. -/
def openListItem (extended : Bool) (s : Site) : Option Opening := do
  let m ← itemMark? s.cursor.line
  let inList := match s.outline.top.kind with
    | .list _ _ => true
    | _ => false
  if inList then return openItem m s.outline s.cursor
  else if s.paragraph.isSome ∧ (m.isEmpty ∨ (m.number.isSome ∧ m.number ≠ some 1)) then none
  else return openItem m ((s.settled extended).push (.list m.sign m.number) []) s.cursor

/-- Opens a block that begins with a sign, on a line that is not indented far.  Some signs are not
seen on a line that has no more bytes than its indentation has columns. -/
def openBySign (extended blank : Bool) (sign : Char) (s : Site) : Option Opening :=
  let c := s.cursor
  let (width, count) := c.indent
  let body := c.line.drop count
  let finish (b : Block) : Opening := .leaf { s.settled extended with leaf := .finished b } c
  let isShort := Text.bytes c.line ≤ width
  if isShort ∧ (['#', '<', '\x60', '~', ':'].contains sign) then none
  else if sign = '#' then (heading? body).map fun (level, text) => finish (.heading level text)
  else if sign = '>' then
    (passQuoteMark? c).map fun d => .container ((s.settled extended).push .quote []) d
  else if sign = '<' then
    (Html.opening? s.inParagraph c.line).map fun e =>
      .leaf { s.settled extended with leaf := .html e [c.line] } c
  else if sign = '\x60' ∨ sign = '~' then
    (fence? count body).map fun f => .leaf { s.settled extended with leaf := .fence f [] } c
  else if sign = ':' then openDefinition extended blank s
  else
    openUnderlined extended s <|>
      (if isRule c.offset c.line then some (finish .rule) else none) <|>
      openListItem extended s

def openByIndent (extended : Bool) (s : Site) : Option Opening :=
  let c := s.cursor
  if s.mustInterrupt then none
  else
    match indentPlace c.offset 0 4 c.line with
    | some place =>
      if c.isBlank then none
      else
        some (.leaf { s.settled extended with leaf := .code [codeLine (c.advanceTo place)] } c)
    | none =>
      let text := trimStart c.rest
      if text.isEmpty then none
      else some (.leaf { s.settled extended with leaf := .paragraph [text] } c)

def openOne (extended blank : Bool) (s : Site) : Option Opening :=
  let (width, count) := s.cursor.indent
  match s.cursor.line.drop count with
  | sign :: _ =>
    if s.cursor.line.head? == some '\n' then none
    else
      (if width ≤ 3 then openBySign extended blank sign s else none) <|> openByIndent extended s
  | [] => if s.cursor.isAtEnd then none else openByIndent extended s

/-- **Opens as many blocks as the line begins**, each inside the one before. -/
def openAll (extended blank : Bool) (fuel : Nat) (s : Site) : Site :=
  match fuel with
  | 0 => s
  | fuel + 1 =>
    match openOne extended blank s with
    | none => s
    | some (.leaf o c) => ⟨o, none, false, true, c⟩
    | some (.container o c) => openAll extended blank fuel (.inside o c)
    | some (.again s) => openAll extended blank fuel s

namespace Outline

/-- **Opens blocks in the container at a depth**; all that is open inside it is closed.  If nothing
opens, the line goes on with a paragraph that is open. -/
def openAt (extended : Bool) (depth : Nat) (blank : Bool) (o : Outline) (c : Cursor) :
    Outline × Cursor :=
  let direct := o.frames.length == depth
  let site : Site := match o.leaf, direct with
    | .paragraph lines, true => ⟨{ o with leaf := .none }, some lines, true, false, c⟩
    | leaf, _ => ⟨o.closeTo extended depth, none, leaf.isParagraph, false, c⟩
  let found := openAll extended blank (2 * c.line.length + 4) site
  if found.opened then (found.outline, found.cursor)
  else
    match o.leaf with
    | .paragraph lines =>
      if c.isBlank then (o.closeTo extended depth, c)
      else ({ o with leaf := .paragraph (c.line :: lines) }, c)
    | _ => (o.closeTo extended depth, c)

/-- Whether a line was blank at a depth, given whether it was at each depth. -/
def wasBlank (blanks : List Bool) (depth : Nat) : Bool :=
  (blanks.take depth).any id || blanks[depth]?.getD false

/-- The outline after a line, the place in the line, and whether the line was blank at each depth.
`passed` is the number of containers that go on, `inner` are the others, outermost first. -/
def takeLineFrom (extended : Bool) (before : List Bool) (passed : Nat) (blanks : List Bool)
    (inner : List Frame) (o : Outline) (c : Cursor) : Outline × Cursor × List Bool :=
  let blanks := if passed = 0 then blanks else blanks ++ [c.isBlank]
  if c.isAtEnd then (o.closeTo extended 1, c, blanks)
  else
    let openHere (o : Outline) (c : Cursor) : Outline × Cursor × List Bool :=
      let (o, c) := o.openAt extended passed (wasBlank before (passed - 1)) c
      (o, c, blanks)
    match inner with
    | f :: rest =>
      match continueFrame f rest o c with
      | (o, some c) => takeLineFrom extended before (passed + 1) blanks rest o c
      | (o, none) => openHere o c
    | [] =>
      match continueLeaf o.leaf c with
      | (leaf, c, true) => ({ o with leaf }, c, blanks)
      | (leaf, c, false) => openHere { o with leaf } c

def takeLine (extended : Bool) (before : List Bool) (o : Outline) (c : Cursor) :
    Outline × Cursor × List Bool :=
  takeLineFrom extended before 0 [] o.frames.reverse o c

def isIdle (o : Outline) : Bool := o.frames.length == 1 && o.leaf.isNone

/-- The outline after all lines.  Blank lines are passed over while nothing is open. -/
def takeLines (extended : Bool) (fuel : Nat) (before : List Bool) (o : Outline) (c : Cursor) :
    Outline :=
  match fuel with
  | 0 => o.closeTo extended 1
  | fuel + 1 =>
    if c.isAtEnd then o.closeTo extended 1
    else if o.isIdle && c.isBlank then takeLines extended fuel [true] o c.nextLine
    else
      let (o, c, blanks) := o.takeLine extended before c
      takeLines extended fuel blanks o c.nextLine

end Outline

/-- **A Markdown text**: its blocks, and the targets of the labels in it. -/
structure Document where
  blocks : List Block
  references : References
  deriving Repr

/-- **Reads a text.**  Tables and lists of definitions are only known to extended Markdown. -/
def Document.read (extended : Bool) (cs : List Char) : Document :=
  let start : Outline := ⟨[⟨.document, []⟩], .none, [], false⟩
  let lines := linesOf cs
  let o := start.takeLines extended (lines.length + 1) [true] (Cursor.atStart lines)
  ⟨o.top.inside.reverse, o.references⟩

/-- **The fenced code of one language**, in the order of the text.  The word after a fence names its
language; letter case does not matter. -/
def codeBlocks (text wanted : String) : List String :=
  let isWanted (l : List Char) : Bool := Text.folded (String.ofList l) == Text.folded wanted
  (Block.codeInAll isWanted (Document.read false text.toList).blocks).map String.ofList

end TreeQuery.Markdown

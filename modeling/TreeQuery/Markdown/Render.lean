import TreeQuery.Markdown.Flow
import TreeQuery.Markdown.HtmlText
import TreeQuery.Markdown.Inline
import TreeQuery.Markdown.Layout
import TreeQuery.Markdown.Location
import TreeQuery.Markdown.Outline
import TreeQuery.Markdown.Style
import TreeQuery.Terminal.Margin

/-!
# Markdown on a terminal

Markdown is laid out for a terminal of some width: headings stand out, lists have bullets or
numbers, code is indented, and the text is broken into lines behind a margin.  Paragraphs and
headings are broken first, at blanks and hyphens only (`flowed`); then what each container holds is
broken once more, also after other signs (`Terminal.wordwrap`), and filled up to the width.
-/

namespace TreeQuery.Markdown

def margin : Nat := 2

def listIndent : Nat := 2

def defaultWidth : Nat := 100

def breakpoints : List Char := [' ', ',', '.', ';', '-', '+', '|']

def codeStyle : Style := { color := some (Style.ofPalette 203) }

def codeBlockStyle : Style := { color := some (Style.ofPalette 231) }

def ruleStyle : Style := { color := some (Style.ofPalette 8) }

def emphasisStyle (strong : Bool) : Style := if strong then { bold := true } else { italic := true }

/-! ## Text -/

def protectable : List Char :=
  ['\\', '\x60', '*', '_', '\x7b', '\x7d', '[', ']', '<', '>', '(', ')', '#', '+', '-', '.', '!',
   '|']

/-- The text without the backslashes that protect signs. -/
def unprotected : List Char → List Char
  | '\\' :: c :: rest =>
    if protectable.contains c then c :: unprotected rest else '\\' :: unprotected (c :: rest)
  | c :: rest => c :: unprotected rest
  | [] => []

mutual

/-- The text of a part without any style, as it was written. -/
def Inline.bare : Inline → List Char
  | .text cs => cs
  | .code cs => cs
  | .emphasis _ ps => bareText ps
  | .struck ps => bareText ps
  | .link ps _ => bareText ps
  | .image ps _ => bareText ps
  | .address label _ => label
  | .html cs => cs
  | .box _ => []

def bareText : List Inline → List Char
  | [] => []
  | p :: rest => p.bare ++ bareText rest

end

def targetBehind (base : Style) (target : List Char) : List Char :=
  styled base [' '] ++ styled base (unprotected (shownTarget target))

/-- The target of a link behind its text, if it is shown; a link without a text has no blank before
it. -/
def linkBehind (base : Style) (hasText : Bool) (target : List Char) : List Char :=
  if !isShownTarget target then []
  else if hasText then targetBehind base target
  else styled base (unprotected (shownTarget target))

mutual

/-- A part in the style of its block, and in the style that emphasis or a link around it adds.  What
has a style or a target of its own is put into the style around it as a whole. -/
def Inline.shown (base : Style) (around : Option Style) : Inline → List Char
  | .text cs => styled (base.overlaid (around.getD {})) (unprotected (unescaped cs))
  | .code cs => enclosed base around (styled (base.overlaid codeStyle) (unescaped cs))
  | .emphasis strong ps =>
    shownParts base (some ((around.getD {}).overlaid (emphasisStyle strong))) ps
  | .struck ps => styled (base.overlaid (around.getD {})) (unprotected (unescaped (bareText ps)))
  | .link ps target =>
    enclosed base around
      (shownParts base (some {}) ps ++ linkBehind base (!ps.isEmpty) target)
  | .image ps target =>
    enclosed base around
      (styled base (unprotected (bareText ps)) ++
        (if target.isEmpty then [] else targetBehind base target))
  | .address label target =>
    enclosed base around
      (styled base (unprotected label) ++ linkBehind base true target)
  | .html cs => styled (base.overlaid (around.getD {})) (unprotected (Html.text cs))
  | .box _ => []
where
  enclosed (base : Style) (around : Option Style) (cs : List Char) : List Char :=
    match around with
    | none => cs
    | some s => styled (base.overlaid s) (unprotected cs)

def shownParts (base : Style) (around : Option Style) : List Inline → List Char
  | [] => []
  | p :: rest => p.shown base around ++ shownParts base around rest

end

/-- The text of code without the backslashes that keep bars from dividing cells. -/
def withBars : List Char → List Char
  | '\\' :: '|' :: rest => '|' :: withBars rest
  | c :: rest => c :: withBars rest
  | [] => []

mutual

def Inline.inCell : Inline → Inline
  | .code cs => .code (withBars cs)
  | .emphasis strong ps => .emphasis strong (inCellParts ps)
  | .struck ps => .struck (inCellParts ps)
  | .link ps target => .link (inCellParts ps) target
  | .image ps target => .image (inCellParts ps) target
  | p => p

def inCellParts : List Inline → List Inline
  | [] => []
  | p :: rest => p.inCell :: inCellParts rest

end

/-! ## Blocks -/

def headingSigns (level : Nat) : List Char :=
  if level ≤ 3 then List.replicate level '#' ++ [' '] else []

def headingStyle (accent : Option String) (level : Nat) : Style :=
  { color := accent, underline := level == 1, bold := true }

def itemMark (start : Option Nat) (index : Nat) : List Char :=
  match start with
  | some n => (toString (n + index)).toList ++ ['.', ' ']
  | none => ['•', ' ']

def breakBefore (first : Bool) : List Char := if first then [] else ['\n']

def endsWithList (bs : List Block) : Bool := (bs.getLast?.map Block.isList).getD false

def codeLines (cs : List Char) : List Char := Html.oneLineEnd cs

/-- What blocks are laid out with: the accent, the targets of labels, the width, and whether they
are in a list. -/
structure Page where
  accent : Option String
  references : References
  width : Int
  inList : Bool
  deriving Repr

namespace Page

def filled (p : Page) (cs : List Char) : List Char :=
  Terminal.withMargin 0 p.width.toNat [' '] cs

/-- The lines of a container, broken and filled up, and moved to the right. -/
def container (p : Page) (indent : Nat) (cs ending : List Char) : List Char :=
  Terminal.withMargin indent p.width.toNat [' ']
    (Terminal.wordwrap p.width.toNat breakpoints cs ++ ending)

def text (p : Page) (inTask : Bool) (s : Style) (cs : List Char) : List Char :=
  shownParts s none (Inline.read p.references inTask cs)

def cell (p : Page) (cs : List Char) : List Char :=
  shownParts {} (some {}) (inCellParts (Inline.read p.references false cs))

def paragraph (p : Page) (first : Bool) (cs : List Char) : List Char :=
  let body := p.text false {} cs
  breakBefore first ++
    (if (Text.trim body).isEmpty then [] else p.filled (reflowed p.width body ++ ['\n']))

def heading (p : Page) (first inItem : Bool) (level : Nat) (cs : List Char) : List Char :=
  let s := headingStyle p.accent level
  let body := styled s (headingSigns level) ++ p.text (first && inItem) s cs
  breakBefore first ++
    Terminal.withMargin 0 p.width.toNat (styled s [' ']) (flowed p.width body) ++ ['\n']

def code (cs : List Char) : List Char :=
  '\n' :: Terminal.indented margin (styled codeBlockStyle (codeLines cs))

def isTask (p : Page) (bs : List Block) : Bool :=
  let begins (cs : List Char) : Bool :=
    match Inline.read p.references true cs with
    | .box _ :: _ => true
    | _ => false
  match bs with
  | .paragraph cs :: _ => begins cs
  | .heading _ cs :: _ => begins cs
  | _ => false

end Page

mutual

/-- A block; `first` tells that it is the first where it stands, `inItem` that it stands directly in
a list item. -/
def Block.shown (p : Page) (first inItem : Bool) : Block → List Char
  | .paragraph cs => if inItem then p.text first {} cs else p.paragraph first cs
  | .plain cs => p.text false {} cs
  | .empty => []
  | .heading level cs => p.heading first inItem level cs
  | .rule => styled ruleStyle ('\n' :: List.replicate 8 '-' ++ ['\n'])
  | .code cs => Page.code cs
  | .fence _ cs => Page.code cs
  | .html cs => unprotected (Html.text cs)
  | .quote bs => '\n' :: p.container 0 (shownBlocks p true false bs) []
  | .list start items =>
    let indent := if p.inList then listIndent else 0
    let inner := { p with width := p.width - indent, inList := true }
    '\n' :: inner.container indent (shownItems inner start 0 items) ['\n']
  | .item _ bs => shownBlocks p true true bs
  | .definitions parts => '\n' :: p.container 0 (shownBlocks p true false parts) ['\n']
  | .term cs => p.text false {} cs
  | .description bs => shownBlocks p true false bs ++ ['\n']
  | .table columns header rows =>
    '\n' :: Layout.table p.width.toNat columns (header.map p.cell) (rows.map (·.map p.cell)) ++
      ['\n']

def shownBlocks (p : Page) (first inItem : Bool) : List Block → List Char
  | [] => []
  | b :: rest => b.shown p first inItem ++ shownBlocks p false inItem rest

/-- The items of a list.  A line break follows each but the last, unless it ends with a list.  A
task has no mark. -/
def shownItems (p : Page) (start : Option Nat) (index : Nat) : List Block → List Char
  | [] => []
  | .item offset bs :: rest =>
    (if p.isTask bs then [] else itemMark start index) ++
      (Block.item offset bs).shown p true true ++
      (if rest.isEmpty || endsWithList bs then [] else ['\n']) ++
      shownItems p start (index + 1) rest
  | b :: rest => b.shown p false false ++ shownItems p start index rest

end

/-- **A Markdown text as a terminal of a width shows it.** -/
def rendered (accentSetting : String) (width : Int) (text : String) : List Char :=
  let columns := if width ≤ 0 then (defaultWidth : Int) else width
  let document := Document.read true text.toList
  let accent := (Display.accent? accentSetting).map Style.ofColor
  let page : Page := ⟨accent, document.references, columns - margin, false⟩
  let body := page.container margin (shownBlocks page true false document.blocks) [] ++ ['\n']
  (body.reverse.dropWhile (· == '\n')).reverse ++ ['\n']

end TreeQuery.Markdown

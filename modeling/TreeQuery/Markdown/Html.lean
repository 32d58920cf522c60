import TreeQuery.Markdown.Cursor

/-!
# HTML in Markdown

A line that starts like a piece of HTML opens a block of it, which lasts until its end mark or, for
the names of block elements and for lone tags, until the next blank line.  Inside a text, tags,
comments and declarations are taken as pieces of HTML.
-/

namespace TreeQuery.Markdown.Html

/-- **How a block of HTML ends.** -/
inductive Ending where
  /-- With the line that closes one of the elements whose content is taken as it is. -/
  | verbatim
  | mark (m : String)
  /-- Before the next blank line. -/
  | blankLine
  deriving DecidableEq, Repr

def verbatimNames : List String := ["script", "pre", "style", "textarea"]

def neverAlone : List String := ["script", "style", "pre"]

def blockNames : List String :=
  ["address", "article", "aside", "base", "basefont", "blockquote", "body", "caption", "center",
   "col", "colgroup", "dd", "details", "dialog", "dir", "div", "dl", "dt", "fieldset",
   "figcaption", "figure", "footer", "form", "frame", "frameset", "h1", "h2", "h3", "h4", "h5",
   "h6", "head", "header", "hr", "html", "iframe", "legend", "li", "link", "main", "menu",
   "menuitem", "meta", "nav", "noframes", "ol", "optgroup", "option", "p", "param", "search",
   "section", "summary", "table", "tbody", "td", "tfoot", "th", "thead", "title", "tr",
   "track", "ul"]

def lower (cs : List Char) : List Char := cs.map Char.toLower

def Ending.isMet (e : Ending) (line : List Char) : Bool :=
  match e with
  | .verbatim => verbatimNames.any fun n => Text.contains ("</" ++ n ++ ">").toList (lower line)
  | .mark m => Text.contains m.toList line
  | .blankLine => false

/-! ## Tags -/

def tagName? (cs : List Char) : Option (List Char × List Char) :=
  match cs with
  | c :: rest =>
    if c.isAlpha then
      let inName (d : Char) : Bool := d.isAlphanum || d == '-'
      some (c :: rest.takeWhile inName, rest.dropWhile inName)
    else none
  | [] => none

def afterValue? (cs : List Char) : Option (List Char) :=
  match cs with
  | '"' :: rest =>
    match rest.dropWhile (· != '"') with
    | _ :: after => some after
    | [] => none
  | '\'' :: rest =>
    match rest.dropWhile (· != '\'') with
    | _ :: after => some after
    | [] => none
  | cs =>
    let bare (c : Char) : Bool :=
      0x20 < c.toNat && !(['"', '\'', '=', '<', '>', '\x60'].contains c)
    if (cs.takeWhile bare).isEmpty then none else some (cs.dropWhile bare)

/-- The text after the attributes of a tag; each has white space before it. -/
def afterAttributes? (fuel : Nat) (cs : List Char) : Option (List Char) :=
  match fuel with
  | 0 => none
  | fuel + 1 =>
    let after := trimStart cs
    match after with
    | c :: rest =>
      if (c.isAlpha || c == '_' || c == ':') && after.length < cs.length then
        let inName (d : Char) : Bool := d.isAlphanum || ['_', '.', ':', '-'].contains d
        let afterName := rest.dropWhile inName
        match trimStart afterName with
        | '=' :: value => (afterValue? (trimStart value)).bind (afterAttributes? fuel)
        | _ => afterAttributes? fuel afterName
      else some cs
    | [] => some cs

def afterTagEnd? (cs : List Char) : Option (List Char) :=
  match cs with
  | '>' :: after => some after
  | '/' :: '>' :: after => some after
  | _ => none

/-! ## Blocks -/

structure LoneTag where
  name : List Char
  isClosing : Bool
  hasAttributes : Bool
  deriving DecidableEq, Repr

/-- The tag that a line consists of, its opening bracket having been read.  Only blanks may stand
before the end of the tag and after it. -/
def loneTag? (cs : List Char) : Option LoneTag := do
  let slash := cs.head? == some '/'
  let body := if slash then (cs.drop 1).dropWhile (· == ' ') else cs
  let (name, after) ← tagName? body
  let tail ← afterAttributes? (after.length + 1) after
  let last ← afterTagEnd? (tail.dropWhile (· == ' '))
  let isClosing := slash && (cs.drop 1).head? != some ' '
  let tag : LoneTag := ⟨name, isClosing, tail.length != after.length⟩
  match last.dropWhile (· == ' ') with
  | [] => some tag
  | ['\n'] => some tag
  | ['\r', '\n'] => some tag
  | _ => none

/-- Whether the name of an element may end before a text, given the blanks that may follow it. -/
def endsName (blanks : List Char) (cs : List Char) : Bool :=
  match cs with
  | [] => true
  | ['\n'] => true
  | ['\r', '\n'] => true
  | '/' :: '>' :: _ => true
  | c :: _ => c == '>' || blanks.contains c

/-- The ending of a block that starts with the name of an element. -/
def namedEnding? (cs : List Char) : Option Ending := do
  let body := if cs.head? == some '/' then (cs.drop 1).dropWhile (· == ' ') else cs
  let (name, after) ← tagName? body
  if blockNames.contains (String.ofList (lower name)) && endsName [' '] after then
    some .blankLine
  else none

/-- The ending of a block that starts with a tag on a line of its own. -/
def loneEnding? (inParagraph : Bool) (cs : List Char) : Option Ending := do
  let tag ← loneTag? cs
  let name := String.ofList (lower tag.name)
  if blockNames.contains name then some .blankLine
  else if !neverAlone.contains name && !inParagraph && !(tag.isClosing && tag.hasAttributes) then
    some .blankLine
  else none

/-- Whether a line starts an element whose content is taken as it is. -/
def opensVerbatim (cs : List Char) : Bool :=
  match tagName? cs with
  | some (name, after) =>
    verbatimNames.contains (String.ofList (lower name)) &&
      endsName [' ', '\t', '\n', '\x0c', '\r'] after
  | none => false

/-- **How a block of HTML ends** that a line starts.  A lone tag does not interrupt a paragraph,
unless it is that of a block element. -/
def opening? (inParagraph : Bool) (line : List Char) : Option Ending :=
  match line.dropWhile (· == ' ') with
  | '<' :: rest =>
    if opensVerbatim rest then some .verbatim
    else
      match rest with
      | '!' :: '-' :: '-' :: _ => some (.mark "-->")
      | '?' :: _ => some (.mark "?>")
      | '!' :: '[' :: 'C' :: 'D' :: 'A' :: 'T' :: 'A' :: '[' :: _ => some (.mark "]]>")
      | '!' :: c :: _ => if c.isUpper then some (.mark ">") else none
      | rest => loneEnding? inParagraph rest <|> namedEnding? rest
  | _ => none

/-! ## Pieces inside a text -/

def skipTagSpace : List Char → List Char
  | '\r' :: '\n' :: rest => skipTagSpace rest
  | c :: rest => if c = ' ' ∨ c = '\t' ∨ c = '\n' then skipTagSpace rest else c :: rest
  | [] => []

/-- The text after a tag, its opening bracket having been read. -/
def afterTag? (cs : List Char) : Option (List Char) :=
  match cs with
  | '/' :: rest => do
    let (_, after) ← tagName? rest
    match skipTagSpace after with
    | '>' :: after => some after
    | _ => none
  | cs => do
    let (_, after) ← tagName? cs
    let tail ← afterAttributes? (after.length + 1) after
    afterTagEnd? (skipTagSpace tail)

def afterMark? (m : String) (cs : List Char) : Option (List Char) :=
  (Text.findCut m.toList cs).map (·.2)

/-- **The text after a piece of HTML**, its opening bracket having been read. -/
def afterPiece? (cs : List Char) : Option (List Char) :=
  match cs with
  | '!' :: '-' :: '-' :: '>' :: after => some after
  | '!' :: '-' :: '-' :: '-' :: '>' :: after => some after
  | '!' :: '-' :: '-' :: rest => afterMark? "-->" rest
  | '?' :: _ => afterMark? "?>" cs
  | '!' :: '[' :: 'C' :: 'D' :: 'A' :: 'T' :: 'A' :: '[' :: _ => afterMark? "]]>" cs
  | '!' :: c :: _ => if c.isUpper then afterMark? ">" cs else none
  | cs => afterTag? cs

end TreeQuery.Markdown.Html

import TreeQuery.Display.Box
import TreeQuery.Markdown.Cursor

/-!
# Blocks

A Markdown text is a sequence of blocks, some of which have blocks inside.  The text inside
paragraphs, headings and cells is kept as it stands, with its line breaks.
-/

namespace TreeQuery.Markdown

inductive Block where
  | paragraph (text : List Char)
  /-- The text of a description that has no paragraphs of its own. -/
  | plain (text : List Char)
  /-- What is left of a paragraph that only names the targets of links. -/
  | empty
  | heading (level : Nat) (text : List Char)
  | rule
  | code (text : List Char)
  /-- Code between fences, with what stands after the first of them. -/
  | fence (info : List Char) (text : List Char)
  | html (text : List Char)
  | quote (blocks : List Block)
  /-- A list of items, with the first number if it is numbered. -/
  | list (start : Option Nat) (items : List Block)
  /-- An item, with the column that its text starts at. -/
  | item (offset : Nat) (blocks : List Block)
  | definitions (parts : List Block)
  | term (text : List Char)
  | description (blocks : List Block)
  | table (columns : List (Option Display.Alignment)) (header : List (List Char))
      (rows : List (List (List Char)))
  deriving Repr

namespace Block

def isList : Block → Bool
  | .list _ _ => true
  | _ => false

def language (info : List Char) : List Char := info.takeWhile (· != ' ')

mutual

/-- The fenced code of a block in a language that is wanted. -/
def codeIn (wanted : List Char → Bool) : Block → List (List Char)
  | .fence info text => if wanted (language info) then [text] else []
  | .quote bs => codeInAll wanted bs
  | .list _ bs => codeInAll wanted bs
  | .item _ bs => codeInAll wanted bs
  | .definitions bs => codeInAll wanted bs
  | .description bs => codeInAll wanted bs
  | _ => []

def codeInAll (wanted : List Char → Bool) : List Block → List (List Char)
  | [] => []
  | b :: rest => codeIn wanted b ++ codeInAll wanted rest

end

end Block

end TreeQuery.Markdown

/-!
# Blank characters

Query text is divided by white space in the Unicode sense, not only by the ASCII blanks: a
no-break space around a line is trimmed as an ordinary space is.
-/

namespace TreeQuery.Text

/-- **The white space characters**: the ASCII blanks, next line, no-break space, the Ogham space
mark, the typographic spaces, the line and paragraph separators and the ideographic space. -/
def isBlank (c : Char) : Bool :=
  let n := c.toNat
  (9 ≤ n && n ≤ 13) || n == 0x20 || n == 0x85 || n == 0xA0 || n == 0x1680 ||
    (0x2000 ≤ n && n ≤ 0x200A) || n == 0x2028 || n == 0x2029 || n == 0x202F || n == 0x205F ||
    n == 0x3000

def trimLeft (cs : List Char) : List Char :=
  cs.dropWhile isBlank

def trimRight (cs : List Char) : List Char :=
  (cs.reverse.dropWhile isBlank).reverse

def trim (cs : List Char) : List Char :=
  trimRight (trimLeft cs)

/-- The maximal runs of non-blank characters, `current` being the run read so far, in reverse. -/
def wordsFrom (current : List Char) : List Char → List (List Char)
  | [] => if current.isEmpty then [] else [current.reverse]
  | c :: rest =>
    if isBlank c then
      if current.isEmpty then wordsFrom [] rest else current.reverse :: wordsFrom [] rest
    else wordsFrom (c :: current) rest

def words (cs : List Char) : List (List Char) :=
  wordsFrom [] cs

def trimmed (s : String) : String :=
  String.ofList (trim s.toList)

end TreeQuery.Text

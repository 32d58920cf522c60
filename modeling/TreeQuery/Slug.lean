import TreeQuery.Text.Blank
import TreeQuery.Text.Lower
import TreeQuery.Text.Search

/-!
# Names of saved queries

Saved queries are found by a normalised name, so that `Active Users`, `active-users` and
`active_users` all name the same query.  A component of a name becomes a slug: letters are brought
to the plain Latin ones, everything else but digits becomes a dash, and dashes are joined and
trimmed.  Components are divided by slashes; empty ones are dropped, and so is the extension of a
query file at the end of the name.
-/

namespace TreeQuery.Slug

/-- The plain spellings of the characters from U+00A0 to U+017F. -/
def latin : Array String := #[
  " ", "!", "C/", "PS", "$?", "Y=", "|", "SS", "\"", "(c)", "a", "<<", "!", "", "(r)", "-",
  "deg", "+-", "2", "3", "'", "u", "P", "*", ",", "1", "o", ">>", "1/4", "1/2", "3/4", "?", "A",
  "A", "A", "A", "A", "A", "AE", "C", "E", "E", "E", "E", "I", "I", "I", "I", "D", "N", "O", "O",
  "O", "O", "O", "x", "O", "U", "U", "U", "U", "Y", "Th", "ss", "a", "a", "a", "a", "a", "a",
  "ae", "c", "e", "e", "e", "e", "i", "i", "i", "i", "d", "n", "o", "o", "o", "o", "o", "/", "o",
  "u", "u", "u", "u", "y", "th", "y", "A", "a", "A", "a", "A", "a", "C", "c", "C", "c", "C", "c",
  "C", "c", "D", "d", "D", "d", "E", "e", "E", "e", "E", "e", "E", "e", "E", "e", "G", "g", "G",
  "g", "G", "g", "G", "g", "H", "h", "H", "h", "I", "i", "I", "i", "I", "i", "I", "i", "I", "i",
  "IJ", "ij", "J", "j", "K", "k", "k", "L", "l", "L", "l", "L", "l", "L", "l", "L", "l", "N",
  "n", "N", "n", "N", "n", "'n", "ng", "NG", "O", "o", "O", "o", "O", "o", "OE", "oe", "R", "r",
  "R", "r", "R", "r", "S", "s", "S", "s", "S", "s", "S", "s", "T", "t", "T", "t", "T", "t", "U",
  "u", "U", "u", "U", "u", "U", "u", "U", "u", "U", "u", "W", "w", "Y", "y", "Y", "Z", "z", "Z",
  "z", "Z", "z", "s"]

/-- The words and signs that a character stands for before it is brought to plain letters. -/
def substitute (c : Char) : List Char :=
  if c = '&' then ['a', 'n', 'd']
  else if c = '@' then ['a', 't']
  else if c = '"' ∨ c = '\'' ∨ c = '’' then []
  else if c = '‒' ∨ c = '–' ∨ c = '—' ∨ c = '―' then ['-']
  else [c]

/-- The plain spelling that the table gives a character.  Characters without one vanish. -/
def tableSpelling (c : Char) : List Char :=
  let n := c.toNat
  if n < 0x80 then [c]
  else if n = 0x3000 then [' ']
  else if n < 0xA0 then []
  else ((latin[n - 0xA0]?).getD "").toList

/-- The plain spelling of a character.  A capital beyond the table, such as the sign of the Kelvin,
is spelled as its small letter. -/
def plainSpelling (c : Char) : List Char :=
  tableSpelling (if c.toNat < 0x180 then c else Text.lowerChar c)

/-- A character of a slug: letters, digits, dashes and underscores as they are, a dash for any
other. -/
def slugChar (c : Char) : Char :=
  if c.isAlphanum || c == '-' || c == '_' then c else '-'

def joinDashes : List Char → List Char
  | [] => []
  | [c] => [c]
  | c :: d :: rest =>
    if c = '-' ∧ d = '-' then joinDashes (d :: rest) else c :: joinDashes (d :: rest)

def isEdge (c : Char) : Bool := c == '-' || c == '_'

def trimEdges (cs : List Char) : List Char :=
  ((cs.dropWhile isEdge).reverse.dropWhile isEdge).reverse

def make (cs : List Char) : List Char :=
  let plain := ((Text.trim cs).flatMap substitute).flatMap plainSpelling
  trimEdges (joinDashes ((plain.map Char.toLower).map slugChar))

/-- **A normalised component** of a name. -/
def component (s : String) : String :=
  let cs := Text.trim (s.toList.map fun c => if c = '_' then ' ' else c)
  let slug := make cs
  if slug.isEmpty then
    Text.lowered (String.ofList (['-'].intercalate (Text.words cs)))
  else String.ofList slug

def extension : String := ".sgq"

/-- **A normalised name**: its components, empty ones dropped. -/
def queryName (name : String) : String :=
  let cs := Text.trim name.toList
  let bare := (Text.dropEnd? extension.toList cs).getD cs
  let parts := (Text.splitOn ['/'] bare).map fun p => component (String.ofList p)
  "/".intercalate (parts.filter fun p => !p.isEmpty)

end TreeQuery.Slug

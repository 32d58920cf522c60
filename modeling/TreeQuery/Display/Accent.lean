import TreeQuery.Json.Argument
import TreeQuery.Text.Blank
import TreeQuery.Text.Lower

/-!
# The accent colour

Headings can be shown in a colour of one's choice: a number of the terminal's palette, or the
shares of red, green and blue in hexadecimal digits.
-/

namespace TreeQuery.Display

def noAccent : List String := ["", "none", "off", "default"]

def isHex (cs : List Char) : Bool := cs.all fun c => (Json.Tree.hexValue? c).isSome

/-- **The accent colour that a setting names**: a number up to 255, or a hash with three or six
hexadecimal digits, of which three stand for each one doubled. -/
def accent? (setting : String) : Option String :=
  let value := Text.lowered (Text.trimmed setting)
  if noAccent.contains value then none
  else
    match value.toList with
    | '#' :: digits =>
      let digits := match digits with
        | [a, b, c] => [a, a, b, b, c, c]
        | ds => ds
      if digits.length = 6 && isHex digits then some (String.ofList ('#' :: digits)) else none
    | cs =>
      match Json.whole? cs with
      | some n => if 0 ≤ n ∧ n ≤ 255 then some value else none
      | none => none

end TreeQuery.Display

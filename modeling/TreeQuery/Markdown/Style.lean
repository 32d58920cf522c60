import TreeQuery.Display.Accent
import TreeQuery.Terminal.Margin

/-!
# Styled text

A text on a terminal has a style: a colour, and whether it is underlined, bold or slanted.  Styles
are written as the parameters of the sequences that set them.
-/

namespace TreeQuery.Markdown

/-- **A style.**  A colour is given by its parameters. -/
structure Style where
  color : Option String := none
  underline : Bool := false
  bold : Bool := false
  italic : Bool := false
  deriving DecidableEq, Repr

namespace Style

def parameters (s : Style) : String :=
  ";".intercalate (s.color.toList ++ (if s.underline then ["4"] else []) ++
    (if s.bold then ["1"] else []) ++ (if s.italic then ["3"] else []))

def overlaid (s t : Style) : Style :=
  ⟨t.color <|> s.color, s.underline || t.underline, s.bold || t.bold, s.italic || t.italic⟩

def ofPalette (n : Nat) : String :=
  if n < 8 then toString (30 + n)
  else if n < 16 then toString (82 + n)
  else "38;5;" ++ toString n

/-- The parameters of a colour: a hash with six hexadecimal digits, or a number of the palette. -/
def ofColor (color : String) : String :=
  let byte (a b : Char) : String :=
    toString ((Json.Tree.hexValue? a).getD 0 * 16 + (Json.Tree.hexValue? b).getD 0)
  match color.toList with
  | ['#', a, b, c, d, e, f] => "38;2;" ++ byte a b ++ ";" ++ byte c d ++ ";" ++ byte e f
  | cs => ofPalette ((Json.whole? cs).getD 0).toNat

end Style

/-- **A text in a style**: the sequence that sets it, the text, and the sequence that resets it. -/
def styled (s : Style) (cs : List Char) : List Char :=
  let parameters := s.parameters.toList
  if cs.isEmpty || parameters.isEmpty then cs
  else Terminal.escapeSign :: '[' :: parameters ++ 'm' :: cs ++ Terminal.resetSequence

end TreeQuery.Markdown

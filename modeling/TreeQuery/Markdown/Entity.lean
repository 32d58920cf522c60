import TreeQuery.Json.Tree
import TreeQuery.Text.NamedCharacter

/-!
# Character references

A character can be written by its name or its number after an ampersand.  A number has at least two
signs, the semicolon among them; some names are also known without a semicolon, and then the longest
one counts that the text begins with.  What is no reference stays as it is.
-/

namespace TreeQuery.Markdown

/-- The characters that the numbers from 128 to 159 stand for, as in an older encoding. -/
def olderCharacters : List Nat :=
  [0x20AC, 0x81, 0x201A, 0x192, 0x201E, 0x2026, 0x2020, 0x2021, 0x2C6, 0x2030, 0x160, 0x2039, 0x152,
   0x8D, 0x17D, 0x8F, 0x90, 0x2018, 0x2019, 0x201C, 0x201D, 0x2022, 0x2013, 0x2014, 0x2DC, 0x2122,
   0x161, 0x203A, 0x153, 0x9D, 0x17E, 0x178]

/-- The number that digits of a base spell, counted in 32 bits. -/
def numberOf (base : Nat) (digits : List Char) : Int :=
  digits.foldl (fun n c => (n * base + (Json.Tree.hexValue? c).getD 0).bmod (Nat.pow 2 32)) 0

/-- The character with a number; one that cannot be is replaced. -/
def characterOf (n : Int) : Char :=
  if n ≤ 0 ∨ 0x10FFFF < n ∨ (0xD800 ≤ n ∧ n ≤ 0xDFFF) then '�'
  else Char.ofNat (if 0x80 ≤ n ∧ n ≤ 0x9F then olderCharacters[n.toNat - 0x80]?.getD 0 else n.toNat)

/-- **A character reference**: what it stands for, and the number of characters it has after its
ampersand. -/
structure CharacterReference where
  characters : List Char
  length : Nat
  deriving DecidableEq, Repr

def numbered? (cs : List Char) : Option CharacterReference :=
  if Text.bytes cs ≤ 1 then none
  else
    let isHex := cs.head? == some 'x' || cs.head? == some 'X'
    let body := if isHex then cs.drop 1 else cs
    let digits := body.takeWhile fun c =>
      if isHex then (Json.Tree.hexValue? c).isSome else c.isDigit
    let closed := (body.drop digits.length).head? == some ';'
    let length := (if isHex then 1 else 0) + digits.length + (if closed then 1 else 0)
    if length ≤ 1 then none
    else some ⟨[characterOf (numberOf (if isHex then 16 else 10) digits)], length + 1⟩

def longestOpenName : Nat := 6

/-- The longest front of a name, of at most a length and at least two letters, that is a name. -/
def openFront? (name : List Char) : Nat → Option CharacterReference
  | 0 => none
  | n + 1 =>
    if n = 0 then none
    else
      match Text.openName? (name.take (n + 1)) with
      | some cs => some ⟨cs, n + 1⟩
      | none => openFront? name n

def named? (cs : List Char) : Option CharacterReference :=
  let name := cs.takeWhile Char.isAlphanum
  let closed := (cs.drop name.length).head? == some ';'
  let whole := if closed then Text.closedName? name else Text.openName? name
  match whole with
  | some found => some ⟨found, name.length + (if closed then 1 else 0)⟩
  | none => openFront? name (min longestOpenName (if closed then name.length else name.length - 1))

/-- The reference at the front of a text, the ampersand having been read. -/
def characterReference? (cs : List Char) : Option CharacterReference :=
  match cs with
  | '#' :: digits => numbered? digits
  | cs => named? cs

/-- The rest of a text with its references replaced; `skip` characters belong to the last one. -/
def unescapedFrom (skip : Nat) : List Char → List Char
  | [] => []
  | c :: rest =>
    match skip with
    | n + 1 => unescapedFrom n rest
    | 0 =>
      if c = '&' then
        match characterReference? rest with
        | some r => r.characters ++ unescapedFrom r.length rest
        | none => c :: unescapedFrom 0 rest
      else c :: unescapedFrom 0 rest

/-- **A text with its character references replaced.** -/
def unescaped (cs : List Char) : List Char := unescapedFrom 0 cs

end TreeQuery.Markdown

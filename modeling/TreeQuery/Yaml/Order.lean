import TreeQuery.Json.Number
import TreeQuery.Text.Letter

/-!
# Natural order

The keys of a map are listed in an order that people expect: runs of digits compare as numbers, so
that `item2` comes before `item10`, and letters come after other characters, except right after a
digit, where they come first.  The numbers are those of 64 bits.
-/

namespace TreeQuery.Yaml

/-- The number that the digits at the front of a text add to `n`, and how many there are.  Numbers
are machine words, and greater ones wrap around. -/
def numberRun (n : Int64) (count : Nat) : List Char → Int64 × Nat
  | [] => (n, count)
  | c :: rest =>
    if Text.isDecimalDigit c then numberRun (n * 10 + Int64.ofNat (c.toNat - 48)) (count + 1) rest
    else (n, count)

/-- Whether the digits just before a place, nearest first, have one that is not zero. -/
def significantBefore : List Char → Bool
  | [] => false
  | c :: rest =>
    if Text.isDecimalDigit c then c != '0' || significantBefore rest else false

/-- Whether the first of two texts comes before the second at their first difference, `before`
being the common part read so far in reverse. -/
def differLess (before : List Char) (a b : Char) (as bs : List Char) : Bool :=
  let al := Text.isLetter a
  let bl := Text.isLetter b
  if al && bl then a < b
  else if al || bl then
    if (before.head?.map Text.isDecimalDigit).getD false then al else bl
  else
    let start := if (a == '0' || b == '0') && significantBefore before then 1 else 0
    let (an, ai) := numberRun start 0 (a :: as)
    let (bn, bi) := numberRun start 0 (b :: bs)
    if an != bn then an < bn
    else if ai != bi then ai < bi
    else a < b

/-- Whether one text comes before another, after the common part `before`. -/
def lessFrom (before : List Char) : List Char → List Char → Bool
  | [], [] => false
  | [], _ :: _ => true
  | _ :: _, [] => false
  | a :: as, b :: bs => if a = b then lessFrom (a :: before) as bs else differLess before a b as bs

/-- **The natural order** of keys. -/
def keyLE (a b : String) : Bool :=
  !lessFrom [] b.toList a.toList

end TreeQuery.Yaml

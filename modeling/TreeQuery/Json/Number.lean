import TreeQuery.Json.Tree
import TreeQuery.Number.Double

/-!
# Numbers in JSON

Three ways to take a number off the front of a text.  `numberText` takes the longest run of digits,
signs, points and exponent letters.

`double` demands a number of the JSON grammar with one allowance: a plus sign may follow the minus
sign.  Numbers past the range of doubles are refused, and so is one that the text ends with: the
reader needs to see where a number ends.  A number with up to six decimal places that a comma, a
closing bracket, a blank, a tab or a newline ends is rounded twice: its digits, and their quotient
by a power of ten.

`skipNumber` passes over a number that nobody asks for.  It is laxer after a minus sign, where zeros
may lead, and stricter after a leading `0`, where the number must fit single precision.
-/

namespace TreeQuery.Json

/-- A number as text, with its digits and decimal exponent. -/
structure Spelled where
  negative : Bool
  digits : Nat
  exponent : Int
  deriving Repr, DecidableEq

namespace Spelled

def digitRun (cs : List Char) : List Char × List Char :=
  (cs.takeWhile Char.isDigit, cs.dropWhile Char.isDigit)

def natOf (ds : List Char) : Nat :=
  ds.foldl (fun n d => n * 10 + (d.toNat - 48)) 0

/-- The exponent after a mantissa, zero when there is none. -/
def exponent? (cs : List Char) : Option Int :=
  match cs with
  | [] => some 0
  | c :: rest =>
    if c = 'e' ∨ c = 'E' then
      let (negative, ds) := match rest with
        | '-' :: ds => (true, ds)
        | '+' :: ds => (false, ds)
        | ds => (false, ds)
      if ds.isEmpty ∨ !ds.all Char.isDigit then none
      else
        let n : Int := natOf ds
        some (if negative then -n else n)
    else none

/-- **The number that a text spells**: an optional sign, digits with at most one point among
them, and an optional exponent. -/
def ofText? (cs : List Char) : Option Spelled :=
  let (negative, cs) := match cs with
    | '-' :: rest => (true, rest)
    | '+' :: rest => (false, rest)
    | cs => (false, cs)
  let (whole, rest) := digitRun cs
  let (part, rest) := match rest with
    | '.' :: after => digitRun after
    | rest => ([], rest)
  if whole.isEmpty ∧ part.isEmpty then none
  else
    (exponent? rest).map fun e => ⟨negative, natOf (whole ++ part), e - part.length⟩

def toDouble (s : Spelled) : Double :=
  Double.ofDecimal s.negative s.digits s.exponent

end Spelled

/-! ## The run of a number -/

def isNumberChar (c : Char) : Bool :=
  c.isDigit || c == '+' || c == '-' || c == '.' || c == 'e' || c == 'E'

/-- The longest run of characters that can stand in a number. -/
def numberText : Reader (List Char) := fun cs =>
  some (cs.takeWhile isNumberChar, cs.dropWhile isNumberChar)

/-! ## Doubles -/

def endsNumber (c : Char) : Bool :=
  c == ',' || c == ']' || c == '\x7d' || c == ' ' || c == '\t' || c == '\n'

/-- Whether the first decimal point of a text, if any, is followed by a digit. -/
def pointFollowed (cs : List Char) : Bool :=
  match cs.dropWhile (· != '.') with
  | [] => true
  | _ :: rest => (rest.head?.map Char.isDigit).getD false

def Spelled.pastSingle (s : Spelled) : Bool :=
  match s.toDouble with
  | .finite _ m e =>
    0 < e + 53 - 128 || (0 ≤ e && (Nat.pow 2 25 - 1) * Nat.pow 2 103 ≤ m * Nat.pow 2 e.toNat)
  | _ => true

def Spelled.pastDouble (s : Spelled) : Bool := !s.toDouble.isFinite

/-- The digits with one to six decimal places at the front of a text, if their number fits a machine
word and the text goes on with a character that ends it. -/
def fewPlaces? (cs : List Char) : Option (Spelled × List Char) :=
  let (whole, rest) := Spelled.digitRun cs
  match rest with
  | '.' :: rest =>
    let (places, rest) := Spelled.digitRun rest
    let n := Spelled.natOf (whole ++ places)
    if !whole.isEmpty && 1 ≤ places.length && places.length ≤ 6 && n / 10 < Nat.pow 2 64 / 10 &&
        (rest.head?.map endsNumber).getD false then
      some (⟨false, n, -places.length⟩, rest)
    else none
  | _ => none

def hasLeadingZero (cs : List Char) : Bool :=
  match cs with
  | '0' :: d :: _ => d.isDigit
  | _ => false

/-- The number without a minus sign at the front of a text, if it is not `tooLarge`.  One with few
decimal places has its digits rounded before the point is set among them. -/
def magnitude (tooLarge : Spelled → Bool) : Reader Double := fun cs =>
  if cs.head? == some '.' || hasLeadingZero cs then none
  else
    match fewPlaces? cs with
    | some (s, rest) =>
      some (({ s with digits := Double.nearestNat s.digits } : Spelled).toDouble, rest)
    | none =>
      let run := cs.takeWhile isNumberChar
      let rest := cs.dropWhile isNumberChar
      if rest.isEmpty || run.head? == some '-' || !pointFollowed run then none
      else
        match Spelled.ofText? run with
        | none => none
        | some s => if tooLarge s then none else some (s.toDouble, rest)

def opposite : Double → Double
  | .finite negative m e => .finite (!negative) m e
  | .infinite negative => .infinite (!negative)
  | .nan => .nan

def double : Reader Double := fun cs =>
  match cs with
  | '-' :: rest => (magnitude Spelled.pastDouble rest).map fun (x, after) => (opposite x, after)
  | cs => magnitude Spelled.pastDouble cs

/-! ## Passing over a number -/

/-- What the digits after the first character of a number tell. -/
inductive DigitScan where
  /-- They end the number; the text goes on behind it. -/
  | ended (rest : List Char)
  /-- There is a second point, or one without a digit after it. -/
  | broken
  /-- The number has more than digits and a point, or none of them. -/
  | other
  deriving DecidableEq, Repr

/-- The digits up to the end of a number, among them one point at most.  `started` says whether one
of them has been met, and `pointed` whether the point has. -/
def scanDigits (started pointed : Bool) : List Char → DigitScan
  | [] => .other
  | c :: rest =>
    if c.isDigit then scanDigits true pointed rest
    else if c = '.' then
      if pointed then .broken
      else
        match rest with
        | [] => .other
        | d :: _ => if d.isDigit then scanDigits true true rest else .broken
    else if endsNumber c || c == '\r' then
      if started then .ended (c :: rest) else .other
    else .other

/-- The number with leading zeros or a leading point at the front of a text. -/
def loose : Reader Unit := fun cs =>
  if cs.head? == some '.' || hasLeadingZero cs then
    (Spelled.ofText? (cs.takeWhile isNumberChar)).map fun _ => ((), cs.dropWhile isNumberChar)
  else none

/-- **The number at the front of a text, passed over.** -/
def skipNumber : Reader Unit := fun cs =>
  match cs with
  | [] => none
  | '0' :: _ => (magnitude Spelled.pastSingle cs).map fun (_, after) => ((), after)
  | c :: rest =>
    match scanDigits false false rest with
    | .ended after => some ((), after)
    | .broken => none
    | .other =>
      match double cs with
      | some (_, after) => some ((), after)
      | none => if c = '-' then loose rest else none

end TreeQuery.Json

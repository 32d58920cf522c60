import TreeQuery.Number.Double

/-!
# Shortest decimal text

A finite double is written with the fewest decimal digits that read back as the same double; of
the texts with that many digits, the nearest to the number.  `Decimal.shortest` finds the digits:
for one digit, two digits, and so on, the number's two neighbours on the grid of decimals with
that many digits are tried, and seventeen digits always suffice.

How the digits are laid out is a matter of the format at hand, its `DecimalStyle`.
-/

namespace TreeQuery

/-- The positive number `0.d₁d₂… · 10 ^ point`, with its digits. -/
structure Decimal where
  digits : List Char
  point : Int
  deriving DecidableEq, Repr

namespace Decimal

/-- The number of decimal digits of a positive quotient before the point: the least `p` with
`num / den < 10 ^ p`, searched downwards from `p` for `fuel` steps. -/
def pointFrom (num den : Nat) : Nat → Int → Int
  | 0, p => p
  | fuel + 1, p =>
    let below := if 0 ≤ p - 1 then num < den * Nat.pow 10 (p - 1).toNat
      else num * Nat.pow 10 (1 - p).toNat < den
    if below then pointFrom num den fuel (p - 1) else p

def ratio (mantissa : Nat) (exponent : Int) : Nat × Nat :=
  if 0 ≤ exponent then (mantissa * Nat.pow 2 exponent.toNat, 1)
  else (mantissa, Nat.pow 2 (-exponent).toNat)

def dropZeros (digits : List Char) : List Char :=
  (digits.reverse.dropWhile (· == '0')).reverse

/-- The decimal `n · 10 ^ scale`. -/
def ofScaled (n : Nat) (scale : Int) : Decimal :=
  let digits := Nat.toDigits 10 n
  ⟨dropZeros digits, scale + digits.length⟩

/-- The number's neighbours on the grid of multiples of `10 ^ scale`, the nearer one first. -/
def neighbours (num den : Nat) (scale : Int) : List Nat :=
  let (num, den) := if 0 ≤ scale then (num, den * Nat.pow 10 scale.toNat)
    else (num * Nat.pow 10 (-scale).toNat, den)
  let low := num / den
  let r := num % den
  if r = 0 then [low]
  else if 2 * r < den ∨ (2 * r = den ∧ low % 2 = 0) then [low, low + 1]
  else [low + 1, low]

/-- The first grid, from `n` digits on, with a neighbour that reads back as the number. -/
def search (target : Double) (num den : Nat) (point : Int) : Nat → Nat → Decimal
  | 0, n => ofScaled ((neighbours num den (point - n)).headD 0) (point - n)
  | fuel + 1, n =>
    let scale := point - n
    match (neighbours num den scale).find? fun d => Double.ofDecimal false d scale == target with
    | some d => ofScaled d scale
    | none => search target num den point fuel (n + 1)

/-- **The shortest decimal that reads back** as the given mantissa and exponent; zero has the
single digit `0`. -/
def shortest (mantissa : Nat) (exponent : Int) : Decimal :=
  if mantissa = 0 then ⟨['0'], 1⟩
  else
    let (num, den) := ratio mantissa exponent
    let guess : Int := (Nat.log2 num : Int) - (Nat.log2 den : Int) + 1
    let start : Int := guess * 30103 / 100000 + 2
    let point := pointFrom num den 6 start
    search (.finite false mantissa exponent) num den point 17 1

end Decimal

/-- **How a format lays out the digits of a number.**  A number `d.ddd · 10 ^ e` is written
positionally when `fromExponent ≤ e < toExponent` and with an exponent otherwise. -/
structure DecimalStyle where
  fromExponent : Int
  toExponent : Int
  positiveInfinity : String
  negativeInfinity : String
  notANumber : String

namespace DecimalStyle

def exponentText (e : Int) : String :=
  let digits := toString e.natAbs
  (if e < 0 then "-" else "+") ++ (if digits.length < 2 then "0" ++ digits else digits)

/-- Digits with the decimal point after the first `point` of them, padded with zeros. -/
def positional (d : Decimal) : List Char :=
  if d.point ≤ 0 then
    ['0', '.'] ++ List.replicate (-d.point).toNat '0' ++ d.digits
  else
    let p := d.point.toNat
    if d.digits.length ≤ p then d.digits ++ List.replicate (p - d.digits.length) '0'
    else d.digits.take p ++ '.' :: d.digits.drop p

/-- One digit before the point, the others after it, and the exponent. -/
def scientific (d : Decimal) : String :=
  let exponent := "e" ++ exponentText (d.point - 1)
  match d.digits with
  | [] => "0" ++ exponent
  | [c] => String.ofList [c] ++ exponent
  | c :: rest => String.ofList (c :: '.' :: rest) ++ exponent

def write (style : DecimalStyle) : Double → String
  | .nan => style.notANumber
  | .infinite false => style.positiveInfinity
  | .infinite true => style.negativeInfinity
  | .finite negative mantissa exponent =>
    let d := Decimal.shortest mantissa exponent
    let e := d.point - 1
    let body :=
      if style.fromExponent ≤ e ∧ e < style.toExponent then String.ofList (positional d)
      else scientific d
    if negative then "-" ++ body else body

/-- **The general style**: positional from `0.0001` to `999999`. -/
def general : DecimalStyle := ⟨-4, 6, "+Inf", "-Inf", "NaN"⟩

end DecimalStyle

end TreeQuery

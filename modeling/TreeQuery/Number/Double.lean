/-!
# Double precision numbers

A number of a query result, a document or an argument is a binary number of double precision.  A
finite one is `± mantissa · 2 ^ exponent` with a mantissa below `2 ^ 53`; the exponent is the
least one, `-1074`, or the mantissa has all its 53 bits.  The type carries those three parts, so
that reading and writing are exact computations on natural numbers.
-/

namespace TreeQuery

/-- **A double precision number**: not a number, one of the infinities, or
`± mantissa · 2 ^ exponent`. -/
inductive Double where
  | nan
  | infinite (negative : Bool)
  | finite (negative : Bool) (mantissa : Nat) (exponent : Int)
  deriving DecidableEq, Repr

namespace Double

def leastExponent : Int := -1074

def greatestExponent : Int := 971

/-- The quotient of two natural numbers rounded to the nearest one, to the even one of two. -/
def roundDiv (num den : Nat) : Nat :=
  let q := num / den
  let r := num % den
  if 2 * r < den then q
  else if den < 2 * r then q + 1
  else q + q % 2

/-- `num / (den · 2 ^ e)` rounded to a natural number. -/
def scaledRound (num den : Nat) (e : Int) : Nat :=
  if 0 ≤ e then roundDiv num (den * Nat.pow 2 e.toNat)
  else roundDiv (num * Nat.pow 2 (-e).toNat) den

/-- Whether `num / den < 2 ^ e`. -/
def ratioBelow (num den : Nat) (e : Int) : Bool :=
  if 0 ≤ e then num < den * Nat.pow 2 e.toNat
  else num * Nat.pow 2 (-e).toNat < den

/-- **Rounding to the nearest double.**  The exponent is the one that gives the mantissa 53 bits,
or the least one for a small quotient; a mantissa rounded up to `2 ^ 53` moves to the next
exponent, and past the greatest exponent the number is infinite. -/
def ofRatio (negative : Bool) (num den : Nat) : Double :=
  if num = 0 then .finite negative 0 leastExponent
  else
    let guess : Int := (Nat.log2 num : Int) - (Nat.log2 den : Int)
    let top : Int := if ratioBelow num den guess then guess else guess + 1
    let e := max (top - 53) leastExponent
    let m := scaledRound num den e
    let (m, e) := if m = Nat.pow 2 53 then (Nat.pow 2 52, e + 1) else (m, e)
    if greatestExponent < e then .infinite negative else .finite negative m e

/-- The double nearest to `± digits · 10 ^ exponent`.  Exponents far outside the range of doubles
are settled without computing the power. -/
def ofDecimal (negative : Bool) (digits : Nat) (exponent : Int) : Double :=
  if digits = 0 then .finite negative 0 leastExponent
  else if 400 < exponent then .infinite negative
  else if exponent < 0 ∧ exponent + (Nat.log2 digits : Int) < -1200 then
    .finite negative 0 leastExponent
  else if 0 ≤ exponent then ofRatio negative (digits * Nat.pow 10 exponent.toNat) 1
  else ofRatio negative digits (Nat.pow 10 (-exponent).toNat)

/-- The natural number that the double nearest to a natural number stands for. -/
def nearestNat (n : Nat) : Nat :=
  match ofRatio false n 1 with
  | .finite _ m e => if 0 ≤ e then m * Nat.pow 2 e.toNat else m / Nat.pow 2 (-e).toNat
  | _ => n

def isFinite : Double → Bool
  | .finite _ _ _ => true
  | _ => false

end Double

end TreeQuery

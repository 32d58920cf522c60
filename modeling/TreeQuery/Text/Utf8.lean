/-!
# Bytes and characters

The UTF-8 encoding of a text, and the text of a byte string.  A byte that belongs to no
well-formed character reads as the replacement character.
-/

namespace TreeQuery.Text

def replacement : Char := '�'

def encodeChar (c : Char) : List UInt8 :=
  let n := c.toNat
  if n < 0x80 then [UInt8.ofNat n]
  else if n < 0x800 then [UInt8.ofNat (0xC0 + n / 64), UInt8.ofNat (0x80 + n % 64)]
  else if n < 0x10000 then
    [UInt8.ofNat (0xE0 + n / 4096), UInt8.ofNat (0x80 + n / 64 % 64), UInt8.ofNat (0x80 + n % 64)]
  else
    [UInt8.ofNat (0xF0 + n / 262144), UInt8.ofNat (0x80 + n / 4096 % 64),
     UInt8.ofNat (0x80 + n / 64 % 64), UInt8.ofNat (0x80 + n % 64)]

def encode (cs : List Char) : List UInt8 :=
  cs.flatMap encodeChar

def tail? (b : UInt8) : Option Nat :=
  if 0x80 ≤ b.toNat ∧ b.toNat < 0xC0 then some (b.toNat - 0x80) else none

/-- The character that starts a byte string, with the number of its bytes. -/
def firstChar? : List UInt8 → Option (Char × Nat)
  | [] => none
  | a :: rest =>
    let n := a.toNat
    if n < 0x80 then some (Char.ofNat n, 1)
    else if 0xC2 ≤ n ∧ n < 0xE0 then
      match rest with
      | b :: _ => (tail? b).map fun x => (Char.ofNat ((n - 0xC0) * 64 + x), 2)
      | [] => none
    else if 0xE0 ≤ n ∧ n < 0xF0 then
      match rest with
      | b :: c :: _ => do
        let x ← tail? b
        let y ← tail? c
        let code := (n - 0xE0) * 4096 + x * 64 + y
        if code < 0x800 ∨ (0xD800 ≤ code ∧ code < 0xE000) then none
        else some (Char.ofNat code, 3)
      | _ => none
    else if 0xF0 ≤ n ∧ n < 0xF5 then
      match rest with
      | b :: c :: d :: _ => do
        let x ← tail? b
        let y ← tail? c
        let z ← tail? d
        let code := (n - 0xF0) * 262144 + x * 4096 + y * 64 + z
        if code < 0x10000 ∨ 0x110000 ≤ code then none else some (Char.ofNat code, 4)
      | _ => none
    else none

/-- The characters of a byte string, and nothing for each byte that belongs to none. -/
def readings (bs : List UInt8) : List (Option Char) :=
  match bs with
  | [] => []
  | b :: rest =>
    match firstChar? (b :: rest) with
    | some (c, n) => some c :: readings (rest.drop (n - 1))
    | none => none :: readings rest
termination_by bs.length
decreasing_by
  · simp only [List.length_drop, List.length_cons]; omega
  · simp

def decode (bs : List UInt8) : List Char :=
  (readings bs).map fun c => c.getD replacement

def isWellFormed (bs : List UInt8) : Bool := (readings bs).all Option.isSome

/-! ## Base 64 -/

def base64Digit (n : Nat) : Char :=
  if n < 26 then Char.ofNat (65 + n)
  else if n < 52 then Char.ofNat (71 + n)
  else if n < 62 then Char.ofNat (n - 4)
  else if n = 62 then '+'
  else '/'

/-- **A byte string in letters and digits**: three bytes as four characters, the last group filled
up with `=`. -/
def base64 : List UInt8 → List Char
  | [] => []
  | [a] =>
    let n := a.toNat * 16
    [base64Digit (n / 64), base64Digit (n % 64), '=', '=']
  | [a, b] =>
    let n := (a.toNat * 256 + b.toNat) * 4
    [base64Digit (n / 4096), base64Digit (n / 64 % 64), base64Digit (n % 64), '=']
  | a :: b :: c :: rest =>
    let n := (a.toNat * 256 + b.toNat) * 256 + c.toNat
    base64Digit (n / 262144) :: base64Digit (n / 4096 % 64) :: base64Digit (n / 64 % 64) ::
      base64Digit (n % 64) :: base64 rest

end TreeQuery.Text

import TreeQuery.Text.Search

/-!
# JSON syntax

A JSON text as a tree.  The readers of documents, of arguments and of state files take numbers
differently, so a tree is over the type of its numbers, and the reader is given the one that takes a
number off the front of a text; the members of an object are kept in the order of the text, repeated
names included.

`Tree.value` is the reader.  A string holds no raw control character, unless an escape comes
before it; half of a surrogate pair reads as the replacement character.  After a comma the word
`null` may stand for an empty member name.  Lists and objects nest at most `Tree.maxDepth` deep.
-/

namespace TreeQuery.Json

/-- **A JSON text as a tree** over the type of its numbers. -/
inductive Tree (ν : Type) where
  | null
  | bool (b : Bool)
  | number (x : ν)
  | string (s : String)
  | array (elements : List (Tree ν))
  | object (members : List (String × Tree ν))
  deriving Repr

abbrev Reader (α : Type) := List Char → Option (α × List Char)

namespace Tree

def maxDepth : Nat := 10000

def isSpace (c : Char) : Bool :=
  c == ' ' || c == '\n' || c == '\t' || c == '\r'

def skipSpace (cs : List Char) : List Char := cs.dropWhile isSpace

/-! ## Strings -/

def hexValue? (c : Char) : Option Nat :=
  if '0' ≤ c ∧ c ≤ '9' then some (c.toNat - 48)
  else if 'a' ≤ c ∧ c ≤ 'f' then some (c.toNat - 87)
  else if 'A' ≤ c ∧ c ≤ 'F' then some (c.toNat - 55)
  else none

def fourHex? (a b c d : Char) : Option Nat := do
  let w ← hexValue? a
  let x ← hexValue? b
  let y ← hexValue? c
  let z ← hexValue? d
  return ((w * 16 + x) * 16 + y) * 16 + z

def isSurrogate (n : Nat) : Bool := 0xD800 ≤ n && n < 0xE000

/-- The character with a code, the replacement character for half of a surrogate pair. -/
def charOf (n : Nat) : Char :=
  if isSurrogate n then '�' else Char.ofNat n

def paired? (high low : Nat) : Option Char :=
  if 0xD800 ≤ high ∧ high < 0xDC00 ∧ 0xDC00 ≤ low ∧ low < 0xE000 then
    some (Char.ofNat (0x10000 + (high - 0xD800) * 1024 + (low - 0xDC00)))
  else none

def escapeChar? (c : Char) : Option Char :=
  if c = '"' ∨ c = '\\' ∨ c = '/' then some c
  else if c = 'b' then some '\x08'
  else if c = 'f' then some '\x0c'
  else if c = 'n' then some '\n'
  else if c = 'r' then some '\r'
  else if c = 't' then some '\t'
  else none

/-- The rest of a string whose opening quote has been read, and the text after its closing quote.
Once an escape has been met (`escaped`), raw control characters are taken as they are. -/
def stringBody (escaped : Bool) : List Char → Option (List Char × List Char)
  | [] => none
  | '"' :: rest => some ([], rest)
  | '\\' :: 'u' :: a :: b :: c :: d :: '\\' :: 'u' :: e :: f :: g :: h :: rest => do
    let first ← fourHex? a b c d
    if isSurrogate first then
      let second ← fourHex? e f g h
      let (tail, after) ← stringBody true rest
      match paired? first second with
      | some ch => return (ch :: tail, after)
      | none => return (charOf first :: charOf second :: tail, after)
    else
      let (tail, after) ← stringBody true ('\\' :: 'u' :: e :: f :: g :: h :: rest)
      return (charOf first :: tail, after)
  | '\\' :: 'u' :: a :: b :: c :: d :: rest => do
    let first ← fourHex? a b c d
    let (tail, after) ← stringBody true rest
    return (charOf first :: tail, after)
  | '\\' :: c :: rest => do
    let ch ← escapeChar? c
    let (tail, after) ← stringBody true rest
    return (ch :: tail, after)
  | c :: rest =>
    if c = '\\' ∨ (c.toNat < 32 ∧ ¬ escaped) then none
    else do
      let (tail, after) ← stringBody escaped rest
      return (c :: tail, after)

/-! ## Values -/

def memberName (first : Bool) (cs : List Char) : Option (String × List Char) :=
  match skipSpace cs with
  | '"' :: rest => (stringBody false rest).map fun (s, after) => (String.ofList s, after)
  | 'n' :: 'u' :: 'l' :: 'l' :: rest => if first then none else some ("", rest)
  | _ => none

mutual

/-- The value at the front of a text, with the text after it.  `depth` more levels may be opened;
`fuel` bounds the steps. -/
def valueWith {ν : Type} (number : Reader ν) (fuel depth : Nat) (cs : List Char) :
    Option (Tree ν × List Char) :=
  match fuel with
  | 0 => none
  | fuel + 1 =>
    match skipSpace cs with
    | '"' :: rest =>
      (stringBody false rest).map fun (s, after) => (.string (String.ofList s), after)
    | 'n' :: 'u' :: 'l' :: 'l' :: rest => some (.null, rest)
    | 't' :: 'r' :: 'u' :: 'e' :: rest => some (.bool true, rest)
    | 'f' :: 'a' :: 'l' :: 's' :: 'e' :: rest => some (.bool false, rest)
    | '[' :: rest =>
      match depth with
      | 0 => none
      | depth + 1 =>
        match skipSpace rest with
        | ']' :: after => some (.array [], after)
        | _ => (elementsWith number fuel depth rest).map fun (xs, after) => (.array xs, after)
    | '{' :: rest =>
      match depth with
      | 0 => none
      | depth + 1 =>
        match skipSpace rest with
        | '}' :: after => some (.object [], after)
        | _ => (membersWith number fuel depth true rest).map fun (ms, after) => (.object ms, after)
    | c :: rest =>
      if c.isDigit ∨ c = '-' then (number (c :: rest)).map fun (x, after) => (.number x, after)
      else none
    | [] => none

def elementsWith {ν : Type} (number : Reader ν) (fuel depth : Nat) (cs : List Char) :
    Option (List (Tree ν) × List Char) :=
  match fuel with
  | 0 => none
  | fuel + 1 => do
    let (x, after) ← valueWith number fuel depth cs
    match skipSpace after with
    | ',' :: rest =>
      let (xs, after) ← elementsWith number fuel depth rest
      return (x :: xs, after)
    | ']' :: rest => return ([x], rest)
    | _ => none

def membersWith {ν : Type} (number : Reader ν) (fuel depth : Nat) (first : Bool) (cs : List Char) :
    Option (List (String × Tree ν) × List Char) :=
  match fuel with
  | 0 => none
  | fuel + 1 => do
    let (name, after) ← memberName first cs
    match skipSpace after with
    | ':' :: rest =>
      let (x, after) ← valueWith number fuel depth rest
      match skipSpace after with
      | ',' :: rest =>
        let (ms, after) ← membersWith number fuel depth false rest
        return ((name, x) :: ms, after)
      | '}' :: rest => return ([(name, x)], rest)
      | _ => none
    | _ => none

end

/-- **The value at the front of a text**, with the text after it, its numbers taken by `number`,
when `depth` levels may be opened. -/
def value {ν : Type} (number : Reader ν) (depth : Nat) (cs : List Char) :
    Option (Tree ν × List Char) :=
  valueWith number (2 * cs.length + 2) depth cs

/-- Whether nothing but white space follows a value; a null character ends the text. -/
def atEnd (cs : List Char) : Bool :=
  match skipSpace cs with
  | [] => true
  | c :: _ => c == '\x00'

/-- **The tree of a text** that holds one value and white space around it. -/
def read {ν : Type} (number : Reader ν) (cs : List Char) : Option (Tree ν) :=
  match value number maxDepth cs with
  | some (t, after) => if atEnd after then some t else none
  | none => none

end Tree

end TreeQuery.Json

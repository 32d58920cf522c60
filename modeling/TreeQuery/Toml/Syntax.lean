import TreeQuery.Json.Number
import TreeQuery.Text.Letter
import TreeQuery.Timestamp

/-!
# TOML syntax

A TOML text is a sequence of statements, one a line: the header of a table, the header of an
element of a list of tables, or a key with its value.  `Statement.readAll` reads them; what the
statements mean together is the matter of `Toml/Document`.

The text may hold no control character but tabs and line ends, and no replacement character, which
stands for broken text.  A carriage return stands only before a newline.
-/

namespace TreeQuery.Toml

/-- **A value as it is written.** -/
inductive Expr where
  | text (s : String)
  /-- A number, a truth value or a date, as it is spelled. -/
  | plain (spelling : String)
  | array (elements : List Expr)
  | inline (fields : List (List String × Expr))
  deriving Repr

/-- **A statement**: keys are lists of parts, which dots divide in the text. -/
inductive Statement where
  | table (key : List String)
  | element (key : List String)
  | assign (key : List String) (value : Expr)
  deriving Repr

/-! ## Characters -/

def isBlank (c : Char) : Bool := c == ' ' || c == '\t'

def isNewline (c : Char) : Bool := c == '\n' || c == '\r'

def isBare (c : Char) : Bool := c.isAlphanum || c == '_' || c == '-'

def skipBlanks (cs : List Char) : List Char := cs.dropWhile isBlank

/-- The text after a comment whose mark has been read, from the line end on. -/
def skipComment (cs : List Char) : List Char := cs.dropWhile fun c => !isNewline c

/-- Whether all characters of a text may stand in it. -/
def isClean : List Char → Bool
  | [] => true
  | '\r' :: '\n' :: rest => isClean rest
  | c :: rest =>
    let n := c.toNat
    ((32 ≤ n && n != 127 && c != '�') || c == '\t' || c == '\n') && isClean rest

/-! ## Strings -/

/-- The text of a quoted string on one line up to its closing quote, escapes left as they are, and
the text after the quote. -/
def lineRaw : List Char → Option (List Char × List Char)
  | [] => none
  | '"' :: rest => some ([], rest)
  | '\\' :: c :: rest => (lineRaw rest).map fun (raw, after) => ('\\' :: c :: raw, after)
  | c :: rest =>
    if isNewline c then none else (lineRaw rest).map fun (raw, after) => (c :: raw, after)

def literalRaw : List Char → Option (List Char × List Char)
  | [] => none
  | '\'' :: rest => some ([], rest)
  | c :: rest =>
    if isNewline c then none else (literalRaw rest).map fun (raw, after) => (c :: raw, after)

/-- The text of a string in triple quotes up to the closing ones, `seen` being what has been read
in reverse, and the text after them.  One or two quotes may stand before the closing three; three
may not, unless a backslash stands before them. -/
def blockRaw (seen : List Char) (cs : List Char) : Option (List Char × List Char) :=
  match cs with
  | [] => none
  | '"' :: '"' :: '"' :: '"' :: rest =>
    match seen with
    | '"' :: '"' :: '\\' :: _ => blockRaw ('"' :: seen) ('"' :: '"' :: '"' :: rest)
    | '"' :: '"' :: _ => none
    | _ => blockRaw ('"' :: seen) ('"' :: '"' :: '"' :: rest)
  | '"' :: '"' :: '"' :: rest => some (seen.reverse, rest)
  | '\\' :: c :: rest => blockRaw (c :: '\\' :: seen) rest
  | c :: rest => blockRaw (c :: seen) rest
termination_by cs.length

def literalBlockRaw (seen : List Char) (cs : List Char) : Option (List Char × List Char) :=
  match cs with
  | [] => none
  | '\'' :: '\'' :: '\'' :: '\'' :: rest =>
    match seen with
    | '\'' :: '\'' :: _ => none
    | _ => literalBlockRaw ('\'' :: seen) ('\'' :: '\'' :: '\'' :: rest)
  | '\'' :: '\'' :: '\'' :: rest => some (seen.reverse, rest)
  | c :: rest => literalBlockRaw (c :: seen) rest
termination_by cs.length

def dropFirstNewline : List Char → List Char
  | '\n' :: rest => rest
  | '\r' :: '\n' :: rest => rest
  | cs => cs

/-- The text with its line ends that a backslash escapes taken out, and all blanks and line ends
after them. -/
def joinLines (cs : List Char) : List Char :=
  match cs with
  | [] => []
  | '\\' :: '\\' :: rest => '\\' :: '\\' :: joinLines rest
  | '\\' :: rest =>
    let space (c : Char) : Bool := isBlank c || isNewline c
    if (rest.takeWhile space).contains '\n' then joinLines (rest.dropWhile space)
    else '\\' :: joinLines rest
  | c :: rest => c :: joinLines rest
termination_by cs.length
decreasing_by
  · simp only [List.length_cons]; omega
  · have := (List.dropWhile_sublist (l := rest) (fun c => isBlank c || isNewline c)).length_le
    simp only [List.length_cons]; omega
  · simp
  · simp

def scalar? (n : Nat) : Option Char :=
  if n < 0x110000 ∧ ¬ Json.Tree.isSurrogate n then some (Char.ofNat n) else none

def escape? (c : Char) : Option Char :=
  if c = 'b' then some '\x08'
  else if c = 't' then some '\t'
  else if c = 'n' then some '\n'
  else if c = 'f' then some '\x0c'
  else if c = 'r' then some '\r'
  else if c = '"' ∨ c = '\\' then some c
  else none

/-- **The text that a quoted text stands for**, its escapes replaced. -/
def unescape : List Char → Option (List Char)
  | [] => some []
  | '\\' :: 'u' :: a :: b :: c :: d :: rest => do
    let n ← Json.Tree.fourHex? a b c d
    let x ← scalar? n
    let tail ← unescape rest
    return x :: tail
  | '\\' :: 'U' :: a :: b :: c :: d :: e :: f :: g :: h :: rest => do
    let m ← Json.Tree.fourHex? a b c d
    let n ← Json.Tree.fourHex? e f g h
    let x ← scalar? (m * 65536 + n)
    let tail ← unescape rest
    return x :: tail
  | '\\' :: c :: rest => do
    let x ← escape? c
    let tail ← unescape rest
    return x :: tail
  | c :: rest => if c = '\\' then none else (unescape rest).map (c :: ·)

/-- A string whose opening quote has been read, with the text after it. -/
def quotedString (cs : List Char) : Option (String × List Char) := do
  let (raw, after) ← lineRaw cs
  let s ← unescape raw
  return (String.ofList s, after)

def literalString (cs : List Char) : Option (String × List Char) :=
  (literalRaw cs).map fun (raw, after) => (String.ofList raw, after)

def blockString (cs : List Char) : Option (String × List Char) := do
  let (raw, after) ← blockRaw [] cs
  let s ← unescape (joinLines (dropFirstNewline raw))
  return (String.ofList s, after)

def literalBlock (cs : List Char) : Option (String × List Char) :=
  (literalBlockRaw [] cs).map fun (raw, after) => (String.ofList (dropFirstNewline raw), after)

/-! ## Numbers, truth values and dates -/

def isHex (c : Char) : Bool := (Json.Tree.hexValue? c).isSome

/-- Whether underscores stand between digits only, and the text ends in a digit; `ready` tells
whether a digit has just been read. -/
def underscoresFit (ready : Bool) : List Char → Bool
  | [] => ready
  | c :: rest => (c != '_' || ready) && underscoresFit (isHex c) rest

def unsigned : List Char → List Char
  | '+' :: rest => rest
  | '-' :: rest => rest
  | cs => cs

def hasLeadingZero (cs : List Char) : Bool :=
  match unsigned cs with
  | '0' :: c :: _ => c != 'b' && c != 'o' && c != 'x'
  | _ => false

def valueIn (base : Nat) (ds : List Char) : Nat :=
  ds.foldl (fun n d => n * base + (Json.Tree.hexValue? d).getD 0) 0

def isInteger (cs : List Char) : Bool :=
  let ds := cs.filter (· != '_')
  let n : Int := match ds with
    | '0' :: 'x' :: hs => valueIn 16 hs
    | '0' :: 'o' :: hs => valueIn 8 hs
    | '0' :: 'b' :: hs => valueIn 2 hs
    | '-' :: hs => -(valueIn 10 hs : Int)
    | hs => valueIn 10 (unsigned hs)
  underscoresFit false cs && !hasLeadingZero cs && -(Nat.pow 2 63 : Int) ≤ n && n < Nat.pow 2 63

/-- The parts of a number between points and exponent marks, empty ones left out. -/
def floatParts (current : List Char) : List Char → List (List Char)
  | [] => if current.isEmpty then [] else [current.reverse]
  | c :: rest =>
    if c == '.' || c == 'e' || c == 'E' then
      if current.isEmpty then floatParts [] rest else current.reverse :: floatParts [] rest
    else floatParts (c :: current) rest

/-- Whether a digit follows every point; `pointed` tells whether a point has just been read. -/
def pointsFit (pointed : Bool) : List Char → Bool
  | [] => !pointed
  | c :: rest => (!pointed || c.isDigit) && pointsFit (c == '.') rest

def isFloat (cs : List Char) : Bool :=
  let ps := floatParts [] cs
  let fits := match (Json.Spelled.ofText? (cs.filter (· != '_'))).map Json.Spelled.toDouble with
    | some x => x.isFinite
    | none => false
  ps.all (underscoresFit false) && !((ps.head?.map hasLeadingZero).getD false) &&
    pointsFit false cs && fits

/-- Whether a text is a date, a time of day, or both, with or without an offset. -/
def isMoment (cs : List Char) : Bool :=
  let cs := cs.map fun c => if c == 't' || c == ' ' then 'T' else if c == 'z' then 'Z' else c
  match Timestamp.date? cs with
  | some (_, []) => true
  | some (_, 'T' :: rest) =>
    match Timestamp.clock? rest with
    | some (_, []) => true
    | some (_, rest) => (Timestamp.offset? rest).isSome
    | none => false
  | some _ => false
  | none =>
    match Timestamp.clock? cs with
    | some (_, []) => true
    | _ => false

/-- A number or date that starts with a digit or sign: its kind is told by the characters after
the first digits.  Gives its text, whether it is well formed, and the text after it. -/
def numberToken (cs : List Char) : List Char × Bool × List Char :=
  let take (p : Char → Bool) (judge : List Char → Bool) : List Char × Bool × List Char :=
    let token := cs.takeWhile p
    (token, judge token, cs.dropWhile p)
  let inFloat (c : Char) : Bool :=
    c.isDigit || c == '_' || c == '.' || c == '-' || c == '+' || c == 'e' || c == 'E'
  let inMoment (c : Char) : Bool :=
    c.isDigit || ['-', ':', 'T', 't', ' ', '.', 'Z', 'z', '+'].contains c
  let trimmed (token : List Char) : List Char := (token.reverse.dropWhile (· == ' ')).reverse
  let signed := cs.head? == some '-' || cs.head? == some '+'
  let body := unsigned cs
  let afterDigits := body.dropWhile Char.isDigit
  let afterAll := body.dropWhile fun c => c.isDigit || c == '_'
  let based (base : Char) (p : Char → Bool) : List Char × Bool × List Char :=
    let digits := (body.drop 2).takeWhile fun c => p c || c == '_'
    let token := '0' :: base :: digits
    (token, !signed && (digits.head?.map p).getD false && isInteger token,
      (body.drop 2).dropWhile fun c => p c || c == '_')
  match body with
  | '0' :: 'x' :: _ => based 'x' isHex
  | '0' :: 'o' :: _ => based 'o' fun c => '0' ≤ c && c ≤ '7'
  | '0' :: 'b' :: _ => based 'b' fun c => c == '0' || c == '1'
  | _ =>
    let dated := afterDigits.head? == some '-' || afterDigits.head? == some ':'
    if !signed && dated && body.takeWhile Char.isDigit != ['0'] then
      take inMoment fun token => isMoment (trimmed token)
    else if ['.', 'e', 'E'].contains (afterAll.head?.getD ' ') then
      take inFloat isFloat
    else
      let n := cs.length - afterAll.length
      (cs.take n, isInteger (cs.take n), cs.drop n)

def plainValue (cs : List Char) : Option (Expr × List Char) :=
  let special (word : String) : Option (Expr × List Char) :=
    (Text.dropStart? word.toList (unsigned cs)).map fun rest => (.plain word, rest)
  let first := (unsigned cs).head?.getD ' '
  if first.isDigit then
    let (token, ok, rest) := numberToken cs
    if ok then some (.plain (String.ofList token), rest) else none
  else if first == 'i' then special "inf"
  else if first == 'n' then special "nan"
  else
    let word := String.ofList (cs.takeWhile Text.isLetter)
    if word == "true" || word == "false" then some (.plain word, cs.dropWhile Text.isLetter)
    else none

/-! ## Keys and values -/

def keyPart (cs : List Char) : Option (String × List Char) :=
  match skipBlanks cs with
  | '"' :: rest => quotedString rest
  | '\'' :: rest => literalString rest
  | cs =>
    let name := cs.takeWhile isBare
    if name.isEmpty then none else some (String.ofList name, cs.dropWhile isBare)

/-- The parts of a key, with the text from the next character on that is neither blank nor a dot
between parts.  `fuel` bounds the parts. -/
def key (fuel : Nat) (cs : List Char) : Option (List String × List Char) :=
  match fuel with
  | 0 => none
  | fuel + 1 => do
    let (part, after) ← keyPart cs
    match skipBlanks after with
    | '.' :: rest =>
      let (parts, after) ← key fuel rest
      return (part :: parts, after)
    | rest => return ([part], rest)

def skipLines (fuel : Nat) (cs : List Char) : List Char :=
  match fuel with
  | 0 => cs
  | fuel + 1 =>
    match cs.dropWhile fun c => isBlank c || isNewline c with
    | '#' :: rest => skipLines fuel (skipComment rest)
    | rest => rest

mutual

def value (fuel : Nat) (cs : List Char) : Option (Expr × List Char) :=
  match fuel with
  | 0 => none
  | fuel + 1 =>
    match skipBlanks cs with
    | '"' :: '"' :: '"' :: rest => (blockString rest).map fun (s, after) => (.text s, after)
    | '"' :: rest => (quotedString rest).map fun (s, after) => (.text s, after)
    | '\'' :: '\'' :: '\'' :: rest => (literalBlock rest).map fun (s, after) => (.text s, after)
    | '\'' :: rest => (literalString rest).map fun (s, after) => (.text s, after)
    | '[' :: rest => (elements fuel rest).map fun (xs, after) => (.array xs, after)
    | '{' :: rest =>
      match skipBlanks rest with
      | '}' :: after => some (.inline [], after)
      | rest => (fields fuel rest).map fun (fs, after) => (.inline fs, after)
    | rest => plainValue rest

/-- The elements of a list up to and with its closing bracket; a comma may stand before it. -/
def elements (fuel : Nat) (cs : List Char) : Option (List Expr × List Char) :=
  match fuel with
  | 0 => none
  | fuel + 1 =>
    match skipLines cs.length cs with
    | ']' :: after => some ([], after)
    | rest => do
      let (x, after) ← value fuel rest
      match skipLines after.length after with
      | ',' :: rest =>
        let (xs, after) ← elements fuel rest
        return (x :: xs, after)
      | ']' :: after => return ([x], after)
      | _ => none

/-- The fields of a table on one line up to and with its closing brace. -/
def fields (fuel : Nat) (cs : List Char) : Option (List (List String × Expr) × List Char) :=
  match fuel with
  | 0 => none
  | fuel + 1 => do
    let (k, after) ← key cs.length cs
    match after with
    | '=' :: rest =>
      let (x, after) ← value fuel rest
      match skipBlanks after with
      | ',' :: rest =>
        let (fs, after) ← fields fuel rest
        return ((k, x) :: fs, after)
      | '}' :: after => return ([(k, x)], after)
      | _ => none
    | _ => none

end

/-! ## Statements -/

/-- The text after the rest of a line that must be empty but for a comment. -/
def endOfLine (cs : List Char) : Option (List Char) :=
  match skipBlanks cs with
  | [] => some []
  | '#' :: rest => some (skipComment rest)
  | c :: rest => if isNewline c then some rest else none

def statement (cs : List Char) : Option (Statement × List Char) :=
  match cs with
  | '[' :: '[' :: rest => do
    let (k, after) ← key rest.length rest
    match after with
    | ']' :: ']' :: rest => return (.element k, rest)
    | _ => none
  | '[' :: rest => do
    let (k, after) ← key rest.length rest
    match after with
    | ']' :: rest => return (.table k, rest)
    | _ => none
  | cs => do
    let (k, after) ← key cs.length cs
    match after with
    | '=' :: rest =>
      let (x, after) ← value (rest.length + 1) rest
      return (.assign k x, after)
    | _ => none

def statements (fuel : Nat) (cs : List Char) : Option (List Statement) :=
  match fuel with
  | 0 => none
  | fuel + 1 =>
    match skipLines (cs.length + 1) cs with
    | [] => some []
    | rest => do
      let (s, after) ← statement rest
      let next ← endOfLine after
      let ss ← statements fuel next
      return s :: ss

/-- **The statements of a text**; a byte order mark at its front is no part of it. -/
def Statement.readAll (text : String) : Option (List Statement) :=
  let cs := match text.toList with
    | '﻿' :: rest => rest
    | cs => cs
  if isClean cs then statements (cs.length + 1) cs else none

end TreeQuery.Toml

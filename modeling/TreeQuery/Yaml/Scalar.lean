import TreeQuery.Json.Number
import TreeQuery.Timestamp

/-!
# YAML scalars

When a text may stand in a YAML document as it is, and how it is written when it may not.

A plain text must not read back as something else (`readsAsText`, `isOldTruth`, `isSexagesimal`).
`Analysis` collects what decides between the plain, single quoted, double quoted and literal style.
-/

namespace TreeQuery.Yaml

/-! ## What a plain text reads as -/

/-- The words that read as null, truth values, infinities or not a number. -/
def words : List String :=
  ["", "~", "null", "Null", "NULL", "true", "True", "TRUE", "false", "False", "FALSE",
   ".nan", ".NaN", ".NAN", ".inf", ".Inf", ".INF", "+.inf", "+.Inf", "+.INF",
   "-.inf", "-.Inf", "-.INF"]

/-- The words that older readers take for truth values. -/
def oldTruths : List String :=
  ["y", "Y", "yes", "Yes", "YES", "on", "On", "ON", "n", "N", "no", "No", "NO", "off", "Off", "OFF"]

def isOldTruth (cs : List Char) : Bool :=
  oldTruths.contains (String.ofList cs)

def digitValue? (c : Char) : Option Nat := Json.Tree.hexValue? c

def natOfBase? (base : Nat) (ds : List Char) : Option Nat :=
  if ds.isEmpty then none
  else
    ds.foldl (fun n d => do
      let n ← n
      let v ← digitValue? d
      if v < base then some (n * base + v) else none) (some 0)

def unsign (cs : List Char) : Option Bool × List Char :=
  match cs with
  | '-' :: rest => (some true, rest)
  | '+' :: rest => (some false, rest)
  | cs => (none, cs)

/-- The magnitude that a text spells with a prefix for its base. -/
def magnitude? (cs : List Char) : Option Nat :=
  match cs with
  | '0' :: c :: rest =>
    if c = 'x' ∨ c = 'X' then natOfBase? 16 rest
    else if c = 'b' ∨ c = 'B' then natOfBase? 2 rest
    else if c = 'o' ∨ c = 'O' then natOfBase? 8 rest
    else natOfBase? 8 (c :: rest)
  | cs => natOfBase? 10 cs

def fits (sign : Option Bool) (n : Nat) : Bool :=
  match sign with
  | some true => n ≤ Nat.pow 2 63
  | some false => n < Nat.pow 2 63
  | none => n < Nat.pow 2 64

/-- Whether a text reads as a whole number of the given reading of magnitudes. -/
def isWhole (read : List Char → Option Nat) (cs : List Char) : Bool :=
  let (sign, rest) := unsign cs
  match read rest with
  | some n => fits sign n
  | none => false

def isInteger (cs : List Char) : Bool :=
  isWhole magnitude? cs ||
    match cs with
    | '0' :: 'b' :: rest => isWhole (natOfBase? 2) rest
    | '0' :: 'o' :: rest => isWhole (natOfBase? 8) rest
    | _ => false

/-- Whether a text reads as a number with a point or an exponent, in the range of doubles. -/
def isFloat (cs : List Char) : Bool :=
  match Json.Spelled.ofText? cs with
  | some s => s.toDouble.isFinite
  | none => false

/-- Whether every underscore of a text stands between two digits. -/
def separatesDigits (afterDigit : Bool) : List Char → Bool
  | [] => true
  | '_' :: rest =>
    afterDigit && (rest.head?.map Char.isDigit).getD false && separatesDigits false rest
  | c :: rest => separatesDigits c.isDigit rest

/-- Whether a text that starts with a point reads as a number; underscores may separate its digits.
-/
def isFraction (cs : List Char) : Bool :=
  separatesDigits false cs && isFloat (cs.filter (· != '_'))

/-! ### Dates -/

def shortNumber? (cs : List Char) : Option (Nat × List Char) :=
  match cs with
  | a :: b :: rest =>
    if a.isDigit then
      if b.isDigit then some ((a.toNat - 48) * 10 + (b.toNat - 48), rest)
      else some (a.toNat - 48, b :: rest)
    else none
  | [a] => if a.isDigit then some (a.toNat - 48, []) else none
  | [] => none

def after? (c : Char) (cs : List Char) : Option (List Char) :=
  match cs with
  | d :: rest => if c = d then some rest else none
  | [] => none

/-- The rest of a text after a time of day: hours, minutes, seconds and a fraction. -/
def clock? (cs : List Char) : Option (List Char) := do
  let (hour, cs) ← shortNumber? cs
  let cs ← after? ':' cs
  let (minute, cs) ← shortNumber? cs
  let cs ← after? ':' cs
  let (second, cs) ← shortNumber? cs
  if hour < 24 ∧ minute < 60 ∧ second < 60 then
    match cs with
    | p :: d :: rest =>
      if (p = '.' ∨ p = ',') ∧ d.isDigit then some (rest.dropWhile Char.isDigit) else some cs
    | _ => some cs
  else none

/-- Whether a text is a time zone: `Z` or an offset of hours and minutes. -/
def isZone : List Char → Bool
  | ['Z'] => true
  | [s, a, b, ':', c, d] =>
    (s == '+' || s == '-') && [a, b, c, d].all Char.isDigit &&
      (a.toNat - 48) * 10 + (b.toNat - 48) ≤ 24 && (c.toNat - 48) * 10 + (d.toNat - 48) ≤ 60
  | _ => false

/-- Whether a text reads as a moment: a date, with a time of day in a zone after a `T`, or with a
time of day after blanks. -/
def isMoment (cs : List Char) : Bool :=
  let year := cs.takeWhile Char.isDigit
  let found := do
    if year.length ≠ 4 then none
    let cs ← after? '-' (cs.drop 4)
    let (month, cs) ← shortNumber? cs
    let cs ← after? '-' cs
    let (day, cs) ← shortNumber? cs
    if !Text.isDate (Json.Spelled.natOf year) month day then none
    match cs with
    | [] => some true
    | c :: rest =>
      if c = 'T' ∨ c = 't' then (clock? rest).map isZone
      else if c = ' ' then (clock? (rest.dropWhile (· == ' '))).map List.isEmpty
      else none
  found.getD false

/-- The numbers of older readers that are written to the base 60, such as `1:30`. -/
def isSexagesimal (cs : List Char) : Bool :=
  let (_, cs) := unsign cs
  let head := cs.takeWhile fun c => c.isDigit || c == '_'
  let rest := cs.drop head.length
  (head.head?.map Char.isDigit).getD false && groups (rest.length + 1) false rest
where
  /-- The groups of one or two digits after their colons, and a fraction. -/
  groups : Nat → Bool → List Char → Bool
    | 0, _, _ => false
    | fuel + 1, some?, cs =>
      match cs with
      | [] => some?
      | ':' :: rest =>
        let ds := rest.takeWhile Char.isDigit
        match ds with
        | [_] => groups fuel true (rest.drop 1)
        | [a, _] => a ≤ '5' && groups fuel true (rest.drop 2)
        | _ => false
      | '.' :: rest => some? && rest.all fun c => c.isDigit || c == '_'
      | _ => false

/-- **Whether a plain text reads back as a text.** -/
def readsAsText (cs : List Char) : Bool :=
  if words.contains (String.ofList cs) then false
  else
    match cs with
    | [] => false
    | c :: _ =>
      if c = '.' then !isFraction cs
      else if c.isDigit ∨ c = '+' ∨ c = '-' then
        let plain := cs.filter (· != '_')
        !(isMoment cs || isInteger plain || isFloat plain)
      else true

/-! ## Which styles a text allows -/

inductive Style where
  | plain
  | singleQuoted
  | doubleQuoted
  | literal
  deriving DecidableEq, Repr

def isBreak (c : Char) : Bool :=
  let n := c.toNat
  n == 10 || n == 13 || n == 0x85 || n == 0x2028 || n == 0x2029

def isPlainChar (c : Char) : Bool :=
  let n := c.toNat
  n == 10 || (0x20 ≤ n && n ≤ 0x7E) || (0xA0 ≤ n && n ≤ 0xFFFD && n != 0xFEFF)

def startsBlank : List Char → Bool
  | [] => true
  | c :: _ => c == ' ' || c == '\t' || isBreak c

structure Analysis where
  multiline : Bool := false
  plainAllowed : Bool := true
  singleAllowed : Bool := true
  blockAllowed : Bool := true
  deriving DecidableEq, Repr

/-- Whether a character in front of `rest` keeps a text from being plain. -/
def isIndicator (first afterBlank : Bool) (c : Char) (rest : List Char) : Bool :=
  if first then
    "#,[]\x7b\x7d&*!|>'\"%@\x60".toList.contains c ||
      ((c == '?' || c == ':' || c == '-') && startsBlank rest)
  else (c == ':' && startsBlank rest) || (c == '#' && afterBlank)

def hasIndicator (first afterBlank : Bool) : List Char → Bool
  | [] => false
  | c :: rest =>
    isIndicator first afterBlank c rest ||
      hasIndicator false (c == ' ' || c == '\t' || isBreak c) rest

/-- Whether two neighbouring characters satisfy a condition. -/
def anyPair (p : Char → Char → Bool) : List Char → Bool
  | a :: b :: rest => p a b || anyPair p (b :: rest)
  | _ => false

/-- **The styles that a text allows.** -/
def analyse (cs : List Char) : Analysis :=
  match cs with
  | [] => { blockAllowed := false }
  | c :: _ =>
    let last := cs.getLast?.getD c
    let separator := "---".toList.isPrefixOf cs || "...".toList.isPrefixOf cs
    let lineBreaks := cs.any isBreak
    let tabs := cs.contains '\t'
    let special := cs.any fun c => c != '\t' && !isPlainChar c
    let breakSpace := anyPair (fun a b => isBreak a && b == ' ') cs
    let spaceBreak := anyPair (fun a b => a == ' ' && isBreak b) cs
    let padded := c == ' ' || isBreak c || last == ' ' || isBreak last
    { multiline := lineBreaks
      plainAllowed :=
        !(padded || breakSpace || spaceBreak || tabs || special || lineBreaks || separator ||
          hasIndicator true true cs)
      singleAllowed := !(breakSpace || spaceBreak || tabs || special)
      blockAllowed := !(last == ' ' || spaceBreak || special) }

/-- **The style in which a text is written**, given the one it is meant to have. -/
def settleStyle (cs : List Char) (style : Style) : Style :=
  let a := analyse cs
  match style with
  | .plain =>
    if a.plainAllowed then .plain else if a.singleAllowed then .singleQuoted else .doubleQuoted
  | .singleQuoted => if a.singleAllowed then .singleQuoted else .doubleQuoted
  | .literal => if a.blockAllowed then .literal else .doubleQuoted
  | .doubleQuoted => .doubleQuoted

/-! ## The text in a style -/

def upperHex (width n : Nat) : List Char :=
  let digits := (Nat.toDigits 16 n).map Char.toUpper
  List.replicate (width - digits.length) '0' ++ digits

def escape (c : Char) : List Char :=
  let n := c.toNat
  let letter : Option Char :=
    match n with
    | 0x00 => some '0'
    | 0x07 => some 'a'
    | 0x08 => some 'b'
    | 0x09 => some 't'
    | 0x0A => some 'n'
    | 0x0B => some 'v'
    | 0x0C => some 'f'
    | 0x0D => some 'r'
    | 0x1B => some 'e'
    | 0x22 => some '"'
    | 0x5C => some '\\'
    | 0x85 => some 'N'
    | 0xA0 => some '_'
    | 0x2028 => some 'L'
    | 0x2029 => some 'P'
    | _ => none
  match letter with
  | some l => ['\\', l]
  | none =>
    if n ≤ 0xFF then '\\' :: 'x' :: upperHex 2 n
    else if n ≤ 0xFFFF then '\\' :: 'u' :: upperHex 4 n
    else '\\' :: 'U' :: upperHex 8 n

def doubleQuotedChar (c : Char) : List Char :=
  if isPlainChar c && !isBreak c && c != '"' && c != '\\' then [c] else escape c

def byteOrderMark : Char := '\ufeff'

/-- The text in double quotes.  Behind a byte order mark every character is escaped. -/
def doubleQuoted (cs : List Char) : List Char :=
  let body := if cs.head? == some byteOrderMark then cs.flatMap escape
    else cs.flatMap doubleQuotedChar
  '"' :: (body ++ ['"'])

/-- The text between single quotes; a line that follows a break is indented. -/
def singleQuotedBody (indent : Nat) (afterBreak : Bool) : List Char → List Char
  | [] => []
  | c :: rest =>
    if c = ' ' then c :: singleQuotedBody indent afterBreak rest
    else if isBreak c then c :: singleQuotedBody indent true rest
    else
      (if afterBreak then List.replicate indent ' ' else []) ++
        (if c = '\'' then [c, c] else [c]) ++ singleQuotedBody indent false rest

def singleQuoted (indent : Nat) (cs : List Char) : List Char :=
  '\'' :: (singleQuotedBody indent false cs ++ ['\''])

end TreeQuery.Yaml

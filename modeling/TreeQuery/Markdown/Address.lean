import TreeQuery.Markdown.Cursor
import TreeQuery.Markdown.Reference

/-!
# Addresses in a text

An address of a page or of mail becomes a link without any brackets, or between angle brackets.
Signs at its end that belong to the sentence around it are left out.
-/

namespace TreeQuery.Markdown

/-- **An address at the front of a text**: what is shown, where it leads, and the text after it. -/
structure Address where
  label : List Char
  target : List Char
  after : List Char
  deriving DecidableEq, Repr

/-! ## Mail -/

def isMailSign (c : Char) : Bool :=
  c.isAlphanum || ".!#$%&'*+/=?^_\x60\x7b|\x7d~-".toList.contains c

def maxDomainPart : Nat := 63

/-- A part of a domain at the front of a text: letters, digits and hyphens, no hyphen at an end. -/
def domainPart (cs : List Char) : List Char :=
  let run := (cs.takeWhile fun c => c.isAlphanum || c == '-').take maxDomainPart
  match run.head? with
  | some c => if c == '-' then [] else (run.reverse.dropWhile (· == '-')).reverse
  | none => []

def domainLength (fuel : Nat) (cs : List Char) : Nat :=
  match fuel with
  | 0 => 0
  | fuel + 1 =>
    let part := domainPart cs
    match cs.drop part.length with
    | '.' :: rest =>
      if part.isEmpty || (domainPart rest).isEmpty then part.length
      else part.length + 1 + domainLength fuel rest
    | _ => part.length

def mailLength? (cs : List Char) : Option Nat :=
  let name := cs.takeWhile isMailSign
  match cs.drop name.length with
  | '@' :: rest =>
    let domain := domainLength (rest.length + 1) rest
    if name.isEmpty || domain == 0 then none else some (name.length + 1 + domain)
  | _ => none

def mailTarget (label : List Char) : List Char :=
  if Text.sameLetters (label.take 7) "mailto:".toList then label else "mailto:".toList ++ label

/-! ## Between angle brackets -/

def schemeLength? (cs : List Char) : Option Nat :=
  let inScheme (c : Char) : Bool := c.isAlphanum || c == '+' || c == '-' || c == '.'
  let scheme := cs.takeWhile inScheme
  let startsWithLetter := (scheme.head?.map Char.isAlpha).getD false
  match cs.drop scheme.length with
  | ':' :: rest =>
    if !startsWithLetter || scheme.length < 2 || 33 < scheme.length then none
    else
      let body := rest.takeWhile fun c => 0x20 < c.toNat && c.toNat != 0x7F && c != '<' && c != '>'
      some (scheme.length + 1 + body.length)
  | _ => none

/-- The address between angle brackets, the first of them having been read. -/
def bracketedAddress? (cs : List Char) : Option Address :=
  let found := match mailLength? cs with
    | some n => some (n, true)
    | none => (schemeLength? cs).map fun n => (n, false)
  match found with
  | some (n, isMail) =>
    let label := cs.take n
    match cs.drop n with
    | '>' :: after => some ⟨label, if isMail then mailTarget label else label, after⟩
    | _ => none
  | none => none

/-! ## Bare addresses -/

def isHostSign (c : Char) : Bool := c.isAlphanum || "-@:%._+~#=".toList.contains c

def maxHost : Nat := 256

/-- Whether the text after a point goes on with a small letter. -/
def isLastPoint (cs : List Char) (n : Nat) : Bool :=
  match cs.drop n with
  | '.' :: c :: _ => c.isLower
  | _ => false

/-- The place of the last point of a host's name, at most at a place. -/
def lastPoint? (cs : List Char) : Nat → Option Nat
  | 0 => none
  | n + 1 => if isLastPoint cs (n + 1) then some (n + 1) else lastPoint? cs n

def hostLength? (cs : List Char) : Option Nat :=
  let run := (cs.takeWhile isHostSign).length
  (lastPoint? cs (min run maxHost)).map fun n =>
    n + 1 + ((cs.drop (n + 1)).takeWhile Char.isLower).length

/-- The number of characters of the colon and the digits that may follow a host. -/
def hostNumberLength (cs : List Char) : Nat :=
  match cs with
  | ':' :: rest =>
    let digits := (rest.takeWhile Char.isDigit).length
    if digits = 0 then 0 else digits + 1
  | _ => 0

/-- The number of characters of what follows the host, given the further signs it may have. -/
def pathLength (further : List Char) (cs : List Char) : Nat :=
  match cs with
  | c :: rest =>
    if c = '/' ∨ c = '#' ∨ c = '?' then
      let inPath (d : Char) : Bool :=
        d.isAlphanum || "-@:%_+.~#!?&/=();,'\">^\x7b\x7d[]\x60".toList.contains d ||
          further.contains d
      1 + (rest.takeWhile inPath).length
    else 0
  | [] => 0

def bareSchemes : List String := ["http://", "https://", "ftp://"]

/-- The number of characters of the address with a scheme at the front of a text. -/
def webLength? (cs : List Char) : Option Nat := do
  let scheme ← bareSchemes.find? fun s => s.toList.isPrefixOf cs
  let rest := cs.drop scheme.length
  let host ← hostLength? rest
  let host := host + hostNumberLength (rest.drop host)
  return scheme.length + host + pathLength ['$'] (rest.drop host)

def siteLength? (cs : List Char) : Option Nat := do
  let rest ← Text.dropStart? "www.".toList cs
  let host ← hostLength? rest
  return 4 + host + pathLength [] (rest.drop host)

/-- The length without a sign at the end that belongs to the text around: a point, parentheses that
were not opened, or a character reference. -/
def withoutTail (cs : List Char) (n : Nat) : Nat :=
  let label := cs.take n
  match label.getLast? with
  | some '.' => n - 1
  | some ')' => n - (label.count ')' - label.count '(')
  | some ';' =>
    let body := label.dropLast
    let name := body.reverse.takeWhile Char.isAlphanum
    if !name.isEmpty && (body.reverse.drop name.length).head? == some '&' then
      n - name.length - 2
    else n
  | _ => n

/-- The length without signs at the end that belong to the sentence around; one is kept. -/
def withoutStops (cs : List Char) (n : Nat) : Nat :=
  let stops := (cs.take n).reverse.takeWhile fun c => "?!.,:*_~".toList.contains c
  max 1 (n - stops.length)

/-- The mail address at the front of a text, which must have a point in its domain. -/
def bareMail? (cs : List Char) : Option Address := do
  let n ← mailLength? cs
  let label := cs.take n
  let domain := label.dropLast.dropWhile (· != '@')
  let next := (cs.drop n).head?
  if (cs.head?.map isMark).getD false || !domain.contains '.' || next == some '-' ||
      next == some '_' then
    none
  else
    let m := withoutStops cs n
    return ⟨cs.take m, mailTarget (cs.take m), cs.drop m⟩

/-- **The address at the front of a text**, without brackets around it. -/
def bareAddress? (cs : List Char) : Option Address :=
  match webLength? cs with
  | some n =>
    let m := withoutStops cs (withoutTail cs n)
    some ⟨cs.take m, cs.take m, cs.drop m⟩
  | none =>
    match siteLength? cs with
    | some n =>
      let m := withoutStops cs (withoutTail cs n)
      some ⟨cs.take m, "http://".toList ++ cs.take m, cs.drop m⟩
    | none => bareMail? cs

end TreeQuery.Markdown

import TreeQuery.Json.Tree
import TreeQuery.Text.Utf8

/-!
# Where a link leads

The target of a link is shown as an address.  One with a scheme stands as it is.  Any other is taken
to be relative to the root: its path gets a slash in front, its dots are resolved, and signs that
cannot stand in an address are written as percent signs with two digits.  A target that is no
address at all is not shown.
-/

namespace TreeQuery.Markdown

structure Location where
  hasScheme : Bool
  /-- The host with its user and number, where the target names one. -/
  authority : List Char
  path : List Char
  query : Option (List Char)
  fragment : List Char
  deriving DecidableEq, Repr

namespace Location

/-! ## Signs written with a percent sign -/

/-- The bytes of a text whose percent signs each stand for a byte with the two digits after them. -/
def decodeBytes : List UInt8 → Option (List UInt8)
  | [] => some []
  | 0x25 :: a :: b :: rest => do
    let high ← Json.Tree.hexValue? (Char.ofNat a.toNat)
    let low ← Json.Tree.hexValue? (Char.ofNat b.toNat)
    let more ← decodeBytes rest
    return UInt8.ofNat (high * 16 + low) :: more
  | b :: rest => if b = 0x25 then none else (decodeBytes rest).map (b :: ·)

def decode? (cs : List Char) : Option (List UInt8) := decodeBytes (Text.encode cs)

def isUnreserved (c : Char) : Bool := c.isAlphanum || "-_.~$&+,/:;=@".toList.contains c

/-- A byte with a percent sign, unless it is a character that may stand as it is. -/
def encodeByte (further : List Char) (b : UInt8) : List Char :=
  let c := Char.ofNat b.toNat
  let digit (n : Nat) : Char := "0123456789ABCDEF".toList[n]?.getD '0'
  if b < 0x80 && (isUnreserved c || further.contains c) then [c]
  else ['%', digit (b.toNat / 16), digit (b.toNat % 16)]

def encode (further : List Char) (bs : List UInt8) : List Char := bs.flatMap (encodeByte further)

def isEncoded (further : List Char) (cs : List Char) : Bool :=
  cs.all fun c => isUnreserved c || "!'()*[]%".toList.contains c || further.contains c

/-! ## Reading -/

/-- The scheme at the front of an address: the text after it, or `none` if there is no scheme; an
error if it is empty. -/
def afterScheme? (cs : List Char) : Option (Option (List Char)) :=
  let inScheme (c : Char) : Bool := c.isAlphanum || c == '+' || c == '-' || c == '.'
  let scheme := cs.takeWhile inScheme
  match cs.drop scheme.length with
  | ':' :: rest =>
    match scheme with
    | [] => none
    | c :: _ => some (if c.isAlpha then some rest else none)
  | _ => some none

def isHostSign (c : Char) : Bool :=
  0x80 ≤ c.toNat || c.isAlphanum || "-_.~!$&'()*+,;=:[]<>\"%".toList.contains c

/-- Whether a text is the number of a host, its colon included, or nothing. -/
def isHostNumber (cs : List Char) : Bool :=
  match cs with
  | [] => true
  | ':' :: digits => digits.all Char.isDigit
  | _ => false

def isHost (cs : List Char) : Bool :=
  match cs with
  | '[' :: _ =>
    let tail := cs.reverse.takeWhile (· != ']')
    cs.contains ']' && isHostNumber tail.reverse
  | _ =>
    let tail := (cs.reverse.takeWhile (· != ':')).reverse
    cs.all isHostSign && (!cs.contains ':' || tail.all Char.isDigit) && (decode? cs).isSome

def isUser (cs : List Char) : Bool :=
  cs.all (fun c => c.isAlphanum || "-._:~!$&'()*+,;=%@".toList.contains c) && (decode? cs).isSome

def isAuthority (cs : List Char) : Bool :=
  let host := (cs.reverse.takeWhile (· != '@')).reverse
  isHost host && (!cs.contains '@' || isUser (cs.take (cs.length - host.length - 1)))

/-- The address with a host and a path; each must be what it stands for. -/
def build? (hasScheme : Bool) (authority path : List Char) (query : Option (List Char))
    (fragment : List Char) : Option Location :=
  if (decode? path).isSome && (decode? fragment).isSome && isAuthority authority then
    some ⟨hasScheme, authority, path, query, fragment⟩
  else none

def read? (cs : List Char) : Option Location := do
  let body := cs.takeWhile (· != '#')
  let fragment := (cs.drop body.length).drop 1
  if body.any fun c => c.toNat < 0x20 || c.toNat == 0x7F then none
  else
    let scheme ← afterScheme? body
    let rest := scheme.getD body
    let path := rest.takeWhile (· != '?')
    let query := match rest.drop path.length with
      | _ :: q => some q
      | [] => none
    match path with
    | '/' :: '/' :: after =>
      if scheme.isNone && after.head? == some '/' then build? false [] path query fragment
      else
        let authority := after.takeWhile (· != '/')
        build? scheme.isSome authority (after.drop authority.length) query fragment
    | '/' :: _ => build? scheme.isSome [] path query fragment
    | _ =>
      if scheme.isSome then build? true [] [] query fragment
      else if (path.takeWhile (· != '/')).contains ':' then none
      else build? false [] path query fragment

/-! ## Resolving -/

/-- The steps of a path, last one first, after one more: two dots go back one step. -/
def takeStep (steps : List (List Char)) (step : List Char) : List (List Char) :=
  if step = ['.'] then steps
  else if step = ['.', '.'] then steps.drop 1
  else step :: steps

def resolved (path : List Char) : List Char :=
  if path.isEmpty then []
  else
    let steps := Text.splitOn ['/'] path
    let kept := (steps.foldl takeStep []).reverse
    let last := steps.getLast?.getD []
    let body := ['/'].intercalate kept ++ (if last = ['.'] ∨ last = ['.', '.'] then ['/'] else [])
    if body.head? == some '/' then body else '/' :: body

/-- The path of a relative address, its first slash left out. -/
def relativePath (path : List Char) : List Char :=
  match path with
  | '/' :: rest => encode [] ((decode? rest).getD [])
  | path => if isEncoded [] path then path else encode [] ((decode? path).getD [])

def fragmentText (fragment : List Char) : List Char :=
  if isEncoded ['?'] fragment then fragment
  else encode ['?', '!', '(', ')', '*'] ((decode? fragment).getD [])

def rooted (l : Location) : List Char :=
  (if l.authority.isEmpty then [] else '/' :: '/' :: l.authority) ++
    resolved (relativePath l.path) ++
    (match l.query with
     | some q => '?' :: q
     | none => []) ++
    (if l.fragment.isEmpty then [] else '#' :: fragmentText l.fragment)

end Location

/-- **How the target of a link is shown**: as it stands if it has a scheme, and from the root
otherwise. -/
def shownTarget (target : List Char) : List Char :=
  match Location.read? target with
  | some l => if l.hasScheme then target else l.rooted
  | none => target

/-- Whether a target is shown behind the text of a link: it must be an address, and more than a
place in the same text. -/
def isShownTarget (target : List Char) : Bool :=
  match Location.read? target with
  | some l =>
    match target with
    | '#' :: rest => Location.decode? l.fragment != some (Text.encode rest)
    | _ => true
  | none => false

end TreeQuery.Markdown

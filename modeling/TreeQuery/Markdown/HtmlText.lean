import TreeQuery.Markdown.Entity
import TreeQuery.Markdown.Html
import TreeQuery.Text.Blank

/-!
# The text of HTML

Of a piece of HTML only its text is shown: tags, comments and declarations are left out, and so is
what stands in scripts, style sheets and frames.  Character references are replaced, except in the
elements whose content is taken as it is.
-/

namespace TreeQuery.Markdown.Html

inductive Token where
  | text (cs : List Char)
  | opens (name : String)
  | closes (name : String)
  deriving DecidableEq, Repr

def isTagSpace (c : Char) : Bool := c == ' ' || c == '\n' || c == '\r' || c == '\t' || c == '\x0c'

def skipAttributeValue (cs : List Char) : List Char :=
  match cs.dropWhile isTagSpace with
  | '=' :: rest =>
    match rest.dropWhile isTagSpace with
    | '"' :: value => (value.dropWhile (· != '"')).drop 1
    | '\'' :: value => (value.dropWhile (· != '\'')).drop 1
    | value => value.dropWhile fun c => !isTagSpace c && c != '>'
  | rest => rest

/-- The text after the name of an attribute; the sign that ends it may be part of the tag. -/
def skipAttributeName (cs : List Char) : List Char :=
  match cs with
  | c :: rest =>
    if isTagSpace c || c == '/' then rest
    else
      let after := rest.dropWhile fun d => !isTagSpace d && d != '/' && d != '=' && d != '>'
      match after with
      | '/' :: after => after
      | after => after
  | [] => []

/-- The text after the end of a tag; nothing if the tag does not end. -/
def skipTag (fuel : Nat) (cs : List Char) : Option (List Char) :=
  match fuel with
  | 0 => none
  | fuel + 1 =>
    match cs.dropWhile isTagSpace with
    | [] => none
    | '>' :: after => some after
    | cs => skipTag fuel (skipAttributeValue (skipAttributeName cs))

def splitName (cs : List Char) : String × List Char :=
  let inName (c : Char) : Bool := !isTagSpace c && c != '/' && c != '>'
  (String.ofList (lower (cs.takeWhile inName)), cs.dropWhile inName)

def taglessNames : List String :=
  ["iframe", "noembed", "noframes", "plaintext", "script", "style", "textarea", "title", "xmp"]

/-- The content of an element up to its closing tag, and the text from that tag on. -/
def splitContent (name : String) : List Char → List Char × List Char
  | [] => ([], [])
  | c :: rest =>
    let here := c :: rest
    let close := '<' :: '/' :: name.toList
    let after := here.drop close.length
    if name != "plaintext" && lower (here.take close.length) == close &&
        (match after with
         | d :: _ => isTagSpace d || d == '/' || d == '>'
         | [] => false) then ([], here)
    else
      let (content, tail) := splitContent name rest
      (c :: content, tail)

/-- The text after a comment or declaration, its opening having been read. -/
def skipComment (cs : List Char) : List Char :=
  match cs with
  | '-' :: '-' :: '>' :: after => after
  | '-' :: '-' :: '-' :: '>' :: after => after
  | '-' :: '-' :: rest =>
    match Text.findCut "-->".toList rest, Text.findCut "--!>".toList rest with
    | some (a, after), some (b, after') => if b.length < a.length then after' else after
    | some (_, after), none => after
    | none, some (_, after) => after
    | none, none => []
  | cs => (cs.dropWhile (· != '>')).drop 1

/-- The tokens of a piece of HTML; `shown` is the text read so far, last character first. -/
def tokensFrom (fuel : Nat) (shown : List Char) (cs : List Char) : List Token :=
  let flush (more : List Token) : List Token :=
    if shown.isEmpty then more else .text (unescaped shown.reverse) :: more
  match fuel with
  | 0 => flush []
  | fuel + 1 =>
    match cs with
    | [] => flush []
    | '<' :: '/' :: '>' :: after => flush (tokensFrom fuel [] after)
    | '<' :: '/' :: c :: rest =>
      if c.isAlpha then
        let (name, tail) := splitName (c :: rest)
        flush (match skipTag (tail.length + 1) tail with
          | some after => .closes name :: tokensFrom fuel [] after
          | none => [])
      else flush (tokensFrom fuel [] ((c :: rest).dropWhile (· != '>') |>.drop 1))
    | '<' :: '!' :: rest => flush (tokensFrom fuel [] (skipComment rest))
    | '<' :: '?' :: rest => flush (tokensFrom fuel [] ((rest.dropWhile (· != '>')).drop 1))
    | '<' :: c :: rest =>
      if c.isAlpha then
        let (name, tail) := splitName (c :: rest)
        flush (match skipTag (tail.length + 1) tail with
          | none => []
          | some after =>
            let closed := (tail.take (tail.length - after.length)).reverse.drop 1 |>.head?
            let opened := if closed == some '/' then [] else [Token.opens name]
            if taglessNames.contains name then
              let (content, rest) := splitContent name after
              let text := if name == "textarea" || name == "title" then unescaped content
                else content
              opened ++ .text text :: tokensFrom fuel [] rest
            else opened ++ tokensFrom fuel [] after)
      else tokensFrom fuel ('<' :: shown) (c :: rest)
    | c :: rest => tokensFrom fuel (c :: shown) rest

def hiddenNames : List String :=
  ["frame", "frameset", "iframe", "noembed", "noframes", "noscript", "nostyle", "object"]

def silentNames : List String := ["script", "style"]

/-- What decides whether text is shown: the element opened last, and the number of hidden elements
that are open. -/
structure Showing where
  latest : String := ""
  hidden : Int := 0
  skips : Bool := false
  deriving DecidableEq, Repr

def shownText (s : Showing) : List Token → List Char
  | [] => []
  | .text cs :: rest =>
    (if s.skips || silentNames.contains s.latest then [] else cs) ++ shownText s rest
  | .opens name :: rest =>
    let s := { s with latest := name }
    if hiddenNames.contains name then
      shownText { s with hidden := s.hidden + 1, skips := true } rest
    else shownText s rest
  | .closes name :: rest =>
    let s := if s.latest == name then { s with latest := "" } else s
    if hiddenNames.contains name then
      let hidden := s.hidden - 1
      shownText { s with hidden, skips := s.skips && hidden != 0 } rest
    else shownText s rest

def oneLineEnd : List Char → List Char
  | '\r' :: '\n' :: rest => '\n' :: oneLineEnd rest
  | '\r' :: rest => '\n' :: oneLineEnd rest
  | c :: rest => c :: oneLineEnd rest
  | [] => []

/-- **The text of a piece of HTML**, without blanks at its ends. -/
def text (cs : List Char) : List Char :=
  let cs := oneLineEnd cs
  Text.trim (shownText {} (tokensFrom (cs.length + 1) [] cs))

end TreeQuery.Markdown.Html

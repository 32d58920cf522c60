import TreeQuery.Json.Write

/-!
# JSON over several lines

The JSON text of an answer is laid out over several lines, each member and element on a line of its
own, two blanks deeper than what holds it.
-/

namespace TreeQuery.Json

inductive Place where
  | outside
  | inString
  /-- Inside a string, right after a backslash. -/
  | escaped
  deriving DecidableEq, Repr

def Place.after (p : Place) (c : Char) : Place :=
  match p with
  | .outside => if c = '"' then .inString else .outside
  | .inString => if c = '"' then .outside else if c = '\\' then .escaped else .inString
  | .escaped => .inString

def lineBreak (depth : Nat) : List Char := '\n' :: List.replicate (2 * depth) ' '

def isOpening (c : Char) : Bool := c == '[' || c == '\x7b'

def isClosing (c : Char) : Bool := c == ']' || c == '\x7d'

/-- The rest of a compact text laid out from a place at a depth. -/
def layOut (p : Place) (depth : Nat) : List Char → List Char
  | [] => []
  | [c] => if p = .outside ∧ isClosing c then lineBreak (depth - 1) ++ [c] else [c]
  | c :: d :: rest =>
    if p = .outside then
      if isOpening c then
        if isClosing d then c :: d :: layOut p depth rest
        else c :: (lineBreak (depth + 1) ++ layOut p (depth + 1) (d :: rest))
      else if isClosing c then lineBreak (depth - 1) ++ c :: layOut p (depth - 1) (d :: rest)
      else if c = ',' then c :: (lineBreak depth ++ layOut p depth (d :: rest))
      else if c = ':' then c :: ' ' :: layOut p depth (d :: rest)
      else c :: layOut (p.after c) depth (d :: rest)
    else c :: layOut (p.after c) depth (d :: rest)

/-- **A compact text laid out over lines.** -/
def indented (s : String) : String := String.ofList (layOut .outside 0 s.toList)

/-! ## Texts that break off

Rows are written as soon as they are encoded.  When one of them cannot be, the text breaks off after
the last row that could.
-/

/-- Parts of a text, each with a mark whether it is written at once. -/
abbrev Parts := List (Bool × String)

def waiting (cs : List Char) : Parts := [(false, String.ofList cs)]

def listParts (depth : Nat) (elements : List Parts) : Parts :=
  match elements with
  | [] => waiting ['[', ']']
  | _ =>
    waiting ('[' :: lineBreak (depth + 1)) ++
      (elements.intersperse (waiting (',' :: lineBreak (depth + 1)))).flatten ++
      waiting (lineBreak depth ++ [']'])

def rowParts (r : Row Value) : Parts :=
  match encode (.row r) with
  | some t => [(true, t)]
  | none => []

mutual

def resultParts (depth : Nat) : Value → Parts
  | .rows rs => listParts depth (rs.map rowParts)
  | .row r => rowParts r
  | .list vs => listParts depth (resultPartsAll (depth + 1) vs)
  | v => [(false, (encode v).getD "")]

def resultPartsAll (depth : Nat) : List Value → List Parts
  | [] => []
  | v :: rest => resultParts depth v :: resultPartsAll depth rest

end

/-- **What has been written of parts** when they break off: all up to the last part that is written
at once. -/
def writtenOf (ps : Parts) : String :=
  String.join ((ps.reverse.dropWhile fun p => !p.1).reverse.map (·.2))

end TreeQuery.Json

import TreeQuery.Json.Number
import TreeQuery.Value

/-!
# JSON documents

A text column may hold a JSON document, which a query can look into.  Objects become rows in the
order of their members, a repeated member keeping its first place and its last value; lists become
lists and numbers doubles.  A document is read only if it can be passed over as well, so its numbers
are those that both `double` and `skipNumber` take.
-/

namespace TreeQuery.Json

/-- Passes over the value at the front of a text when `depth` levels may be opened. -/
def skip (depth : Nat) (cs : List Char) : Option (List Char) :=
  (Tree.value skipNumber depth cs).map Prod.snd

mutual

def documentValue : Tree Double → Value
  | .null => .null
  | .bool b => .bool b
  | .number x => .float x
  | .string s => .text s
  | .array xs => .list (documentValues xs)
  | .object ms => .row (documentMembers Row.empty ms)

def documentValues : List (Tree Double) → List Value
  | [] => []
  | t :: rest => documentValue t :: documentValues rest

/-- The row with the members of an object set one after the other. -/
def documentMembers (r : Record) : List (String × Tree Double) → Record
  | [] => r
  | (name, t) :: rest => documentMembers (r.set name (documentValue t)) rest

end

/-- **The value of a document**, if its text is one. -/
def decodeDocument (text : List Char) : Option Value :=
  match skip Tree.maxDepth text with
  | none => none
  | some after => if Tree.atEnd after then (Tree.read double text).map documentValue else none

end TreeQuery.Json

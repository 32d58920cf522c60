import TreeQuery.Json.Number
import TreeQuery.Value

/-!
# Arguments

A value on the command line is written as JSON, so that numbers, truth values, null and lists keep
their types; a text that is not JSON stands for itself.  Numbers are judged leniently: a whole
number of 64 bits is one, any other number is a double, and what is neither is the text that was
written.
-/

namespace TreeQuery.Json

/-- The whole number that a text spells: an optional sign and digits, within 64 bits. -/
def whole? (cs : List Char) : Option Int :=
  let (negative, ds) := match cs with
    | '-' :: rest => (true, rest)
    | '+' :: rest => (false, rest)
    | cs => (false, cs)
  if ds.isEmpty || !ds.all Char.isDigit then none
  else
    let n : Int := Spelled.natOf ds
    let n := if negative then -n else n
    if -(Nat.pow 2 63 : Int) ≤ n ∧ n < Nat.pow 2 63 then some n else none

def argumentNumber (spelling : List Char) : Value :=
  match whole? spelling with
  | some n => .int n
  | none =>
    match (Spelled.ofText? spelling).map Spelled.toDouble with
    | some (.finite negative m e) => .float (.finite negative m e)
    | _ => .text (String.ofList spelling)

/-- Entries with each key once, at its first place with its last value. -/
def lastWins (entries : List (String × Value)) : List (String × Value) :=
  (Row.ofList entries).fields.map fun f => (f.key, f.value)

mutual

def argumentValue : Tree (List Char) → Value
  | .null => .null
  | .bool b => .bool b
  | .number spelling => argumentNumber spelling
  | .string s => .text s
  | .array xs => .list (argumentValues xs)
  | .object ms => .map (lastWins (argumentMembers ms))

def argumentValues : List (Tree (List Char)) → List Value
  | [] => []
  | t :: rest => argumentValue t :: argumentValues rest

def argumentMembers : List (String × Tree (List Char)) → List (String × Value)
  | [] => []
  | (name, t) :: rest => (name, argumentValue t) :: argumentMembers rest

end

/-- **The value of an argument**: the one its JSON text denotes, or the text itself. -/
def argument (s : String) : Value :=
  match Tree.read numberText s.toList with
  | some t => argumentValue t
  | none => .text s

end TreeQuery.Json

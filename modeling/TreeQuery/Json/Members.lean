import TreeQuery.Json.Argument
import TreeQuery.Json.Document
import TreeQuery.Timestamp

/-!
# Records in JSON

State files hold records: objects with known members.  Member names are matched regardless of
letter case, the last of several members with one name counts, unknown members are passed over, and
`null` stands for the empty value.

Each kind of member has a reader of its own, which takes the value off the front of a text.
-/

namespace TreeQuery.Json

def memberDepth : Nat := Tree.maxDepth - 1

/-! ## Texts -/

def text : Reader String := fun cs =>
  match Tree.skipSpace cs with
  | '"' :: rest => (Tree.stringBody false rest).map fun (s, after) => (String.ofList s, after)
  | 'n' :: 'u' :: 'l' :: 'l' :: rest => some ("", rest)
  | _ => none

/-! ## Lists -/

/-- Elements up to and with the closing bracket, each taken by a reader. -/
def elementsOf {α : Type} (element : Reader α) (fuel : Nat) : Reader (List α) := fun cs =>
  match fuel with
  | 0 => none
  | fuel + 1 => do
    let (x, after) ← element cs
    match Tree.skipSpace after with
    | ',' :: rest =>
      let (xs, after) ← elementsOf element fuel rest
      return (x :: xs, after)
    | ']' :: rest => return ([x], rest)
    | _ => none

def listOf {α : Type} (element : Reader α) : Reader (List α) := fun cs =>
  match Tree.skipSpace cs with
  | 'n' :: 'u' :: 'l' :: 'l' :: rest => some ([], rest)
  | '[' :: rest =>
    match Tree.skipSpace rest with
    | ']' :: after => some ([], after)
    | _ => elementsOf element (rest.length + 1) rest
  | _ => none

mutual

def anyValue : Tree Double → Value
  | .null => .null
  | .bool b => .bool b
  | .number x => .float x
  | .string s => .text s
  | .array xs => .list (anyValues xs)
  | .object ms => .map (lastWins (anyEntries ms))

def anyValues : List (Tree Double) → List Value
  | [] => []
  | t :: rest => anyValue t :: anyValues rest

def anyEntries : List (String × Tree Double) → List (String × Value)
  | [] => []
  | (name, t) :: rest => (name, anyValue t) :: anyEntries rest

end

/-- Any value: numbers are doubles and objects are maps. -/
def anything : Reader Value := fun cs =>
  (Tree.value double memberDepth cs).map fun (t, after) => (anyValue t, after)

/-! ## Whole numbers -/

/-- The digits of a number in a machine word of 64 bits, and the text after them.  A digit that
makes the word smaller is one too many; a word that wraps around to a greater one is not noticed. -/
def wordDigits (word : UInt64) : List Char → Option (UInt64 × List Char)
  | [] => some (word, [])
  | c :: rest =>
    if !c.isDigit then some (word, c :: rest)
    else
      let next := word * 10 + (c.toNat - 48).toUInt64
      if word > 1844674407370955160 && next < word then none else wordDigits next rest

/-- The word at the front of a text; a zero is a number of its own. -/
def word (cs : List Char) : Option (UInt64 × List Char) :=
  match cs with
  | '0' :: rest => some (0, rest)
  | c :: rest => if c.isDigit then wordDigits (c.toNat - 48).toUInt64 rest else none
  | [] => none

/-- A whole number of 64 bits, nothing for `null`. -/
def wholeNumber : Reader (Option Int) := fun cs =>
  let taken : Option (Int × List Char) :=
    match Tree.skipSpace cs with
    | '-' :: rest =>
      match word rest with
      | some (w, after) => if w.toNat ≤ Nat.pow 2 63 then some (-(w.toNat : Int), after) else none
      | none => none
    | rest =>
      match word rest with
      | some (w, after) => if w.toNat < Nat.pow 2 63 then some (w.toNat, after) else none
      | none => none
  match Tree.skipSpace cs with
  | 'n' :: 'u' :: 'l' :: 'l' :: rest => some (none, rest)
  | _ =>
    match taken with
    | some (n, after) => if after.head? == some '.' then none else some (some n, after)
    | none => none

/-! ## Moments -/

/-- A moment in quotes, spelled without escapes; nothing for `null`. -/
def moment : Reader (Option Timestamp) := fun cs =>
  match Tree.skipSpace cs with
  | 'n' :: 'u' :: 'l' :: 'l' :: rest => some (none, rest)
  | '"' :: rest => do
    let (_, after) ← Tree.stringBody false rest
    let time ← Timestamp.read (rest.take (rest.length - after.length - 1))
    return (some time, after)
  | _ => none

/-! ## Records -/

def unknown : Reader Unit := fun cs => (skip memberDepth cs).map fun after => ((), after)

/-- The name of a member with its ASCII letters in lower case, and the text after the colon. -/
def memberKey : Reader String := fun cs =>
  match Tree.skipSpace cs with
  | '"' :: rest => do
    let (name, after) ← Tree.stringBody true rest
    match Tree.skipSpace after with
    | ':' :: rest => return (String.ofList (name.map Char.toLower), rest)
    | _ => none
  | _ => none

/-- Takes members up to and with the closing brace into a record, one after the other. -/
def takeMembers {α : Type} (take : α → String → Reader α) (fuel : Nat) (record : α) : Reader α :=
  fun cs =>
    match fuel with
    | 0 => none
    | fuel + 1 => do
      let (name, after) ← memberKey cs
      let (record, after) ← take record name after
      match Tree.skipSpace after with
      | ',' :: rest => takeMembers take fuel record rest
      | '}' :: rest => return (record, rest)
      | _ => none

/-- The record at the front of a text; `null` is the one without members. -/
def recordOf {α : Type} (take : α → String → Reader α) (start : α) : Reader α := fun cs =>
  match Tree.skipSpace cs with
  | 'n' :: 'u' :: 'l' :: 'l' :: rest => some (start, rest)
  | '{' :: rest =>
    match Tree.skipSpace rest with
    | '}' :: after => some (start, after)
    | _ => takeMembers take (rest.length + 1) start rest
  | _ => none

/-- **The record that a text spells**, its members taken by `take` from a start on. -/
def readRecord {α : Type} (take : α → String → Reader α) (start : α) (text : String) : Option α :=
  match recordOf take start text.toList with
  | some (record, after) => if Tree.atEnd after then some record else none
  | none => none

def Reader.into {α β : Type} (reader : Reader β) (put : β → α) : Reader α := fun cs =>
  (reader cs).map fun (x, after) => (put x, after)

end TreeQuery.Json

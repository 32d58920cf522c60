import TreeQuery.Number.Shortest
import TreeQuery.Text.Quoted
import TreeQuery.Text.Utf8
import TreeQuery.Value

/-!
# Writing JSON

Values are written without white space.  The keys of a row stand in the row's order, those of a
map in the order of their code points; hidden keys are left out.  A byte string is written in
base 64.  Besides quotes, backslashes and controls, the characters that have a meaning in a web
page and the two Unicode line separators are escaped.  A number that is not finite has no JSON
text, and neither has a moment that cannot be written for everyone to read.
-/

namespace TreeQuery.Json

/-- **The layout of numbers**: positional from a millionth up to below `10 ^ 21`. -/
def numberStyle : DecimalStyle := ⟨-6, 21, "", "", ""⟩

def escaped (c : Char) : List Char :=
  if c = '"' then ['\\', '"']
  else if c = '\\' then ['\\', '\\']
  else if c = '\n' then ['\\', 'n']
  else if c = '\r' then ['\\', 'r']
  else if c = '\t' then ['\\', 't']
  else
    let n := c.toNat
    if n < 32 ∨ c = '<' ∨ c = '>' ∨ c = '&' ∨ n = 0x2028 ∨ n = 0x2029 then
      '\\' :: 'u' :: Text.hex 4 n
    else [c]

def string (s : String) : String :=
  String.ofList ('"' :: (s.toList.flatMap escaped ++ ['"']))

/-- A character of a garbled text inside a JSON string; a byte that belongs to none is written as an
escaped replacement character. -/
def garbledPiece : Option Char → List Char
  | some c => escaped c
  | none => '\\' :: 'u' :: Text.hex 4 Text.replacement.toNat

def garbled (bs : List UInt8) : String :=
  String.ofList ('"' :: ((Text.readings bs).flatMap garbledPiece ++ ['"']))

def entryLE (a b : String × String) : Bool := a.1 < b.1 || a.1 == b.1

def object (members : List (String × String)) : String :=
  "\x7b" ++ ",".intercalate (members.map fun (k, v) => string k ++ ":" ++ v) ++ "\x7d"

def array (elements : List String) : String :=
  "[" ++ ",".intercalate elements ++ "]"

mutual

def encode : Value → Option String
  | .null => some "null"
  | .bool b => some (if b then "true" else "false")
  | .int n => some (toString n)
  | .float x => if x.isFinite then some (numberStyle.write x) else none
  | .text s => some (string s)
  | .garbled bs => some (garbled bs)
  | .bytes bs => some (String.ofList ('"' :: (Text.base64 bs ++ ['"'])))
  | .time t => t.text?.map string
  | .list elements => (encodeList elements).map array
  | .map entries => (encodeEntries entries).map fun es => object (es.mergeSort entryLE)
  | .row r => (encodeFields r.fields).map object
  | .absent => some "null"
  | .rows rs => (encodeRows rs).map array

def encodeList : List Value → Option (List String)
  | [] => some []
  | v :: rest =>
    match encode v with
    | none => none
    | some t => (encodeList rest).map (t :: ·)

def encodeEntries : List (String × Value) → Option (List (String × String))
  | [] => some []
  | (k, v) :: rest =>
    match encode v with
    | none => none
    | some t => (encodeEntries rest).map ((k, t) :: ·)

def encodeFields : List (Field Value) → Option (List (String × String))
  | [] => some []
  | ⟨k, v, hidden⟩ :: rest =>
    if hidden then encodeFields rest
    else
      match encode v with
      | none => none
      | some t => (encodeFields rest).map ((k, t) :: ·)

def encodeRows : List (Row Value) → Option (List String)
  | [] => some []
  | ⟨fields⟩ :: rest =>
    match encodeFields fields with
    | none => none
    | some es => (encodeRows rest).map (object es :: ·)

end

end TreeQuery.Json

import TreeQuery.Number.Shortest
import TreeQuery.Text.Utf8
import TreeQuery.Value

/-!
# Values as plain text

The plain text of a value, for the places that want a text whatever the value is: a sequence
stands in brackets with blanks between its elements, a map lists its entries by key.
-/

namespace TreeQuery.Value

/-- The order of map entries: by key, code point by code point. -/
def entryLE (a b : String × String) : Bool := a.1 < b.1 || a.1 == b.1

/-- The entries of a map sorted by key, each with its key in front. -/
def entryTexts (entries : List (String × String)) : List String :=
  (entries.mergeSort entryLE).map fun (k, v) => k ++ ":" ++ v

mutual

def display : Value → String
  | .null => "<nil>"
  | .bool b => if b then "true" else "false"
  | .int n => toString n
  | .float x => DecimalStyle.general.write x
  | .text s => s
  | .garbled bs => String.ofList (Text.decode bs)
  | .bytes bs => "[" ++ " ".intercalate (bs.map fun b => toString b.toNat) ++ "]"
  | .time t => t.display
  | .list elements => "[" ++ " ".intercalate (displayList elements) ++ "]"
  | .map entries => "map[" ++ " ".intercalate (entryTexts (displayEntries entries)) ++ "]"
  | .row r => "map[" ++ " ".intercalate (entryTexts (displayFields r.fields)) ++ "]"
  | .absent => "<nil>"
  | .rows rs => "[" ++ " ".intercalate (displayRows rs) ++ "]"

def displayList : List Value → List String
  | [] => []
  | v :: rest => display v :: displayList rest

def displayEntries : List (String × Value) → List (String × String)
  | [] => []
  | (k, v) :: rest => (k, display v) :: displayEntries rest

def displayFields : List (Field Value) → List (String × String)
  | [] => []
  | ⟨k, v, hidden⟩ :: rest =>
    if hidden then displayFields rest else (k, display v) :: displayFields rest

def displayRows : List (Row Value) → List String
  | [] => []
  | ⟨fields⟩ :: rest =>
    ("map[" ++ " ".intercalate (entryTexts (displayFields fields)) ++ "]") :: displayRows rest

end

end TreeQuery.Value

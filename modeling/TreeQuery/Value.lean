import TreeQuery.Number.Double
import TreeQuery.Row
import TreeQuery.Timestamp

/-!
# Values

The values that a query interpolates, that a store returns, that a document holds and that a
result is made of.  A result nests rows in rows: a related row is a `row`, related rows are
`rows`, and the lists and objects of a decoded document are `list` and `row`.

`shown` is the shape of a value for the outside: rows become plain maps that hold the visible
keys only.
-/

namespace TreeQuery

/-- **A value.**  A `garbled` text is one whose bytes are not the encoding of characters.  `list` is
a sequence of any values and `rows` a sequence of related rows; `map` is an object without an order
of its keys.  `absent` stands for a row that is not there: it is shown as null, but is not null. -/
inductive Value where
  | null
  | bool (b : Bool)
  | int (n : Int)
  | float (x : Double)
  | text (s : String)
  | garbled (bs : List UInt8)
  | bytes (bs : List UInt8)
  | time (t : Moment)
  | list (elements : List Value)
  | map (entries : List (String × Value))
  | row (r : Row Value)
  | absent
  | rows (rs : List (Row Value))
  deriving Repr

abbrev Record := Row Value

namespace Value

def isNull : Value → Bool
  | .null => true
  | _ => false

/-- The elements of a value that stands for a sequence.  A byte string is a scalar. -/
def elements? : Value → Option (List Value)
  | .list elements => some elements
  | .rows rs => some (rs.map .row)
  | _ => none

mutual

/-- **The outside shape of a value**: every row in it, at any depth, as the map of its visible
keys. -/
def shown : Value → Value
  | .row r => .map (shownFields r.fields)
  | .absent => .null
  | .rows rs => .list (shownRows rs)
  | .list elements => .list (shownList elements)
  | v => v

/-- The visible entries of a row in their outside shape. -/
def shownFields : List (Field Value) → List (String × Value)
  | [] => []
  | ⟨key, value, hidden⟩ :: rest =>
    if hidden then shownFields rest else (key, shown value) :: shownFields rest

def shownRows : List (Row Value) → List Value
  | [] => []
  | ⟨fields⟩ :: rest => .map (shownFields fields) :: shownRows rest

def shownList : List Value → List Value
  | [] => []
  | v :: rest => shown v :: shownList rest

end

end Value

end TreeQuery

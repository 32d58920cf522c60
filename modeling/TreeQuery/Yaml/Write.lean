import TreeQuery.Number.Shortest
import TreeQuery.Query.Relation
import TreeQuery.Text.Utf8
import TreeQuery.Yaml.Node
import TreeQuery.Yaml.Order

/-!
# Writing YAML

The YAML document of a value and of a relation tree.  The keys of a row stand in the row's order,
hidden ones left out; those of a map in their natural order.  A byte string is a sequence of
numbers, and a garbled text a scalar in base 64.
-/

namespace TreeQuery.Yaml

/-- **The layout of numbers**: positional from `0.0001` to `999999`. -/
def numberStyle : DecimalStyle := ⟨-4, 6, ".inf", "-.inf", ".nan"⟩

def plainNode (s : String) : Node := .scalar s.toList .plain .implicit

def textNode (s : String) : Node :=
  let cs := s.toList
  if cs.contains '\n' then .scalar cs .literal .implicit
  else if readsAsText cs && !isSexagesimal cs && !isOldTruth cs then .scalar cs .plain .implicit
  else .scalar cs .doubleQuoted .implicit

def keyNode (s : String) : Node :=
  let cs := s.toList
  if cs.contains '\n' then .scalar cs .literal .implicit
  else if readsAsText cs then .scalar cs .plain .implicit
  else .scalar cs .doubleQuoted .implicit

def binaryLine : Nat := 70

/-- Characters in lines of the same length, each of them ended. -/
def chunked (fuel : Nat) (cs : List Char) : List Char :=
  match fuel with
  | 0 => []
  | fuel + 1 =>
    if cs.isEmpty then []
    else cs.take binaryLine ++ '\n' :: chunked fuel (cs.drop binaryLine)

/-- The scalar of a garbled text: its bytes in base 64, in lines if they fill one. -/
def binaryNode (bs : List UInt8) : Node :=
  let digits := Text.base64 bs
  if digits.length < binaryLine then .scalar digits .plain .binary
  else .scalar (chunked digits.length digits) .literal .binary

def entryLE (a b : String × Node) : Bool := keyLE a.1 b.1

def mapNode (entries : List (String × Node)) : Node :=
  .mapping ((entries.mergeSort entryLE).map fun (k, n) => (textNode k, n))

mutual

/-- **The document of a value**, if it has one. -/
def ofValue : Value → Option Node
  | .null => some (plainNode "null")
  | .bool b => some (plainNode (if b then "true" else "false"))
  | .int n => some (plainNode (toString n))
  | .float x => some (plainNode (numberStyle.write x))
  | .text s => some (textNode s)
  | .garbled bs => some (binaryNode bs)
  | .bytes bs => some (.sequence (bs.map fun b => plainNode (toString b.toNat)))
  | .time t => some (plainNode t.text)
  | .list elements => (ofList elements).map .sequence
  | .map entries => (ofEntries entries).map mapNode
  | .row r => (ofFields r.fields).map .mapping
  | .absent => some (plainNode "null")
  | .rows rs => (ofRows rs).map .sequence

def ofList : List Value → Option (List Node)
  | [] => some []
  | v :: rest =>
    match ofValue v with
    | none => none
    | some n => (ofList rest).map (n :: ·)

def ofEntries : List (String × Value) → Option (List (String × Node))
  | [] => some []
  | (k, v) :: rest =>
    match ofValue v with
    | none => none
    | some n => (ofEntries rest).map ((k, n) :: ·)

def ofFields : List (Field Value) → Option (List (Node × Node))
  | [] => some []
  | ⟨k, v, hidden⟩ :: rest =>
    if hidden then ofFields rest
    else
      match ofValue v with
      | none => none
      | some n =>
        match n.settled with
        | none => none
        | some n => (ofFields rest).map ((keyNode k, n) :: ·)

def ofRows : List (Row Value) → Option (List Node)
  | [] => some []
  | ⟨fields⟩ :: rest =>
    match ofFields fields with
    | none => none
    | some es => (ofRows rest).map (.mapping es :: ·)

end

def listEntry (name : String) (items : List Node) : List (Node × Node) :=
  if items.isEmpty then [] else [(plainNode name, .sequence items)]

def textEntry (name s : String) : List (Node × Node) :=
  if s.isEmpty then [] else [(plainNode name, textNode s)]

mutual

/-- **The document of a relation tree**, with its empty parts left out. -/
def ofRelation : Query.Relation → Option Node
  | ⟨type, table, sql, bindings, attributes, relations⟩ =>
    match ofList bindings, ofRelations relations with
    | some vs, some rs =>
      some (.mapping (textEntry "type" type ++ textEntry "table" table ++ textEntry "sql" sql ++
        listEntry "variables" vs ++ listEntry "attributes" (attributes.map textNode) ++
        listEntry "relations" rs))
    | _, _ => none

def ofRelations : List Query.Relation → Option (List Node)
  | [] => some []
  | r :: rest =>
    match ofRelation r with
    | none => none
    | some n => (ofRelations rest).map (n :: ·)

end

end TreeQuery.Yaml

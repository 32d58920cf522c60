import TreeQuery.Query.Relation

/-!
# Looking into documents

A relation nested under a column that holds a document selects from the document.  `filter` keeps
of an object the keys that the relation lists as attributes, and the keys of its nested relations,
whose values are filtered in turn.  A list is filtered element by element, but a list inside a
list is left as it is; anything else is left unchanged.

A lone wildcard keeps every key, unless the object itself has a `*` key with a value: then `*` is
a key like any other.
-/

namespace TreeQuery.Execute

open Query

/-- Whether every key is kept of an object whose `*` key has the given value. -/
def keepsAll (rel : Relation) (star : Option Value) : Bool :=
  rel.isWildcard && (star.getD .null).isNull

mutual

/-- The part of a value that a relation selects; inside a list (`inList`) further lists are left
as they are. -/
def filterAt (inList : Bool) (rel : Relation) : Value → Value
  | .list elements =>
    if inList then .list elements else .list (filterElements rel elements)
  | .row ⟨fields⟩ =>
    if keepsAll rel (Row.get? ⟨fields⟩ Relation.wildcard) then .row ⟨fields⟩
    else .row ⟨filterFields rel fields⟩
  | .map entries =>
    if keepsAll rel (entries.lookup Relation.wildcard) then .map entries
    else .map (filterEntries rel entries)
  | v => v

def filterElements (rel : Relation) : List Value → List Value
  | [] => []
  | v :: rest => filterAt true rel v :: filterElements rel rest

def filterFields (rel : Relation) : List (Field Value) → List (Field Value)
  | [] => []
  | ⟨key, value, hidden⟩ :: rest =>
    if hidden then filterFields rel rest
    else if rel.hasAttribute key then ⟨key, value, false⟩ :: filterFields rel rest
    else
      match rel.child? key with
      | some child => ⟨key, filterAt false child value, false⟩ :: filterFields rel rest
      | none => filterFields rel rest

def filterEntries (rel : Relation) : List (String × Value) → List (String × Value)
  | [] => []
  | (key, value) :: rest =>
    if rel.hasAttribute key then (key, value) :: filterEntries rel rest
    else
      match rel.child? key with
      | some child => (key, filterAt false child value) :: filterEntries rel rest
      | none => filterEntries rel rest

end

/-- **The part of a value that a relation selects.** -/
def filter (rel : Relation) (value : Value) : Value :=
  filterAt false rel value

end TreeQuery.Execute

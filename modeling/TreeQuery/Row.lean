/-!
# Rows

A row is an ordered record: its keys stand in the order in which they were first set.  Some keys
are **hidden**: columns fetched only to join further rows to this one.  They can be read like any
other key, but they are no part of what the row shows (`keys`, `visible`).

`set` keeps the position of a key that the row already has, and keeps it hidden if it was; `hide`
affects only keys that the row has.

While a row is put together it is kept in three containers, which only the operations on them keep
in step (`Row.Containers`); the record is read off them at the end.
-/

namespace TreeQuery

structure Field (α : Type) where
  key : String
  value : α
  hidden : Bool
  deriving Repr, DecidableEq

/-- **An ordered record** whose entries may be hidden. -/
structure Row (α : Type) where
  fields : List (Field α)
  deriving Repr, DecidableEq

namespace Row

variable {α : Type}

def empty : Row α := ⟨[]⟩

/-- The entry stored under a key, hidden or not. -/
def find? (r : Row α) (key : String) : Option (Field α) :=
  r.fields.find? fun f => f.key == key

def get? (r : Row α) (key : String) : Option α :=
  (r.find? key).map Field.value

def has (r : Row α) (key : String) : Bool :=
  r.fields.any fun f => f.key == key

/-- Assigns a value in a list of entries; a new key goes to the end. -/
def setFields (key : String) (value : α) : List (Field α) → List (Field α)
  | [] => [⟨key, value, false⟩]
  | f :: rest =>
    if f.key == key then { f with value := value } :: rest else f :: setFields key value rest

/-- The row with a value assigned to a key; a new key goes to the end and is visible. -/
def set (r : Row α) (key : String) (value : α) : Row α :=
  ⟨setFields key value r.fields⟩

def hideKey (r : Row α) (key : String) : Row α :=
  ⟨r.fields.map fun f => if f.key == key then { f with hidden := true } else f⟩

def hide (r : Row α) (keys : List String) : Row α :=
  keys.foldl hideKey r

def isHidden (r : Row α) (key : String) : Bool :=
  r.fields.any fun f => f.key == key && f.hidden

def visible (r : Row α) : List (Field α) :=
  r.fields.filter fun f => !f.hidden

def keys (r : Row α) : List String :=
  r.visible.map Field.key

/-! ## The containers of a row -/

/-- **The containers of a row**: a list of keys, a table of values by key and a set of hidden
keys. -/
structure Containers (α : Type) where
  order : List String := []
  values : String → Option α := fun _ => none
  hidden : String → Bool := fun _ => false

namespace Containers

def get? (c : Containers α) (key : String) : Option α :=
  c.values key

def has (c : Containers α) (key : String) : Bool :=
  (c.values key).isSome

/-- Assigns a value; a key goes to the end of the list if the table does not have it yet. -/
def set (c : Containers α) (key : String) (value : α) : Containers α :=
  { c with
    order := if c.has key then c.order else c.order ++ [key]
    values := fun other => if other = key then some value else c.values other }

/-- Adds a key to the hidden ones, if the table has it. -/
def hideKey (c : Containers α) (key : String) : Containers α :=
  if c.has key then { c with hidden := fun other => other == key || c.hidden other } else c

def hide (c : Containers α) (keys : List String) : Containers α :=
  keys.foldl hideKey c

def isHidden (c : Containers α) (key : String) : Bool :=
  c.hidden key

def keys (c : Containers α) : List String :=
  c.order.filter fun key => !c.hidden key

/-- **The record in the containers.** -/
def row (c : Containers α) : Row α :=
  ⟨c.order.filterMap fun key => (c.values key).map fun value => ⟨key, value, c.hidden key⟩⟩

end Containers

/-- The row with the given keys and values set one after the other. -/
def ofList (entries : List (String × α)) : Row α :=
  (entries.foldl (fun c (k, v) => c.set k v) ({} : Containers α)).row

end Row

end TreeQuery

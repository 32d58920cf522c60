import TreeQuery.Toml.Syntax

/-!
# TOML documents

The statements of a text build one table of tables.  A table comes into being by its header, by a
header or dotted key that passes through it, or by an inline value; `Building` keeps apart which
ones are only **implied** so far, because such a table may still be declared.  A key that has a
value cannot get another, unless its value is a list.
-/

namespace TreeQuery.Toml

/-- **An item of a document.**  Lists of anything but tables are kept without their elements. -/
inductive Item where
  | text (s : String)
  | plain (spelling : String)
  | array
  | table (entries : List (String × Item))
  | tables (elements : List (List (String × Item)))
  deriving Repr

/-- A table: its keys and items in the order of their first assignment. -/
abbrev Table := List (String × Item)

namespace Table

def put (key : String) (item : Item) : Table → Table
  | [] => [(key, item)]
  | (k, i) :: rest => if k == key then (k, item) :: rest else (k, i) :: put key item rest

/-- The table that a path leads to; of a list of tables its last one. -/
def at? : List String → Table → Option Table
  | [], t => some t
  | k :: path, t =>
    match t.lookup k with
    | some (.table inner) => at? path inner
    | some (.tables elements) =>
      match elements.getLast? with
      | some inner => at? path inner
      | none => none
    | _ => none

/-- The table with the one that a path leads to replaced. -/
def putAt (new : Table) : List String → Table → Table
  | [], _ => new
  | k :: path, t =>
    match t.lookup k with
    | some (.table inner) => t.put k (.table (putAt new path inner))
    | some (.tables elements) =>
      match elements.getLast? with
      | some inner => t.put k (.tables (elements.dropLast ++ [putAt new path inner]))
      | none => t
    | _ => t

end Table

/-- **A document in the making**: the table, the paths that are only implied, and the paths that
were given a list. -/
structure Building where
  root : Table
  implied : List (List String)
  arrays : List (List String)
  deriving Repr

namespace Building

def start : Building := ⟨[], [], []⟩

def imply (b : Building) (path : List String) : Building :=
  { b with implied := path :: b.implied }

def confirm (b : Building) (path : List String) : Building :=
  { b with implied := b.implied.filter (· != path) }

def noteKind (b : Building) (path : List String) (isArray : Bool) : Building :=
  let others := b.arrays.filter (· != path)
  { b with arrays := if isArray then path :: others else others }

/-- Notes the kind of the value of a key in a table; for an empty key that of the table. -/
def noteKey (b : Building) (context : List String) (key : String) (isArray : Bool) : Building :=
  let path := if key.isEmpty then context else context ++ [key]
  b.noteKind (if path.isEmpty then [""] else path) isArray

/-- Gives a key of a table its item.  A key that is only implied keeps its table. -/
def define (b : Building) (context : List String) (key : String) (item : Item) : Option Building :=
  match b.root.at? context with
  | none => none
  | some t =>
    let path := context ++ [key]
    let placed : Building := { b with root := Table.putAt (t.put key item) context b.root }
    if (t.lookup key).isNone then some placed
    else if b.arrays.contains path then some (placed.confirm path)
    else if b.implied.contains path then some (b.confirm path)
    else none

/-- Passes through the tables on the way to a path, which are implied if they are missing. -/
def pass (b : Building) (context : List String) : List String → Option Building
  | [] => some b
  | k :: rest =>
    match b.root.at? context with
    | none => none
    | some t =>
      let path := context ++ [k]
      let b := if (t.lookup k).isSome then b
        else { (b.imply path) with root := Table.putAt (t.put k (.table [])) context b.root }
      if (b.root.at? path).isSome then b.pass path rest else none

def openTable (b : Building) (path : List String) : Option Building := do
  let b ← b.pass [] path.dropLast
  b.define path.dropLast (path.getLast?.getD "") (.table [])

/-- Opens a new table at the end of the list of tables at a path. -/
def openElement (b : Building) (path : List String) : Option Building := do
  let context := path.dropLast
  let k := path.getLast?.getD ""
  let b ← b.pass [] context
  let t ← b.root.at? context
  match t.lookup k with
  | none => return { b with root := Table.putAt (t.put k (.tables [[]])) context b.root }
  | some (.tables elements) =>
    return { b with root := Table.putAt (t.put k (.tables (elements ++ [[]]))) context b.root }
  | some _ => none

/-- Opens the tables that the leading parts of a dotted key name. -/
def openDotted (b : Building) (context : List String) : List String → Option Building
  | [] => some b
  | k :: rest => do
    let path := context ++ [k]
    let b ← (b.imply path).openTable path
    b.openDotted path rest

mutual

/-- The item of a value given to a key of a table, with what the value itself adds.  `inList`
tells that the value is an element of a list. -/
def item (b : Building) (context : List String) (key : String) (inList : Bool) :
    Expr → Option (Item × Building)
  | .text s => some (.text s, b)
  | .plain s => some (.plain s, b)
  | .array xs =>
    match elements (b.noteKey context key true) context key xs with
    | none => none
    | some b => some (.array, b)
  | .inline fs =>
    let path := context ++ [key]
    let opened := if inList then (b.imply path).openElement path else (b.imply path).openTable path
    match opened with
    | none => none
    | some b =>
      match fields b path fs with
      | none => none
      | some b => some (.table ((b.root.at? path).getD []), b)

def elements (b : Building) (context : List String) (key : String) : List Expr → Option Building
  | [] => some b
  | x :: rest =>
    match item b context key true x with
    | none => none
    | some (_, b) => elements b context key rest

def fields (b : Building) (context : List String) : List (List String × Expr) → Option Building
  | [] => some b
  | (k, x) :: rest =>
    match b.openDotted context k.dropLast with
    | none => none
    | some b =>
      let inner := context ++ k.dropLast
      let last := k.getLast?.getD ""
      match item b inner last false x with
      | none => none
      | some (i, b) =>
        match b.define inner last i with
        | none => none
        | some b =>
          let isArray := match i with
            | .array => true
            | _ => false
          fields (b.noteKey inner last isArray) context rest

end

/-- The document after one more statement; `context` is the path of the open table. -/
def run (b : Building) (context : List String) : Statement → Option (Building × List String)
  | .table path => (b.openTable path).map fun b => (b.noteKind path false, path)
  | .element path => (b.openElement path).map fun b => (b.noteKind path false, path)
  | .assign key x => (fields b context [(key, x)]).map fun b => (b, context)

def runAll (b : Building) (context : List String) : List Statement → Option Building
  | [] => some b
  | s :: rest =>
    match b.run context s with
    | none => none
    | some (b, context) => b.runAll context rest

end Building

def read (text : String) : Option Table :=
  match Statement.readAll text with
  | none => none
  | some ss => (Building.start.runAll [] ss).map Building.root

end TreeQuery.Toml

import TreeQuery.Sql.Dialect
import TreeQuery.Store.Adapter
import TreeQuery.Text.Utf8

/-!
# Connections

A database is reached over a connection, which takes statements in the form that the database
expects and replies with columns and rows.  `adapter` makes a store of a connection: it brings
placeholders into the form of the dialect, keeps track of the prepared statements, each of which is
closed at most once, and makes records of the rows.

Where there are several such stores, each of them takes the statements of all (`adapterAmong`): a
statement belongs to the connection that it was prepared over, not to the store that is asked.
-/

namespace TreeQuery.Store

/-- **What a database replies** to a statement.  Reading the rows may fail after the last one. -/
structure Reply where
  columns : List String := []
  rows : List (List Value) := []
  trailingError : Option String := none
  deriving Repr

/-- The values of a row under the columns, null for those that are missing. -/
def pairColumns : List String → List Value → List (String × Value)
  | [], _ => []
  | c :: cs, [] => (c, .null) :: pairColumns cs []
  | c :: cs, v :: vs => (c, v) :: pairColumns cs vs

/-- The record of a row.  Of two columns of one name the first gives the place and the last the
value. -/
def Reply.record (r : Reply) (row : List Value) : Record :=
  Row.ofList (pairColumns r.columns row)

structure Connection (δ : Type) where
  connect : δ → Except String Unit × δ
  ping : δ → Except String Unit × δ
  /-- Runs a statement that returns no rows. -/
  exec : String → δ → Except String Unit × δ
  begin : δ → Except String Unit × δ
  rollback : δ → Except String Unit × δ
  query : String → List Value → δ → Except String Reply × δ
  prepare : String → δ → Except String Unit × δ
  run : String → List Value → δ → Except String Reply × δ
  close : String → δ → Except String Unit × δ

structure Access where
  /-- Brings a statement into the form that the database expects. -/
  bind : String → String
  /-- Brings a value of a row into the form that the store gives out. -/
  normalise : Value → Value
  /-- Whether all rows are read when only the first is wanted. -/
  eager : Bool
  /-- Whether a failure to close a statement is reported. -/
  reportsClose : Bool

/-- A byte string as the text it encodes; other values are left as they are. -/
def textOfBytes : Value → Value
  | .bytes bs =>
    if Text.isWellFormed bs then .text (String.ofList (Text.decode bs)) else .garbled bs
  | v => v

/-- The usual access: placeholders as the dialect writes them, byte strings as texts. -/
def Access.ofDialect (d : Sql.Dialect) (reportsClose : Bool) : Access :=
  { bind := d.bind, normalise := textOfBytes, eager := false, reportsClose }

/-- Access that changes nothing on the way. -/
def Access.direct : Access :=
  { bind := id, normalise := id, eager := true, reportsClose := true }

structure Prepared where
  sql : String
  bound : String
  closed : Bool := false
  /-- The number of the connection that it was prepared over. -/
  source : Nat := 0
  deriving DecidableEq, Repr

/-- The databases, and the statements prepared on them in the order of their numbers. -/
structure Client (δ : Type) where
  database : δ
  statements : List Prepared := []

namespace Client

variable {δ : Type}

def find? (c : Client δ) (stmt : Statement) : Option (Nat × Prepared) :=
  match stmt.number with
  | none => none
  | some n => c.statements[n]?.map fun p => (n, p)

def open? (c : Client δ) (stmt : Statement) : Except StoreError Prepared :=
  match c.find? stmt with
  | none => .error .foreignStatement
  | some (_, p) => if p.closed then .error (.finalized p.sql) else .ok p

def markClosed (c : Client δ) (n : Nat) : Client δ :=
  { c with statements := c.statements.modify n fun p => { p with closed := true } }

end Client

def Access.readAll (a : Access) (r : Reply) : Except StoreError (List Record) :=
  match r.trailingError with
  | some message => .error (.database message)
  | none => .ok (r.rows.map fun row => r.record (row.map a.normalise))

def Access.readOne (a : Access) (r : Reply) : Except StoreError (Option Record) :=
  if a.eager then (a.readAll r).map List.head?
  else
    match r.rows with
    | row :: _ => .ok (some (r.record (row.map a.normalise)))
    | [] =>
      match r.trailingError with
      | some message => .error (.database message)
      | none => .ok none

def readReply {α : Type} (read : Reply → Except StoreError α) :
    Except String Reply → Except StoreError α
  | .error message => .error (.database message)
  | .ok r => read r

/-- **The store behind one of several connections.**  A statement is run and closed over the
connection that it was prepared over. -/
def adapterAmong {δ : Type} (C : Nat → Connection δ) (i : Nat) (a : Access) :
    Adapter (Client δ) where
  all sql args c :=
    let (r, db) := (C i).query (a.bind sql) args c.database
    (readReply a.readAll r, { c with database := db })
  prepare sql c :=
    match (C i).prepare (a.bind sql) c.database with
    | (.error message, db) => (.error (.database message), { c with database := db })
    | (.ok (), db) =>
      (.ok ⟨sql, some c.statements.length⟩,
        { database := db, statements := c.statements ++ [⟨sql, a.bind sql, false, i⟩] })
  runAll stmt args c :=
    match c.open? stmt with
    | .error e => (.error e, c)
    | .ok p =>
      let (r, db) := (C p.source).run p.bound args c.database
      (readReply a.readAll r, { c with database := db })
  runOne stmt args c :=
    match c.open? stmt with
    | .error e => (.error e, c)
    | .ok p =>
      let (r, db) := (C p.source).run p.bound args c.database
      (readReply a.readOne r, { c with database := db })
  finalize stmt c :=
    match c.find? stmt with
    | none => (.error .foreignStatement, c)
    | some (n, p) =>
      if p.closed then (.ok (), c)
      else
        let (r, db) := (C p.source).close p.bound c.database
        let c := { c.markClosed n with database := db }
        match r with
        | .error message => (if a.reportsClose then .error (.database message) else .ok (), c)
        | .ok () => (.ok (), c)

/-- **The store behind a connection**, where there is no other. -/
def adapter {δ : Type} (C : Connection δ) (a : Access) : Adapter (Client δ) :=
  adapterAmong (fun _ => C) 0 a

/-! ## Opening a database -/

inductive OpenError where
  | unknownDriver (name : String)
  | noSource (dialect : String)
  | connect (message : String)
  | ping (message : String)
  | foreignKeys (message : String)
  deriving DecidableEq, Repr

def OpenError.message : OpenError → String
  | .unknownDriver name => Sql.Dialect.unknownMessage name
  | .noSource dialect => "no data source configured for " ++ dialect
  | .connect message => "failed to open database: " ++ message
  | .ping message => "failed to connect to database: " ++ message
  | .foreignKeys message => "failed to enable foreign keys: " ++ message

/-- **Opens the database** of a driver.  The first dialect checks foreign keys only when told
to. -/
def openDatabase {δ : Type} (C : Connection δ) (driver source : String) (db : δ) :
    Except OpenError Sql.Dialect × δ :=
  match Sql.Dialect.lookup driver with
  | none => (.error (.unknownDriver driver), db)
  | some d =>
    if source.isEmpty then (.error (.noSource d.name), db)
    else
      match C.connect db with
      | (.error message, db) => (.error (.connect message), db)
      | (.ok (), db) =>
        match C.ping db with
        | (.error message, db) => (.error (.ping message), db)
        | (.ok (), db) =>
          if d.name == Sql.Dialect.sqlite.name then
            match C.exec "PRAGMA foreign_keys = ON" db with
            | (.error message, db) => (.error (.foreignKeys message), db)
            | (.ok (), db) => (.ok d, db)
          else (.ok d, db)

end TreeQuery.Store

import TreeQuery.Value

/-!
# Stores

Queries run against a store through an `Adapter`: a statement is run at once (`all`), or prepared,
run any number of times and finalized.  The store itself is a state of any type, which every call
may change, whether it succeeds or fails.

A `Session` is a store together with the record of the calls made on it, in order; all that is
known about an execution is read off that record.
-/

namespace TreeQuery.Store

/-- A prepared statement: its text as prepared, and its number among all statements that were
prepared over connections; a statement of any other kind has none. -/
structure Statement where
  sql : String
  number : Option Nat
  deriving DecidableEq, Repr

inductive StoreError where
  /-- The database refused, in its own words. -/
  | database (message : String)
  /-- The statement is not of the kind that this adapter prepares. -/
  | foreignStatement
  | finalized (sql : String)
  deriving DecidableEq, Repr

def StoreError.message : StoreError → String
  | .database message => message
  | .foreignStatement => "statement was not prepared by this adapter"
  | .finalized sql => "statement already finalized: " ++ sql

/-- **The calls that a store answers.** -/
structure Adapter (σ : Type) where
  all : String → List Value → σ → Except StoreError (List Record) × σ
  prepare : String → σ → Except StoreError Statement × σ
  runAll : Statement → List Value → σ → Except StoreError (List Record) × σ
  runOne : Statement → List Value → σ → Except StoreError (Option Record) × σ
  finalize : Statement → σ → Except StoreError Unit × σ

inductive CallKind where
  | all
  | prepare
  | run
  | finalize
  deriving DecidableEq, Repr

structure Call where
  kind : CallKind
  sql : String
  args : List Value := []
  deriving Repr

/-- A remark made for diagnosis: a message and named details. -/
structure Note where
  message : String
  details : List (String × Value)
  deriving Repr

/-- **A store, the calls made on it** and the remarks made on the way. -/
structure Session (σ : Type) where
  store : σ
  calls : List Call := []
  notes : List Note := []

namespace Session

variable {σ : Type}

def record (s : Session σ) (c : Call) : Session σ :=
  { s with calls := s.calls ++ [c] }

def note (s : Session σ) (n : Note) : Session σ :=
  { s with notes := s.notes ++ [n] }

def outcome {α : Type} (s : Session σ) (r : Except StoreError α × σ) :
    Except StoreError α × Session σ :=
  (r.1, { s with store := r.2 })

def all (A : Adapter σ) (sql : String) (args : List Value) (s : Session σ) :
    Except StoreError (List Record) × Session σ :=
  (s.record ⟨.all, sql, args⟩).outcome (A.all sql args s.store)

def prepare (A : Adapter σ) (sql : String) (s : Session σ) :
    Except StoreError Statement × Session σ :=
  (s.record ⟨.prepare, sql, []⟩).outcome (A.prepare sql s.store)

def runAll (A : Adapter σ) (stmt : Statement) (args : List Value) (s : Session σ) :
    Except StoreError (List Record) × Session σ :=
  (s.record ⟨.run, stmt.sql, args⟩).outcome (A.runAll stmt args s.store)

def runOne (A : Adapter σ) (stmt : Statement) (args : List Value) (s : Session σ) :
    Except StoreError (Option Record) × Session σ :=
  (s.record ⟨.run, stmt.sql, args⟩).outcome (A.runOne stmt args s.store)

def finalize (A : Adapter σ) (stmt : Statement) (s : Session σ) :
    Except StoreError Unit × Session σ :=
  (s.record ⟨.finalize, stmt.sql, []⟩).outcome (A.finalize stmt s.store)

def count (s : Session σ) (kind : CallKind) : Nat :=
  s.calls.countP fun c => c.kind == kind

end Session

end TreeQuery.Store

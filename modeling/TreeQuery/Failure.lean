import TreeQuery.Store.Adapter

/-!
# Failures of an execution

Why a query that could be read has no result.  A failure of the store is passed on in the store's
own words; the others arise from the query and the tables it names.
-/

namespace TreeQuery

/-- **A relation that no foreign key resolves.** -/
inductive RelationError where
  | notFound (source target : String)
  /-- Several columns of one table refer to the other. -/
  | ambiguous (source target : String) (candidates : List String)
  deriving DecidableEq, Repr

def RelationError.message : RelationError → String
  | .notFound source target => s!"no relations found from {source} to {target}"
  | .ambiguous source target candidates =>
    let names := ", ".intercalate candidates
    s!"multiple relations from {source} to {target} ({names})"

/-- **Why an execution failed.** -/
inductive Failure where
  | store (e : Store.StoreError)
  | relation (e : RelationError)
  /-- A relation selects nothing; the root of a mutation has no type. -/
  | noAttributes (type : String)
  /-- The dialect cannot return the rows that a mutation changed. -/
  | returningUnsupported (dialect : String)
  /-- A column that is looked into holds no document. -/
  | undecodable (type : String)
  deriving DecidableEq, Repr

def Failure.message : Failure → String
  | .store e => e.message
  | .relation e => e.message
  | .noAttributes type =>
    if type.isEmpty then "relation selects no attributes"
    else type ++ ": relation selects no attributes"
  | .returningUnsupported dialect => dialect ++ ": mutations require RETURNING support"
  | .undecodable type => "failed to decode " ++ type

/-- **Work on a session** that may fail.  The session stands as the work left it, also after a
failure. -/
abbrev Work (σ : Type) := ExceptT Failure (StateM (Store.Session σ))

namespace Work

variable {σ α : Type}

def call (f : Store.Session σ → Except Store.StoreError α × Store.Session σ) : Work σ α :=
  ExceptT.mk fun s =>
    match f s with
    | (.ok a, s) => (.ok a, s)
    | (.error e, s) => (.error (.store e), s)

def note (message : String) (details : List (String × Value)) : Work σ Unit :=
  ExceptT.mk fun s => (.ok (), s.note ⟨message, details⟩)

def outcome (w : Work σ α) : Work σ (Except Failure α) :=
  ExceptT.mk fun s => let (r, s) := w.run s; (.ok r, s)

/-- **Work with a prepared statement**, which is finalized afterwards whether the work succeeds or
fails.  A failure to finalize it counts only if the work succeeded. -/
def withStatement (A : Store.Adapter σ) (sql : String) (body : Store.Statement → Work σ α) :
    Work σ α := do
  let stmt ← call (Store.Session.prepare A sql)
  let result ← outcome (body stmt)
  let closed ← outcome (call (Store.Session.finalize A stmt))
  match result, closed with
  | .error e, _ => throw e
  | .ok _, .error e => throw e
  | .ok a, .ok () => pure a

end Work

end TreeQuery

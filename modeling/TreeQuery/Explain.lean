import TreeQuery.Display.Message
import TreeQuery.Json.Write
import TreeQuery.Store.Adapter
import TreeQuery.Value.Display

/-!
# Explaining a query

The calls that a query made on a store are folded into statements: one for each direct query and
one for each prepared statement, together with the values bound on each of its runs.  A run belongs
to the statement with its text that was prepared last and has not been finalized.
-/

namespace TreeQuery.Explain

/-- **A statement that a query issued**, with the values of its runs. -/
structure Statement where
  prepared : Bool
  sql : String
  runs : List (List Value)
  deriving Repr

/-- The statements so far, and the positions of the prepared ones that are open. -/
structure Collected where
  statements : List Statement
  positions : List (String × Nat)
  deriving Repr

def addRun (statements : List Statement) (position : Nat) (args : List Value) : List Statement :=
  statements.modify position fun s => { s with runs := s.runs ++ [args] }

def Collected.add (c : Collected) (call : Store.Call) : Collected :=
  let others := c.positions.filter fun p => p.1 != call.sql
  match call.kind with
  | .all => { c with statements := c.statements ++ [⟨false, call.sql, [call.args]⟩] }
  | .prepare =>
    ⟨c.statements ++ [⟨true, call.sql, []⟩], (call.sql, c.statements.length) :: others⟩
  | .run =>
    match c.positions.lookup call.sql with
    | some i => { c with statements := addRun c.statements i call.args }
    | none => c
  | .finalize => { c with positions := others }

def statements (calls : List Store.Call) : List Statement :=
  (calls.foldl Collected.add ⟨[], []⟩).statements

def Statement.kind (s : Statement) : String := if s.prepared then "prepared" else "query"

def valuesText (args : List Value) : String :=
  (Json.encode (.list args)).getD (Value.list args).display

def runsText (runs : List (List Value)) : String :=
  let shown := runs.filter fun args => !args.isEmpty
  if shown.isEmpty then ""
  else String.join (shown.map fun args => "- \x60" ++ valuesText args ++ "\x60\n") ++ "\n"

def sectionText (number : Nat) (s : Statement) : String :=
  "## " ++ toString number ++ ". " ++ s.kind ++ ", " ++ Display.counted s.runs.length "run" ++
    "\n\n" ++ "\x60\x60\x60sql\n" ++ s.sql ++ "\n\x60\x60\x60\n\n" ++ runsText s.runs

def report (statements : List Statement) : String :=
  "# " ++ Display.counted statements.length "statement" ++ "\n\n" ++
    String.join (statements.mapIdx fun i s => sectionText (i + 1) s)

end TreeQuery.Explain

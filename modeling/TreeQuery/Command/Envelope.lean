import TreeQuery.Command.ErrorCode
import TreeQuery.Json.Indent
import TreeQuery.Json.Relation

/-!
# Answers for scripts

With the option for JSON output a command answers with one object, the **envelope**: whether it
went well, and then its data and what there is to say about them, or what went wrong.
-/

namespace TreeQuery.Command

/-- What there is to say about the data; zeros are left out. -/
structure Meta where
  count : Nat := 0
  statements : Nat := 0
  milliseconds : Nat := 0
  deriving DecidableEq, Repr

namespace Envelope

def numberMember (name : String) (n : Nat) : List (String × String) :=
  if n = 0 then [] else [(name, toString n)]

def metaText (m : Meta) : String :=
  Json.object (numberMember "count" m.count ++ numberMember "statements" m.statements ++
    numberMember "query_time_ms" m.milliseconds)

/-- **The envelope of a success**, from the JSON text of its data. -/
def success (data : Option String) (details : Option Meta) : String :=
  Json.object ([("ok", "true")] ++ (data.map fun d => [("data", d)]).getD [] ++
    (details.map fun m => [("meta", metaText m)]).getD [])

def failure (code : ErrorCode) (message suggestion : String) : String :=
  Json.object [("ok", "false"),
    ("error", Json.object ([("code", Json.string code.text), ("message", Json.string message)] ++
      Json.textMember "suggestion" suggestion))]

def written (envelope : String) : String := Json.indented envelope ++ "\n"

/-- **The envelope of the result of a query** as it is written.  If a row cannot be encoded, it
breaks off. -/
def ofResult (v : Value) (m : Meta) : String :=
  match v with
  | .null => written (success none (some m))
  | v =>
    match Json.encode v with
    | some data => written (success (some data) (some m))
    | none =>
      Json.writtenOf ((false, "\x7b\n  \"ok\": true,\n  \"data\": ") :: Json.resultParts 1 v)

end Envelope

end TreeQuery.Command

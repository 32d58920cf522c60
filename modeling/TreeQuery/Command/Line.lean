import TreeQuery.Command.About
import TreeQuery.Command.Configure
import TreeQuery.Command.Verb

/-!
# Command lines

A command line names a command, its options and its arguments.  `run` does all that it asks for:
from the files and the database before it to those after it, with what it prints.
-/

namespace TreeQuery.Command

variable {δ : Type}

/-- **What a command line came to.** -/
structure Outcome (δ : Type) where
  ok : Bool
  output : String
  /-- Remarks, and the failure if there was one. -/
  errors : String
  files : Files
  database : δ

def usage (v : Verb) : String :=
  "Usage:\n  " ++ v.path ++ " [flags]\n" ++
    (if v.children.isEmpty then ""
     else "\nCommands:\n" ++ String.join (v.children.map fun c => "  " ++ c.path ++ "\n"))

/-- **What a command does**, its options and arguments read and checked. -/
def Verb.act (C : Store.Connection δ) (s : Surroundings) (v : Verb) (o : Options)
    (args : List String) : Action δ Unit :=
  let withSettings (f : Settings → Action δ Unit) : Action δ Unit := do f (← Settings.load s o)
  match v with
  | .query => withSettings fun g => if o.list then listQueries o g else runQuery C s o g args
  | .parse => withSettings fun g => runParse s o g args
  | .explain => withSettings fun g => runExplain C s o g args
  | .schema => withSettings fun g => runSchema C o g args
  | .configInit => runInit s o
  | .configPath => runPath s o
  | .configSave => withSettings fun g => runSave s o g args
  | .configRemove => withSettings fun g => runRemove s o g args
  | .docs => withSettings fun g => runDocs s o g args
  | .version => runVersion s o
  | .help =>
    match Verb.find args with
    | .ok (w, _) => Action.print (usage w)
    | .error _ => Action.print (usage .program)
  | .script _ => pure ()
  | v => Action.print (usage v)

/-- What a command line asks for: its command is found, then its options are read, then its
arguments counted. -/
def act (C : Store.Connection δ) (s : Surroundings) (args : List String) : Action δ Unit :=
  let read : Except UsageError (Action δ Unit) := do
    let (v, rest) ← Verb.find args
    let (o, words) ← Options.read (v.options ++ [.help]) rest
    if o.help || !v.isRunnable then return Action.print (usage v)
    v.checkArity words
    return v.act C s o words
  match read with
  | .ok a => a
  | .error e => throw (.failed e.message)

def run (C : Store.Connection δ) (s : Surroundings) (files : Files) (db : δ) (args : List String) :
    Outcome δ :=
  let (r, d) := (act C s args).run.run { files := files, database := db }
  let errors := match r with
    | .error (.failed message) => d.remarks ++ Display.failure message ++ "\n"
    | _ => d.remarks
  let ok := match r with
    | .ok () => true
    | .error _ => false
  ⟨ok, d.output, errors, d.files, d.database⟩

end TreeQuery.Command

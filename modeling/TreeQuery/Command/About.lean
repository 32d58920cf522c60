import TreeQuery.Command.Inspect
import TreeQuery.Docs
import TreeQuery.Docs.Guides

/-!
# Guides and version

`docs` shows the guides that come with the program, `version` what is known about its build.
-/

namespace TreeQuery.Command

variable {δ : Type}

def topicJson (t : Docs.Topic) : String :=
  Json.object
    [("id", Json.string t.id), ("title", Json.string t.title), ("path", Json.string t.path)]

def listTopics (o : Options) (topics : List Docs.Topic) : Action δ Unit :=
  if o.json then
    Action.answer (Json.object [("topics", Json.array (topics.map topicJson))])
      (some { count := topics.length })
  else
    Action.printLine (Display.table ["TOPIC", "TITLE"] (topics.map fun t => [t.id, t.title]))

def endLine (s : String) : String := if s.endsWith "\n" then s else s ++ "\n"

/-- **Shows a guide**, or lists them. -/
def runDocs (s : Surroundings) (o : Options) (g : Settings) (args : List String) :
    Action δ Unit := do
  let topics ← Action.orFail o (Docs.topics Docs.guides) (fun _ => .fileReadError)
    Docs.unreadableMessage fun _ => ""
  match args with
  | [] => listTopics o topics
  | name :: _ =>
    match Docs.find? topics name with
    | none =>
      Action.fail o .invalidInput ("unknown docs topic " ++ Text.quoted name)
        ("Available topics: " ++ ", ".intercalate (topics.map (·.id)))
    | some t =>
      if o.json then
        Action.answer (Json.object [("content", Json.string t.content),
          ("title", Json.string t.title), ("topic", Json.string t.id)])
      else Action.print (endLine (shown s g t.content))

def versionJson (v : Version) : String :=
  Json.object ([("version", Json.string v.version), ("module_path", Json.string v.modulePath)] ++
    Json.textMember "commit" v.commit ++ Json.textMember "commit_time" v.commitTime ++
    [("modified", if v.modified then "true" else "false"),
     ("go_version", Json.string v.toolchain), ("platform", Json.string v.platform)])

def versionText (v : Version) : String :=
  "sgq " ++ v.version ++ "\n" ++
    (if v.commit.isEmpty then ""
     else "commit: " ++ v.commit ++ (if v.modified then " (modified)" else "") ++ "\n") ++
    (if v.commitTime.isEmpty then "" else "built: " ++ v.commitTime ++ "\n") ++
    "go: " ++ v.toolchain ++ " " ++ v.platform ++ "\n"

def runVersion (s : Surroundings) (o : Options) : Action δ Unit :=
  let v := Version.describe s.toolchain s.platform s.record s.stamps
  if o.json then Action.answer (versionJson v) else Action.print (versionText v)

end TreeQuery.Command

import TreeQuery.Command.Query

/-!
# Managing the settings file

The settings file can be created, and queries can be saved in it under a name and removed.  A query
is checked before it is saved; its values are bound only when it runs.
-/

namespace TreeQuery.Command

variable {δ : Type}

/-- **Creates the settings file** unless there is one. -/
def runInit (s : Surroundings) (o : Options) : Action δ Unit := do
  let path := Config.resolvePath s.home o.config
  let r ← Action.onFiles fun f => Config.create f path s.mark
  let created ← Action.orFail o r (fun _ => .fileWriteError) Config.ConfigError.message fun _ => ""
  if o.json then
    Action.answer (Json.object
      [("config_path", Json.string path), ("created", if created then "true" else "false")])
  else if created then Action.printLine (Display.success ("Created " ++ path))
  else Action.printLine (Display.warning ("Config already exists at " ++ path))

def runPath (s : Surroundings) (o : Options) : Action δ Unit := do
  let path := Config.resolvePath s.home o.config
  if o.json then Action.answer (Json.object [("config_path", Json.string path)])
  else Action.printLine path

/-- Stores the settings and tells what became of a saved query. -/
def storeQueries (s : Surroundings) (o : Options) (g : Settings) (c : Config) (done name : String) :
    Action δ Unit := do
  let r ← Action.onFiles fun f => Config.saveTo f g.path c s.mark
  Action.orFail o r (fun _ => .fileWriteError) Config.ConfigError.message fun _ => ""
  if o.json then
    Action.answer (Json.object [("config_path", Json.string g.path), ("name", Json.string name)])
  else Action.printLine (Display.success (done ++ " query " ++ name))

/-- The text of a query as it is checked before it is saved: without its markers. -/
def unmarked (marker text : String) : String :=
  Text.replaced (Query.Template.markerOrDefault marker) "" text

/-- Saves a query that has been checked. -/
def saveUnder (s : Surroundings) (o : Options) (g : Settings) (name text : String) :
    Action δ Unit :=
  match g.config.save? name text with
  | none => Action.fail o .invalidInput (Config.badNameMessage name)
  | some c => storeQueries s o g c "Saved" name

def runSave (s : Surroundings) (o : Options) (g : Settings) (args : List String) :
    Action δ Unit := do
  let given := args.headD ""
  let name := Slug.queryName given
  if name.isEmpty then Action.fail o .invalidInput (Config.badNameMessage given)
  let files ← Action.files
  let source ← Action.orFail o (Source.resolve files g.config s.input o.file (args.drop 1))
    SourceError.code SourceError.message fun _ => SourceError.suggestion
  match source.blocks with
  | [text] =>
    let marker := o.marker.getD Query.Template.defaultMarker
    let _ ← Action.orFail o (Query.parseText (unmarked marker text)) (fun _ => .queryInvalid)
      Query.QueryError.message fun _ => ""
    saveUnder s o g name text
  | blocks =>
    Action.fail o .invalidInput (source.name ++ " holds " ++ toString blocks.length ++
      " queries; save them one at a time")

def runRemove (s : Surroundings) (o : Options) (g : Settings) (args : List String) :
    Action δ Unit := do
  let given := args.headD ""
  match g.config.remove given with
  | (false, _) =>
    Action.fail o .queryNotFound ("no saved query named " ++ Text.quoted given)
      "Run 'sgq query --list' to see saved queries"
  | (true, c) => storeQueries s o g c "Removed" (Slug.queryName given)

end TreeQuery.Command

import TreeQuery.Command.Envelope
import TreeQuery.Command.Log
import TreeQuery.Command.Option
import TreeQuery.Config
import TreeQuery.Display.Message
import TreeQuery.Store.Connection
import TreeQuery.Version

/-!
# What commands do

A command reads and writes files, talks to a database, prints, and makes remarks.  An `Action` is
such a doing as a function: from the files, the database and what has been printed before, to what
they are after it.  It may break off with a failure; all done before that stays done.
-/

namespace TreeQuery.Command

/-- **What a command finds around it** and does not change. -/
structure Surroundings where
  home : Option String := none
  /-- What the standard input holds, or why it cannot be read. -/
  input : Except String String := .ok ""
  /-- The columns of the terminal, if the output goes to one. -/
  columns : Option Nat := none
  /-- What the build system recorded about the program. -/
  record : Option BuildRecord := none
  stamps : ReleaseStamps := {}
  toolchain : String := ""
  platform : String := ""
  now : Timestamp := .zero
  milliseconds : Nat := 0
  /-- What sets the names of staging files apart. -/
  mark : String := ""

/-- **What a command has done so far.** -/
structure State (δ : Type) where
  files : Files
  database : δ
  output : String := ""
  remarks : String := ""

inductive Stop where
  /-- A failure that has been printed already. -/
  | reported
  | failed (message : String)
  deriving DecidableEq, Repr

/-- **Something that a command does.** -/
abbrev Action (δ : Type) := ExceptT Stop (StateM (State δ))

namespace Action

variable {δ : Type} {α ε : Type}

def print (s : String) : Action δ Unit :=
  modify fun d => { d with output := d.output ++ s }

def printLine (s : String) : Action δ Unit := print (s ++ "\n")

def remark (t : Threshold) (level : Level) (notes : List Store.Note) : Action δ Unit :=
  modify fun d => { d with remarks := d.remarks ++ logLines t level notes }

def files : Action δ Files := do return (← get).files

def onFiles (f : Files → Except ε α × Files) : Action δ (Except ε α) :=
  modifyGet fun d =>
    let (r, files) := f d.files
    (r, { d with files := files })

def onDatabase (f : δ → α × δ) : Action δ α :=
  modifyGet fun d =>
    let (r, database) := f d.database
    (r, { d with database := database })

/-- **Breaks off with a failure**: for scripts as an envelope, else with a message that the
suggestion follows. -/
def fail (o : Options) (code : ErrorCode) (message : String) (suggestion : String := "") :
    Action δ α :=
  if o.json then do
    print (Envelope.written (Envelope.failure code message suggestion))
    throw .reported
  else throw (.failed (if suggestion.isEmpty then message else message ++ "\n\n" ++ suggestion))

/-- The result of a step, or the failure that it stands for. -/
def orFail (o : Options) (r : Except ε α) (code : ε → ErrorCode) (message : ε → String)
    (suggestion : ε → String) : Action δ α :=
  match r with
  | .ok a => pure a
  | .error e => fail o (code e) (message e) (suggestion e)

def answer (data : String) (details : Option Meta := none) : Action δ Unit :=
  print (Envelope.written (Envelope.success (some data) details))

end Action

/-! ## Settings -/

/-- **The settings in force**: the file they come from, its content, and which remarks are
heard. -/
structure Settings where
  path : String
  config : Config
  threshold : Threshold

namespace Settings

def defaultLevel : String := "warn"

/-- The content of the file that a command has its settings from. -/
def loaded (f : Files) (home : Option String) (config : String) :
    Except Config.ConfigError Config :=
  if (Text.trimmed config).isEmpty then Config.load f home else Config.loadFrom f config

/-- **Loads the settings** that a command works with. -/
def load {δ : Type} (s : Surroundings) (o : Options) : Action δ Settings := do
  let files ← Action.files
  let config ← Action.orFail o (loaded files s.home o.config) (fun _ => .configInvalid)
    Config.ConfigError.message fun _ => "Fix the file or point --config at another one"
  let path := Config.resolvePath s.home o.config
  let level := Display.firstNonBlank [o.logLevel, config.logLevel, defaultLevel]
  match Threshold.lookup level with
  | none => Action.fail o .invalidInput (Threshold.unknownMessage level)
  | some t =>
    Action.remark t .debug [⟨"loaded config", [("path", .text path), ("log_level", .text level)]⟩]
    return ⟨path, config, t⟩

def stateDirectory (g : Settings) : String := Path.directory g.path

end Settings

/-- **Opens the database** that the options name, or else the settings. -/
def openDatabase {δ : Type} (C : Store.Connection δ) (o : Options) (g : Settings) :
    Action δ Sql.Dialect := do
  let driver := Display.firstNonBlank [o.driver, g.config.driver]
  let source := Display.firstNonBlank [o.dsn, g.config.dsn]
  let opened ← Action.onDatabase (Store.openDatabase C driver source)
  let d ← Action.orFail o opened (fun _ => .databaseError) Store.OpenError.message
    fun _ => "Set driver and dsn in the config file or pass --driver and --dsn"
  Action.remark g.threshold .debug [⟨"connected", [("driver", .text d.name)]⟩]
  return d

end TreeQuery.Command

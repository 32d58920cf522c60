import TreeQuery.Files.Replace
import TreeQuery.Slug
import TreeQuery.Text.Fold
import TreeQuery.Text.Quoted
import TreeQuery.Toml.Document
import TreeQuery.Toml.Write

/-!
# Settings

The settings file names the database, how much to report, where to log mutations, how to colour
the output, and it holds the **saved queries**.  Saved queries are found by their normalised name:
`saved?`, `save?` and `remove` treat all stored names that normalise alike as one.
-/

namespace TreeQuery

structure Config where
  driver : String := ""
  dsn : String := ""
  logLevel : String := ""
  auditLog : String := ""
  accent : String := ""
  codeTheme : String := ""
  /-- The saved queries: stored name and text. -/
  queries : List (String × String) := []
  deriving DecidableEq, Repr

namespace Config

/-! ## Saved queries -/

/-- Whether a stored name normalises to the given normalised name. -/
def isNamed (name : String) (entry : String × String) : Bool :=
  Slug.queryName entry.1 == name

def saved? (c : Config) (name : String) : Option String :=
  let wanted := Slug.queryName name
  if wanted.isEmpty then none else (c.queries.find? (isNamed wanted)).map Prod.snd

def queryNames (c : Config) : List String :=
  ((c.queries.map fun q => Slug.queryName q.1).filter fun n => !n.isEmpty).mergeSort
    fun a b => a < b || a == b

/-- **Saves a query** under the normalised form of a name, in place of those with that name. -/
def save? (c : Config) (name text : String) : Option Config :=
  let wanted := Slug.queryName name
  if wanted.isEmpty then none
  else some { c with queries := c.queries.filter (fun q => !isNamed wanted q) ++ [(wanted, text)] }

def badNameMessage (name : String) : String :=
  "invalid query name " ++ Text.quoted name

/-- **Removes the saved queries** with a name, and tells whether there were any. -/
def remove (c : Config) (name : String) : Bool × Config :=
  let wanted := Slug.queryName name
  (c.queries.any (isNamed wanted),
   { c with queries := c.queries.filter fun q => !isNamed wanted q })

/-! ## The settings file -/

def textOf? : Toml.Item → Option String
  | .text s => some s
  | _ => none

/-- The saved queries with one more, in place of one with the same stored name. -/
def withQuery (name text : String) : List (String × String) → List (String × String)
  | [] => [(name, text)]
  | q :: rest => if q.1 == name then (name, text) :: rest else q :: withQuery name text rest

def withQueries (c : Config) : List (String × Toml.Item) → Option Config
  | [] => some c
  | (k, i) :: rest => do
    let s ← textOf? i
    ({ c with queries := withQuery k s c.queries } : Config).withQueries rest

def withColours (c : Config) : List (String × Toml.Item) → Option Config
  | [] => some c
  | (k, i) :: rest => do
    let c ← match Text.folded k with
      | "accent" => (textOf? i).map fun s => { c with accent := s }
      | "code_theme" => (textOf? i).map fun s => { c with codeTheme := s }
      | _ => some c
    c.withColours rest

/-- The settings with one more entry of the file; unknown ones are left alone. -/
def withEntry (c : Config) (key : String) (i : Toml.Item) : Option Config :=
  match Text.folded key with
  | "driver" => (textOf? i).map fun s => { c with driver := s }
  | "dsn" => (textOf? i).map fun s => { c with dsn := s }
  | "log_level" => (textOf? i).map fun s => { c with logLevel := s }
  | "audit_log" => (textOf? i).map fun s => { c with auditLog := s }
  | "queries" =>
    match i with
    | .table entries => c.withQueries entries
    | _ => some c
  | "ui" =>
    match i with
    | .table entries => c.withColours entries
    | _ => none
  | _ => some c

def withEntries (c : Config) : List (String × Toml.Item) → Option Config
  | [] => some c
  | (k, i) :: rest => do
    let c ← c.withEntry k i
    c.withEntries rest

def ofText? (text : String) : Option Config :=
  match Toml.read text with
  | none => none
  | some t => ({} : Config).withEntries t

def setting (key value : String) : List (String × String) :=
  let value := Text.trimmed value
  if value.isEmpty then [] else [(key, value)]

/-- **The text of the settings**: blank ones left out, the saved queries in the order of their
names. -/
def text (c : Config) : String :=
  Toml.document
    (setting "driver" c.driver ++ setting "dsn" c.dsn ++ setting "log_level" c.logLevel ++
      setting "audit_log" c.auditLog)
    [("queries", c.queries.mergeSort fun a b => a.1 < b.1 || a.1 == b.1),
     ("ui", setting "accent" c.accent ++ setting "code_theme" c.codeTheme)]

inductive ConfigError where
  | unreadable (path : String)
  | noPath
  | unwritable (path : String) (cause : Files.ReplaceError)
  | notCreated (cause : Files.ReplaceError)
  deriving DecidableEq, Repr

def ConfigError.message : ConfigError → String
  | .unreadable path => "failed to parse config " ++ path
  | .noPath => "config path is required"
  | .unwritable path cause => "failed to write config " ++ path ++ ": " ++ cause.message
  | .notCreated cause => "failed to write config file: " ++ cause.message

def loadFrom (f : Files) (path : String) : Except ConfigError Config :=
  match f.read path with
  | .error _ => .error (.unreadable path)
  | .ok text =>
    match ofText? text with
    | some c => .ok c
    | none => .error (.unreadable path)

/-- The path of the settings file in a home directory; without one it is in the working
directory. -/
def defaultPath (home : Option String) : String :=
  match home with
  | some h => Path.join [h, ".config", "sgq", "config.toml"]
  | none => "config.toml"

/-- The path given, or the default one if it is blank. -/
def resolvePath (home : Option String) (explicit : String) : String :=
  let p := Text.trimmed explicit
  if p.isEmpty then defaultPath home else p

/-- The settings in the default file, empty if there is none. -/
def load (f : Files) (home : Option String) : Except ConfigError Config :=
  let path := defaultPath home
  match f.stat path with
  | .error .notFound => .ok {}
  | _ => loadFrom f path

def saveTo (f : Files) (path : String) (c : Config) (mark : String) :
    Except ConfigError Unit × Files :=
  if (Text.trimmed path).isEmpty then (.error .noPath, f)
  else
    match f.replace path c.text Files.newMode mark with
    | (.ok (), f) => (.ok (), f)
    | (.error e, f) => (.error (.unwritable path e), f)

def initialText : String :=
"# sgq configuration

# Database dialect: sqlite, postgres or mysql
driver = \"sqlite\"

# Data source name passed to the driver
# dsn = \"garage.db\"
# dsn = \"postgres://localhost/garage?sslmode=disable\"
# dsn = \"user:pass@tcp(localhost:3306)/garage\"

# Diagnostics on stderr: debug, info, warn, error or none
# log_level = \"warn\"

# Append every executed mutation to a JSON lines file
# audit_log = \"audit.log\"

# Saved queries, run with 'sgq query <name>'
# [queries]
# users-with-cars = \"\"\"
# users \x7b
# \tname
# \tcars \x7b
# \t\tlicense
# \t\x7d
# \x7d
# \"\"\"

# [ui]
# accent = \"39\"
# code_theme = \"monokai\"
"

/-- Writes the first settings file unless there is a file already; tells whether it did. -/
def create (f : Files) (path mark : String) : Except ConfigError Bool × Files :=
  if f.isPresent path then (.ok false, f)
  else
    match f.replace path initialText Files.newMode mark with
    | (.ok (), f) => (.ok true, f)
    | (.error e, f) => (.error (.notCreated e), f)

end Config

end TreeQuery

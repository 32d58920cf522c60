import TreeQuery.Command.ErrorCode
import TreeQuery.Config
import TreeQuery.Markdown.Outline

/-!
# Where a query comes from

A query is given on the command line, in a file, on the standard input or by the name under which
it was saved.  A Markdown file may hold several queries, one in each of its code blocks.
-/

namespace TreeQuery.Command

/-- **The text of a query**, in one or more blocks, and the name of where it comes from. -/
structure Source where
  name : String
  blocks : List String
  deriving DecidableEq, Repr

inductive SourceError where
  | missing
  | inputUnreadable (reason : String)
  | fileUnreadable (path : String) (cause : FileError)
  | noCode (path : String)
  | notSaved (name : String)
  deriving DecidableEq, Repr

def codeLanguage : String := "sgq"

namespace SourceError

def code : SourceError → ErrorCode
  | .missing => .missingArgument
  | .inputUnreadable _ => .fileReadError
  | .fileUnreadable _ _ => .fileReadError
  | .noCode _ => .queryNotFound
  | .notSaved _ => .queryNotFound

def message : SourceError → String
  | .missing => "no query given"
  | .inputUnreadable reason => "failed to read stdin: " ++ reason
  | .fileUnreadable path cause => "failed to read " ++ path ++ ": " ++ cause.message
  | .noCode path => "no " ++ codeLanguage ++ " code blocks in " ++ path
  | .notSaved name => "no saved query named " ++ Text.quoted name

def suggestion : String :=
  "Pass the query inline, with --file, or as a saved query name (see 'sgq query --list')"

end SourceError

/-- The part of the last component of a path from its last dot on. -/
def extensionOf (path : String) : String :=
  let back := path.toList.reverse.takeWhile (· != '/')
  if back.contains '.' then String.ofList ((back.takeWhile (· != '.')).reverse.cons '.') else ""

/-- Whether a path names a Markdown file, by its extension in any letter case. -/
def isMarkdown (path : String) : Bool :=
  [".md", ".markdown"].contains (Text.lowered (extensionOf path))

namespace Source

def ofFile (f : Files) (path : String) : Except SourceError Source :=
  match f.read path with
  | .error e => .error (.fileUnreadable path e)
  | .ok content =>
    if isMarkdown path then
      match Markdown.codeBlocks content codeLanguage with
      | [] => .error (.noCode path)
      | blocks => .ok ⟨path, blocks⟩
    else .ok ⟨path, [content]⟩

def isFile (f : Files) (path : String) : Bool :=
  match f.stat path with
  | .ok (.directory _) => false
  | .ok _ => true
  | .error _ => false

/-- The query that an argument asks for: `-` is the standard input, a text with a brace is the
query itself, then files come before saved queries. -/
def ofArgument (f : Files) (c : Config) (input : Except String String) (arg : String) :
    Except SourceError Source :=
  if arg == "-" then
    match input with
    | .ok text => .ok ⟨"stdin", [text]⟩
    | .error reason => .error (.inputUnreadable reason)
  else if arg.toList.contains '\x7b' then .ok ⟨"inline", [arg]⟩
  else if isFile f arg then ofFile f arg
  else
    match c.saved? arg with
    | some text => .ok ⟨Slug.queryName arg, [text]⟩
    | none => .error (.notSaved arg)

/-- **The query that a command is given**: the file named by its option, else its argument. -/
def resolve (f : Files) (c : Config) (input : Except String String) (file : String)
    (args : List String) : Except SourceError Source :=
  if !file.isEmpty then ofFile f file
  else
    match args with
    | [] => .error .missing
    | arg :: _ => ofArgument f c input arg

end Source

end TreeQuery.Command

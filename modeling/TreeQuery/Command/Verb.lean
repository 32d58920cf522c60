import TreeQuery.Command.Option
import TreeQuery.Text.Lower

/-!
# Commands

The commands form a tree: the program itself, its commands and their own commands.  The words of a
command line that are no options lead down the tree as far as they name commands.
-/

namespace TreeQuery.Command

inductive Verb where
  | program
  | query
  | parse
  | explain
  | schema
  | config
  | configInit
  | configPath
  | configSave
  | configRemove
  | docs
  | version
  | help
  | completion
  | script (shell : String)
  deriving DecidableEq, Repr

namespace Verb

def name : Verb → String
  | .program => "sgq"
  | .query => "query"
  | .parse => "parse"
  | .explain => "explain"
  | .schema => "schema"
  | .config => "config"
  | .configInit => "init"
  | .configPath => "path"
  | .configSave => "save"
  | .configRemove => "remove"
  | .docs => "docs"
  | .version => "version"
  | .help => "help"
  | .completion => "completion"
  | .script shell => shell

def aliases : Verb → List String
  | .query => ["q"]
  | _ => []

def children : Verb → List Verb
  | .program =>
    [.config, .docs, .explain, .parse, .query, .schema, .version, .help, .completion]
  | .config => [.configInit, .configPath, .configSave, .configRemove]
  | .completion => [.script "bash", .script "zsh", .script "fish", .script "powershell"]
  | _ => []

def parent? : Verb → Option Verb
  | .program => none
  | .configInit => some .config
  | .configPath => some .config
  | .configSave => some .config
  | .configRemove => some .config
  | .script _ => some .completion
  | _ => some .program

def path (v : Verb) : String :=
  match v.parent? with
  | none => v.name
  | some .program => Verb.program.name ++ " " ++ v.name
  | some p => Verb.program.name ++ " " ++ p.name ++ " " ++ v.name

def sharedOptions : List OptionName :=
  [.config, .driver, .dsn, .db, .logLevel, .json]

def sourceOptions : List OptionName := [.file, .arg, .marker]

/-- The options of a command, apart from the one that asks for help. -/
def options : Verb → List OptionName
  | .query => sharedOptions ++ sourceOptions ++ [.list, .last]
  | .parse => sharedOptions ++ sourceOptions ++ [.last]
  | .explain => sharedOptions ++ sourceOptions ++ [.last]
  | .configSave => sharedOptions ++ sourceOptions
  | .script _ => sharedOptions ++ [.noDescriptions]
  | _ => sharedOptions

def isRunnable : Verb → Bool
  | .program => false
  | .config => false
  | .completion => false
  | _ => true

def checkArity (v : Verb) (args : List String) : Except UsageError Unit :=
  let given := args.length
  let atMost (n : Nat) : Except UsageError Unit :=
    if given ≤ n then .ok () else .error (.atMost n given)
  let exactly (n : Nat) : Except UsageError Unit :=
    if given = n then .ok () else .error (.exactly n given)
  let nothing : Except UsageError Unit :=
    match args with
    | [] => .ok ()
    | a :: _ => .error (.unknownCommand a v.path [])
  match v with
  | .query => atMost 1
  | .parse => atMost 1
  | .explain => atMost 1
  | .docs => atMost 1
  | .schema => exactly 1
  | .configRemove => exactly 1
  | .configSave =>
    if 1 ≤ given ∧ given ≤ 2 then .ok () else .error (.between 1 2 given)
  | .configInit => nothing
  | .configPath => nothing
  | .version => nothing
  | .script _ => nothing
  | _ => .ok ()

end Verb

/-! ## Finding the command -/

/-- Whether an argument is an option whose value is the next argument. -/
def takesNext (known : List OptionName) (arg : String) : Bool :=
  match arg.toList with
  | '-' :: '-' :: name =>
    !name.contains '=' &&
      !((named? known (String.ofList name)).map OptionName.isSwitch).getD false
  | ['-', c] =>
    c.toNat < 128 && c != '=' && !((lettered? known c).map OptionName.isSwitch).getD false
  | _ => false

/-- The words of a command line that are neither options nor their values.  A last argument after an
option that takes it is left out. -/
def wordsOf (known : List OptionName) (skip : Bool) : List String → List String
  | [] => []
  | s :: rest =>
    if skip then wordsOf known false rest
    else if s == "--" then []
    else if takesNext known s then if rest.length ≤ 1 then [] else wordsOf known true rest
    else if s.isEmpty || s.startsWith "-" then wordsOf known false rest
    else s :: wordsOf known false rest

/-- The command line without the first occurrence of a word. -/
def withoutWord (known : List OptionName) (word : String) (skip : Bool) : List String → List String
  | [] => []
  | s :: rest =>
    if skip then s :: withoutWord known word false rest
    else if s == "--" then s :: rest
    else if takesNext known s then s :: withoutWord known word true rest
    else if !s.startsWith "-" && s == word then rest
    else s :: withoutWord known word false rest

def Verb.child? (v : Verb) (word : String) : Option Verb :=
  v.children.find? fun c => c.name == word || c.aliases.contains word

def descend (fuel : Nat) (v : Verb) (args : List String) : Verb × List String :=
  match fuel with
  | 0 => (v, args)
  | fuel + 1 =>
    match wordsOf v.options false args with
    | [] => (v, args)
    | word :: _ =>
      match v.child? word with
      | some c => descend fuel c (withoutWord v.options word false args)
      | none => (v, args)

/-! ## Similar names -/

/-- The next row of distances between the beginnings of two texts: `above` are those of the row
before, `left` the last one made. -/
def distanceRow (c : UInt8) (left : Nat) : List UInt8 → List Nat → List Nat
  | d :: rest, diagonal :: above :: more =>
    let here := if c = d then diagonal else min (min left above) diagonal + 1
    here :: distanceRow c here rest (above :: more)
  | _, _ => []

def distanceFrom (t : List UInt8) : Nat → List Nat → List UInt8 → List Nat
  | _, row, [] => row
  | i, row, c :: rest => distanceFrom t (i + 1) ((i + 1) :: distanceRow c (i + 1) t row) rest

/-- **The edit distance** of two texts. -/
def distance (s t : List UInt8) : Nat :=
  (distanceFrom t 0 (List.range (t.length + 1)) s).getLast?.getD 0

/-- Whether a word is so close to a name that the name may have been meant. -/
def isSimilar (word name : String) : Bool :=
  let w := Text.encode (Text.lowered word).toList
  let n := Text.encode (Text.lowered name).toList
  distance w n ≤ 2 || w.isPrefixOf n

def similarNames (word : String) : List String :=
  ((Verb.program.children.filter (· != .help)).map Verb.name).filter (isSimilar word)

/-- **The command that a command line asks for**, and the arguments left for it. -/
def Verb.find (args : List String) : Except UsageError (Verb × List String) :=
  let (v, rest) := descend (args.length + 1) .program args
  match v, wordsOf v.options false rest with
  | .program, word :: _ =>
    .error (.unknownCommand word v.path (similarNames word))
  | _, _ => .ok (v, rest)

end TreeQuery.Command

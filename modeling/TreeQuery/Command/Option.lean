import TreeQuery.Text.Quoted
import TreeQuery.Text.Search
import TreeQuery.Text.Utf8

/-!
# Options

Options are given on the command line by their name (`--arg 5`, `--arg=5`) or by one letter (`-a 5`,
`-a5`, `-a=5`); letters of switches can be put together (`-lh`).  Options and arguments may be
mixed; all after `--` are arguments.
-/

namespace TreeQuery.Command

inductive OptionName where
  | config
  | driver
  | dsn
  | db
  | logLevel
  | json
  | file
  | arg
  | marker
  | list
  | last
  | noDescriptions
  | help
  deriving DecidableEq, Repr

namespace OptionName

def text : OptionName → String
  | .config => "config"
  | .driver => "driver"
  | .dsn => "dsn"
  | .db => "db"
  | .logLevel => "log-level"
  | .json => "json"
  | .file => "file"
  | .arg => "arg"
  | .marker => "marker"
  | .list => "list"
  | .last => "last"
  | .noDescriptions => "no-descriptions"
  | .help => "help"

def letter? : OptionName → Option Char
  | .file => some 'f'
  | .arg => some 'a'
  | .list => some 'l'
  | .help => some 'h'
  | _ => none

def isSwitch : OptionName → Bool
  | .json => true
  | .list => true
  | .last => true
  | .noDescriptions => true
  | .help => true
  | _ => false

def label (n : OptionName) : String :=
  match n.letter? with
  | some c => String.ofList ['-', c] ++ ", --" ++ n.text
  | none => "--" ++ n.text

end OptionName

/-- **The settings that options make.** -/
structure Options where
  config : String := ""
  driver : String := ""
  dsn : String := ""
  logLevel : String := ""
  json : Bool := false
  file : String := ""
  /-- The values for markers, if any were given. -/
  args : Option (List String) := none
  marker : Option String := none
  list : Bool := false
  last : Bool := false
  help : Bool := false
  deriving DecidableEq, Repr

inductive UsageError where
  | badForm (arg : String)
  | unknownOption (name : String)
  | unknownLetter (letter : Char) (group : String)
  | needsValue (arg : String)
  | letterNeedsValue (letter : Char) (group : String)
  | badSwitch (value : String) (option : OptionName)
  /-- No command has the name; some that do have similar ones. -/
  | unknownCommand (name path : String) (similar : List String)
  | exactly (wanted given : Nat)
  | atMost (wanted given : Nat)
  | between (least most given : Nat)
  deriving DecidableEq, Repr

/-- A letter in single quotes; of a letter outside ASCII only the first byte counts. -/
def quotedLetter (c : Char) : String :=
  let c := match Text.encode [c] with
    | b :: _ => Char.ofNat b.toNat
    | [] => c
  if c = '"' then "'\"'"
  else if c = '\'' then "'\\''"
  else
    let inner := (Text.quoted (String.ofList [c])).toList
    String.ofList ('\'' :: ((inner.drop 1).dropLast ++ ['\'']))

def UsageError.message : UsageError → String
  | .badForm arg => "bad flag syntax: " ++ arg
  | .unknownOption name => "unknown flag: --" ++ name
  | .unknownLetter c group => "unknown shorthand flag: " ++ quotedLetter c ++ " in -" ++ group
  | .needsValue arg => "flag needs an argument: " ++ arg
  | .letterNeedsValue c group => "flag needs an argument: " ++ quotedLetter c ++ " in -" ++ group
  | .badSwitch value option =>
    "invalid argument " ++ Text.quoted value ++ " for " ++ Text.quoted option.label ++
      " flag: strconv.ParseBool: parsing " ++ Text.quoted value ++ ": invalid syntax"
  | .unknownCommand name path similar =>
    "unknown command " ++ Text.quoted name ++ " for " ++ Text.quoted path ++
      (if similar.isEmpty then ""
       else "\n\nDid you mean this?\n" ++ String.join (similar.map fun s => "\t" ++ s ++ "\n"))
  | .exactly wanted given =>
    "accepts " ++ toString wanted ++ " arg(s), received " ++ toString given
  | .atMost wanted given =>
    "accepts at most " ++ toString wanted ++ " arg(s), received " ++ toString given
  | .between least most given =>
    "accepts between " ++ toString least ++ " and " ++ toString most ++ " arg(s), received " ++
      toString given

/-! ## Setting -/

/-- The texts that turn a switch on, and those that turn it off. -/
def switchTexts : List (String × Bool) :=
  [("1", true), ("t", true), ("T", true), ("TRUE", true), ("true", true), ("True", true),
   ("0", false), ("f", false), ("F", false), ("FALSE", false), ("false", false), ("False", false)]

namespace Options

def turn (o : Options) (n : OptionName) (on : Bool) : Options :=
  match n with
  | .json => { o with json := on }
  | .list => { o with list := on }
  | .last => { o with last := on }
  | .help => { o with help := on }
  | _ => o

def put (o : Options) (n : OptionName) (value : String) : Options :=
  match n with
  | .config => { o with config := value }
  | .driver => { o with driver := value }
  | .dsn => { o with dsn := value }
  | .db => { o with dsn := value }
  | .logLevel => { o with logLevel := value }
  | .file => { o with file := value }
  | .arg => { o with args := some (o.args.getD [] ++ [value]) }
  | .marker => { o with marker := some value }
  | _ => o

def set (o : Options) (n : OptionName) (value : String) : Except UsageError Options :=
  if n.isSwitch then
    match switchTexts.lookup value with
    | some on => .ok (o.turn n on)
    | none => .error (.badSwitch value n)
  else .ok (o.put n value)

end Options

/-! ## Reading -/

/-- An option that waits for its value, and the failure if there is none. -/
structure Waiting where
  option : OptionName
  missing : UsageError
  deriving DecidableEq, Repr

def named? (known : List OptionName) (name : String) : Option OptionName :=
  known.find? fun n => n.text == name

def lettered? (known : List OptionName) (c : Char) : Option OptionName :=
  known.find? fun n => n.letter? == some c

/-- Reads letters that stand together.  The last one may wait for its value. -/
def readLetters (known : List OptionName) (o : Options) :
    List Char → Except UsageError (Options × Option Waiting)
  | [] => .ok (o, none)
  | c :: rest =>
    if (Text.dropStart? "test.".toList (c :: rest)).isSome then .ok (o, none)
    else
      match lettered? known c with
      | none => .error (.unknownLetter c (String.ofList (c :: rest)))
      | some n =>
        match rest with
        | '=' :: d :: more => (o.set n (String.ofList (d :: more))).map fun o => (o, none)
        | _ =>
          if n.isSwitch then
            match o.set n "true" with
            | .error e => .error e
            | .ok o => readLetters known o rest
          else
            match rest with
            | [] => .ok (o, some ⟨n, .letterNeedsValue c (String.ofList [c])⟩)
            | _ => (o.set n (String.ofList rest)).map fun o => (o, none)

def readName (known : List OptionName) (o : Options) (arg : String) :
    Except UsageError (Options × Option Waiting) :=
  let body := arg.toList.drop 2
  let name := String.ofList (body.takeWhile (· != '='))
  match body.head? with
  | some '-' => .error (.badForm arg)
  | some '=' => .error (.badForm arg)
  | _ =>
    match named? known name with
    | none => .error (.unknownOption name)
    | some n =>
      match body.dropWhile (· != '=') with
      | _ :: value => (o.set n (String.ofList value)).map fun o => (o, none)
      | [] =>
        if n.isSwitch then (o.set n "true").map fun o => (o, none)
        else .ok (o, some ⟨n, .needsValue arg⟩)

/-- Reads the rest of a command line: the settings, and the arguments in order. -/
def readFrom (known : List OptionName) (waiting : Option Waiting) (o : Options) :
    List String → Except UsageError (Options × List String)
  | [] =>
    match waiting with
    | some w => .error w.missing
    | none => .ok (o, [])
  | s :: rest =>
    match waiting with
    | some w =>
      match o.set w.option s with
      | .error e => .error e
      | .ok o => readFrom known none o rest
    | none =>
      match s.toList with
      | '-' :: '-' :: [] => .ok (o, rest)
      | '-' :: '-' :: _ =>
        match readName known o s with
        | .error e => .error e
        | .ok (o, w) => readFrom known w o rest
      | '-' :: c :: cs =>
        match readLetters known o (c :: cs) with
        | .error e => .error e
        | .ok (o, w) => readFrom known w o rest
      | _ => (readFrom known none o rest).map fun (o, args) => (o, s :: args)

def Options.read (known : List OptionName) (args : List String) :
    Except UsageError (Options × List String) :=
  readFrom known none {} args

end TreeQuery.Command

import TreeQuery.Json.Write
import TreeQuery.Store.Adapter
import TreeQuery.Text.Blank
import TreeQuery.Text.Lower

/-!
# Diagnostics

Remarks are written one a line as `key=value` pairs, the level first.  A value is quoted when it
holds a blank, a control, an equals sign or a quote; lists and maps cannot be values.  Only remarks
of at least the chosen level are written.
-/

namespace TreeQuery.Command

inductive Level where
  | debug
  | info
  | warn
  | error
  deriving DecidableEq, Repr

namespace Level

def text : Level → String
  | .debug => "debug"
  | .info => "info"
  | .warn => "warn"
  | .error => "error"

def rank : Level → Nat
  | .debug => 0
  | .info => 1
  | .warn => 2
  | .error => 3

end Level

/-- **Which remarks are written**: those of a least rank on. -/
structure Threshold where
  rank : Nat
  deriving DecidableEq, Repr

namespace Threshold

def names : List (String × Threshold) :=
  [("debug", ⟨0⟩), ("info", ⟨1⟩), ("", ⟨2⟩), ("warn", ⟨2⟩), ("warning", ⟨2⟩), ("error", ⟨3⟩),
   ("none", ⟨4⟩), ("off", ⟨4⟩)]

/-- The threshold with a name, in any letter case and with blanks around it. -/
def lookup (name : String) : Option Threshold :=
  names.lookup (Text.lowered (Text.trimmed name))

def unknownMessage (name : String) : String :=
  "unknown log level " ++ Text.quoted name ++ " (expected debug, info, warn, error or none)"

def allows (t : Threshold) (l : Level) : Bool := t.rank ≤ l.rank

end Threshold

def needsQuotes (c : Char) : Bool :=
  c.toNat ≤ 32 || c == '=' || c == '"' || c == '�'

def logChar (c : Char) : List Char :=
  let n := c.toNat
  if c = '"' ∨ c = '\\' then ['\\', c]
  else if c = '\n' then ['\\', 'n']
  else if c = '\r' then ['\\', 'r']
  else if c = '\t' then ['\\', 't']
  else if n < 32 ∨ c = '�' then '\\' :: 'u' :: Text.hex 4 n
  else [c]

/-- Characters as the value of a pair, in quotes if they need them. -/
def logChars (cs : List Char) : String :=
  String.ofList (if cs.any needsQuotes then '"' :: (cs.flatMap logChar ++ ['"']) else cs)

def logText (s : String) : String :=
  if s == "null" then "\"null\"" else logChars s.toList

def logValue : Value → String
  | .null => "null"
  | .bool b => if b then "true" else "false"
  | .int n => toString n
  | .float x => DecimalStyle.general.write x
  | .text s => logText s
  | .garbled bs => logChars (Text.decode bs)
  | .bytes bs => logChars (Text.decode bs)
  | _ => logText "unsupported value type"

def logLine (level : Level) (n : Store.Note) : String :=
  let pairs := ("msg", Value.text n.message) :: n.details
  "level=" ++ level.text ++
    String.join (pairs.map fun (k, v) => " " ++ k ++ "=" ++ logValue v) ++ "\n"

/-- The lines of the remarks of a level that a threshold lets through. -/
def logLines (t : Threshold) (level : Level) (notes : List Store.Note) : String :=
  if t.allows level then String.join (notes.map (logLine level)) else ""

end TreeQuery.Command

import TreeQuery.Display.Box
import TreeQuery.Text.Blank

/-!
# Messages

The status of a command is told by a sign in front of its message.  Headers and hints are boxes.
-/

namespace TreeQuery.Display

def success (message : String) : String := "✓ " ++ message

def failure (message : String) : String := "✗ " ++ message

def warning (message : String) : String := "⚠ " ++ message

def counted (n : Int) (noun : String) : String :=
  toString n ++ " " ++ noun ++ (if n = 1 then "" else "s")

def count (n : Int) (noun : String) : String := "(" ++ counted n noun ++ ")"

/-- **A block of text**, all lines of one width. -/
def block (s : String) : String :=
  "\n".intercalate ((fill s.toList).map String.ofList)

/-- The first line of a text, trimmed, with a mark if there are more. -/
def firstLine (s : String) : String :=
  let cs := Text.trim s.toList
  match Text.lines cs with
  | l :: _ :: _ => String.ofList (Text.trim l) ++ " ..."
  | _ => String.ofList cs

/-- The first text that is not blank, trimmed; empty if there is none. -/
def firstNonBlank (texts : List String) : String :=
  ((texts.map Text.trimmed).find? fun s => !s.isEmpty).getD ""

end TreeQuery.Display

import TreeQuery.Text.Quoted

/-!
# Writing TOML

Settings are written one a line.  A text stands in double quotes with its controls escaped; a key
stands bare if it can.  The entries of a table are indented under its header, and an empty line
comes before each header but one at the start.
-/

namespace TreeQuery.Toml

def escaped (c : Char) : List Char :=
  if c = '"' ∨ c = '\\' then ['\\', c]
  else if c = '\x08' then ['\\', 'b']
  else if c = '\t' then ['\\', 't']
  else if c = '\n' then ['\\', 'n']
  else if c = '\x0c' then ['\\', 'f']
  else if c = '\r' then ['\\', 'r']
  else if c.toNat < 32 ∨ c.toNat = 127 then '\\' :: 'u' :: Text.hex 4 c.toNat
  else [c]

def quoted (s : String) : String :=
  String.ofList ('"' :: (s.toList.flatMap escaped ++ ['"']))

def keyText (k : String) : String :=
  if !k.isEmpty && k.toList.all fun c => c.isAlphanum || c == '_' || c == '-' then k else quoted k

def settings (indent : String) (entries : List (String × String)) : String :=
  String.join (entries.map fun (k, v) => indent ++ keyText k ++ " = " ++ quoted v ++ "\n")

def section? (name : String) (entries : List (String × String)) : List String :=
  if entries.isEmpty then [] else ["[" ++ name ++ "]\n" ++ settings "  " entries]

/-- **The text of settings and tables**, empty tables left out. -/
def document (entries : List (String × String)) (tables : List (String × List (String × String))) :
    String :=
  let top := if entries.isEmpty then [] else [settings "" entries]
  "\n".intercalate (top ++ tables.flatMap fun (name, es) => section? name es)

end TreeQuery.Toml

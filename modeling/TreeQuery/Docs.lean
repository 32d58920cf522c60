import TreeQuery.Text.Blank
import TreeQuery.Text.Lower
import TreeQuery.Text.Quoted
import TreeQuery.Text.Search

/-!
# Guides

The guides that come with the program are Markdown files.  Each file in the topmost directory is a
topic, named like the file without its extension and titled by its first heading.
-/

namespace TreeQuery.Docs

structure Topic where
  id : String
  title : String
  path : String
  content : String
  deriving DecidableEq, Repr

def extension : String := ".md"

def withoutExtension (s : String) : String :=
  match Text.dropEnd? extension.toList s.toList with
  | some cs => String.ofList cs
  | none => s

/-- The title of a guide: its first heading of the first level. -/
def titleOf (content fallback : String) : String :=
  match (Text.lines content.toList).findSome? (Text.dropStart? ['#', ' ']) with
  | some cs => String.ofList (Text.trim cs)
  | none => fallback

/-- What stands in the topmost directory: names with the content of files, `none` for
directories. -/
def topmost (files : List (String × Option String)) : List (String × Option String) :=
  let all := files.map fun (name, content) =>
    match Text.pieces "/" name with
    | [n] => (n, content)
    | n :: _ => (n, none)
    | [] => (name, content)
  all.eraseDupsBy fun a b => a.1 == b.1

def topicOf (name content : String) : Topic :=
  let id := withoutExtension name
  ⟨id, titleOf content id, name, content⟩

def unreadableMessage (name : String) : String := "read " ++ name ++ ": invalid argument"

/-- The topics of some names; fails with the name of a directory. -/
def topicsOf : List (String × Option String) → Except String (List Topic)
  | [] => .ok []
  | (name, none) :: _ => .error name
  | (name, some content) :: rest =>
    match topicsOf rest with
    | .ok ts => .ok (topicOf name content :: ts)
    | .error n => .error n

/-- **The topics of a tree of files**, in the order of their names. -/
def topics (files : List (String × Option String)) : Except String (List Topic) :=
  let pages := (topmost files).filter fun f =>
    (Text.dropEnd? extension.toList f.1.toList).isSome
  topicsOf (pages.mergeSort fun a b => a.1 < b.1 || a.1 == b.1)

/-- **The topic that a name asks for**: in any letter case, with or without the extension. -/
def find? (topics : List Topic) (name : String) : Option Topic :=
  let wanted := Text.lowered (withoutExtension (Text.trimmed name))
  topics.find? fun t => t.id == wanted

end TreeQuery.Docs

import TreeQuery.Text.Search

/-!
# Paths

A path is a text of components divided by slashes; one that starts with a slash is absolute, any
other starts at the working directory.  The operations here look at the text only.
-/

namespace TreeQuery.Path

/-- The components of a path, empty ones included. -/
def parts (path : String) : List String :=
  Text.pieces "/" path

def isAbsolute (path : String) : Bool :=
  path.toList.head? == some '/'

/-- The components of a clean path, last one first.  `..` takes the component before it away; at
the front of an absolute path it has nothing to take, and at that of a relative one it stays. -/
def cleanParts (absolute : Bool) (seen : List String) : List String → List String
  | [] => seen
  | p :: rest =>
    if p == "" || p == "." then cleanParts absolute seen rest
    else if p == ".." then
      match seen with
      | [] => cleanParts absolute (if absolute then [] else [".."]) rest
      | s :: before =>
        if s == ".." then cleanParts absolute (".." :: seen) rest
        else cleanParts absolute before rest
    else cleanParts absolute (p :: seen) rest

/-- **The shortest spelling of a path**; the working directory is `.`. -/
def clean (path : String) : String :=
  let absolute := isAbsolute path
  let body := "/".intercalate (cleanParts absolute [] (parts path)).reverse
  if absolute then "/" ++ body else if body.isEmpty then "." else body

/-- The directory of a path: all but its last component, clean. -/
def directory (path : String) : String :=
  let ps := (parts path).dropLast
  clean (if ps == [""] then "/" else "/".intercalate ps)

/-- The last component of a path, slashes at its end apart. -/
def base (path : String) : String :=
  match (parts path).filter (· != "") |>.getLast? with
  | some p => p
  | none => if path.isEmpty then "." else "/"

/-- The paths joined to one, clean; empty ones are left out. -/
def join (paths : List String) : String :=
  match paths.filter (· != "") with
  | [] => ""
  | ps => clean ("/".intercalate ps)

/-- The paths of the directories on the way down to a clean path, that path last. -/
def ancestors (path : String) : List String :=
  let absolute := isAbsolute path
  let ps := (parts path).filter (· != "")
  let tails := (List.range ps.length).map fun n => "/".intercalate (ps.take (n + 1))
  if absolute then tails.map ("/" ++ ·) else tails

end TreeQuery.Path

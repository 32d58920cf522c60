import TreeQuery.Text.Search

/-!
# The version of the program

What is known about a build comes from two places: the record that the build system keeps, and the
stamps of a release.  The record wins; the stamps fill what it leaves open.
-/

namespace TreeQuery

structure BuildRecord where
  toolchain : String := ""
  path : String := ""
  version : String := ""
  settings : List (String × String) := []
  deriving DecidableEq, Repr

structure ReleaseStamps where
  version : String := ""
  commit : String := ""
  date : String := ""
  deriving DecidableEq, Repr

/-- **What is known about a build.** -/
structure Version where
  version : String
  modulePath : String
  commit : String := ""
  commitTime : String := ""
  modified : Bool := false
  toolchain : String
  platform : String
  deriving DecidableEq, Repr

namespace Version

def development : String := "devel"

def defaultPath : String := "github.com/subhero24/sql-graph-query"

def normalized (version : String) : String :=
  if version == "" || version == "(devel)" then development else version

def withSetting (v : Version) (setting : String × String) : Version :=
  match setting.1 with
  | "vcs.revision" => { v with commit := setting.2 }
  | "vcs.time" => { v with commitTime := setting.2 }
  | "vcs.modified" => { v with modified := Text.sameLetters setting.2.toList "true".toList }
  | _ => v

def withRecord (v : Version) (r : BuildRecord) : Version :=
  let base := { v with
    version := normalized r.version
    modulePath := if r.path.isEmpty then v.modulePath else r.path
    toolchain := if r.toolchain.isEmpty then v.toolchain else r.toolchain }
  r.settings.foldl withSetting base

def withStamps (v : Version) (s : ReleaseStamps) : Version :=
  { v with
    version :=
      if v.version == development && !s.version.isEmpty then normalized s.version else v.version
    commit := if v.commit.isEmpty then s.commit else v.commit
    commitTime := if v.commitTime.isEmpty then s.date else v.commitTime }

/-- **What is known about a build** on a platform, made with a toolchain. -/
def describe (toolchain platform : String) (record : Option BuildRecord) (stamps : ReleaseStamps) :
    Version :=
  let base : Version :=
    { version := development, modulePath := defaultPath, toolchain, platform }
  let recorded := match record with
    | some r => base.withRecord r
    | none => base
  recorded.withStamps stamps

end Version

end TreeQuery

import TreeQuery.Text.Search
import TreeQuery.Value

/-!
# Templates

A query with values in it is a template: literal segments with one value between each two of
them.  Only the literal text is parsed; a value is known by its position there
(`Interpolation`).  On the command line a template is written as one text with a marker where
each value goes, and `split` cuts it up.
-/

namespace TreeQuery.Query

/-- **A query as literal segments** and the values between them. -/
structure Template where
  segments : List String
  values : List Value
  deriving Repr

/-- A value and the byte position in the literal text where it was written. -/
structure Interpolation where
  value : Value
  offset : Nat
  deriving Repr

inductive TemplateError where
  /-- There is not exactly one more segment than values. -/
  | counts (segments values : Nat)
  /-- A text has not exactly one marker for each value. -/
  | markers (found : Nat) (marker : String) (values : Nat)
  deriving DecidableEq, Repr

def TemplateError.message : TemplateError → String
  | .counts segments values => s!"template has {segments} segments for {values} values"
  | .markers found marker values =>
    s!"query has {found} {marker} markers but {values} values were given"

namespace Template

def defaultMarker : String := "$\x7b\x7d"

/-- The marker to use: the default one in place of an empty one. -/
def markerOrDefault (marker : String) : String :=
  if marker.isEmpty then defaultMarker else marker

def ofText (s : String) : Template := ⟨[s], []⟩

/-- The template written as `text` with a marker for each value. -/
def split (text marker : String) (values : List Value) : Except TemplateError Template :=
  let marker := markerOrDefault marker
  let segments := Text.pieces marker text
  if segments.length = values.length + 1 then .ok ⟨segments, values⟩
  else .error (.markers (segments.length - 1) marker values.length)

def literal (t : Template) : List Char :=
  t.segments.flatMap String.toList

/-- The values paired with their positions, the first segment starting at `offset`. -/
def place (offset : Nat) : List String → List Value → List Interpolation
  | s :: segments, v :: values =>
    let here := offset + Text.bytes s.toList
    ⟨v, here⟩ :: place here segments values
  | _, _ => []

/-- **The values with their positions** in the literal text.  A template without values may have
any number of segments. -/
def interpolations (t : Template) : Except TemplateError (List Interpolation) :=
  if t.values.isEmpty then .ok []
  else if t.segments.length = t.values.length + 1 then .ok (place 0 t.segments t.values)
  else .error (.counts t.segments.length t.values.length)

end Template

end TreeQuery.Query

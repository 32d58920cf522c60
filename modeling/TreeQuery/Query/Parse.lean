import TreeQuery.Query.Mutation
import TreeQuery.Query.Relation
import TreeQuery.Query.Template
import TreeQuery.Sql.Placeholder

/-!
# Reading a query

A template is read in one pass over the lines of its literal text.  The relations whose closing
brace has not been met form a stack, innermost first.  A line that starts a relation opens a node,
a closing brace attaches the innermost node to the one around it, any other line is an attribute
of the innermost node.

Values are kept in a queue, in the order of the text.  A clause takes from the queue the values
written inside it (`splice`): a value becomes one placeholder, a sequence one placeholder for each
element.  A value written anywhere else is an error.
-/

namespace TreeQuery.Query

inductive ParseProblem where
  | empty
  /-- The first line of a mutation does not open a body. -/
  | unopenedMutation
  /-- A value stands outside of every clause. -/
  | misplacedValue
  /-- The text ends inside the body of the named node. -/
  | unclosed (name : String)
  deriving DecidableEq, Repr

/-- **A malformed query**: what is wrong, and the byte position in the literal text where. -/
structure ParseError where
  offset : Nat
  problem : ParseProblem
  deriving DecidableEq, Repr

def ParseProblem.message : ParseProblem → String
  | .empty => "empty query"
  | .unopenedMutation => "mutation must end with '\x7b' on its first line"
  | .misplacedValue => "interpolated value is outside of any SQL clause"
  | .unclosed name => s!"could not parse attributes of {name}: missing '\x7d'"

def ParseError.message (e : ParseError) : String :=
  s!"parse error at offset {e.offset}: {e.problem.message}"

inductive QueryError where
  | template (e : TemplateError)
  | parse (e : ParseError)
  deriving DecidableEq, Repr

def QueryError.message : QueryError → String
  | .template e => e.message
  | .parse e => e.message

/-! ## Values in a clause -/

def Interpolation.marks (i : Interpolation) : List Char :=
  match i.value.elements? with
  | some elements => Sql.Placeholder.marks elements.length
  | none => ['?']

def Interpolation.bound (i : Interpolation) : List Value :=
  match i.value.elements? with
  | some elements => elements
  | none => [i.value]

/-- A clause after its values were taken: its text with placeholders, the bound values and the
values left in the queue. -/
structure Spliced where
  text : List Char
  bindings : List Value
  rest : List Interpolation
  deriving Repr

/-- Inserts the placeholders of the values at the front of the queue into a clause that occupies
the bytes from `start` to `stop`.  Text inserted before moves the positions by `shift`. -/
def insertValues (start stop shift : Nat) (text : List Char) :
    List Interpolation → Except ParseError Spliced
  | [] => .ok ⟨text, [], []⟩
  | i :: queue =>
    if stop < i.offset then .ok ⟨text, [], i :: queue⟩
    else if i.offset < start then .error ⟨i.offset, .misplacedValue⟩
    else
      let (front, back) := Text.cutAt (i.offset - start + shift) text
      match insertValues start stop (shift + Text.bytes i.marks) (front ++ i.marks ++ back)
        queue with
      | .error e => .error e
      | .ok s => .ok { s with bindings := i.bound ++ s.bindings }

/-- **Takes the values of a clause** from the queue; the clause's text is trimmed at the end. -/
def splice (clause : List Char) (start : Nat) (queue : List Interpolation) :
    Except ParseError Spliced :=
  match insertValues start (start + Text.bytes clause) 0 clause queue with
  | .error e => .error e
  | .ok s => .ok { s with text := Text.trim s.text }

/-! ## Nodes under construction -/

def Relation.addAttribute (r : Relation) (name : String) : Relation :=
  if r.hasAttribute name then r else { r with attributes := r.attributes ++ [name] }

def Relation.attach (r child : Relation) : Relation :=
  { r with relations := r.relations ++ [child] }

/-- The name of a node in the message that its body is not closed. -/
def Relation.label (r : Relation) : String :=
  if r.type.isEmpty then "mutation" else r.type

/-! ## The pass over the lines -/

/-- Reads the lines with `focus` as the innermost open node and `around` the nodes around it.  The
body of a mutation has to be closed and ends the query; a query of relations may go on after each
of them, and its stray lines are skipped.  `stop` is the length of the literal text. -/
def readLines (mutation : Bool) (stop : Nat) :
    List Line → List Interpolation → Relation → List Relation →
      Except ParseError (Relation × List Interpolation)
  | [], queue, focus, around =>
    if around.isEmpty && !mutation then .ok (focus, queue)
    else .error ⟨stop, .unclosed focus.label⟩
  | l :: rest, queue, focus, around =>
    match l.relationStart? with
    | some m =>
      match splice m.clause m.start queue with
      | .error e => .error e
      | .ok s =>
        let node : Relation :=
          { type := String.ofList m.type, sql := String.ofList s.text, bindings := s.bindings }
        readLines mutation stop rest s.rest node (focus :: around)
    | none =>
      if l.isFinish then
        match around with
        | outer :: more => readLines mutation stop rest queue (outer.attach focus) more
        | [] => if mutation then .ok (focus, queue) else readLines mutation stop rest queue focus []
      else if around.isEmpty && !mutation then readLines mutation stop rest queue focus around
      else readLines mutation stop rest queue (focus.addAttribute (String.ofList l.text)) around

/-- The tree of the given lines, with the values that no clause took. -/
def readRoot (stop : Nat) (queue : List Interpolation) :
    List Line → Except ParseError (Relation × List Interpolation)
  | [] => .error ⟨0, .empty⟩
  | l :: rest =>
    if l.mutation?.isSome then
      if l.opens then
        match splice l.body l.start queue with
        | .error e => .error e
        | .ok s =>
          let root : Relation :=
            { sql := String.ofList s.text, bindings := s.bindings,
              table := String.ofList (targetTable s.text) }
          readLines true stop rest s.rest root []
      else .error ⟨l.start, .unopenedMutation⟩
    else readLines false stop (l :: rest) queue {} []

/-- **The tree of a query**: its literal text with the given values at their positions. -/
def parseLiteral (literal : List Char) (queue : List Interpolation) :
    Except ParseError Relation :=
  match readRoot (Text.bytes literal) queue (Line.scan literal) with
  | .error e => .error e
  | .ok (root, []) => .ok root
  | .ok (_, i :: _) => .error ⟨i.offset, .misplacedValue⟩

def Template.parse (t : Template) : Except QueryError Relation :=
  match t.interpolations with
  | .error e => .error (.template e)
  | .ok queue =>
    match parseLiteral t.literal queue with
    | .error e => .error (.parse e)
    | .ok root => .ok root

def parseText (s : String) : Except QueryError Relation :=
  (Template.ofText s).parse

end TreeQuery.Query

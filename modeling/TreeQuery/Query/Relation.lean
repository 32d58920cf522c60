import TreeQuery.Value

/-!
# Relation trees

A parsed query is a tree of relations.  The root is synthetic: it has no type; it carries a
statement if the query is a mutation, and nothing but its children otherwise.  Below the root
each node names an entity, with the clause that restricts it, the values bound in the clause, the
attributes asked for and the nested relations.
-/

namespace TreeQuery.Query

/-- **A node of the query tree.** -/
structure Relation where
  /-- The entity's name; empty at the root. -/
  type : String := ""
  /-- The table that a mutation at the root changes, when its statement names one plainly. -/
  table : String := ""
  /-- The clause after the entity's name; the whole statement of a mutation. -/
  sql : String := ""
  /-- The values bound to the clause's placeholders, in order. -/
  bindings : List Value := []
  attributes : List String := []
  relations : List Relation := []
  deriving Repr

namespace Relation

/-- The attribute that selects every property of a document. -/
def wildcard : String := "*"

def isRoot (r : Relation) : Bool := r.type.isEmpty

def isMutation (r : Relation) : Bool := r.isRoot && !r.sql.isEmpty

def hasAttribute (r : Relation) (name : String) : Bool :=
  r.attributes.any (· == name)

def child? (r : Relation) (type : String) : Option Relation :=
  r.relations.find? fun c => c.type == type

/-- Whether the node selects every property: a lone wildcard and no nested relations. -/
def isWildcard (r : Relation) : Bool :=
  r.relations.isEmpty && r.attributes == [wildcard]

end Relation

end TreeQuery.Query

import TreeQuery.Json.Write
import TreeQuery.Query.Relation

/-!
# Relation trees as JSON

The JSON text of a relation tree, with its empty parts left out.
-/

namespace TreeQuery.Json

def textMember (name s : String) : List (String × String) :=
  if s.isEmpty then [] else [(name, string s)]

def listMember (name : String) (elements : List String) : List (String × String) :=
  if elements.isEmpty then [] else [(name, array elements)]

mutual

/-- **The JSON text of a relation tree**, if all its values have one. -/
def ofRelation : Query.Relation → Option String
  | ⟨type, table, sql, bindings, attributes, relations⟩ =>
    match encodeList bindings, ofRelations relations with
    | some vs, some rs =>
      some (object (textMember "type" type ++ textMember "table" table ++ textMember "sql" sql ++
        listMember "variables" vs ++ listMember "attributes" (attributes.map string) ++
        listMember "relations" rs))
    | _, _ => none

def ofRelations : List Query.Relation → Option (List String)
  | [] => some []
  | r :: rest =>
    match ofRelation r with
    | none => none
    | some t => (ofRelations rest).map (t :: ·)

end

end TreeQuery.Json

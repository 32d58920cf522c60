import TreeQuery.Query.Template

/-!
# Values dealt out to several queries

A run may hold several query blocks.  The values given for the run are dealt out in order: each
block takes as many as it has markers, and none may be left over.
-/

namespace TreeQuery.Query

inductive BatchError where
  /-- A block, counted from one, has more markers than values remain. -/
  | tooFew (block markers : Nat) (marker : String) (remaining : Nat)
  | tooMany (given markers : Nat) (marker : String)
  /-- A block is no template with the values that it takes. -/
  | template (e : TemplateError)
  deriving DecidableEq, Repr

def BatchError.message : BatchError → String
  | .tooFew block markers marker remaining =>
    s!"block {block} has {markers} {marker} markers but only {remaining} values remain"
  | .tooMany given markers marker =>
    s!"{given} values given but the query has {markers} {marker} markers"
  | .template e => e.message

/-- Deals values out to the blocks from the `index`-th on; gives the templates and the values left
over. -/
def dealFrom (marker : String) (index : Nat) :
    List String → List Value → Except BatchError (List Template × List Value)
  | [], values => .ok ([], values)
  | block :: rest, values =>
    let n := Text.occurrences marker.toList block.toList
    if values.length < n then .error (.tooFew index n marker values.length)
    else
      match Template.split block marker (values.take n) with
      | .error e => .error (.template e)
      | .ok template =>
        match dealFrom marker (index + 1) rest (values.drop n) with
        | .error e => .error e
        | .ok (templates, left) => .ok (template :: templates, left)

/-- **The templates of the blocks**, the values dealt out in order. -/
def deal (blocks : List String) (marker : String) (values : List Value) :
    Except BatchError (List Template) :=
  let marker := Template.markerOrDefault marker
  match dealFrom marker 1 blocks values with
  | .error e => .error e
  | .ok (templates, []) => .ok templates
  | .ok (_, left) => .error (.tooMany values.length (values.length - left.length) marker)

end TreeQuery.Query

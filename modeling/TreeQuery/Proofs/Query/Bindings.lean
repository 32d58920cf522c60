import TreeQuery.Proofs.Query.Tree

/-!
# The values of a template are bound in order

Values reach the tree through a queue that every clause takes from (`splice`).  Listing the values
bound in the tree (`Relation.allBindings`) gives back the values of the template in their order, a
sequence as its elements (`allBindings_of_parse`).

While a query is read, the open nodes are the last branch of the tree in the making: what they
and their closed children have bound so far, from the root down (`boundAlong`), followed by what
the queue still holds, is the same list before and after every line.
-/

namespace TreeQuery.Query

open List

/-- The values that a value stands for: the elements of a sequence, the value itself otherwise. -/
def valuesOf (v : Value) : List Value :=
  v.elements?.getD [v]

theorem Interpolation.bound_eq (i : Interpolation) : i.bound = valuesOf i.value := by
  unfold Interpolation.bound valuesOf
  cases i.value.elements? <;> rfl

def queued (queue : List Interpolation) : List Value :=
  queue.flatMap Interpolation.bound

/-! ## Values bound along the open nodes -/

/-- What is bound along the open nodes, the outermost first; `around` are the nodes around
`focus`, the innermost first. -/
def boundAlong (focus : Relation) : List Relation → List Value
  | [] => focus.allBindings
  | outer :: more => boundAlong outer more ++ focus.allBindings

theorem boundAlong_attach (outer focus : Relation) (more : List Relation) :
    boundAlong (outer.attach focus) more = boundAlong focus (outer :: more) := by
  cases more with
  | nil => exact outer.allBindings_attach focus
  | cons next more =>
    simp only [boundAlong, Relation.allBindings_attach, append_assoc]

theorem boundAlong_addAttribute (focus : Relation) (name : String) (around : List Relation) :
    boundAlong (focus.addAttribute name) around = boundAlong focus around := by
  cases around <;> simp only [boundAlong, Relation.allBindings_addAttribute]

/-! ## What a clause takes -/

variable {queue : List Interpolation} {root : Relation} {rest : List Interpolation}

theorem insertValues_conserves {start stop shift : Nat} {text : List Char} {s : Spliced}
    (h : insertValues start stop shift text queue = .ok s) :
    s.bindings ++ queued s.rest = queued queue := by
  induction queue generalizing shift text s with
  | nil =>
    cases h
    rfl
  | cons i queue ih =>
    unfold insertValues at h
    split at h
    · cases h
      rfl
    split at h
    · cases h
    simp only at h
    split at h
    · cases h
    rename_i hs
    cases h
    rw [append_assoc, ih hs]
    rfl

/-- **A clause takes values off the front of the queue**, in order, and leaves the others. -/
theorem splice_conserves {clause : List Char} {start : Nat}
    {s : Spliced} (h : splice clause start queue = .ok s) :
    s.bindings ++ queued s.rest = queued queue := by
  unfold splice at h
  split at h
  · cases h
  rename_i hs
  cases h
  have hc := insertValues_conserves hs
  exact hc

/-! ## What the lines bind -/

/-- **Every line conserves the values** bound along the open nodes together with the queue. -/
theorem readLines_conserves {mutation : Bool} {stop : Nat} {lines : List Line}
    {focus : Relation} {around : List Relation}
    (h : readLines mutation stop lines queue focus around = .ok (root, rest)) :
    root.allBindings ++ queued rest = boundAlong focus around ++ queued queue := by
  induction lines generalizing queue focus around with
  | nil =>
    unfold readLines at h
    split at h
    · rename_i hout
      have hnil : around = [] := by simp_all
      subst hnil
      cases h
      rfl
    · cases h
  | cons l lines ih =>
    unfold readLines at h
    split at h
    · -- a line that opens a relation: what its clause binds comes off the queue
      split at h
      · cases h
      rename_i hs
      rw [ih h]
      simp only [boundAlong, Relation.allBindings_eq, Relation.bindingsOf, append_nil,
        append_assoc]
      rw [splice_conserves hs]
    · split at h
      · -- a closing line: the relation is attached, or the root is complete
        split at h
        · rw [ih h, boundAlong_attach]
        split at h
        · cases h
          rfl
        · exact ih h
      · split at h
        · exact ih h
        · rw [ih h, boundAlong_addAttribute]

theorem readRoot_conserves {stop : Nat} {lines : List Line}
    (h : readRoot stop queue lines = .ok (root, rest)) :
    root.allBindings ++ queued rest = queued queue := by
  unfold readRoot at h
  split at h
  · cases h
  split at h
  · split at h
    · split at h
      · cases h
      rename_i hs
      rw [readLines_conserves h]
      simp only [boundAlong, Relation.allBindings_eq, Relation.bindingsOf, append_nil]
      exact splice_conserves hs
    · cases h
  · rw [readLines_conserves h]
    rfl

theorem allBindings_of_parseLiteral {literal : List Char}
    (h : parseLiteral literal queue = .ok root) :
    root.allBindings = queued queue := by
  unfold parseLiteral at h
  split at h
  · cases h
  · rename_i hr
    cases h
    simpa [queued] using readRoot_conserves hr
  · cases h

/-! ## The values of a template -/

theorem queued_place (offset : Nat) (segments : List String) (values : List Value)
    (h : segments.length = values.length + 1) :
    queued (Template.place offset segments values) = values.flatMap valuesOf := by
  induction values generalizing offset segments with
  | nil => cases segments <;> rfl
  | cons v values ih =>
    cases segments with
    | nil => cases h
    | cons s segments =>
      have hrest := ih (offset + Text.bytes s.toList) segments (Nat.succ.inj h)
      simp only [Template.place, queued, flatMap_cons, Interpolation.bound_eq] at hrest ⊢
      rw [hrest]

theorem queued_interpolations {t : Template}
    (h : t.interpolations = .ok queue) : queued queue = t.values.flatMap valuesOf := by
  unfold Template.interpolations at h
  split at h
  · rename_i hv
    cases h
    rw [isEmpty_iff.mp hv]
    rfl
  · split at h
    · rename_i hc
      cases h
      exact queued_place 0 t.segments t.values hc
    · cases h

/-- **Parsing conserves values**: the values bound in the tree, from the root down and in the order
of declaration, are the values of the template in order, each sequence as its elements. -/
theorem allBindings_of_parse {t : Template} {root : Relation} (h : t.parse = .ok root) :
    root.allBindings = t.values.flatMap valuesOf := by
  unfold Template.parse at h
  split at h
  · cases h
  · rename_i hq
    split at h
    · cases h
    · rename_i hp
      cases h
      rw [allBindings_of_parseLiteral hp, queued_interpolations hq]

/-- The template used below: a mutation with two values in its header and a sequence in the clause
of a nested relation. -/
def sampleUpdate : Template where
  segments := ["UPDATE users SET age = ", ", name = ", " \x7b\n id\n cars WHERE brand IN (",
    ") \x7b\n brand\n \x7d\n\x7d"]
  values := [.int 30, .text "Ann", .list [.text "Saab", .null]]

theorem allBindings_sampleUpdate :
    ∃ root, sampleUpdate.parse = .ok root ∧
      root.allBindings = [.int 30, .text "Ann", .text "Saab", .null] := by
  have h : sampleUpdate.parse = .ok
      { sql := "UPDATE users SET age = ?, name = ?", table := "users",
        bindings := [.int 30, .text "Ann"], attributes := ["id"],
        relations := [{ type := "cars", sql := "WHERE brand IN (?,?)",
                        bindings := [.text "Saab", .null], attributes := ["brand"] }] } := by
    rfl
  exact ⟨_, h, allBindings_of_parse h⟩

end TreeQuery.Query

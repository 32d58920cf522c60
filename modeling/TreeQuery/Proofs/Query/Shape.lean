import TreeQuery.Proofs.Query.Tree

/-!
# What a tree takes from the values of its template

A value enters a tree in two ways: it is bound to a node, and it leaves placeholders in the node's
clause.  The placeholders depend only on the **shape** of the value: whether it is a sequence, and
of how many elements.  So two templates with the same segments, and values of the same shapes,
have the same tree apart from the bound values, or are malformed in the same way
(`skeleton_parse_eq`).

Everything the reader of lines looks at is carried along twice here, once for each template: the
queues agree in positions and shapes (`Interpolation.outline`), the nodes in their skeletons.
-/

namespace TreeQuery.Query

open List

/-- **The shape of a value**: the number of elements of a sequence, nothing for a scalar. -/
def shape (v : Value) : Option Nat :=
  v.elements?.map length

/-- What the reader sees of an interpolation: its position and the shape of its value. -/
def Interpolation.outline (i : Interpolation) : Nat × Option Nat :=
  (i.offset, shape i.value)

theorem Interpolation.marks_eq (i : Interpolation) :
    i.marks = ((shape i.value).map Sql.Placeholder.marks).getD ['?'] := by
  unfold Interpolation.marks shape
  cases i.value.elements? <;> rfl

theorem Interpolation.marks_congr {i i' : Interpolation} (h : shape i.value = shape i'.value) :
    i.marks = i'.marks := by
  rw [i.marks_eq, i'.marks_eq, h]

/-- Two outcomes that agree up to a view fail alike, or succeed with results of the same view. -/
theorem outcomes_of_map_eq {ε α β : Type} {f : α → β} {x x' : Except ε α} (h : x.map f = x'.map f) :
    (∃ e, x = .error e ∧ x' = .error e) ∨ ∃ a a', x = .ok a ∧ x' = .ok a' ∧ f a = f a' := by
  cases x with
  | error e =>
    cases x' with
    | error e' => exact .inl ⟨e, rfl, by rw [Except.error.inj h]⟩
    | ok a' => cases h
  | ok a =>
    cases x' with
    | error e' => cases h
    | ok a' => exact .inr ⟨a, a', rfl, rfl, Except.ok.inj h⟩

/-! ## Clauses -/

/-- What the reader sees of a clause after its values were taken. -/
def Spliced.outline (s : Spliced) : List Char × List (Nat × Option Nat) :=
  (s.text, s.rest.map Interpolation.outline)

variable {queue queue' : List Interpolation} {values values' : List Value}

theorem insertValues_outline {start stop shift : Nat} {text : List Char}
    (h : queue.map Interpolation.outline = queue'.map Interpolation.outline) :
    (insertValues start stop shift text queue).map Spliced.outline =
      (insertValues start stop shift text queue').map Spliced.outline := by
  induction queue generalizing queue' shift text with
  | nil =>
    rw [map_nil, eq_comm, map_eq_nil_iff] at h
    rw [h]
  | cons i queue ih =>
    cases queue' with
    | nil => cases h
    | cons i' queue' =>
      obtain ⟨hi, hq⟩ := cons.inj h
      obtain ⟨ho, hs⟩ := Prod.mk.inj hi
      have hm := Interpolation.marks_congr hs
      unfold insertValues
      rw [← ho]
      split
      · simp only [Except.map, Spliced.outline, h]
      split
      · rfl
      rw [← hm]
      dsimp only
      rcases outcomes_of_map_eq (ih hq) with ⟨e, he, he'⟩ | ⟨r, r', hr, hr', hrr⟩
      · rw [he, he']
      · rw [hr, hr']
        exact congrArg Except.ok hrr

theorem splice_outline {clause : List Char} {start : Nat}
    (h : queue.map Interpolation.outline = queue'.map Interpolation.outline) :
    (splice clause start queue).map Spliced.outline =
      (splice clause start queue').map Spliced.outline := by
  unfold splice
  rcases outcomes_of_map_eq (insertValues_outline h) with ⟨e, he, he'⟩ | ⟨s, s', hs, hs', hss⟩
  · rw [he, he']
  · rw [hs, hs']
    obtain ⟨ht, hr⟩ := Prod.mk.inj hss
    simp only [Except.map, Spliced.outline, ht, hr]

/-! ## Lines -/

/-- What the reader of lines gives, without the values. -/
def readOutline (r : Relation × List Interpolation) : Relation × List (Nat × Option Nat) :=
  (r.1.skeleton, r.2.map Interpolation.outline)

/-- **Reading lines keeps to skeletons and outlines**: from nodes of equal skeletons and queues of
equal outlines it fails alike or ends in the same way. -/
theorem readLines_outline {mutation : Bool} {stop : Nat} {lines : List Line}
    {focus focus' : Relation} {around around' : List Relation}
    (hq : queue.map Interpolation.outline = queue'.map Interpolation.outline)
    (hf : focus.skeleton = focus'.skeleton)
    (ha : around.map Relation.skeleton = around'.map Relation.skeleton) :
    (readLines mutation stop lines queue focus around).map readOutline =
      (readLines mutation stop lines queue' focus' around').map readOutline := by
  have hempty : around.isEmpty = around'.isEmpty := by
    rw [← isEmpty_map (f := Relation.skeleton), ha, isEmpty_map]
  induction lines generalizing queue queue' focus focus' around around' with
  | nil =>
    have hlabel : focus.label = focus'.label := by
      rw [← focus.label_skeleton, hf, focus'.label_skeleton]
    unfold readLines
    rw [← hempty, ← hlabel]
    split
    · simp only [Except.map, readOutline, hf, hq]
    · rfl
  | cons l lines ih =>
    have hfa : (focus :: around).map Relation.skeleton =
        (focus' :: around').map Relation.skeleton := by
      rw [map_cons, map_cons, hf, ha]
    unfold readLines
    split
    · -- a line that opens a relation; the clause of either side has the same marks
      rename_i m _
      rcases outcomes_of_map_eq (splice_outline hq) with ⟨e, he, he'⟩ | ⟨s, s', hs, hs', hss⟩
      · rw [he, he']
      rw [hs, hs']
      obtain ⟨ht, hr⟩ := Prod.mk.inj hss
      refine ih hr ?_ hfa rfl
      rw [Relation.skeleton_eq_skeleton_iff, ht]
      exact ⟨rfl, rfl, rfl, rfl, rfl⟩
    split
    · -- a closing line: both sides are equally deep
      cases around with
      | nil =>
        cases around' with
        | nil =>
          dsimp only
          split
          · simp only [Except.map, readOutline, hf, hq]
          · exact ih hq hf rfl rfl
        | cons outer' more' => cases ha
      | cons outer more =>
        cases around' with
        | nil => cases ha
        | cons outer' more' =>
          obtain ⟨ho, hm⟩ := cons.inj ha
          refine ih hq ?_ hm ?_
          · rw [Relation.skeleton_attach, Relation.skeleton_attach, ho, hf]
          · rw [← isEmpty_map (f := Relation.skeleton), hm, isEmpty_map]
    · rw [← hempty]
      split
      · exact ih hq hf ha hempty
      · refine ih hq ?_ ha hempty
        rw [Relation.skeleton_addAttribute, Relation.skeleton_addAttribute, hf]

theorem readRoot_outline {stop : Nat} {lines : List Line}
    (hq : queue.map Interpolation.outline = queue'.map Interpolation.outline) :
    (readRoot stop queue lines).map readOutline = (readRoot stop queue' lines).map readOutline := by
  unfold readRoot
  split
  · rfl
  split
  · split
    · rcases outcomes_of_map_eq (splice_outline hq) with ⟨e, he, he'⟩ | ⟨s, s', hs, hs', hss⟩
      · rw [he, he']
      rw [hs, hs']
      obtain ⟨ht, hr⟩ := Prod.mk.inj hss
      refine readLines_outline hr ?_ rfl
      rw [Relation.skeleton_eq_skeleton_iff, ht]
      exact ⟨rfl, rfl, rfl, rfl, rfl⟩
    · rfl
  · exact readLines_outline hq rfl rfl

theorem skeleton_parseLiteral_eq (literal : List Char)
    (hq : queue.map Interpolation.outline = queue'.map Interpolation.outline) :
    (parseLiteral literal queue).map Relation.skeleton =
      (parseLiteral literal queue').map Relation.skeleton := by
  unfold parseLiteral
  rcases outcomes_of_map_eq (readRoot_outline hq) with
    ⟨e, he, he'⟩ | ⟨⟨root, rest⟩, ⟨root', rest'⟩, hr, hr', hrr⟩
  · rw [he, he']
  rw [hr, hr']
  obtain ⟨hroot, hrest⟩ := Prod.mk.inj hrr
  cases rest with
  | nil =>
    cases rest' with
    | nil => exact congrArg Except.ok hroot
    | cons i' rest' => cases hrest
  | cons i rest =>
    cases rest' with
    | nil => cases hrest
    | cons i' rest' =>
      obtain ⟨ho, -⟩ := Prod.mk.inj (cons.inj hrest).1
      simp only [Except.map, ho]

/-! ## Templates -/

theorem place_outline {offset : Nat} {segments : List String}
    (h : values.map shape = values'.map shape) :
    (Template.place offset segments values).map Interpolation.outline =
      (Template.place offset segments values').map Interpolation.outline := by
  induction values generalizing offset segments values' with
  | nil =>
    rw [map_nil, eq_comm, map_eq_nil_iff] at h
    rw [h]
  | cons v values ih =>
    cases values' with
    | nil => cases h
    | cons v' values' =>
      obtain ⟨hv, hvs⟩ := cons.inj h
      cases segments with
      | nil => rfl
      | cons s segments =>
        simp only [Template.place, map_cons, Interpolation.outline, hv]
        exact congrArg _ (ih hvs)

theorem interpolations_outline (segments : List String) (h : values.map shape = values'.map shape) :
    (Template.interpolations ⟨segments, values⟩).map (map Interpolation.outline) =
      (Template.interpolations ⟨segments, values'⟩).map (map Interpolation.outline) := by
  have hlen : values.length = values'.length := by
    rw [← length_map (f := shape), h, length_map]
  have hempty : values.isEmpty = values'.isEmpty := by
    rw [← isEmpty_map (f := shape), h, isEmpty_map]
  unfold Template.interpolations
  dsimp only
  rw [← hempty, ← hlen]
  split
  · rfl
  · split
    · simp only [Except.map, place_outline h]
    · rfl

/-- **A tree depends on the shapes of the values only**, apart from the values bound in it: two
templates with the same segments and values of the same shapes fail with the same error, or have
trees of the same skeleton. -/
theorem skeleton_parse_eq (segments : List String) (h : values.map shape = values'.map shape) :
    (Template.parse ⟨segments, values⟩).map Relation.skeleton =
      (Template.parse ⟨segments, values'⟩).map Relation.skeleton := by
  unfold Template.parse
  rcases outcomes_of_map_eq (interpolations_outline segments h) with
    ⟨e, he, he'⟩ | ⟨queue, queue', hq, hq', hqq⟩
  · rw [he, he']
  rw [hq, hq']
  simp only [Template.literal]
  rcases outcomes_of_map_eq (skeleton_parseLiteral_eq (segments.flatMap String.toList) hqq) with
    ⟨e, he, he'⟩ | ⟨root, root', hr, hr', hrr⟩
  · rw [he, he']
  · rw [hr, hr']
    exact congrArg Except.ok hrr

end TreeQuery.Query

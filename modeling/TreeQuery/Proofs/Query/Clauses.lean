import TreeQuery.Proofs.Outcome
import TreeQuery.Proofs.Query.Lines
import TreeQuery.Proofs.Query.Tree

/-!
# Where values may be written

A value has its place inside a clause.  The **clause spans** of a text (`clauseSpans`) are the
closed intervals of byte positions that its clauses occupy: for a line that starts a relation, from
the end of the type to the final brace, and for the header of a mutation, from its start to the
final brace.  They are read off the lines alone.

A template with values is well formed exactly when it has one more segment than values, its literal
text is well formed, and every value stands in a clause span; its tree is then laid out as the tree
of the literal text (`parse_isOk_iff`).  The first value outside of every span is the one that is
reported.

While the lines are read, the queue of values is compared with the spans to come.  Both are in the
order of the text, and no two spans touch.  So a clause takes from the front of the queue the
values that its own span covers (`splice_cases`), and what the remaining spans miss of the remaining
queue does not change.
-/

namespace TreeQuery.Query

open List

/-! ## Spans -/

/-- **A closed interval of byte positions** of the literal text. -/
structure Span where
  start : Nat
  stop : Nat
  deriving DecidableEq, Repr

/-- Some span holds the position. -/
def Covered (spans : List Span) (offset : Nat) : Prop :=
  ∃ span ∈ spans, span.start ≤ offset ∧ offset ≤ span.stop

instance (spans : List Span) (offset : Nat) : Decidable (Covered spans offset) :=
  inferInstanceAs (Decidable (∃ span ∈ spans, _))

/-- The spans of the relations that start in the given lines, with `depth` bodies open around them.
A mutation ends with the brace that closes its own body. -/
def spansFrom (mutation : Bool) (depth : Nat) : List Line → List Span
  | [] => []
  | l :: rest =>
    match l.relationStart? with
    | some m => ⟨m.start, m.stop⟩ :: spansFrom mutation (depth + 1) rest
    | none =>
      if l.isFinish then
        if depth = 0 ∧ mutation then [] else spansFrom mutation (depth - 1) rest
      else spansFrom mutation depth rest

/-- **The clause spans of a literal text**, in the order of the text. -/
def clauseSpans (literal : List Char) : List Span :=
  match Line.scan literal with
  | [] => []
  | l :: rest =>
    if l.mutation?.isSome then
      ⟨l.start, l.start + Text.bytes l.body⟩ :: spansFrom true 0 rest
    else spansFrom false 0 (l :: rest)

/-- The first position that no span holds. -/
def missed (spans : List Span) (offsets : List Nat) : Option Nat :=
  offsets.find? fun offset => ¬ Covered spans offset

variable {spans : List Span}

theorem missed_eq_none {offsets : List Nat} :
    missed spans offsets = none ↔ ∀ offset ∈ offsets, Covered spans offset := by
  simp [missed]

variable {span : Span} {queue : List Interpolation} {offset : Nat} {start : Nat}

/-- Spans start inside the lines that they belong to. -/
theorem exists_line_of_mem_spansFrom {mutation : Bool} {depth : Nat} {lines : List Line}
    (h : span ∈ spansFrom mutation depth lines) : ∃ l ∈ lines, l.start ≤ span.start := by
  induction lines generalizing depth with
  | nil => cases h
  | cons l lines ih =>
    have hlater {depth : Nat} (h : span ∈ spansFrom mutation depth lines) :
        ∃ l' ∈ l :: lines, l'.start ≤ span.start := by
      obtain ⟨l', hl', hstart⟩ := ih h
      exact ⟨l', mem_cons_of_mem _ hl', hstart⟩
    unfold spansFrom at h
    split at h
    · rename_i m hm
      rcases mem_cons.mp h with rfl | h
      · refine ⟨l, mem_cons_self, ?_⟩
        rw [(Line.text_of_relationStart? hm).2]
        exact Nat.le_add_right _ _
      · exact hlater h
    · split at h
      · split at h
        · cases h
        · exact hlater h
      · exact hlater h

/-- A span ends before the brace of its line. -/
theorem stop_lt_of_relationStart? {l : Line} {m : RelationStart} (h : l.relationStart? = some m) :
    m.stop < l.stop := by
  obtain ⟨htext, hstart⟩ := Line.text_of_relationStart? h
  have hbrace : Text.bytes ['{'] = 1 := rfl
  rw [RelationStart.stop, Line.stop, htext, Text.bytes_append, Text.bytes_append, hstart]
  omega

/-! ## Positions and spans in order -/

/-- A position before all spans is the first one missed. -/
theorem missed_of_lt (offsets : List Nat) (hbefore : offset < span.start)
    (hspans : ∀ s ∈ spans, span.start ≤ s.start) :
    missed (span :: spans) (offset :: offsets) = some offset := by
  have hmiss : ¬ Covered (span :: spans) offset := by
    rintro ⟨s, hs, hstart, -⟩
    rcases mem_cons.mp hs with rfl | hs
    · omega
    · have := hspans s hs
      omega
  rw [missed, find?_cons_of_pos (by simpa using hmiss)]

/-- Positions from the start of the first span on: those up to its end are held by it, and it does
not matter for the others. -/
theorem missed_cons {offsets : List Nat} (hsorted : offsets.Pairwise (· ≤ ·))
    (hfrom : ∀ o ∈ offsets, span.start ≤ o) :
    missed (span :: spans) offsets = missed spans (offsets.dropWhile fun o => o ≤ span.stop) := by
  induction offsets with
  | nil => rfl
  | cons o offsets ih =>
    obtain ⟨hle, hsorted⟩ := pairwise_cons.mp hsorted
    by_cases ho : o ≤ span.stop
    · have hcovered : Covered (span :: spans) o :=
        ⟨span, mem_cons_self, hfrom o mem_cons_self, ho⟩
      rw [dropWhile_cons_of_pos (by simpa using ho), missed,
        find?_cons_of_neg (by simpa using hcovered)]
      exact ih hsorted fun o' ho' => hfrom o' (mem_cons_of_mem _ ho')
    rw [dropWhile_cons_of_neg (by simpa using ho)]
    -- all positions are past the first span, so it holds none of them
    have hpast : ∀ o' ∈ o :: offsets, span.stop < o' := by
      intro o' ho'
      rcases mem_cons.mp ho' with rfl | ho'
      · omega
      · have := hle o' ho'
        omega
    have hsame : ∀ o' ∈ o :: offsets, (Covered (span :: spans) o' ↔ Covered spans o') := by
      intro o' ho'
      have := hpast o' ho'
      constructor
      · rintro ⟨s, hs, hin⟩
        rcases mem_cons.mp hs with rfl | hs
        · omega
        · exact ⟨s, hs, hin⟩
      · rintro ⟨s, hs, hin⟩
        exact ⟨s, mem_cons_of_mem _ hs, hin⟩
    unfold missed
    rw [← head?_filter, ← head?_filter]
    congr 1
    refine filter_congr fun o' ho' => ?_
    simp only [hsame o' ho']

/-! ## What a clause takes -/

/-- The positions of the values in a queue. -/
def offsetsOf (queue : List Interpolation) : List Nat :=
  queue.map Interpolation.offset

theorem insertValues_of_le (hfrom : ∀ i ∈ queue, start ≤ i.offset) (stop shift : Nat)
    (text : List Char) : ∃ s, insertValues start stop shift text queue = .ok s ∧
      s.rest = queue.dropWhile fun i => i.offset ≤ stop := by
  induction queue generalizing shift text with
  | nil => exact ⟨_, rfl, rfl⟩
  | cons i queue ih =>
    unfold insertValues
    by_cases hstop : i.offset ≤ stop
    · have hstart := hfrom i mem_cons_self
      rw [if_neg (by omega), if_neg (by omega), dropWhile_cons_of_pos (by simpa using hstop)]
      dsimp only
      obtain ⟨s, hs, hrest⟩ := ih (fun j hj => hfrom j (mem_cons_of_mem _ hj))
        (shift + Text.bytes i.marks) ((Text.cutAt (i.offset - start + shift) text).1 ++ i.marks ++
          (Text.cutAt (i.offset - start + shift) text).2)
      rw [hs]
      exact ⟨_, rfl, hrest⟩
    · rw [if_pos (by omega), dropWhile_cons_of_neg (by simpa using hstop)]
      exact ⟨_, rfl, rfl⟩

theorem splice_nil (clause : List Char) (start : Nat) :
    splice clause start [] = .ok ⟨Text.trim clause, [], []⟩ := rfl

/-- **A clause and the queue.**  Either the first value stands before the clause, and is reported;
or the clause takes the values that its span holds, and leaves the rest. -/
theorem splice_cases (clause : List Char) (hsorted : (offsetsOf queue).Pairwise (· ≤ ·))
    (hspans : ∀ s ∈ spans, start ≤ s.start) : let span : Span := ⟨start, start + Text.bytes clause⟩
    (∃ offset, splice clause start queue = .error ⟨offset, .misplacedValue⟩ ∧
        missed (span :: spans) (offsetsOf queue) = some offset) ∨
      ∃ s, splice clause start queue = .ok s ∧ (offsetsOf s.rest).Pairwise (· ≤ ·) ∧
        missed (span :: spans) (offsetsOf queue) = missed spans (offsetsOf s.rest) := by
  intro span
  by_cases hfirst : ∃ i rest, queue = i :: rest ∧ i.offset < start
  · obtain ⟨i, rest, rfl, hi⟩ := hfirst
    refine .inl ⟨i.offset, ?_, missed_of_lt _ hi hspans⟩
    unfold splice insertValues
    rw [if_neg (by omega), if_pos hi]
  have hfrom : ∀ i ∈ queue, start ≤ i.offset := by
    cases queue with
    | nil => simp
    | cons j queue =>
      have hj : start ≤ j.offset := Nat.le_of_not_lt fun hlt => hfirst ⟨j, queue, rfl, hlt⟩
      intro i hi
      rcases mem_cons.mp hi with rfl | hi
      · exact hj
      · have := (pairwise_cons.mp hsorted).1 i.offset (mem_map_of_mem hi)
        omega
  obtain ⟨s, hs, hrest⟩ := insertValues_of_le hfrom (start + Text.bytes clause) 0 clause
  have hdrop : offsetsOf s.rest = (offsetsOf queue).dropWhile fun o => o ≤ span.stop := by
    rw [hrest, offsetsOf, offsetsOf, dropWhile_map]
    rfl
  refine .inr ⟨{ s with text := Text.trim s.text }, ?_, ?_, ?_⟩
  · unfold splice
    rw [hs]
  · rw [hdrop]
    exact hsorted.sublist (dropWhile_sublist _)
  rw [hdrop]
  refine missed_cons hsorted fun o ho => ?_
  obtain ⟨i, hi, rfl⟩ := mem_map.mp ho
  exact hfrom i hi

/-! ## Layouts -/

namespace Relation

mutual

/-- **The layout of a tree**: every node without its clause and the values bound there. -/
def layout : Relation → Relation
  | ⟨type, table, _, _, attributes, relations⟩ =>
    ⟨type, table, "", [], attributes, layouts relations⟩

def layouts : List Relation → List Relation
  | [] => []
  | r :: rest => r.layout :: layouts rest

end

theorem layouts_eq_map (rs : List Relation) : layouts rs = rs.map layout := by
  induction rs with
  | nil => rfl
  | cons r rs ih => rw [layouts, ih, map_cons]

theorem layout_eq (r : Relation) :
    r.layout = ⟨r.type, r.table, "", [], r.attributes, r.relations.map layout⟩ := by
  cases r
  rw [layout, layouts_eq_map]

/-- **Two roots are laid out alike**: they have the same type and attributes, and relations of the
same layouts.  Their tables may differ. -/
def SameLayout (r r' : Relation) : Prop :=
  r.type = r'.type ∧ r.attributes = r'.attributes ∧
    r.relations.map layout = r'.relations.map layout

variable {r r' : Relation}

theorem layout_eq_layout_iff : r.layout = r'.layout ↔ r.SameLayout r' ∧ r.table = r'.table := by
  rw [layout_eq, layout_eq r', mk.injEq]
  constructor
  · rintro ⟨htype, htable, -, -, hattr, hrel⟩
    exact ⟨⟨htype, hattr, hrel⟩, htable⟩
  · rintro ⟨⟨htype, hattr, hrel⟩, htable⟩
    exact ⟨htype, htable, rfl, rfl, hattr, hrel⟩

theorem SameLayout.attach {child child' : Relation} (h : r.SameLayout r')
    (hc : child.layout = child'.layout) : (r.attach child).SameLayout (r'.attach child') := by
  obtain ⟨htype, hattr, hrel⟩ := h
  refine ⟨htype, hattr, ?_⟩
  simp only [Relation.attach, map_append, map_cons, map_nil, hrel, hc]

theorem SameLayout.addAttribute (h : r.SameLayout r') (name : String) :
    (r.addAttribute name).SameLayout (r'.addAttribute name) := by
  obtain ⟨htype, hattr, hrel⟩ := h
  unfold Relation.addAttribute hasAttribute
  rw [hattr]
  split
  · exact ⟨htype, hattr, hrel⟩
  · exact ⟨htype, rfl, hrel⟩

theorem table_addAttribute (r : Relation) (name : String) :
    (r.addAttribute name).table = r.table := by
  unfold Relation.addAttribute
  split <;> rfl

end Relation

/-- **Open nodes laid out alike**, innermost first.  Only at the root, which is the last, the tables
may differ. -/
inductive OpenAlike : List Relation → List Relation → Prop
  | root {r r' : Relation} (h : r.SameLayout r') : OpenAlike [r] [r']
  | nested {r r' : Relation} {stack stack' : List Relation} (h : r.layout = r'.layout)
      (hs : OpenAlike stack stack') : OpenAlike (r :: stack) (r' :: stack')

namespace OpenAlike

open List

variable {stack stack' : List Relation} {r r' : Relation}

theorem length_eq (h : OpenAlike stack stack') : stack.length = stack'.length := by
  induction h with
  | root => rfl
  | nested _ _ ih => rw [length_cons, length_cons, ih]

theorem sameLayout (h : OpenAlike (r :: stack) (r' :: stack')) : r.SameLayout r' := by
  cases h with
  | root h => exact h
  | nested h _ => exact (Relation.layout_eq_layout_iff.mp h).1

theorem addAttribute (h : OpenAlike (r :: stack) (r' :: stack')) (name : String) :
    OpenAlike (r.addAttribute name :: stack) (r'.addAttribute name :: stack') := by
  cases h with
  | root h => exact .root (h.addAttribute name)
  | nested h hs =>
    obtain ⟨hlayout, htable⟩ := Relation.layout_eq_layout_iff.mp h
    refine .nested (Relation.layout_eq_layout_iff.mpr ⟨hlayout.addAttribute name, ?_⟩) hs
    rw [Relation.table_addAttribute, Relation.table_addAttribute, htable]

theorem attach {child child' : Relation}
    (h : OpenAlike (child :: r :: stack) (child' :: r' :: stack')) :
    OpenAlike (r.attach child :: stack) (r'.attach child' :: stack') := by
  cases h with
  | nested hc hs =>
    cases hs with
    | root h => exact .root (h.attach hc)
    | nested h hs =>
      obtain ⟨hlayout, htable⟩ := Relation.layout_eq_layout_iff.mp h
      exact .nested (Relation.layout_eq_layout_iff.mpr ⟨hlayout.attach hc, htable⟩) hs

end OpenAlike

/-! ## Reading with values and without -/

/-- The tree that was read, unless a value is left over. -/
def settle : Except ParseError (Relation × List Interpolation) → Except ParseError Relation
  | .error e => .error e
  | .ok (root, []) => .ok root
  | .ok (_, i :: _) => .error ⟨i.offset, .misplacedValue⟩

theorem parseLiteral_eq (literal : List Char) (queue : List Interpolation) :
    parseLiteral literal queue =
      settle (readRoot (Text.bytes literal) queue (Line.scan literal)) := by
  unfold parseLiteral settle
  rcases readRoot (Text.bytes literal) queue (Line.scan literal) with e | ⟨root, _ | ⟨i, rest⟩⟩
  all_goals rfl

theorem settle_ok (root : Relation) (queue : List Interpolation) :
    settle (.ok (root, queue)) =
      match missed [] (offsetsOf queue) with
      | none => .ok root
      | some offset => .error ⟨offset, .misplacedValue⟩ := by
  cases queue with
  | nil => rfl
  | cons i queue => simp [settle, missed, offsetsOf, Covered]

/-- **How reading with values compares to reading without them**: it fails when the text is
malformed; otherwise the first value outside of all spans is reported, and without such a value the
trees are laid out alike. -/
def Compares (spans : List Span) (offsets : List Nat) (plain read : Except ParseError Relation) :
    Prop :=
  match plain with
  | .error _ => ∃ e, read = .error e
  | .ok root =>
    match missed spans offsets with
    | none => ∃ root', read = .ok root' ∧ root'.SameLayout root
    | some offset => read = .error ⟨offset, .misplacedValue⟩

namespace Compares

open List

variable {spans : List Span} {offsets : List Nat} {plain read : Except ParseError Relation}

theorem exists_ok_iff (h : Compares spans offsets plain read) :
    (∃ root, read = .ok root) ↔
      (∃ root, plain = .ok root) ∧ ∀ offset ∈ offsets, Covered spans offset := by
  unfold Compares at h
  rw [← missed_eq_none]
  cases plain with
  | error e =>
    obtain ⟨e', rfl⟩ := h
    simp
  | ok root =>
    dsimp only at h
    cases hmissed : missed spans offsets with
    | none =>
      rw [hmissed] at h
      obtain ⟨root', rfl, -⟩ := h
      simp
    | some offset =>
      rw [hmissed] at h
      simp [h]

theorem sameLayout {root' : Relation} (h : Compares spans offsets plain read)
    (hread : read = .ok root') : ∃ root, plain = .ok root ∧ root'.SameLayout root := by
  obtain ⟨⟨root, rfl⟩, hall⟩ := h.exists_ok_iff.mp ⟨root', hread⟩
  unfold Compares at h
  dsimp only at h
  rw [missed_eq_none.mpr hall] at h
  obtain ⟨root'', hroot, hlayout⟩ := h
  cases hread.symm.trans hroot
  exact ⟨root, rfl, hlayout⟩

theorem eq_error {root : Relation} (h : Compares spans offsets plain read)
    (hplain : plain = .ok root) (hmissed : missed spans offsets = some offset) :
    read = .error ⟨offset, .misplacedValue⟩ := by
  unfold Compares at h
  rw [hplain] at h
  dsimp only at h
  rwa [hmissed] at h

end Compares

theorem compares_ok {root root' : Relation} (h : root'.SameLayout root) :
    Compares [] (offsetsOf queue) (settle (.ok (root, []))) (settle (.ok (root', queue))) := by
  rw [settle_ok root' queue]
  unfold Compares
  dsimp only [settle]
  split
  · exact ⟨root', rfl, h⟩
  · rfl

/-- A clause at the head of the lines: if reading on compares with the spans and values after it,
reading compares with its span as well. -/
theorem compares_splice {clause : List Char} {plain : Except ParseError Relation}
    {next : Spliced → Except ParseError (Relation × List Interpolation)}
    (hsorted : (offsetsOf queue).Pairwise (· ≤ ·)) (hspans : ∀ s ∈ spans, start ≤ s.start)
    (hnext : ∀ s, (offsetsOf s.rest).Pairwise (· ≤ ·) →
      Compares spans (offsetsOf s.rest) plain (settle (next s))) :
    Compares (⟨start, start + Text.bytes clause⟩ :: spans) (offsetsOf queue) plain
      (settle (match splice clause start queue with
        | .error e => .error e
        | .ok s => next s)) := by
  rcases splice_cases clause hsorted hspans with
    ⟨offset, hs, hmissed⟩ | ⟨s, hs, hrest, hmissed⟩
  · rw [hs]
    unfold Compares
    dsimp only [settle]
    split
    · exact ⟨_, rfl⟩
    · rw [hmissed]
  · rw [hs]
    have h := hnext s hrest
    unfold Compares at h ⊢
    rwa [hmissed]

/-- **Reading lines compares with the spans among them.** -/
theorem compares_readLines {mutation : Bool} {stop : Nat} {lines : List Line}
    {focus focus' : Relation} {around around' : List Relation}
    (hlines : lines.Pairwise fun l l' => l.stop < l'.start)
    (hsorted : (offsetsOf queue).Pairwise (· ≤ ·))
    (hopen : OpenAlike (focus' :: around') (focus :: around)) :
    Compares (spansFrom mutation around.length lines) (offsetsOf queue)
      (settle (readLines mutation stop lines [] focus around))
      (settle (readLines mutation stop lines queue focus' around')) := by
  have hlength : around'.length = around.length := Nat.succ.inj hopen.length_eq
  have hempty : around'.isEmpty = around.isEmpty := by
    rw [Bool.eq_iff_iff, isEmpty_iff_length_eq_zero, isEmpty_iff_length_eq_zero, hlength]
  induction lines generalizing queue focus focus' around around' with
  | nil =>
    unfold readLines spansFrom
    rw [hempty]
    split
    · exact compares_ok hopen.sameLayout
    · exact ⟨_, rfl⟩
  | cons l lines ih =>
    obtain ⟨hafter, hlines⟩ := pairwise_cons.mp hlines
    unfold readLines spansFrom
    cases hm : l.relationStart? with
    | some m =>
      dsimp only
      rw [splice_nil]
      refine compares_splice hsorted ?_ ?_
      · intro s hs
        obtain ⟨l', hl', hstart⟩ := exists_line_of_mem_spansFrom hs
        have hord := hafter l' hl'
        have hend := stop_lt_of_relationStart? hm
        rw [RelationStart.stop] at hend
        omega
      · intro s hrest
        refine ih hlines hrest (.nested ?_ hopen) ?_ rfl
        · rw [Relation.layout_eq, Relation.layout_eq]
        · rw [length_cons, length_cons, hlength]
    | none =>
      dsimp only
      split
      · -- a closing brace: both sides are equally deep
        cases hopen with
        | root h =>
          dsimp only [length_nil]
          cases mutation with
          | true =>
            rw [if_pos ⟨rfl, rfl⟩]
            exact compares_ok h
          | false =>
            rw [if_neg (by simp)]
            exact ih hlines hsorted (.root h) rfl rfl
        | nested hc hs =>
          cases around with
          | nil => cases hs
          | cons outer more =>
            cases around' with
            | nil => cases hs
            | cons outer' more' =>
              rw [if_neg (by simp)]
              have hmore : more'.length = more.length := Nat.succ.inj hlength
              refine ih hlines hsorted (OpenAlike.nested hc hs).attach hmore ?_
              rw [Bool.eq_iff_iff, isEmpty_iff_length_eq_zero, isEmpty_iff_length_eq_zero,
                hmore]
      · rw [hempty]
        split
        · exact ih hlines hsorted hopen hlength hempty
        · exact ih hlines hsorted (hopen.addAttribute _) hlength hempty

theorem compares_parseLiteral (literal : List Char) (hsorted : (offsetsOf queue).Pairwise (· ≤ ·)) :
    Compares (clauseSpans literal) (offsetsOf queue) (parseLiteral literal [])
      (parseLiteral literal queue) := by
  have hlines := Line.scan_pairwise literal
  rw [parseLiteral_eq, parseLiteral_eq]
  unfold readRoot clauseSpans
  cases hscan : Line.scan literal with
  | nil => exact ⟨_, rfl⟩
  | cons l lines =>
    rw [hscan] at hlines
    dsimp only
    split
    · -- the header of a mutation is a clause of its own
      split
      · rw [splice_nil]
        obtain ⟨hafter, hlines⟩ := pairwise_cons.mp hlines
        refine compares_splice hsorted ?_ ?_
        · intro s hs
          obtain ⟨l', hl', hstart⟩ := exists_line_of_mem_spansFrom hs
          have hord := hafter l' hl'
          rw [Line.stop] at hord
          omega
        · intro s hrest
          exact compares_readLines hlines hrest (.root ⟨rfl, rfl, rfl⟩)
      · exact ⟨_, rfl⟩
    · exact compares_readLines hlines hsorted (.root ⟨rfl, rfl, rfl⟩)

/-! ## Templates -/

/-- **The positions of a template's values**: each stands behind the segments before it. -/
def Template.offsets (t : Template) : List Nat :=
  (range t.values.length).map fun k =>
    Text.bytes ((t.segments.take (k + 1)).flatMap String.toList)

theorem offsetsOf_place {segments : List String} {values : List Value}
    (h : segments.length = values.length + 1) :
    offsetsOf (Template.place offset segments values) =
      (range values.length).map fun k =>
        offset + Text.bytes ((segments.take (k + 1)).flatMap String.toList) := by
  induction values generalizing offset segments with
  | nil => cases segments <;> rfl
  | cons v values ih =>
    cases segments with
    | nil => cases h
    | cons s segments =>
      rw [Template.place, offsetsOf, map_cons, length_cons, range_succ_eq_map,
        map_cons, map_map]
      have hhead : offset + Text.bytes s.toList =
          offset + Text.bytes (((s :: segments).take (0 + 1)).flatMap String.toList) := by
        simp
      refine cons_eq_cons.mpr ⟨hhead, (ih (Nat.succ.inj h)).trans ?_⟩
      refine map_congr_left fun k _ => ?_
      simp only [Function.comp_apply, Nat.succ_eq_add_one, take_succ_cons, flatMap_cons,
        Text.bytes_append]
      omega

theorem le_of_mem_offsetsOf_place {segments : List String} {values : List Value}
    {o : Nat} (h : o ∈ offsetsOf (Template.place offset segments values)) : offset ≤ o := by
  induction values generalizing offset segments with
  | nil => cases segments <;> cases h
  | cons v values ih =>
    cases segments with
    | nil => cases h
    | cons s segments =>
      rcases mem_cons.mp h with rfl | h
      · exact Nat.le_add_right _ _
      · have := ih h
        omega

/-- Values are listed in the order of the text. -/
theorem offsetsOf_place_sorted (offset : Nat) (segments : List String) (values : List Value) :
    (offsetsOf (Template.place offset segments values)).Pairwise (· ≤ ·) := by
  induction values generalizing offset segments with
  | nil => cases segments <;> exact List.Pairwise.nil
  | cons v values ih =>
    cases segments with
    | nil => exact List.Pairwise.nil
    | cons s segments =>
      exact List.Pairwise.cons (fun _ ho => le_of_mem_offsetsOf_place ho) (ih _ _)

theorem parseText_ofList (literal : List Char) :
    parseText (String.ofList literal) =
      (parseLiteral literal []).mapError QueryError.parse := by
  have hliteral : (Template.ofText (String.ofList literal)).literal = literal := by
    simp [Template.ofText, Template.literal]
  have hnone : (Template.ofText (String.ofList literal)).interpolations = .ok [] := rfl
  unfold parseText Template.parse
  rw [hliteral, hnone]
  dsimp only
  cases parseLiteral literal [] <;> rfl

/-- A template with values is its literal text with a queue of values, if the counts match. -/
theorem parse_eq_of_values {t : Template} (hv : t.values ≠ []) :
    (t.segments.length = t.values.length + 1 ∧ ∃ queue, offsetsOf queue = t.offsets ∧
        (offsetsOf queue).Pairwise (· ≤ ·) ∧
        t.parse = (parseLiteral t.literal queue).mapError QueryError.parse) ∨
      (t.segments.length ≠ t.values.length + 1 ∧ ∃ e, t.parse = .error e) := by
  have hempty : t.values.isEmpty = false := by simpa using hv
  unfold Template.parse Template.interpolations
  rw [hempty]
  by_cases hcount : t.segments.length = t.values.length + 1
  · refine .inl ⟨hcount, Template.place 0 t.segments t.values, ?_, offsetsOf_place_sorted _ _ _, ?_⟩
    · rw [offsetsOf_place hcount]
      simp only [Nat.zero_add, Template.offsets]
    · rw [if_neg Bool.false_ne_true, if_pos hcount]
      dsimp only
      cases parseLiteral t.literal (Template.place 0 t.segments t.values) <;> rfl
  · exact .inr ⟨hcount, _, by rw [if_neg Bool.false_ne_true, if_neg hcount]⟩

/-- **Where values are allowed.**  A template with values is well formed exactly when there is one
more segment than values, the literal text is well formed, and each value stands in a clause span.
Its tree is then laid out as that of the literal text.  If a value stands in no span, the position
of the first such value is reported. -/
theorem parse_isOk_iff (t : Template) (hv : t.values ≠ []) :
    ((∃ root, t.parse = .ok root) ↔
        t.segments.length = t.values.length + 1 ∧
          (∃ plain, parseText (String.ofList t.literal) = .ok plain) ∧
          ∀ offset ∈ t.offsets, Covered (clauseSpans t.literal) offset) ∧
      (∀ root, t.parse = .ok root →
        ∃ plain, parseText (String.ofList t.literal) = .ok plain ∧ root.SameLayout plain) ∧
      ∀ plain offset, t.segments.length = t.values.length + 1 →
        parseText (String.ofList t.literal) = .ok plain →
        t.offsets.find? (fun o => ¬ Covered (clauseSpans t.literal) o) = some offset →
        t.parse = .error (.parse ⟨offset, .misplacedValue⟩) := by
  rcases parse_eq_of_values hv with ⟨hcount, queue, hoffsets, hsorted, hparse⟩ | ⟨hcount, e, hparse⟩
  · have hcompares := compares_parseLiteral t.literal hsorted
    rw [hoffsets] at hcompares
    rw [hparse, parseText_ofList]
    refine ⟨?_, ?_, ?_⟩
    · simp only [mapError_eq_ok, hcompares.exists_ok_iff, hcount, true_and]
    · intro root hroot
      obtain ⟨plain, hplain, hlayout⟩ := hcompares.sameLayout (mapError_eq_ok.mp hroot)
      exact ⟨plain, mapError_eq_ok.mpr hplain, hlayout⟩
    · intro plain offset _ hplain hfirst
      rw [hcompares.eq_error (mapError_eq_ok.mp hplain) hfirst]
      rfl
  · rw [hparse]
    refine ⟨⟨?_, ?_⟩, ?_, ?_⟩
    · rintro ⟨root, hroot⟩
      cases hroot
    · rintro ⟨h, -⟩
      exact absurd h hcount
    · intro root hroot
      cases hroot
    · intro plain offset h
      exact absurd h hcount

/-- A mutation with a value at the very end of its header, and two values where the empty clause of
a relation is. -/
def edgeTemplate : Template where
  segments := ["UPDATE users SET age =", "\x7b\n id\n cars", "", "\x7b\n  brand\n \x7d\n\x7d"]
  values := [.int 30, .list [], .text "x"]

/-- The same with a value in the middle of the relation's type, and one behind the mutation. -/
def strayTemplate : Template where
  segments := ["UPDATE users SET age =", "\x7b\n id\n ca",
    "rs\x7b\n  brand\n \x7d\n\x7d\nmore ", "\x7b"]
  values := [.int 30, .list [], .text "x"]

theorem parse_isOk_edges :
    edgeTemplate.values ≠ [] ∧ strayTemplate.values ≠ [] ∧
      clauseSpans edgeTemplate.literal = [⟨0, 22⟩, ⟨33, 33⟩] ∧ edgeTemplate.offsets = [22, 33, 33] ∧
      (∃ root, edgeTemplate.parse = .ok root) ∧
      strayTemplate.parse = .error (.parse ⟨31, .misplacedValue⟩) := by
  have hedge : edgeTemplate.values ≠ [] := List.cons_ne_nil _ _
  have hstray : strayTemplate.values ≠ [] := List.cons_ne_nil _ _
  have hok := (parse_isOk_iff edgeTemplate hedge).1.mpr ⟨rfl, ⟨_, rfl⟩, by decide⟩
  have herror := (parse_isOk_iff strayTemplate hstray).2.2 _ 31 rfl rfl (by decide)
  exact ⟨hedge, hstray, by decide, by decide, hok, herror⟩

end TreeQuery.Query

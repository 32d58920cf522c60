import TreeQuery.Proofs.Query.Bindings
import TreeQuery.Proofs.Query.Clauses
import TreeQuery.Proofs.Sql.Placeholder

/-!
# The placeholders of a clause

A value leaves question marks in the clause it is written in, one for each value that is bound for
it.  If the literal text of a template is plain (`Template.Plain`), these are the only ones: every
clause of the tree is tame text with as many question marks as the node has values, and every
attribute is tame text without one (`marked_of_parse`).

A clause is a part of the literal text, and so are the two sides of a value written in it.  While
values are inserted, the text is what has been done so far and a rest of the clause that is still
as it was (`insertValues_tame`).
-/

namespace TreeQuery

open List Sql.Placeholder

namespace Text

theorem eq_nil_of_bytes {cs : List Char} (h : bytes cs = 0) : cs = [] := by
  cases cs with
  | nil => rfl
  | cons c cs =>
    have hc := c.utf8Size_pos
    simp only [bytes] at h
    omega

/-- Of two ways to cut a text, the shorter front is the start of the longer one. -/
theorem exists_eq_append_of_bytes_le {a b c d : List Char} (h : a ++ b = c ++ d)
    (hle : bytes a ≤ bytes c) : ∃ x, c = a ++ x ∧ b = x ++ d := by
  rcases append_eq_append_iff.mp h with ⟨x, hc, hb⟩ | ⟨x, ha, hd⟩
  · exact ⟨x, hc, hb⟩
  -- then `x` is empty, as `a` has no more bytes than `c`
  rw [ha, bytes_append] at hle
  have hx : x = [] := eq_nil_of_bytes (by omega)
  subst hx
  exact ⟨[], by simpa using ha.symm, by simpa using hd.symm⟩

theorem cutAt_append (a b : List Char) : cutAt (bytes a) (a ++ b) = (a, b) := by
  induction a with
  | nil =>
    cases b with
    | nil => rfl
    | cons c b =>
      have hc := c.utf8Size_pos
      simp only [bytes, nil_append, cutAt]
      rw [if_neg (by omega)]
  | cons c a ih =>
    simp only [cons_append, bytes, cutAt]
    rw [if_pos (by omega), Nat.add_sub_cancel_left, ih]

theorem count_eq_zero_of_blank {c : Char} (hc : isBlank c = false) {blanks : List Char}
    (h : ∀ b ∈ blanks, isBlank b) : blanks.count c = 0 := by
  rw [count_eq_zero]
  intro hmem
  have hblank := h c hmem
  rw [hc] at hblank
  cases hblank

/-- Trimming takes away blanks only, and leaves a part of the text. -/
theorem trim_spec (cs : List Char) :
    trim cs <:+: cs ∧ ∀ c, isBlank c = false → (trim cs).count c = cs.count c := by
  obtain ⟨blanks, hcs, hblanks⟩ := exists_eq_trim_append cs
  have hlead : ∀ b ∈ cs.takeWhile isBlank, isBlank b = true :=
    fun b hb => all_eq_true.mp all_takeWhile b hb
  refine ⟨⟨_, blanks, hcs.symm⟩, fun c hc => ?_⟩
  have hcount := congrArg (List.count c) hcs
  rw [count_append, count_append, count_eq_zero_of_blank hc hlead,
    count_eq_zero_of_blank hc hblanks] at hcount
  omega

end Text

namespace Query

/-! ## Plain templates -/

/-- A template whose literal text has no question mark, no quote and no comment. -/
structure Template.Bare (t : Template) : Prop where
  unmarked : '?' ∉ t.literal
  unquoted : ∀ c ∈ t.literal, isQuote c = false
  no_line_comment : ¬ ['-', '-'] <:+: t.literal
  no_comment : ¬ ['/', '*'] <:+: t.literal

/-- **A plain template**: moreover its literal text has no `$` in front of a digit, and no value
stands in front of a digit, unless it is an empty sequence. -/
structure Template.Plain (t : Template) : Prop extends t.Bare where
  no_dollar : ∀ d, d.isDigit = true → ¬ ['$', d] <:+: t.literal
  no_digit : ∀ k v d, t.values[k]? = some v → valuesOf v ≠ [] →
    ((t.segments.drop (k + 1)).flatMap String.toList).head? = some d → d.isDigit = false

theorem Template.Plain.tame {t : Template} (h : t.Plain) : Tame t.literal := by
  refine ⟨h.unquoted, isChain_iff_forall_rel_of_append_cons_cons.mpr ?_⟩
  intro a b front back htext
  have hpair : [a, b] <:+: t.literal := ⟨front, back, by simp [htext]⟩
  refine ⟨?_, ?_, ?_⟩
  · rintro ⟨rfl, rfl⟩
    exact h.no_line_comment hpair
  · rintro ⟨rfl, rfl⟩
    exact h.no_comment hpair
  · rintro ⟨rfl | rfl, hb⟩
    · exact h.no_dollar b hb hpair
    · exact h.unmarked (hpair.subset (by simp))

/-- **A value stands in the literal text**: at its position the text can be cut, and no digit
follows unless nothing is bound for the value. -/
def Interpolation.Stands (literal : List Char) (i : Interpolation) : Prop :=
  ∃ front back, literal = front ++ back ∧ i.offset = Text.bytes front ∧
    (i.bound = [] ∨ ∀ c ∈ back.head?, c.isDigit = false)

theorem stands_of_mem_place {literal : List Char} (front : List Char) {segments : List String}
    {values : List Value} (hlit : literal = front ++ segments.flatMap String.toList)
    (hdigit : ∀ k v d, values[k]? = some v → valuesOf v ≠ [] →
      ((segments.drop (k + 1)).flatMap String.toList).head? = some d → d.isDigit = false)
    {i : Interpolation} (hi : i ∈ Template.place (Text.bytes front) segments values) :
    i.Stands literal := by
  induction values generalizing front segments with
  | nil => cases segments <;> cases hi
  | cons v values ih =>
    cases segments with
    | nil => cases hi
    | cons s segments =>
      have hcut : literal = (front ++ s.toList) ++ segments.flatMap String.toList := by
        rw [hlit, flatMap_cons, append_assoc]
      simp only [Template.place, ← Text.bytes_append] at hi
      rcases mem_cons.mp hi with rfl | hi
      · refine ⟨_, _, hcut, rfl, ?_⟩
        by_cases hv : valuesOf v = []
        · exact .inl (by rw [Interpolation.bound_eq, hv])
        · exact .inr fun d hd => hdigit 0 v d rfl hv (by simpa using hd)
      · refine ih (front ++ s.toList) hcut (fun k w d hw hne hd => ?_) hi
        exact hdigit (k + 1) w d (by simpa using hw) hne (by simpa using hd)

/-! ## Marks in tame text -/

theorem Interpolation.marks_eq_bound (i : Interpolation) :
    i.marks = Sql.Placeholder.marks i.bound.length := by
  unfold Interpolation.marks Interpolation.bound
  cases i.value.elements? <;> rfl

theorem count_marks (n : Nat) : (marks n).count '?' = n := by
  fun_induction marks n with
  | case1 => rfl
  | case2 => rfl
  | case3 n ih => simp [ih]

theorem head?_marks (n : Nat) : ∀ c ∈ (marks n).head?, c = '?' := by
  fun_cases marks n <;> simp

theorem getLast?_marks (n : Nat) : ∀ c ∈ (marks n).getLast?, c = '?' := by
  fun_induction marks n with
  | case1 => simp
  | case2 => simp
  | case3 n ih =>
    intro c hc
    refine ih c ?_
    cases h : marks (n + 1) with
    | nil => cases n <;> cases h
    | cons d ds => simpa [h] using hc

theorem tame_marks (n : Nat) : Tame (marks n) := by
  fun_induction marks n with
  | case1 => decide
  | case2 => decide
  | case3 n ih =>
    have hfront : Tame ['?', ','] := by decide
    refine hfront.append ih ?_
    rintro x ⟨⟩ y hy
    rw [head?_marks _ y hy]
    decide

variable {back : List Char} {queue : List Interpolation} {s : Spliced} {root : Relation}
  {rest : List Interpolation}

/-- **Marks may be inserted into tame text** in front of anything but a digit. -/
theorem tame_insert {front : List Char} {n : Nat} (h : Tame (front ++ back))
    (hdigit : n = 0 ∨ ∀ c ∈ back.head?, c.isDigit = false) : Tame (front ++ marks n ++ back) := by
  rcases hdigit with rfl | hdigit
  · simpa [marks] using h
  have hfront : Tame front := h.part (infix_append [] front back)
  have hback : Tame back := h.part ⟨front, [], by simp⟩
  by_cases hn : marks n = []
  · simpa [hn] using h
  refine (hfront.append (tame_marks n) ?_).append hback ?_
  · intro x _ y hy
    rw [head?_marks n y hy]
    simp [Safe]
  intro x hx y hy
  have hx : x ∈ (marks n).getLast? := by
    rw [List.getLast?_append] at hx
    cases hlast : (marks n).getLast? with
    | none => exact absurd (List.getLast?_eq_none_iff.mp hlast) hn
    | some z => simpa [hlast] using hx
  rw [getLast?_marks n x hx]
  simp [Safe, hdigit y hy]

/-! ## Values in a clause -/

/-- A value that stands in a part of the literal text cuts this part in two. -/
theorem Interpolation.Stands.exists_cut {front part : List Char} {i : Interpolation}
    (h : i.Stands (front ++ part ++ back)) (hlow : Text.bytes front ≤ i.offset)
    (hhigh : i.offset ≤ Text.bytes (front ++ part)) :
    ∃ x y, part = x ++ y ∧ i.offset = Text.bytes (front ++ x) ∧
      (i.bound = [] ∨ ∀ c ∈ y.head?, c.isDigit = false) := by
  obtain ⟨pre, post, hcut, hoffset, hdigit⟩ := h
  obtain ⟨x, rfl, hx⟩ : ∃ x, pre = front ++ x ∧ part ++ back = x ++ post :=
    Text.exists_eq_append_of_bytes_le (by simpa using hcut) (by omega)
  obtain ⟨y, rfl, rfl⟩ : ∃ y, part = x ++ y ∧ post = y ++ back := by
    refine Text.exists_eq_append_of_bytes_le hx.symm ?_
    simp only [Text.bytes_append] at hhigh hoffset
    omega
  refine ⟨x, y, rfl, hoffset, hdigit.imp_right fun hdigit c hc => hdigit c ?_⟩
  rw [List.head?_append, Option.mem_def.mp hc]
  rfl

/-- **Inserting values keeps a clause tame**, and leaves one question mark for each bound value.
The text so far is `done`, made of the `taken` front of the clause; the `rest` of the clause is
still as it was. -/
theorem insertValues_tame {front taken done rest : List Char} {stop shift : Nat}
    (hqueue : ∀ i ∈ queue, i.Stands (front ++ taken ++ rest ++ back))
    (hsorted : (offsetsOf queue).Pairwise (· ≤ ·))
    (hfrom : ∀ i ∈ queue, Text.bytes front ≤ i.offset → Text.bytes (front ++ taken) ≤ i.offset)
    (hstop : stop = Text.bytes (front ++ taken ++ rest))
    (hdone : Text.bytes done = Text.bytes taken + shift)
    (htame : Tame (done ++ rest)) (hrest : rest.count '?' = 0)
    (h : insertValues (Text.bytes front) stop shift (done ++ rest) queue = .ok s) :
    Tame s.text ∧ s.text.count '?' = done.count '?' + s.bindings.length := by
  induction queue generalizing taken done rest shift s with
  | nil =>
    cases h
    exact ⟨htame, by simp [hrest]⟩
  | cons i queue ih =>
    unfold insertValues at h
    split at h
    · cases h
      exact ⟨htame, by simp [hrest]⟩
    split at h
    · cases h
    have hlow := hfrom i mem_cons_self (by omega)
    obtain ⟨x, y, rfl, hoffset, hdigit⟩ :=
      (hqueue i mem_cons_self).exists_cut hlow (by omega)
    have hpos : i.offset - Text.bytes front + shift = Text.bytes (done ++ x) := by
      simp only [Text.bytes_append] at hoffset ⊢
      omega
    rw [hpos, ← append_assoc, Text.cutAt_append] at h
    dsimp only at h
    split at h
    · cases h
    rename_i s' hs'
    cases h
    have htame' : Tame (done ++ x ++ i.marks ++ y) := by
      rw [i.marks_eq_bound]
      refine tame_insert (by simpa using htame) (hdigit.imp_left fun hnone => ?_)
      rw [hnone, length_nil]
    -- the values that follow stand behind the marks just written
    have hqueue' : ∀ j ∈ queue, j.Stands (front ++ (taken ++ x) ++ y ++ back) := by
      intro j hj
      simpa only [append_assoc] using hqueue j (mem_cons_of_mem _ hj)
    have hfrom' : ∀ j ∈ queue, Text.bytes front ≤ j.offset →
        Text.bytes (front ++ (taken ++ x)) ≤ j.offset := by
      intro j hj _
      have := (pairwise_cons.mp hsorted).1 j.offset (mem_map_of_mem hj)
      rw [← append_assoc]
      omega
    have hdone' : Text.bytes (done ++ x ++ i.marks) =
        Text.bytes (taken ++ x) + (shift + Text.bytes i.marks) := by
      simp only [Text.bytes_append] at hdone ⊢
      omega
    rw [count_append] at hrest
    obtain ⟨hs, hcount⟩ := ih hqueue' (pairwise_cons.mp hsorted).2 hfrom'
      (by simpa only [append_assoc] using hstop) hdone' htame' (by omega) hs'
    refine ⟨hs, ?_⟩
    have hmarks := count_marks i.bound.length
    rw [← i.marks_eq_bound] at hmarks
    simp only [count_append] at hcount
    simp only [length_append]
    omega

theorem rest_insertValues {start stop shift : Nat} {text : List Char}
    (h : insertValues start stop shift text queue = .ok s) : s.rest <:+ queue := by
  induction queue generalizing shift text s with
  | nil =>
    cases h
    exact suffix_refl _
  | cons i queue ih =>
    unfold insertValues at h
    split at h
    · cases h
      exact suffix_refl _
    split at h
    · cases h
    dsimp only at h
    split at h
    · cases h
    · rename_i hs
      cases h
      exact (ih hs).trans (suffix_cons i queue)

/-- What is known of the values that are still to be read: each stands in the literal text, and
they come in the order of the text. -/
structure Ready (literal : List Char) (queue : List Interpolation) : Prop where
  stands : ∀ i ∈ queue, i.Stands literal
  sorted : (offsetsOf queue).Pairwise (· ≤ ·)

theorem Ready.suffix {literal : List Char}
    (h : Ready literal queue) (hrest : rest <:+ queue) : Ready literal rest :=
  ⟨fun i hi => h.stands i (hrest.subset hi), h.sorted.sublist (hrest.sublist.map _)⟩

/-- **A clause that took its values** is tame, and has a question mark for each bound value. -/
theorem splice_tame {front clause : List Char} (htame : Tame clause) (hmark : clause.count '?' = 0)
    (hqueue : Ready (front ++ clause ++ back) queue)
    (h : splice clause (Text.bytes front) queue = .ok s) :
    Tame s.text ∧ s.text.count '?' = s.bindings.length ∧ s.rest <:+ queue := by
  unfold splice at h
  split at h
  · cases h
  rename_i s' hs'
  cases h
  obtain ⟨htrim, hcount⟩ := Text.trim_spec s'.text
  have hrest : s'.rest <:+ queue := rest_insertValues hs'
  have hstands : ∀ i ∈ queue, i.Stands (front ++ [] ++ clause ++ back) := by
    simpa using hqueue.stands
  obtain ⟨hs, hmarks⟩ : Tame s'.text ∧
      s'.text.count '?' = List.count '?' [] + s'.bindings.length := by
    refine insertValues_tame hstands hqueue.sorted ?_ ?_ rfl htame hmark hs'
    · simp
    · rw [append_nil, Text.bytes_append]
  refine ⟨hs.part htrim, ?_, hrest⟩
  rw [hcount '?' (by decide), hmarks]
  simp

/-! ## Nodes -/

/-- **A node is well marked**: its clause is tame and has a question mark for each of its values,
and its attributes are tame and have none. -/
structure Relation.Marked (r : Relation) : Prop where
  clause : Tame r.sql.toList
  count : r.sql.toList.count '?' = r.bindings.length
  attributes : ∀ a ∈ r.attributes, Tame a.toList ∧ a.toList.count '?' = 0

/-- Every node of a tree is well marked. -/
def Relation.AllMarked (r : Relation) : Prop :=
  ∀ n ∈ r.nodes, n.Marked

namespace Relation

variable {r : Relation}

theorem allMarked_iff :
    r.AllMarked ↔ r.Marked ∧ ∀ c ∈ r.relations, c.AllMarked := by
  unfold AllMarked
  rw [nodes_eq]
  simp only [forall_mem_cons, mem_nodesOf]
  exact and_congr_right fun _ =>
    ⟨fun h c hc n hn => h n ⟨c, hc, hn⟩, fun h n ⟨c, hc, hn⟩ => h c hc n hn⟩

theorem AllMarked.attach {child : Relation} (h : r.AllMarked) (hc : child.AllMarked) :
    (r.attach child).AllMarked := by
  obtain ⟨hr, hrs⟩ := allMarked_iff.mp h
  refine allMarked_iff.mpr ⟨⟨hr.clause, hr.count, hr.attributes⟩, fun c hmem => ?_⟩
  rcases mem_append.mp hmem with hmem | hmem
  · exact hrs c hmem
  · rw [mem_singleton.mp hmem]
    exact hc

theorem AllMarked.addAttribute (h : r.AllMarked) {name : String}
    (htame : Tame name.toList) (hmark : name.toList.count '?' = 0) :
    (r.addAttribute name).AllMarked := by
  obtain ⟨hr, hrs⟩ := allMarked_iff.mp h
  unfold Relation.addAttribute
  split
  · exact h
  refine allMarked_iff.mpr ⟨⟨hr.clause, hr.count, fun a ha => ?_⟩, hrs⟩
  rcases mem_append.mp ha with ha | ha
  · exact hr.attributes a ha
  · rw [mem_singleton.mp ha]
    exact ⟨htame, hmark⟩

/-- A node that was just opened, with a clause that took its values. -/
theorem allMarked_open {type table : String} (htame : Tame s.text)
    (hcount : s.text.count '?' = s.bindings.length) :
    AllMarked { type, table, sql := String.ofList s.text, bindings := s.bindings } := by
  refine allMarked_iff.mpr ⟨⟨?_, ?_, by simp⟩, by simp⟩
  · simpa using htame
  · simpa using hcount

end Relation

/-! ## Lines -/

section Lines

variable {literal : List Char} (htame : Tame literal) (hmark : '?' ∉ literal)

include htame hmark

/-- A part of the literal text is tame and has no question mark. -/
theorem tame_of_part {front part : List Char} (h : literal = front ++ part ++ back) :
    Tame part ∧ part.count '?' = 0 := by
  have hpart : part <:+: literal := ⟨front, back, h.symm⟩
  exact ⟨htame.part hpart, count_eq_zero.mpr fun hmem => hmark (hpart.subset hmem)⟩

/-- **Every line keeps the open nodes well marked.** -/
theorem readLines_marked {mutation : Bool} {stop : Nat} {lines : List Line}
    {focus : Relation} {around : List Relation}
    (hlines : ∀ l ∈ lines, l ∈ Line.scan literal) (hqueue : Ready literal queue)
    (hfocus : focus.AllMarked) (haround : ∀ r ∈ around, r.AllMarked)
    (h : readLines mutation stop lines queue focus around = .ok (root, rest)) : root.AllMarked := by
  induction lines generalizing queue focus around with
  | nil =>
    unfold readLines at h
    split at h
    · cases h
      exact hfocus
    · cases h
  | cons l lines ih =>
    have hlater : ∀ l ∈ lines, l ∈ Line.scan literal :=
      fun l' hl' => hlines l' (mem_cons_of_mem _ hl')
    obtain ⟨front, back, htext, hstart⟩ :=
      Line.exists_eq_append_of_mem_scan (hlines l mem_cons_self)
    unfold readLines at h
    split at h
    · -- a line that opens a relation: its clause is a part of the text
      rename_i m hm
      obtain ⟨hparts, hm⟩ := Line.text_of_relationStart? hm
      have hclause : literal = (front ++ m.type) ++ m.clause ++ (['{'] ++ back) := by
        rw [htext, hparts]
        simp only [append_assoc]
      split at h
      · cases h
      rename_i s hs
      rw [hm, hstart, ← Text.bytes_append] at hs
      obtain ⟨hpart, hnone⟩ := tame_of_part htame hmark hclause
      obtain ⟨hs, hcount, hrest⟩ := splice_tame hpart hnone (hclause ▸ hqueue) hs
      refine ih hlater (hqueue.suffix hrest) (Relation.allMarked_open hs hcount) ?_ h
      exact forall_mem_cons.mpr ⟨hfocus, haround⟩
    · split at h
      · -- a closing line
        split at h
        · obtain ⟨houter, hmore⟩ := forall_mem_cons.mp haround
          exact ih hlater hqueue (houter.attach hfocus) hmore h
        split at h
        · cases h
          exact hfocus
        · exact ih hlater hqueue hfocus haround h
      · split at h
        · exact ih hlater hqueue hfocus haround h
        obtain ⟨hpart, hnone⟩ := tame_of_part htame hmark htext
        refine ih hlater hqueue (hfocus.addAttribute ?_ ?_) haround h
        · simpa using hpart
        · simpa using hnone

theorem parseLiteral_marked
    (hqueue : Ready literal queue) (h : parseLiteral literal queue = .ok root) :
    root.AllMarked := by
  have hempty : Relation.AllMarked {} := by
    refine Relation.allMarked_iff.mpr ⟨⟨by decide, rfl, by simp⟩, by simp⟩
  have hroot {rest : List Interpolation}
      (h : readRoot (Text.bytes literal) queue (Line.scan literal) = .ok (root, rest)) :
      root.AllMarked := by
    generalize hscan : Line.scan literal = scanned at h
    have hlines : ∀ l ∈ scanned, l ∈ Line.scan literal := by simp [hscan]
    unfold readRoot at h
    split at h
    · cases h
    rename_i l lines
    obtain ⟨front, back, htext, hstart⟩ :=
      Line.exists_eq_append_of_mem_scan (hlines l mem_cons_self)
    split at h
    · split at h
      · -- the header of a mutation, without its brace
        rename_i hopens
        have hbody : literal = front ++ l.body ++ (['{'] ++ back) := by
          rw [htext, ← Line.body_append_of_opens hopens]
          simp only [append_assoc]
        split at h
        · cases h
        rename_i s hs
        rw [hstart] at hs
        obtain ⟨hpart, hnone⟩ := tame_of_part htame hmark hbody
        obtain ⟨hs, hcount, hrest⟩ := splice_tame hpart hnone (hbody ▸ hqueue) hs
        exact readLines_marked htame hmark
          (fun l' hl' => hlines l' (mem_cons_of_mem _ hl')) (hqueue.suffix hrest)
          (Relation.allMarked_open hs hcount) (by simp) h
      · cases h
    · exact readLines_marked htame hmark hlines hqueue hempty (by simp) h
  unfold parseLiteral at h
  split at h
  · cases h
  · rename_i hr
    cases h
    exact hroot hr
  · cases h

end Lines

/-- **The tree of a plain template is well marked**: in every clause there are as many question
marks as bound values, and nothing that could be taken for another placeholder. -/
theorem marked_of_parse {t : Template} (ht : t.Plain) (h : t.parse = .ok root) :
    root.AllMarked := by
  unfold Template.parse at h
  split at h
  · cases h
  rename_i queue hqueue
  have hready : Ready t.literal queue := by
    unfold Template.interpolations at hqueue
    split at hqueue
    · cases hqueue
      exact ⟨by simp, by simp [offsetsOf]⟩
    split at hqueue
    · cases hqueue
      exact ⟨fun i hi => stands_of_mem_place [] rfl ht.no_digit hi,
        offsetsOf_place_sorted 0 t.segments t.values⟩
    · cases hqueue
  split at h
  · cases h
  · rename_i hp
    cases h
    exact parseLiteral_marked ht.tame ht.unmarked hready hp

end Query
end TreeQuery

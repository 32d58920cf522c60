import TreeQuery.Proofs.Query.Clauses

/-!
# The braces of a query

Which texts are queries is decided by a counter.  The **level** of a line is the number of bodies
that are open before it (`leveled`): a line that starts a relation raises it, a lone closing brace
lowers it, and any other line leaves it.  A text is well formed exactly when the level comes back to
where it started (`WellBraced`): for a mutation, whose header opens a body of its own, when it falls
to zero at some line, behind which nothing is read; for any other query, when it is zero at the end.

The tree can be read off the levels as well.  Its nodes, each before those nested in it, are the
lines that start a relation, nested as deep as their levels say (`headingsAt`); and the attributes
of a node are the plain lines one level below its own, up to where the level falls back
(`bodyAttributes`).  `parseText_wellBraced` says both.

While lines are read, the attributes of the open nodes are not complete.  `along` lists the open
nodes as they will be once the lines to come are read; together with the headings among these lines
it is the same list before and after every line.
-/

namespace TreeQuery.Query

open List

/-! ## Kinds of lines -/

namespace Line

def asciiSpaces : List Char := [' ', '\t', '\n', '\x0b', '\x0c', '\r']

/-- **The header of a mutation**: a line that opens with one of the keywords, in any letter case,
and a white space character of ASCII behind it. -/
def IsHeader (l : Line) : Prop :=
  ∃ (k : MutationKeyword) (word after : List Char) (space : Char),
    l.text = word ++ space :: after ∧ word.map Char.toLower = k.lower.toList ∧ space ∈ asciiSpaces

/-- Whether the line starts a relation. -/
def starts (l : Line) : Bool :=
  l.relationStart?.isSome

/-- Whether the line is plain: it neither starts a relation nor closes a body. -/
def isPlain (l : Line) : Bool :=
  !l.starts && !l.isFinish

/-- The level behind a line, whose own level is given.  A closing brace that has nothing to close is
passed over. -/
def levelAfter (level : Nat) (l : Line) : Nat :=
  if l.starts then level + 1 else if l.isFinish then level - 1 else level

theorem opens_iff {k : MutationKeyword} {cs : List Char} :
    k.opens cs ↔ ∃ word after space, cs = word ++ space :: after ∧
      word.map Char.toLower = k.lower.toList ∧ space ∈ asciiSpaces := by
  have hlower : k.lower.toList.map Char.toLower = k.lower.toList := by
    cases k <;> decide
  have hspace (c : Char) :
      (c.isWhitespace || c == '\x0b' || c == '\x0c') = true ↔ c ∈ asciiSpaces := by
    simp only [asciiSpaces, Char.isWhitespace, Bool.or_eq_true, beq_iff_eq, decide_eq_true_eq,
      mem_cons, not_mem_nil, or_false]
    grind
  unfold MutationKeyword.opens Text.sameLetters
  dsimp only
  rw [Bool.and_eq_true, beq_iff_eq, hlower]
  constructor
  · rintro ⟨hword, hnext⟩
    cases hdrop : cs.drop k.lower.length with
    | nil =>
      rw [hdrop] at hnext
      cases hnext
    | cons c after =>
      rw [hdrop] at hnext
      refine ⟨cs.take k.lower.length, after, c, ?_, hword, (hspace c).mp hnext⟩
      rw [← hdrop, take_append_drop]
  · rintro ⟨word, after, space, rfl, hword, hmem⟩
    have hlength : k.lower.length = word.length := by
      rw [← String.length_toList, ← hword, length_map]
    rw [hlength, take_left, drop_left]
    exact ⟨hword, (hspace space).mpr hmem⟩

theorem isSome_mutation?_iff {l : Line} : l.mutation?.isSome ↔ l.IsHeader := by
  unfold mutation? MutationKeyword.ofText? IsHeader
  rw [List.find?_isSome]
  constructor
  · rintro ⟨k, -, hk⟩
    exact ⟨k, opens_iff.mp hk⟩
  · rintro ⟨k, hk⟩
    exact ⟨k, by cases k <;> simp, opens_iff.mpr hk⟩

instance (l : Line) : Decidable l.IsHeader :=
  decidable_of_iff _ isSome_mutation?_iff

theorem starts_of_relationStart? {l : Line} {m : RelationStart} (h : l.relationStart? = some m) :
    l.starts := by
  rw [starts, h]
  rfl

/-- A closing brace starts nothing. -/
theorem relationStart?_of_isFinish {l : Line} (h : l.isFinish) :
    l.relationStart? = none := by
  have hopens : l.opens = false := by
    rw [opens, eq_of_beq h]
    rfl
  rw [relationStart?, hopens]
  rfl

/-- **A line starts a relation, closes a body, or is plain.** -/
theorem kind_cases (l : Line) :
    (∃ m, l.relationStart? = some m) ∨ l.isFinish ∨ l.isPlain := by
  unfold isPlain starts
  cases l.relationStart? with
  | some m => exact .inl ⟨m, rfl⟩
  | none => cases l.isFinish <;> simp

theorem isPlain_iff {l : Line} :
    l.isPlain ↔ l.relationStart? = none ∧ l.isFinish = false := by
  unfold isPlain starts
  rw [Bool.and_eq_true, Bool.not_eq_true', Bool.not_eq_true', Option.isSome_eq_false_iff,
    Option.isNone_iff_eq_none]

variable {l : Line} (level : Nat)

theorem levelAfter_start (h : l.starts) : l.levelAfter level = level + 1 := by
  rw [levelAfter, if_pos h]

theorem levelAfter_finish (h : l.isFinish) : l.levelAfter level = level - 1 := by
  rw [levelAfter, starts, relationStart?_of_isFinish h, if_neg (by simp), if_pos h]

theorem levelAfter_plain (h : l.isPlain) : l.levelAfter level = level := by
  obtain ⟨hstart, hfinish⟩ := isPlain_iff.mp h
  rw [levelAfter, starts, hstart, hfinish, if_neg (by simp), if_neg (by simp)]

end Line

/-! ## Levels -/

/-- **The level behind some lines.** -/
def levelAfter (level : Nat) (lines : List Line) : Nat :=
  lines.foldl Line.levelAfter level

def leveled (level : Nat) : List Line → List (Line × Nat)
  | [] => []
  | l :: rest => (l, level) :: leveled (l.levelAfter level) rest

/-- **The braces of a text match.** -/
def WellBraced : List Line → Prop
  | [] => False
  | first :: rest =>
    if first.IsHeader then first.opens = true ∧ ∃ n, levelAfter 1 (rest.take n) = 0
    else levelAfter 0 (first :: rest) = 0

/-- The lines up to where the level falls below `top`. -/
def within (top level : Nat) (lines : List Line) : List (Line × Nat) :=
  (leveled level lines).takeWhile fun p => top ≤ p.2

theorem within_nil (top level : Nat) : within top level [] = [] := rfl

theorem within_cons {top level : Nat} (h : top ≤ level) (l : Line) (rest : List Line) :
    within top level (l :: rest) = (l, level) :: within top (l.levelAfter level) rest := by
  rw [within, leveled, takeWhile_cons_of_pos (by simpa using h)]
  rfl

theorem within_of_lt {top level : Nat} (h : level < top) (lines : List Line) :
    within top level lines = [] := by
  cases lines with
  | nil => rfl
  | cons l rest => rw [within, leveled, takeWhile_cons_of_neg (by simpa using h)]

theorem within_zero (level : Nat) (lines : List Line) :
    within 0 level lines = leveled level lines := by
  induction lines generalizing level with
  | nil => rfl
  | cons l rest ih => rw [within_cons (Nat.zero_le _), ih, leveled]

/-- The level falls to zero behind a line if it does so from the level behind its first line. -/
theorem exists_levelAfter_cons {level : Nat} (hlevel : level ≠ 0) (l : Line) (rest : List Line) :
    (∃ n, levelAfter level ((l :: rest).take n) = 0) ↔
      ∃ n, levelAfter (l.levelAfter level) (rest.take n) = 0 := by
  constructor
  · rintro ⟨n, hn⟩
    cases n with
    | zero => exact absurd hn hlevel
    | succ n => exact ⟨n, hn⟩
  · rintro ⟨n, hn⟩
    exact ⟨n + 1, hn⟩

/-! ## Headings -/

/-- **A node as it stands in the text**: its type, how deep it is nested, and its attributes. -/
structure Heading where
  type : String
  depth : Nat
  attributes : List String
  deriving DecidableEq, Repr

namespace Relation

mutual

/-- The nodes of a tree as headings, each before those nested in it; the tree is nested `depth`
deep. -/
def headings (depth : Nat) : Relation → List Heading
  | ⟨type, _, _, _, attributes, relations⟩ =>
    ⟨type, depth, attributes⟩ :: headingsOf (depth + 1) relations

/-- **The nodes of trees** as headings. -/
def headingsOf (depth : Nat) : List Relation → List Heading
  | [] => []
  | r :: rest => r.headings depth ++ headingsOf depth rest

end

theorem headings_eq (depth : Nat) (r : Relation) :
    r.headings depth = ⟨r.type, depth, r.attributes⟩ :: headingsOf (depth + 1) r.relations := by
  cases r
  rw [headings]

theorem headingsOf_append (depth : Nat) (rs ts : List Relation) :
    headingsOf depth (rs ++ ts) = headingsOf depth rs ++ headingsOf depth ts := by
  induction rs with
  | nil => rfl
  | cons r rs ih => rw [cons_append, headingsOf, headingsOf, ih, append_assoc]

theorem headingsOf_attach (depth : Nat) (r child : Relation) :
    headingsOf depth (r.attach child).relations =
      headingsOf depth r.relations ++ child.headings depth := by
  rw [attach, headingsOf_append, headingsOf, headingsOf, append_nil]

end Relation

/-- The plain lines directly in the body that a line of the given level opens; `lines` are those
behind it. -/
def ownLines (level : Nat) (lines : List (Line × Nat)) : List String :=
  ((lines.takeWhile fun p => level < p.2).filter fun p => p.1.isPlain && p.2 == level + 1).map
    fun p => String.ofList p.1.text

/-- **The attributes of a body**: its own plain lines, each once. -/
def bodyAttributes (level : Nat) (lines : List (Line × Nat)) : List String :=
  (ownLines level lines).eraseDups

/-- **The headings among lines**: those that start a relation, with their type, how far their level
is above `top`, and the attributes of their body. -/
def headingsAt (top : Nat) : List (Line × Nat) → List Heading
  | [] => []
  | (l, level) :: rest =>
    match l.relationStart? with
    | some m =>
      ⟨String.ofList m.type, level - top, bodyAttributes level rest⟩ :: headingsAt top rest
    | none => headingsAt top rest

theorem ownLines_plain {l : Line} (h : l.isPlain) (level : Nat) (rest : List (Line × Nat)) :
    ownLines level ((l, level + 1) :: rest) = String.ofList l.text :: ownLines level rest := by
  simp [ownLines, h]

/-- A line that is not plain, or lies deeper, is none of the body's own. -/
theorem ownLines_skip {l : Line} {level deeper : Nat} (hdeep : level < deeper)
    (h : l.isPlain = false ∨ level + 1 < deeper) (rest : List (Line × Nat)) :
    ownLines level ((l, deeper) :: rest) = ownLines level rest := by
  have hown : (l.isPlain && deeper == level + 1) = false := by
    rw [Bool.and_eq_false_iff, beq_eq_false_iff_ne]
    exact h.imp_right fun hlt => by omega
  rw [ownLines, takeWhile_cons_of_pos (by simpa using hdeep),
    filter_cons_of_neg (by simp [hown])]
  rfl

/-- The body ends where the level falls back. -/
theorem ownLines_within (top level : Nat) (lines : List Line) :
    ownLines level (within top level lines) = [] := by
  cases lines with
  | nil => rfl
  | cons l rest =>
    by_cases htop : top ≤ level
    · rw [within_cons htop, ownLines, takeWhile_cons_of_neg (by simp)]
      rfl
    · rw [within_of_lt (Nat.lt_of_not_le htop)]
      rfl

/-! ## One line of a text without values -/

/-- The node that a line opens, in a text without values. -/
def RelationStart.node (m : RelationStart) : Relation :=
  { type := String.ofList m.type, sql := String.ofList (Text.trim m.clause) }

section OneLine

open List

variable {l : Line} (mutation : Bool) (stop : Nat) (rest : List Line) (focus : Relation)

theorem readLines_start {m : RelationStart} (h : l.relationStart? = some m)
    (around : List Relation) :
    readLines mutation stop (l :: rest) [] focus around =
      readLines mutation stop rest [] m.node (focus :: around) := by
  rw [readLines.eq_def]
  dsimp only
  rw [h]
  dsimp only
  rw [splice_nil]
  rfl

theorem readLines_finish (h : l.isFinish) (outer : Relation) (more : List Relation) :
    readLines mutation stop (l :: rest) [] focus (outer :: more) =
      readLines mutation stop rest [] (outer.attach focus) more := by
  rw [readLines, Line.relationStart?_of_isFinish h]
  dsimp only
  rw [if_pos h]

/-- The brace that closes the body of a mutation ends the query. -/
theorem readLines_finish_mutation (h : l.isFinish) :
    readLines true stop (l :: rest) [] focus [] = .ok (focus, []) := by
  rw [readLines, Line.relationStart?_of_isFinish h]
  dsimp only
  rw [if_pos h, if_pos rfl]

theorem readLines_finish_stray (h : l.isFinish) :
    readLines false stop (l :: rest) [] focus [] = readLines false stop rest [] focus [] := by
  rw [readLines, Line.relationStart?_of_isFinish h]
  dsimp only
  rw [if_pos h, if_neg Bool.false_ne_true]

/-- A plain line is an attribute of the innermost node, unless it stands outside of all. -/
theorem readLines_plain (h : l.isPlain) (around : List Relation) :
    readLines mutation stop (l :: rest) [] focus around =
      readLines mutation stop rest []
        (if around.isEmpty && !mutation then focus
          else focus.addAttribute (String.ofList l.text)) around := by
  obtain ⟨hstart, hfinish⟩ := Line.isPlain_iff.mp h
  rw [readLines.eq_def]
  dsimp only
  rw [hstart]
  dsimp only
  rw [hfinish, if_neg Bool.false_ne_true]
  split <;> rfl

end OneLine

/-! ## Which texts are read -/

/-- The level of the relations at the top: a mutation has a body around them. -/
def topLevel (mutation : Bool) : Nat :=
  if mutation then 1 else 0

/-- **A mutation is read to the line where the level falls to zero.** -/
theorem readLines_mutation_isOk (stop : Nat) (lines : List Line) (focus : Relation)
    (around : List Relation) :
    (∃ root, readLines true stop lines [] focus around = .ok (root, [])) ↔
      ∃ n, levelAfter (around.length + 1) (lines.take n) = 0 := by
  induction lines generalizing focus around with
  | nil =>
    rw [readLines, Bool.not_true, Bool.and_false, if_neg Bool.false_ne_true]
    simp [levelAfter]
  | cons l rest ih =>
    rw [exists_levelAfter_cons (Nat.succ_ne_zero _)]
    rcases l.kind_cases with ⟨m, hm⟩ | hfinish | hplain
    · have hstarts := Line.starts_of_relationStart? hm
      rw [readLines_start _ _ _ _ hm, ih, Line.levelAfter_start _ hstarts]
      rfl
    · rw [Line.levelAfter_finish _ hfinish]
      cases around with
      | nil =>
        rw [readLines_finish_mutation _ _ _ hfinish]
        exact ⟨fun _ => ⟨0, rfl⟩, fun _ => ⟨_, rfl⟩⟩
      | cons outer more =>
        rw [readLines_finish _ _ _ _ hfinish, ih]
        rfl
    · rw [readLines_plain _ _ _ _ hplain, ih, Line.levelAfter_plain _ hplain]

/-- **Any other query is read if the level is zero at the end.** -/
theorem readLines_isOk (stop : Nat) (lines : List Line) (focus : Relation)
    (around : List Relation) :
    (∃ root, readLines false stop lines [] focus around = .ok (root, [])) ↔
      levelAfter around.length lines = 0 := by
  induction lines generalizing focus around with
  | nil =>
    rw [readLines]
    cases around <;> simp [levelAfter]
  | cons l rest ih =>
    rw [levelAfter, foldl_cons]
    rcases l.kind_cases with ⟨m, hm⟩ | hfinish | hplain
    · have hstarts := Line.starts_of_relationStart? hm
      rw [readLines_start _ _ _ _ hm, ih, Line.levelAfter_start _ hstarts]
      rfl
    · rw [Line.levelAfter_finish _ hfinish]
      cases around with
      | nil =>
        rw [readLines_finish_stray _ _ _ hfinish, ih]
        rfl
      | cons outer more =>
        rw [readLines_finish _ _ _ _ hfinish, ih]
        rfl
    · rw [readLines_plain _ _ _ _ hplain, ih, Line.levelAfter_plain _ hplain]
      rfl

/-! ## What is read -/

/-- The attributes of an open node once the lines to come are read; its body is opened by a line of
the given level. -/
def completed (level : Nat) (lines : List (Line × Nat)) (attributes : List String) : List String :=
  (ownLines level lines).foldl addNew attributes

/-- **The open nodes and what is nested in them**, from the top, with the attributes that the lines
to come add.  `around` are the nodes around `focus`, the innermost first; the last of them is the
root, which is no heading. -/
def along (top : Nat) (lines : List (Line × Nat)) (focus : Relation) : List Relation → List Heading
  | [] => Relation.headingsOf 0 focus.relations
  | outer :: more =>
    along top lines outer more ++
      ⟨focus.type, more.length, completed (top + more.length) lines focus.attributes⟩ ::
        Relation.headingsOf (more.length + 1) focus.relations

section Along

open List

variable {top : Nat} {l : Line}

theorem completed_skip {level deeper : Nat} (hdeep : level < deeper)
    (h : l.isPlain = false ∨ level + 1 < deeper) (lines : List (Line × Nat))
    (attributes : List String) :
    completed level ((l, deeper) :: lines) attributes = completed level lines attributes := by
  rw [completed, completed, ownLines_skip hdeep h]

theorem completed_within (level : Nat) (rest : List Line) (attributes : List String) :
    completed level (within top level rest) attributes = attributes := by
  rw [completed, ownLines_within, foldl_nil]

theorem completed_plain (h : l.isPlain) (level : Nat) (lines : List (Line × Nat))
    (r : Relation) :
    completed level ((l, level + 1) :: lines) r.attributes =
      completed level lines (r.addAttribute (String.ofList l.text)).attributes := by
  rw [completed, completed, ownLines_plain h, foldl_cons, Relation.attributes_addAttribute]

/-- A line adds nothing to the nodes that it is not directly in. -/
theorem along_skip {level : Nat} (lines : List (Line × Nat)) (focus : Relation)
    (around : List Relation)
    (h : l.isPlain = false ∧ top + around.length ≤ level ∨ top + around.length < level) :
    along top ((l, level) :: lines) focus around = along top lines focus around := by
  induction around generalizing focus with
  | nil => rfl
  | cons outer more ih =>
    rw [length_cons] at h
    have hmore : l.isPlain = false ∧ top + more.length ≤ level ∨ top + more.length < level := by
      omega
    have hdeep : l.isPlain = false ∨ top + more.length + 1 < level := by
      rcases h with ⟨hplain, -⟩ | hlt
      · exact .inl hplain
      · exact .inr (by omega)
    rw [along, along, ih outer hmore, completed_skip (by omega) hdeep]

/-- A closing brace: the innermost node is complete and becomes a nested one. -/
theorem along_finish (h : l.isFinish) (rest : List Line) (focus outer : Relation)
    (more : List Relation) :
    along top ((l, top + (more.length + 1)) :: within top (top + more.length) rest) focus
        (outer :: more) =
      along top (within top (top + more.length) rest) (outer.attach focus) more := by
  have hplain : l.isPlain = false := by
    simp [Line.isPlain, h]
  rw [along, along_skip _ _ _ (.inr (by omega)), completed_skip (by omega) (.inl hplain),
    completed_within]
  cases more with
  | nil =>
    rw [along, along, Relation.headingsOf_attach, Relation.headings_eq]
    rfl
  | cons next more =>
    rw [along, along, Relation.headingsOf_attach, Relation.headings_eq, append_assoc]
    rfl

/-- A plain line is an attribute of the innermost node. -/
theorem along_plain (h : l.isPlain) (lines : List (Line × Nat)) (focus : Relation)
    (around : List Relation) :
    along top ((l, top + around.length) :: lines) focus around =
      along top lines (focus.addAttribute (String.ofList l.text)) around := by
  have htype (name : String) : (focus.addAttribute name).type = focus.type := by
    unfold Relation.addAttribute
    split <;> rfl
  cases around with
  | nil => rw [along, along, Relation.relations_addAttribute]
  | cons outer more =>
    rw [along, along, along_skip _ _ _ (.inr (by rw [length_cons]; omega)), htype,
      Relation.relations_addAttribute, length_cons, ← Nat.add_assoc, completed_plain h]

end Along

/-- **The headings of the tree that is read**: those of the open nodes, and those among the lines to
come. -/
theorem headingsOf_readLines {mutation : Bool} {stop : Nat} {lines : List Line}
    {focus root : Relation} {around : List Relation} {queue : List Interpolation}
    (h : readLines mutation stop lines [] focus around = .ok (root, queue)) :
    Relation.headingsOf 0 root.relations =
      along (topLevel mutation)
          (within (topLevel mutation) (topLevel mutation + around.length) lines) focus around ++
        headingsAt (topLevel mutation)
          (within (topLevel mutation) (topLevel mutation + around.length) lines) := by
  induction lines generalizing focus around with
  | nil =>
    rw [readLines] at h
    split at h
    · rename_i hout
      obtain ⟨hnil, -⟩ := Bool.and_eq_true_iff.mp hout
      rw [isEmpty_iff.mp hnil]
      cases h
      rw [within_nil, headingsAt, append_nil, along]
    · cases h
  | cons l rest ih =>
    rw [within_cons (Nat.le_add_right _ _)]
    rcases l.kind_cases with ⟨m, hm⟩ | hfinish | hplain
    · -- the new node is the first heading among the lines to come
      have hstarts := Line.starts_of_relationStart? hm
      have hplain : l.isPlain = false := by simp [Line.isPlain, hstarts]
      have hattributes (lines : List (Line × Nat)) :
          completed (topLevel mutation + around.length) lines m.node.attributes =
            bodyAttributes (topLevel mutation + around.length) lines :=
        foldl_addNew [] _
      rw [readLines_start _ _ _ _ hm] at h
      rw [ih h, Line.levelAfter_start _ hstarts, along_skip _ _ _ (.inl ⟨hplain, Nat.le_refl _⟩),
        headingsAt, hm]
      dsimp only
      rw [along, hattributes, Nat.add_sub_cancel_left, length_cons, ← Nat.add_assoc,
        append_assoc]
      rfl
    · have hnone := Line.relationStart?_of_isFinish hfinish
      rw [Line.levelAfter_finish _ hfinish, headingsAt, hnone]
      dsimp only
      cases around with
      | nil =>
        cases mutation with
        | true =>
          rw [readLines_finish_mutation _ _ _ hfinish] at h
          cases h
          rw [within_of_lt (by decide), headingsAt, append_nil, along]
        | false =>
          rw [readLines_finish_stray _ _ _ hfinish] at h
          exact ih h
      | cons outer more =>
        rw [readLines_finish _ _ _ _ hfinish] at h
        rw [length_cons, ← Nat.add_assoc, Nat.add_sub_cancel, Nat.add_assoc,
          along_finish hfinish]
        exact ih h
    · obtain ⟨hnone, -⟩ := Line.isPlain_iff.mp hplain
      rw [readLines_plain _ _ _ _ hplain] at h
      rw [Line.levelAfter_plain _ hplain, headingsAt, hnone]
      dsimp only
      rw [ih h]
      split
      · -- a line outside of all nodes
        rename_i hout
        obtain ⟨hnil, -⟩ := Bool.and_eq_true_iff.mp hout
        rw [isEmpty_iff.mp hnil]
        rfl
      · rw [along_plain hplain]

/-- The root of the tree in the making. -/
def rootOf (focus : Relation) : List Relation → Relation
  | [] => focus
  | outer :: more => rootOf outer more

theorem attributes_rootOf_attach (outer focus : Relation) (more : List Relation) :
    (rootOf (outer.attach focus) more).attributes = (rootOf outer more).attributes := by
  cases more <;> rfl

/-- **The attributes of the root**: a mutation has those of its own body. -/
theorem attributes_readLines {mutation : Bool} {stop : Nat} {lines : List Line}
    {focus root : Relation} {around : List Relation} {queue : List Interpolation}
    (h : readLines mutation stop lines [] focus around = .ok (root, queue)) :
    root.attributes =
      if mutation then
        completed 0 (within 1 (around.length + 1) lines) (rootOf focus around).attributes
      else (rootOf focus around).attributes := by
  induction lines generalizing focus around with
  | nil =>
    rw [readLines] at h
    split at h
    · rename_i hout
      obtain ⟨hnil, hmutation⟩ := Bool.and_eq_true_iff.mp hout
      rw [isEmpty_iff.mp hnil]
      cases h
      cases mutation <;> rfl
    · cases h
  | cons l rest ih =>
    rw [within_cons (Nat.le_add_left _ _)]
    rcases l.kind_cases with ⟨m, hm⟩ | hfinish | hplain
    · have hstarts := Line.starts_of_relationStart? hm
      have hplain : l.isPlain = false := by simp [Line.isPlain, hstarts]
      rw [readLines_start _ _ _ _ hm] at h
      rw [ih h, Line.levelAfter_start _ hstarts, completed_skip (Nat.succ_pos _) (.inl hplain)]
      rfl
    · have hplain : l.isPlain = false := by simp [Line.isPlain, hfinish]
      rw [Line.levelAfter_finish _ hfinish, completed_skip (Nat.succ_pos _) (.inl hplain)]
      cases around with
      | nil =>
        cases mutation with
        | true =>
          rw [readLines_finish_mutation _ _ _ hfinish] at h
          cases h
          rw [within_of_lt (by decide)]
          rfl
        | false =>
          rw [readLines_finish_stray _ _ _ hfinish] at h
          exact ih h
      | cons outer more =>
        rw [readLines_finish _ _ _ _ hfinish] at h
        rw [ih h, attributes_rootOf_attach]
        rfl
    · rw [readLines_plain _ _ _ _ hplain] at h
      rw [ih h, Line.levelAfter_plain _ hplain]
      cases around with
      | nil =>
        cases mutation with
        | true => exact (completed_plain hplain 0 _ focus).symm
        | false => rfl
      | cons outer more =>
        rw [completed_skip (Nat.succ_pos _) (.inr (by rw [length_cons]; omega))]
        rfl

/-! ## Texts -/

theorem parseText_eq_ok_iff {s : String} {root : Relation} :
    parseText s = .ok root ↔
      readRoot (Text.bytes s.toList) [] (Line.scan s.toList) = .ok (root, []) := by
  have hparse := parseText_ofList s.toList
  rw [String.ofList_toList] at hparse
  rw [hparse, mapError_eq_ok, parseLiteral_eq]
  rcases readRoot (Text.bytes s.toList) [] (Line.scan s.toList) with e | ⟨r, _ | ⟨i, queue⟩⟩ <;>
    simp [settle]

/-- The root that the header of a mutation opens, in a text without values. -/
def Line.headerRoot (l : Line) : Relation :=
  { sql := String.ofList (Text.trim l.body)
    table := String.ofList (targetTable (Text.trim l.body)) }

theorem readRoot_header {first : Line} (h : first.IsHeader) (stop : Nat) (rest : List Line) :
    readRoot stop [] (first :: rest) =
      if first.opens then readLines true stop rest [] first.headerRoot []
      else .error ⟨first.start, .unopenedMutation⟩ := by
  rw [readRoot, if_pos (Line.isSome_mutation?_iff.mpr h), splice_nil]
  rfl

theorem readRoot_of_not_header {first : Line} (h : ¬ first.IsHeader) (stop : Nat)
    (rest : List Line) :
    readRoot stop [] (first :: rest) = readLines false stop (first :: rest) [] {} [] := by
  rw [readRoot, if_neg fun hsome => h (Line.isSome_mutation?_iff.mp hsome)]

/-- **The tree is the one that the lines show**: its nodes below the root are the lines that start a
relation, as deep as their levels say, with the plain lines of their bodies as attributes.  For a
mutation only the lines up to the end of its body count, whose own plain lines are the attributes of
the root. -/
def Shows (root : Relation) : List Line → Prop
  | [] => False
  | first :: rest =>
    if first.IsHeader then
      let body := (leveled 1 rest).takeWhile fun p => 1 ≤ p.2
      root.attributes = bodyAttributes 0 body ∧
        Relation.headingsOf 0 root.relations = headingsAt 1 body
    else
      root.attributes = [] ∧
        Relation.headingsOf 0 root.relations = headingsAt 0 (leveled 0 (first :: rest))

section Cases

open List

variable {first : Line} {rest : List Line} {root : Relation}

theorem wellBraced_header (h : first.IsHeader) :
    WellBraced (first :: rest) ↔ first.opens ∧ ∃ n, levelAfter 1 (rest.take n) = 0 := by
  simp only [WellBraced, if_pos h]

theorem wellBraced_of_not_header (h : ¬ first.IsHeader) :
    WellBraced (first :: rest) ↔ levelAfter 0 (first :: rest) = 0 := by
  simp only [WellBraced, if_neg h]

theorem shows_header (h : first.IsHeader) :
    Shows root (first :: rest) ↔
      root.attributes = bodyAttributes 0 (within 1 1 rest) ∧
        Relation.headingsOf 0 root.relations = headingsAt 1 (within 1 1 rest) := by
  simp only [Shows, if_pos h, within]

theorem shows_of_not_header (h : ¬ first.IsHeader) :
    Shows root (first :: rest) ↔
      root.attributes = [] ∧
        Relation.headingsOf 0 root.relations = headingsAt 0 (leveled 0 (first :: rest)) := by
  simp only [Shows, if_neg h]

end Cases

/-- **Exactly the texts whose braces match are queries**, and the tree of a query is the one that
its lines show. -/
theorem parseText_wellBraced (s : String) :
    ((∃ root, parseText s = .ok root) ↔ WellBraced (Line.scan s.toList)) ∧
      ∀ root, parseText s = .ok root → Shows root (Line.scan s.toList) := by
  simp only [parseText_eq_ok_iff]
  cases Line.scan s.toList with
  | nil =>
    rw [readRoot]
    exact ⟨⟨nofun, nofun⟩, nofun⟩
  | cons first rest =>
    by_cases hheader : first.IsHeader
    · simp only [readRoot_header hheader, wellBraced_header hheader, shows_header hheader]
      by_cases hopens : first.opens = true
      · simp only [hopens, true_and, if_true]
        refine ⟨readLines_mutation_isOk _ rest _ [], fun root hroot => ⟨?_, ?_⟩⟩
        · have hattributes := attributes_readLines hroot
          rw [if_pos rfl] at hattributes
          exact hattributes.trans (foldl_addNew [] _)
        · exact headingsOf_readLines hroot
      · simp only [hopens]
        exact ⟨⟨nofun, nofun⟩, nofun⟩
    · simp only [readRoot_of_not_header hheader, wellBraced_of_not_header hheader,
        shows_of_not_header hheader]
      refine ⟨readLines_isOk _ (first :: rest) _ [], fun root hroot => ⟨?_, ?_⟩⟩
      · exact attributes_readLines hroot
      · have hheadings := headingsOf_readLines hroot
        rw [topLevel, if_neg Bool.false_ne_true, List.length_nil, within_zero] at hheadings
        exact hheadings

/-- A mutation with stray braces and a repeated attribute in its body, and more text behind it. -/
def bracedUpdate : String :=
  "Update a SET b\x7b\nid\n c\x7b\n \x7b\n \x7d\x7d\n d x \x7b\n\x7d\n" ++
    " \x7b\n\x7d\nid\n\x7d\n\x7d\ne \x7b"

theorem wellBraced_bracedUpdate :
    ∃ root, parseText bracedUpdate = .ok root ∧ root.attributes = ["id"] ∧
      Relation.headingsOf 0 root.relations =
        [⟨"c", 0, ["\x7b", "\x7d\x7d"]⟩, ⟨"d", 1, []⟩] := by
  have hheader : (⟨"Update a SET b\x7b".toList, 0⟩ : Line).IsHeader := by decide
  have hbraced : WellBraced (Line.scan bracedUpdate.toList) :=
    (wellBraced_header hheader).mpr ⟨by decide, 10, by decide⟩
  obtain ⟨root, hroot⟩ := (parseText_wellBraced bracedUpdate).1.mpr hbraced
  have hshows := (shows_header hheader).mp ((parseText_wellBraced bracedUpdate).2 root hroot)
  exact ⟨root, hroot, hshows.1.trans (by decide), hshows.2.trans (by decide)⟩

end TreeQuery.Query

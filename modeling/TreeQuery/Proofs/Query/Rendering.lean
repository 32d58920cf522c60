import Mathlib.Tactic.MkIffOfInductiveProp
import TreeQuery.Proofs.Query.Nesting

/-!
# Reading undoes writing

A query tree without values can be written down (`Relation.lines`): a node is a line with its type
and clause that opens a body, its attributes, the nodes nested in it, and a closing brace.  A text
renders a tree if it has these lines in order, each indented in any way, and blank lines anywhere
between them (`Renders`).

Not every tree survives that.  `Relation.WellFormed` says what the text can keep of a node: a type
without blanks, a clause and attributes that stand on a line as they are, attributes that are not
taken for braces.  A tree whose nodes are well formed is read back from each of its renderings, and
the trees that are read are of this kind (`parseText_rendering`).

The lines of a node are read with anything behind them: they attach the node to the innermost open
one and leave the rest to be read (`readLines_lines`).
-/

namespace TreeQuery

open List

/-! ## Trimmed texts -/

variable {cs : List Char} {raws : List (List Char)} {name : String}

namespace Text

/-- The text neither starts nor ends with a blank. -/
def Tight (cs : List Char) : Prop :=
  (∀ c ∈ cs.head?, isBlank c = false) ∧ ∀ c ∈ cs.getLast?, isBlank c = false

theorem isBlank_of_mem_head?_dropWhile {c : Char}
    (h : c ∈ (cs.dropWhile isBlank).head?) : isBlank c = false := by
  have hhead := head?_dropWhile_not isBlank cs
  rw [Option.mem_def.mp h] at hhead
  exact hhead

theorem dropWhile_blanks {blanks : List Char} (hblanks : ∀ c ∈ blanks, isBlank c)
    (hcs : ∀ c ∈ cs.head?, isBlank c = false) : (blanks ++ cs).dropWhile isBlank = cs := by
  rw [dropWhile_append_of_pos hblanks]
  cases cs with
  | nil => rfl
  | cons c cs => rw [dropWhile_cons_of_neg (by simp [hcs c rfl])]

theorem tight_trim (cs : List Char) : Tight (trim cs) := by
  constructor
  · intro c hc
    obtain ⟨blanks, hcs, -⟩ := exists_eq_trim_append cs
    have hleft : trimLeft cs = trim cs ++ blanks := by
      rw [append_assoc] at hcs
      have hsplit := takeWhile_append_dropWhile (p := isBlank) (l := cs)
      exact append_cancel_left (hsplit.trans hcs)
    have hhead : c ∈ (trimLeft cs).head? := by
      rw [hleft, head?_append, Option.mem_def.mp hc]
      rfl
    exact isBlank_of_mem_head?_dropWhile hhead
  · intro c hc
    rw [trim, trimRight, getLast?_reverse] at hc
    exact isBlank_of_mem_head?_dropWhile hc

/-- Trimming takes away what stands around a tight text. -/
theorem trim_padded {before after : List Char} (hcs : Tight cs)
    (hbefore : ∀ c ∈ before, isBlank c) (hafter : ∀ c ∈ after, isBlank c) :
    trim (before ++ cs ++ after) = cs := by
  cases cs with
  | nil =>
    have hblank : ∀ c ∈ before ++ [] ++ after, isBlank c = true := by
      intro c hc
      rw [append_nil, mem_append] at hc
      exact hc.elim (hbefore c) (hafter c)
    have hleft : (before ++ [] ++ after ++ []).dropWhile isBlank = [] :=
      dropWhile_blanks hblank (by simp)
    rw [append_nil] at hleft
    rw [trim, trimLeft, hleft]
    rfl
  | cons c cs =>
    have hleft : trimLeft (before ++ (c :: cs) ++ after) = c :: cs ++ after := by
      rw [trimLeft, append_assoc]
      exact dropWhile_blanks hbefore hcs.1
    have hright : ((c :: cs) ++ after).reverse.dropWhile isBlank = (c :: cs).reverse := by
      rw [reverse_append]
      refine dropWhile_blanks (fun d hd => hafter d (mem_reverse.mp hd)) ?_
      rw [head?_reverse]
      exact hcs.2
    rw [trim, hleft, trimRight, hright, reverse_reverse]

theorem trim_eq_self_iff : trim cs = cs ↔ Tight cs := by
  constructor
  · intro h
    rw [← h]
    exact tight_trim cs
  · intro h
    have hpadded : trim ([] ++ cs ++ []) = cs := trim_padded h (by simp) (by simp)
    rwa [nil_append, append_nil] at hpadded

theorem isBlank_of_toLower {c : Char} (h : isBlank c.toLower = false) : isBlank c = false := by
  unfold Char.toLower at h
  split at h
  · -- the upper case letters are no blanks
    rename_i hupper
    have hlow : 65 ≤ c.toNat := hupper.1
    have hhigh : c.toNat ≤ 90 := hupper.2
    simp only [isBlank, Bool.or_eq_false_iff, Bool.and_eq_false_iff, decide_eq_false_iff_not,
      beq_eq_false_iff_ne]
    omega
  · exact h

/-! ## Lines of a text -/

/-- What stands before the first newline stands on the first line. -/
theorem lines_append_of_not_mem {rest l : List Char} {ls : List (List Char)} (h : '\n' ∉ cs)
    (hrest : lines rest = l :: ls) : lines (cs ++ rest) = (cs ++ l) :: ls := by
  induction cs with
  | nil => exact hrest
  | cons c cs ih =>
    rw [mem_cons, not_or] at h
    rw [cons_append, lines, if_neg (Ne.symm h.1), ih h.2]
    rfl

theorem lines_of_not_mem (h : '\n' ∉ cs) : lines cs = [cs] := by
  have hlines := lines_append_of_not_mem h (show lines [] = [[]] from rfl)
  rwa [append_nil] at hlines

theorem lines_append (h : '\n' ∉ cs) (rest : List Char) :
    lines (cs ++ '\n' :: rest) = cs :: lines rest := by
  have hlines := lines_append_of_not_mem h (show lines ('\n' :: rest) = [] :: lines rest from rfl)
  rwa [append_nil] at hlines

/-- Lines put together can be told apart again. -/
theorem lines_intercalate (hne : raws ≠ [])
    (h : ∀ raw ∈ raws, '\n' ∉ raw) : lines (['\n'].intercalate raws) = raws := by
  induction raws with
  | nil => exact absurd rfl hne
  | cons raw raws ih =>
    have hraw := h raw mem_cons_self
    cases raws with
    | nil => rw [intercalate_singleton, lines_of_not_mem hraw]
    | cons next raws =>
      rw [intercalate_cons_cons, append_assoc, singleton_append, lines_append hraw,
        ih (cons_ne_nil _ _) fun raw' hmem => h raw' (mem_cons_of_mem _ hmem)]

theorem not_mem_of_mem_lines {raw : List Char} (h : raw ∈ lines cs) : '\n' ∉ raw := by
  induction cs generalizing raw with
  | nil =>
    rw [lines, mem_singleton] at h
    simp [h]
  | cons c cs ih =>
    rw [lines] at h
    split at h
    · rcases mem_cons.mp h with rfl | h
      · simp
      · exact ih h
    rename_i hc
    split at h
    · rw [mem_singleton] at h
      simpa [h] using Ne.symm hc
    rename_i first more hlines
    rw [hlines] at ih
    rcases mem_cons.mp h with rfl | h
    · rw [mem_cons, not_or]
      exact ⟨Ne.symm hc, ih mem_cons_self⟩
    · exact ih (mem_cons_of_mem _ h)

end Text

namespace Query

/-! ## Layout -/

/-- Blanks that do not end the line. -/
def IsIndent (cs : List Char) : Prop :=
  ∀ c ∈ cs, Text.isBlank c = true ∧ c ≠ '\n'

instance (cs : List Char) : Decidable (IsIndent cs) :=
  decidableBAll _ cs

/-- **Lines laid out in a text**: each has blanks around it, and blank lines stand between them.
The first list are the lines of the text. -/
inductive LaidOut : List (List Char) → List (List Char) → Prop
  | nil : LaidOut [] []
  | blank {raw : List Char} {raws lines : List (List Char)} (h : IsIndent raw)
      (hs : LaidOut raws lines) : LaidOut (raw :: raws) lines
  | line {before line after : List Char} {raws lines : List (List Char)} (hbefore : IsIndent before)
      (hafter : IsIndent after) (hs : LaidOut raws lines) :
      LaidOut ((before ++ line ++ after) :: raws) (line :: lines)

/-- A line that stands in a text as it is. -/
structure Standing (cs : List Char) : Prop where
  ne_nil : cs ≠ []
  tight : Text.Tight cs
  newline : '\n' ∉ cs

theorem IsIndent.blank (h : IsIndent cs) : ∀ c ∈ cs, Text.isBlank c :=
  fun c hc => (h c hc).1

theorem IsIndent.newline (h : IsIndent cs) : '\n' ∉ cs :=
  fun hmem => (h _ hmem).2 rfl

theorem LaidOut.newline {lines : List (List Char)} (h : LaidOut raws lines)
    (hlines : ∀ l ∈ lines, Standing l) : ∀ raw ∈ raws, '\n' ∉ raw := by
  induction h with
  | nil => simp
  | blank hblank _ ih => exact forall_mem_cons.mpr ⟨hblank.newline, ih hlines⟩
  | line hbefore hafter _ ih =>
    obtain ⟨hline, hlines⟩ := forall_mem_cons.mp hlines
    refine forall_mem_cons.mpr ⟨?_, ih hlines⟩
    simp [hbefore.newline, hafter.newline, hline.newline]

/-- Scanning a layout gives the lines back. -/
theorem LaidOut.map_text_scanFrom {lines : List (List Char)} (h : LaidOut raws lines)
    (hlines : ∀ l ∈ lines, Standing l) (pos : Nat) :
    (Line.scanFrom pos raws).map Line.text = lines := by
  induction h generalizing pos with
  | nil => rfl
  | @blank raw raws lines hblank _ ih =>
    have htrim : Text.trim raw = [] := by
      have hpadded : Text.trim (raw ++ [] ++ []) = [] :=
        Text.trim_padded ⟨by simp, by simp⟩ hblank.blank (by simp)
      rwa [append_nil, append_nil] at hpadded
    rw [Line.scanFrom, htrim, if_pos isEmpty_nil, ih hlines]
  | @line before line after raws lines hbefore hafter _ ih =>
    obtain ⟨hline, hlines⟩ := forall_mem_cons.mp hlines
    have htrim := Text.trim_padded hline.tight hbefore.blank hafter.blank
    rw [Line.scanFrom, htrim, if_neg (by simpa using hline.ne_nil), map_cons, ih hlines]

/-- The lines that are scanned stand as they are. -/
theorem standing_of_mem_scan {literal : List Char} {l : Line} (h : l ∈ Line.scan literal) :
    Standing l.text := by
  obtain ⟨before, raw, after, hlines, hne, htext, -⟩ := Line.mem_scanFrom_iff.mp h
  have hraw : raw ∈ Text.lines literal := hlines ▸ mem_append_right before mem_cons_self
  rw [htext]
  refine ⟨hne, Text.tight_trim raw, fun hmem => Text.not_mem_of_mem_lines hraw ?_⟩
  obtain ⟨blanks, hcs, -⟩ := Text.exists_eq_trim_append raw
  rw [hcs]
  exact mem_append_left _ (mem_append_right _ hmem)

/-! ## Well-formed trees -/

/-- **An attribute that a line can hold**: a text on one line that is no brace. -/
@[mk_iff]
structure AttributeLike (name : String) : Prop where
  ne_empty : name ≠ ""
  trimmed : Text.trim name.toList = name.toList
  newline : '\n' ∉ name.toList
  ne_finish : name ≠ "\x7d"
  opening : name = "\x7b" ∨ name.toList.getLast? ≠ some '{'

instance (name : String) : Decidable (AttributeLike name) :=
  decidable_of_iff' _ (attributeLike_iff name)

namespace Relation

/-- **A node that a text can hold.** -/
@[mk_iff]
structure WellFormed (r : Relation) : Prop where
  type_ne : r.type ≠ ""
  type_blank : ∀ c ∈ r.type.toList, Text.isBlank c = false
  sql_trimmed : Text.trim r.sql.toList = r.sql.toList
  sql_newline : '\n' ∉ r.sql.toList
  bindings : r.bindings = []
  table : r.table = ""
  nodup : r.attributes.Nodup
  attributeLike : ∀ name ∈ r.attributes, AttributeLike name

instance (r : Relation) : Decidable r.WellFormed :=
  -- the characters of the type are gone through, not those that there are
  haveI : Decidable (∀ c ∈ r.type.toList, Text.isBlank c = false) := decidableBAll _ _
  decidable_of_iff' _ (wellFormed_iff r)

/-- **A tree that a text can hold**: below a root that has nothing but its children, of which there
is one at least, all nodes are well formed; and the first line is not taken for a mutation. -/
structure WellFormedTree (root : Relation) : Prop where
  bare : root = { relations := root.relations }
  ne_nil : root.relations ≠ []
  nodes : ∀ n ∈ nodesOf root.relations, n.WellFormed
  first : ∀ r ∈ root.relations.head?, ∀ k : MutationKeyword,
    r.type.toList.map Char.toLower ≠ k.lower.toList

/-- The line that opens the body of a node. -/
def opening (r : Relation) : List Char :=
  r.type.toList ++ ' ' :: r.sql.toList ++ [' ', '{']

mutual

/-- **The lines of a node**: type and clause, attributes, nested nodes, and a closing brace. -/
def lines : Relation → List (List Char)
  | ⟨type, table, sql, bindings, attributes, relations⟩ =>
    opening ⟨type, table, sql, bindings, attributes, relations⟩ ::
      (attributes.map String.toList ++ linesOf relations ++ [['}']])

/-- The lines of nodes that stand one after the other. -/
def linesOf : List Relation → List (List Char)
  | [] => []
  | r :: rest => r.lines ++ linesOf rest

end

theorem lines_eq (r : Relation) :
    r.lines = r.opening :: (r.attributes.map String.toList ++ linesOf r.relations ++ [['}']]) := by
  cases r
  rw [lines]

end Relation

/-- **A text renders a tree**: it is a layout of the lines of the nodes below the root. -/
def Renders (root : Relation) (text : String) : Prop :=
  ∃ raws, LaidOut raws (Relation.linesOf root.relations) ∧ text.toList = ['\n'].intercalate raws

/-! ## Lines of well-formed nodes -/

section Lines

variable {r : Relation} {l : Line}

theorem opening_eq (r : Relation) :
    r.opening = r.type.toList ++ ' ' :: (r.sql.toList ++ [' ']) ++ ['{'] := by
  simp [Relation.opening]

/-- A text without blanks up to the first blank. -/
theorem takeWhile_word {word : List Char} (hword : ∀ c ∈ word, Text.isBlank c = false)
    {space : Char} (hspace : Text.isBlank space) (rest : List Char) :
    (word ++ space :: rest).takeWhile (fun c => !Text.isBlank c) = word ∧
      (word ++ space :: rest).dropWhile (fun c => !Text.isBlank c) = space :: rest := by
  have hall : ∀ c ∈ word, (!Text.isBlank c) = true := fun c hc => by rw [hword c hc]; rfl
  rw [takeWhile_append_of_pos hall, dropWhile_append_of_pos hall,
    takeWhile_cons_of_neg (by simp [hspace]), dropWhile_cons_of_neg (by simp [hspace]),
    append_nil]
  exact ⟨rfl, rfl⟩

/-- The opening line of a node starts a relation of its type and clause. -/
theorem relationStart?_opening (hr : r.WellFormed) (hl : l.text = r.opening) :
    ∃ m, l.relationStart? = some m ∧ m.node = { type := r.type, sql := r.sql } := by
  have hopens : l.opens = true := by
    rw [Line.opens, hl, opening_eq, getLast?_concat]
    rfl
  have hbody : l.body = r.type.toList ++ ' ' :: (r.sql.toList ++ [' ']) := by
    rw [Line.body, hl, opening_eq, dropLast_concat]
  have hspace : Text.isBlank ' ' = true := rfl
  obtain ⟨htype, hclause⟩ := takeWhile_word hr.type_blank hspace (r.sql.toList ++ [' '])
  have hne : r.type.toList.isEmpty = false := by
    simpa using hr.type_ne
  have htrim : Text.trim (' ' :: (r.sql.toList ++ [' '])) = r.sql.toList := by
    have hblank : ∀ c ∈ [' '], Text.isBlank c = true := forall_mem_singleton.mpr rfl
    exact Text.trim_padded (Text.trim_eq_self_iff.mp hr.sql_trimmed) hblank hblank
  refine ⟨⟨r.type.toList, ' ' :: (r.sql.toList ++ [' ']), l.start + Text.bytes r.type.toList⟩,
    ?_, ?_⟩
  · rw [Line.relationStart?, if_pos hopens]
    dsimp only
    rw [hbody, htype, hclause, hne, if_neg Bool.false_ne_true]
  · rw [RelationStart.node, htrim, String.ofList_toList, String.ofList_toList]

/-- An attribute's line is plain. -/
theorem isPlain_of_attributeLike (hname : AttributeLike name)
    (hl : l.text = name.toList) : l.isPlain = true := by
  rw [Line.isPlain_iff]
  constructor
  · rcases hname.opening with rfl | hlast
    · rw [Line.relationStart?, Line.opens, Line.body, hl]
      rfl
    have hopens : l.opens = false := by
      rw [Line.opens, hl, beq_eq_false_iff_ne]
      exact hlast
    rw [Line.relationStart?, hopens, if_neg Bool.false_ne_true]
  · rw [Line.isFinish, hl, beq_eq_false_iff_ne]
    intro hfinish
    refine hname.ne_finish (String.toList_inj.mp ?_)
    rw [hfinish]
    rfl

/-- A plain line can be an attribute. -/
theorem attributeLike_of_isPlain (hl : Standing l.text) (hplain : l.isPlain) :
    AttributeLike (String.ofList l.text) := by
  obtain ⟨hstart, hfinish⟩ := Line.isPlain_iff.mp hplain
  refine ⟨by simpa using hl.ne_nil, ?_, ?_, ?_, ?_⟩
  · rw [String.toList_ofList]
    exact Text.trim_eq_self_iff.mpr hl.tight
  · rw [String.toList_ofList]
    exact hl.newline
  · intro heq
    have htext : l.text = ['}'] := by
      rw [← String.toList_ofList (l := l.text), heq]
      rfl
    rw [Line.isFinish, htext] at hfinish
    cases hfinish
  rw [String.toList_ofList]
  by_cases hopens : l.opens = true
  · -- a line that opens a body without a type has nothing in front of the brace
    left
    have htext := Line.body_append_of_opens hopens
    rw [Line.relationStart?, if_pos hopens] at hstart
    cases hbody : l.body with
    | nil =>
      rw [← htext, hbody]
      rfl
    | cons c body =>
      have hc : Text.isBlank c = false := by
        refine hl.tight.1 c ?_
        rw [← htext, hbody]
        rfl
      rw [hbody, takeWhile_cons_of_pos (by simp [hc])] at hstart
      cases hstart
  · right
    intro hlast
    exact hopens (by rw [Line.opens, hlast]; rfl)

/-- The node of a line that starts a relation is well formed. -/
theorem wellFormed_node {m : RelationStart} (hl : Standing l.text)
    (hm : l.relationStart? = some m) : m.node.WellFormed := by
  obtain ⟨htext, -⟩ := Line.text_of_relationStart? hm
  have htype : m.type ≠ [] ∧ ∀ c ∈ m.type, Text.isBlank c = false := by
    rw [Line.relationStart?] at hm
    split at hm
    · dsimp only at hm
      split at hm
      · cases hm
      rename_i hne
      cases hm
      refine ⟨by simpa using hne, fun c hc => ?_⟩
      have hall := all_eq_true.mp (all_takeWhile (p := fun c => !Text.isBlank c)) c hc
      simpa using hall
    · cases hm
  have htrim : ∀ c ∈ Text.trim m.clause, c ∈ l.text := by
    intro c hc
    obtain ⟨blanks, hclause, -⟩ := Text.exists_eq_trim_append m.clause
    rw [htext]
    refine mem_append_left _ (mem_append_right _ ?_)
    rw [hclause]
    exact mem_append_left _ (mem_append_right _ hc)
  refine ⟨by simpa [RelationStart.node] using htype.1, ?_, ?_, ?_, rfl, rfl, nodup_nil,
    fun name hname => absurd hname not_mem_nil⟩
  · rw [RelationStart.node, String.toList_ofList]
    exact htype.2
  · rw [RelationStart.node, String.toList_ofList]
    exact Text.trim_eq_self_iff.mpr (Text.tight_trim m.clause)
  · rw [RelationStart.node, String.toList_ofList]
    exact fun hmem => hl.newline (htrim _ hmem)

/-- The opening line of a node is taken for a mutation only if its type is a keyword. -/
theorem not_isHeader_opening (hr : r.WellFormed) (hl : l.text = r.opening)
    (hfirst : ∀ k : MutationKeyword, r.type.toList.map Char.toLower ≠ k.lower.toList) :
    ¬ l.IsHeader := by
  rintro ⟨k, word, after, space, htext, hword, hspace⟩
  have hspaces : Line.asciiSpaces.all Text.isBlank = true := by decide
  have hblank : Text.isBlank space = true := all_eq_true.mp hspaces space hspace
  have hletters : ∀ c ∈ word, Text.isBlank c = false := by
    intro c hc
    have hmem : c.toLower ∈ k.lower.toList := by
      rw [← hword]
      exact mem_map_of_mem hc
    have hlower : k.lower.toList.all (fun d => !Text.isBlank d) = true := by
      cases k <;> decide
    have hnot := all_eq_true.mp hlower _ hmem
    exact Text.isBlank_of_toLower (by simpa using hnot)
  have htype : r.type.toList = word := by
    rw [← (takeWhile_word hletters hblank after).1, ← htext, hl, opening_eq, append_assoc,
      cons_append, (takeWhile_word hr.type_blank rfl _).1]
  exact hfirst k (htype ▸ hword)

end Lines

/-! ## Reading what was written -/

namespace Relation

theorem foldl_attach (focus : Relation) (rs : List Relation) :
    rs.foldl attach focus = { focus with relations := focus.relations ++ rs } := by
  induction rs generalizing focus with
  | nil =>
    cases focus
    rw [foldl_nil, append_nil]
  | cons r rs ih => rw [foldl_cons, ih, attach, append_assoc, singleton_append]

theorem foldl_addAttribute {focus : Relation} {names : List String}
    (h : (focus.attributes ++ names).Nodup) :
    names.foldl addAttribute focus = { focus with attributes := focus.attributes ++ names } := by
  induction names generalizing focus with
  | nil =>
    cases focus
    rw [foldl_nil, append_nil]
  | cons name names ih =>
    have hnew : name ∉ focus.attributes := fun hmem =>
      (nodup_append.mp h).2.2 name hmem name mem_cons_self rfl
    have hadd : focus.addAttribute name =
        { focus with attributes := focus.attributes ++ [name] } := by
      rw [addAttribute, if_neg (by simpa [hasAttribute] using hnew)]
    rw [foldl_cons, hadd, ih]
    · rw [append_assoc, singleton_append]
    · rw [append_assoc]
      exact h

end Relation

variable {rs : List Relation} {root : Relation}

section Reading

variable (mutation : Bool) (stop : Nat)

theorem readLines_attributes {names : List String} (hnames : ∀ name ∈ names, AttributeLike name)
    {ls : List Line} (hls : ls.map Line.text = names.map String.toList) (rest : List Line)
    (focus outer : Relation) (more : List Relation) :
    readLines mutation stop (ls ++ rest) [] focus (outer :: more) =
      readLines mutation stop rest [] (names.foldl Relation.addAttribute focus)
        (outer :: more) := by
  induction names generalizing ls focus with
  | nil =>
    rw [map_nil, map_eq_nil_iff] at hls
    rw [hls]
    rfl
  | cons name names ih =>
    obtain ⟨hname, hnames⟩ := forall_mem_cons.mp hnames
    cases ls with
    | nil => cases hls
    | cons l ls =>
      obtain ⟨hl, hls⟩ := cons.inj hls
      rw [cons_append, readLines_plain _ _ _ _ (isPlain_of_attributeLike hname hl),
        isEmpty_cons, Bool.false_and, if_neg Bool.false_ne_true, ih hnames hls, hl,
        String.ofList_toList]
      rfl

/-- The lines of nodes, with anything behind them, if each of them is read so. -/
theorem readLines_linesOf
    (hrs : ∀ r ∈ rs, ∀ ls : List Line, ls.map Line.text = r.lines → ∀ rest focus around,
      readLines mutation stop (ls ++ rest) [] focus around =
        readLines mutation stop rest [] (focus.attach r) around)
    {ls : List Line} (hls : ls.map Line.text = Relation.linesOf rs) (rest : List Line)
    (focus : Relation) (around : List Relation) :
    readLines mutation stop (ls ++ rest) [] focus around =
      readLines mutation stop rest [] (rs.foldl Relation.attach focus) around := by
  induction rs generalizing ls focus with
  | nil =>
    rw [Relation.linesOf, map_eq_nil_iff] at hls
    rw [hls]
    rfl
  | cons r rs ih =>
    obtain ⟨hr, hrs⟩ := forall_mem_cons.mp hrs
    rw [Relation.linesOf] at hls
    obtain ⟨first, others, rfl, hfirst, hothers⟩ := map_eq_append_iff.mp hls
    rw [append_assoc, hr first hfirst, ih hrs hothers]
    rfl

/-- **The lines of a well-formed node attach it** to the innermost open one. -/
theorem readLines_lines (r : Relation) (hr : ∀ n ∈ r.nodes, n.WellFormed) (ls : List Line)
    (hls : ls.map Line.text = r.lines) (rest : List Line) (focus : Relation)
    (around : List Relation) :
    readLines mutation stop (ls ++ rest) [] focus around =
      readLines mutation stop rest [] (focus.attach r) around := by
  induction r using Relation.nested_induction generalizing ls rest focus around with
  | step r ih =>
    rw [Relation.nodes_eq] at hr
    obtain ⟨hnode, hnested⟩ := forall_mem_cons.mp hr
    rw [Relation.lines_eq] at hls
    cases ls with
    | nil => cases hls
    | cons l ls =>
      obtain ⟨hl, hls⟩ := cons.inj hls
      obtain ⟨body, finish, rfl, hbody, hfinish⟩ := map_eq_append_iff.mp hls
      obtain ⟨names, nested, rfl, hnames, hchildren⟩ := map_eq_append_iff.mp hbody
      obtain ⟨close, rfl, hclose⟩ := map_eq_singleton_iff.mp hfinish
      obtain ⟨m, hm, hopened⟩ := relationStart?_opening hnode hl
      have hread : ∀ c ∈ r.relations, ∀ ls : List Line, ls.map Line.text = c.lines →
          ∀ rest focus around, readLines mutation stop (ls ++ rest) [] focus around =
            readLines mutation stop rest [] (focus.attach c) around := by
        intro c hc ls hls rest focus around
        exact ih c hc (fun n hn => hnested n (Relation.mem_nodesOf.mpr ⟨c, hc, hn⟩)) ls hls rest
          focus around
      have hcloses : close.isFinish = true := by
        rw [Line.isFinish, hclose]
        rfl
      -- type and clause, attributes and nested nodes put together are the node
      have hbuilt : r.relations.foldl Relation.attach
          (r.attributes.foldl Relation.addAttribute m.node) = r := by
        have hnodup : (m.node.attributes ++ r.attributes).Nodup := hnode.nodup
        rw [Relation.foldl_addAttribute hnodup, Relation.foldl_attach, hopened]
        have htable := hnode.table
        have hbindings := hnode.bindings
        cases r
        cases htable
        cases hbindings
        rfl
      rw [cons_append, readLines_start _ _ _ _ hm, append_assoc, append_assoc,
        readLines_attributes _ _ hnode.attributeLike hnames, readLines_linesOf _ _ hread hchildren,
        hbuilt, singleton_append, readLines_finish _ _ _ _ hcloses]

end Reading

/-! ## The lines that are written -/

theorem AttributeLike.standing (h : AttributeLike name) : Standing name.toList :=
  ⟨by simpa using h.ne_empty, Text.trim_eq_self_iff.mp h.trimmed, h.newline⟩

theorem Relation.WellFormed.standing {r : Relation} (h : r.WellFormed) : Standing r.opening := by
  have hnewline : '\n' ∉ r.type.toList := fun hmem => by
    cases h.type_blank _ hmem
  refine ⟨by simp [opening_eq], ⟨?_, ?_⟩, ?_⟩
  · intro c hc
    cases htype : r.type.toList with
    | nil => exact absurd (by simpa using htype) h.type_ne
    | cons d type =>
      rw [opening_eq, htype] at hc
      cases hc
      exact h.type_blank c (htype ▸ mem_cons_self)
  · intro c hc
    rw [opening_eq, getLast?_concat] at hc
    cases hc
    rfl
  · simp [opening_eq, hnewline, h.sql_newline]

theorem mem_linesOf {l : List Char} :
    l ∈ Relation.linesOf rs ↔ ∃ r ∈ rs, l ∈ r.lines := by
  induction rs with
  | nil => simp [Relation.linesOf]
  | cons r rs ih => simp [Relation.linesOf, ih]

/-- The lines of well-formed nodes stand as they are. -/
theorem standing_of_mem_lines {r : Relation} (hr : ∀ n ∈ r.nodes, n.WellFormed) :
    ∀ l ∈ r.lines, Standing l := by
  induction r using Relation.nested_induction with
  | step r ih =>
    rw [Relation.nodes_eq] at hr
    obtain ⟨hnode, hnested⟩ := forall_mem_cons.mp hr
    intro l hl
    rw [Relation.lines_eq, mem_cons, mem_append, mem_append,
      mem_singleton] at hl
    rcases hl with rfl | (hl | hl) | rfl
    · exact hnode.standing
    · obtain ⟨name, hname, rfl⟩ := mem_map.mp hl
      exact (hnode.attributeLike name hname).standing
    · obtain ⟨c, hc, hl⟩ := mem_linesOf.mp hl
      exact ih c hc (fun n hn => hnested n (Relation.mem_nodesOf.mpr ⟨c, hc, hn⟩)) l hl
    · refine ⟨cons_ne_nil _ _, ⟨?_, ?_⟩, by decide⟩ <;>
      · rintro c ⟨⟩
        rfl

/-- **A text that renders a tree is read as the tree.** -/
theorem parseText_of_renders {text : String} (hroot : root.WellFormedTree)
    (htext : Renders root text) : parseText text = .ok root := by
  obtain ⟨raws, hraws, hjoined⟩ := htext
  have hstanding : ∀ l ∈ Relation.linesOf root.relations, Standing l := by
    intro l hl
    obtain ⟨r, hr, hl⟩ := mem_linesOf.mp hl
    exact standing_of_mem_lines
      (fun n hn => hroot.nodes n (Relation.mem_nodesOf.mpr ⟨r, hr, hn⟩)) l hl
  obtain ⟨r, rs, hrelations⟩ := exists_cons_of_ne_nil hroot.ne_nil
  have hne : raws ≠ [] := by
    rintro rfl
    rw [hrelations, Relation.linesOf, Relation.lines_eq] at hraws
    cases hraws
  have hscan : (Line.scan text.toList).map Line.text = Relation.linesOf root.relations := by
    rw [Line.scan, hjoined, Text.lines_intercalate hne (hraws.newline hstanding)]
    exact hraws.map_text_scanFrom hstanding 0
  have hread := readLines_linesOf false (Text.bytes text.toList)
    (fun r hr => readLines_lines false _ r
      fun n hn => hroot.nodes n (Relation.mem_nodesOf.mpr ⟨r, hr, hn⟩)) hscan [] {} []
  rw [append_nil, Relation.foldl_attach, readLines] at hread
  rw [parseText_eq_ok_iff, hroot.bare]
  cases hlines : Line.scan text.toList with
  | nil =>
    rw [hlines, hrelations, Relation.linesOf, Relation.lines_eq] at hscan
    cases hscan
  | cons first others =>
    rw [hlines] at hread
    rw [hlines, hrelations, Relation.linesOf, Relation.lines_eq] at hscan
    have hnode : r.WellFormed := by
      refine hroot.nodes r (Relation.mem_nodesOf.mpr ⟨r, ?_, ?_⟩)
      · rw [hrelations]
        exact mem_cons_self
      · rw [Relation.nodes_eq]
        exact mem_cons_self
    have hheader := not_isHeader_opening hnode (cons.inj hscan).1
      (hroot.first r (by rw [hrelations]; rfl))
    rw [readRoot_of_not_header hheader, hread]
    rfl

/-! ## The trees that are read -/

/-- **Open nodes that a text can hold**, the innermost first: all nodes are well formed but the
root, which has nothing but its children. -/
inductive OpenNodes : List Relation → Prop
  | root {rs : List Relation} (h : ∀ n ∈ Relation.nodesOf rs, n.WellFormed) :
      OpenNodes [{ relations := rs }]
  | nested {r : Relation} {stack : List Relation} (h : ∀ n ∈ r.nodes, n.WellFormed)
      (hs : OpenNodes stack) : OpenNodes (r :: stack)

theorem Relation.WellFormed.addAttribute {r : Relation} (h : r.WellFormed)
    (hname : AttributeLike name) : (r.addAttribute name).WellFormed := by
  have hnodup : (r.addAttribute name).attributes.Nodup := by
    rw [Relation.attributes_addAttribute]
    exact nodup_addNew h.nodup name
  unfold Relation.addAttribute at hnodup ⊢
  split at hnodup
  · rename_i hhas
    rwa [if_pos hhas]
  rename_i hnew
  rw [if_neg hnew]
  refine { h with nodup := hnodup, attributeLike := fun a ha => ?_ }
  rcases mem_append.mp ha with ha | ha
  · exact h.attributeLike a ha
  · exact mem_singleton.mp ha ▸ hname

theorem forall_mem_nodesOf_concat {P : Relation → Prop} {r : Relation}
    (hrs : ∀ n ∈ Relation.nodesOf rs, P n) (hr : ∀ n ∈ r.nodes, P n) :
    ∀ n ∈ Relation.nodesOf (rs ++ [r]), P n := by
  intro n hn
  obtain ⟨c, hc, hn⟩ := Relation.mem_nodesOf.mp hn
  rcases mem_append.mp hc with hc | hc
  · exact hrs n (Relation.mem_nodesOf.mpr ⟨c, hc, hn⟩)
  · exact hr n (mem_singleton.mp hc ▸ hn)

namespace OpenNodes

variable {r outer : Relation} {stack : List Relation}

theorem addAttribute (h : OpenNodes (r :: outer :: stack))
    (hname : AttributeLike name) : OpenNodes (r.addAttribute name :: outer :: stack) := by
  cases h with
  | nested h hs =>
    refine .nested ?_ hs
    rw [Relation.nodes_eq] at h ⊢
    obtain ⟨hr, hnested⟩ := forall_mem_cons.mp h
    rw [Relation.relations_addAttribute]
    exact forall_mem_cons.mpr ⟨hr.addAttribute hname, hnested⟩

theorem attach (h : OpenNodes (r :: outer :: stack)) : OpenNodes (outer.attach r :: stack) := by
  cases h with
  | nested h hs =>
    cases hs with
    | root hnested => exact .root (forall_mem_nodesOf_concat hnested h)
    | nested houter hs =>
      refine .nested ?_ hs
      rw [Relation.nodes_eq] at houter ⊢
      obtain ⟨houter, hnested⟩ := forall_mem_cons.mp houter
      exact forall_mem_cons.mpr ⟨{ houter with }, forall_mem_nodesOf_concat hnested h⟩

end OpenNodes

/-- **Reading lines keeps the open nodes well formed.** -/
theorem openNodes_readLines {stop : Nat} {lines : List Line} {focus : Relation}
    {around : List Relation} {queue : List Interpolation} (hlines : ∀ l ∈ lines, Standing l.text)
    (hopen : OpenNodes (focus :: around))
    (h : readLines false stop lines [] focus around = .ok (root, queue)) : OpenNodes [root] := by
  induction lines generalizing focus around with
  | nil =>
    rw [readLines] at h
    split at h
    · rename_i hout
      obtain ⟨hnil, -⟩ := Bool.and_eq_true_iff.mp hout
      rw [isEmpty_iff.mp hnil] at hopen
      cases h
      exact hopen
    · cases h
  | cons l rest ih =>
    obtain ⟨hl, hlines⟩ := forall_mem_cons.mp hlines
    rcases l.kind_cases with ⟨m, hm⟩ | hfinish | hplain
    · rw [readLines_start _ _ _ _ hm] at h
      refine ih hlines (.nested ?_ hopen) h
      rw [Relation.nodes_eq]
      exact forall_mem_cons.mpr ⟨wellFormed_node hl hm,
        fun n hn => absurd hn not_mem_nil⟩
    · cases around with
      | nil =>
        rw [readLines_finish_stray _ _ _ hfinish] at h
        exact ih hlines hopen h
      | cons outer more =>
        rw [readLines_finish _ _ _ _ hfinish] at h
        exact ih hlines hopen.attach h
    · rw [readLines_plain _ _ _ _ hplain] at h
      cases around with
      | nil => exact ih hlines hopen h
      | cons outer more =>
        exact ih hlines (hopen.addAttribute (attributeLike_of_isPlain hl hplain)) h

/-- **The trees that are read are well formed.** -/
theorem wellFormed_of_parseText {text : String}
    (hheader : ∀ l ∈ (Line.scan text.toList).head?, ¬ l.IsHeader)
    (h : parseText text = .ok root) :
    root = { relations := root.relations } ∧
      ∀ n ∈ Relation.nodesOf root.relations, n.WellFormed := by
  rw [parseText_eq_ok_iff] at h
  have hstanding : ∀ l ∈ Line.scan text.toList, Standing l.text :=
    fun l hl => standing_of_mem_scan hl
  cases hscan : Line.scan text.toList with
  | nil =>
    rw [hscan] at h
    cases h
  | cons first rest =>
    rw [hscan] at h hheader hstanding
    rw [readRoot_of_not_header (hheader first rfl)] at h
    have hroot : OpenNodes [{}] := .root fun n hn => absurd hn not_mem_nil
    cases openNodes_readLines hstanding hroot h with
    | root hnodes => exact ⟨rfl, hnodes⟩
    | nested _ hs => cases hs

/-- **Reading undoes writing.**  A text that renders a well-formed tree is read as this tree; and
the tree that is read from a text without a mutation has a bare root and well-formed nodes below
it. -/
theorem parseText_rendering (text : String) (root : Relation) :
    (root.WellFormedTree → Renders root text → parseText text = .ok root) ∧
      ((∀ l ∈ (Line.scan text.toList).head?, ¬ l.IsHeader) → parseText text = .ok root →
        root = { relations := root.relations } ∧
          ∀ n ∈ Relation.nodesOf root.relations, n.WellFormed) :=
  ⟨parseText_of_renders, wellFormed_of_parseText⟩

/-- A tree with braces in types, clauses and attributes. -/
def bracedTree : Relation :=
  { relations := [{ type := "\x7da", sql := "b \x7b c", attributes := ["\x7b", "d e"],
                    relations := [{ type := "insert" }] }, { type := "\x7b" }] }

/-- The tree written with odd spacing. -/
def bracedText : String :=
  "\n\x7da b \x7b c \x7b\n\t\x7b\n d e\n\n insert  \x7b \n\x7d\n  \x7d\n\x7b  \x7b\n\x7d\n"

theorem rendering_bracedTree :
    (bracedTree.WellFormedTree ∧ Renders bracedTree bracedText ∧
        parseText bracedText = .ok bracedTree) ∧
      (∀ l ∈ (Line.scan bracedText.toList).head?, ¬ l.IsHeader) ∧
        ∀ n ∈ Relation.nodesOf bracedTree.relations, n.WellFormed := by
  have htree : bracedTree.WellFormedTree := by
    refine ⟨rfl, List.cons_ne_nil _ _, by decide, ?_⟩
    rintro r ⟨⟩ k
    cases k <;> decide
  have hrenders : Renders bracedTree bracedText := by
    have hlines : Relation.linesOf bracedTree.relations =
        ["\x7da b \x7b c \x7b".toList, "\x7b".toList, "d e".toList, "insert  \x7b".toList,
          "\x7d".toList, "\x7d".toList, "\x7b  \x7b".toList, "\x7d".toList] := by
      decide
    refine ⟨[[], [] ++ "\x7da b \x7b c \x7b".toList ++ [], ['\t'] ++ "\x7b".toList ++ [],
      [' '] ++ "d e".toList ++ [], [], [' '] ++ "insert  \x7b".toList ++ [' '],
      [] ++ "\x7d".toList ++ [], [' ', ' '] ++ "\x7d".toList ++ [], [] ++ "\x7b  \x7b".toList ++ [],
      [] ++ "\x7d".toList ++ [], []], ?_, by decide⟩
    rw [hlines]
    refine .blank ?_ (.line ?_ ?_ (.line ?_ ?_ (.line ?_ ?_ (.blank ?_ (.line ?_ ?_ (.line ?_ ?_
      (.line ?_ ?_ (.line ?_ ?_ (.line ?_ ?_ (.blank ?_ .nil)))))))))) <;> decide
  have hparse := (parseText_rendering bracedText bracedTree).1 htree hrenders
  have hheader : ∀ l ∈ (Line.scan bracedText.toList).head?, ¬ l.IsHeader := by decide
  exact ⟨⟨htree, hrenders, hparse⟩, hheader,
    ((parseText_rendering bracedText bracedTree).2 hheader hparse).2⟩

end Query
end TreeQuery

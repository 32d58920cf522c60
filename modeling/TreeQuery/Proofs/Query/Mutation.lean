import TreeQuery.Audit
import TreeQuery.Proofs.Query.Rendering
import TreeQuery.Sql.Dialect

/-!
# The keyword and the table of a mutation

Two facts about a mutation are read off the first words of its statement: the log notes the keyword,
and the rows that come back are looked up in the table.

Each reader has rules of its own for where a word ends.  The log ends the keyword at a space or a
tab, but other white space makes a mutation as well; `operation_of_parseText` says when the log
notes the keyword that was recognised.  The table is the word behind the keyword and its additions,
and a quoted name ends at the first quote, though a quote inside a name is written twice;
`targetTable_written` says which name is read for a table that was written in quotes or bare.
-/

namespace TreeQuery

open List

/-! ## Words -/

namespace Text

structure IsWord (cs : List Char) : Prop where
  ne_nil : cs ≠ []
  not_blank : ∀ c ∈ cs, isBlank c = false

/-- **Words with blanks behind each.** -/
inductive Spaced : List (List Char) → List Char → Prop
  | nil : Spaced [] []
  | cons {word gap rest : List Char} {words : List (List Char)} (isWord : IsWord word)
      (gap_ne_nil : gap ≠ []) (blank : ∀ c ∈ gap, isBlank c = true) (spaced : Spaced words rest) :
    Spaced (word :: words) (word ++ gap ++ rest)

/-- A word that has been begun goes on to the next blank. -/
theorem wordsFrom_of_ne_nil {current : List Char} (h : current ≠ []) (cs : List Char) :
    wordsFrom current cs =
      (current.reverse ++ cs.takeWhile fun c => !isBlank c) ::
        words (cs.dropWhile fun c => !isBlank c) := by
  have hempty : current.isEmpty = false := isEmpty_eq_false_iff.mpr h
  induction cs generalizing current with
  | nil => simp [wordsFrom, words, h]
  | cons c cs ih =>
    rw [wordsFrom]
    cases hc : isBlank c with
    | true => simp [hc, h, words, wordsFrom]
    | false =>
      rw [if_neg Bool.false_ne_true, ih (cons_ne_nil c current) rfl,
        takeWhile_cons_of_pos (by simp [hc]), dropWhile_cons_of_pos (by simp [hc]), reverse_cons,
        append_assoc, singleton_append]

theorem words_append {word : List Char} (h : IsWord word) (rest : List Char) :
    words (word ++ rest) =
      (word ++ rest.takeWhile fun c => !isBlank c) ::
        words (rest.dropWhile fun c => !isBlank c) := by
  obtain ⟨hne, hword⟩ := h
  cases word with
  | nil => exact absurd rfl hne
  | cons c word =>
    obtain ⟨hc, hword⟩ := forall_mem_cons.mp hword
    have hall : ∀ d ∈ word, (!isBlank d) = true := fun d hd => by rw [hword d hd]; rfl
    rw [words, cons_append, wordsFrom, hc, if_neg Bool.false_ne_true,
      wordsFrom_of_ne_nil (cons_ne_nil c []), takeWhile_append_of_pos hall,
      dropWhile_append_of_pos hall]
    rfl

theorem words_blanks {gap : List Char} (h : ∀ c ∈ gap, isBlank c) (rest : List Char) :
    words (gap ++ rest) = words rest := by
  induction gap with
  | nil => rfl
  | cons c gap ih =>
    obtain ⟨hc, hgap⟩ := forall_mem_cons.mp h
    rw [words, cons_append, wordsFrom, if_pos hc]
    exact ih hgap

theorem Spaced.words_append {ws : List (List Char)} {cs : List Char} (h : Spaced ws cs)
    (rest : List Char) : words (cs ++ rest) = ws ++ words rest := by
  induction h with
  | nil => rfl
  | @cons word gap more ws hword hne hblank _ ih =>
    obtain ⟨space, gap, rfl⟩ := exists_cons_of_ne_nil hne
    have hspace := hblank space mem_cons_self
    rw [append_assoc, append_assoc, Text.words_append hword, cons_append,
      takeWhile_cons_of_neg (by simp [hspace]), dropWhile_cons_of_neg (by simp [hspace]),
      append_nil, ← cons_append, words_blanks hblank, ih, cons_append]

/-- Trimming leaves the word at the front of a text, and some of what is behind it. -/
theorem exists_trim_append {word : List Char} (h : IsWord word) (rest : List Char) :
    ∃ kept blanks, trim (word ++ rest) = word ++ kept ∧ rest = kept ++ blanks := by
  obtain ⟨blanks, heq, hblanks⟩ := exists_eq_trim_append (word ++ rest)
  have hleft : (word ++ rest).takeWhile isBlank = [] := by
    obtain ⟨c, word, rfl⟩ := exists_cons_of_ne_nil h.ne_nil
    exact takeWhile_cons_of_neg (by simp [h.not_blank c mem_cons_self])
  rw [hleft, nil_append] at heq
  rcases append_eq_append_iff.mp heq with ⟨kept, htrim, hrest⟩ | ⟨cut, hword, hcut⟩
  · exact ⟨kept, blanks, htrim, hrest⟩
  · -- what is cut off a word is blank, so it is nothing
    have hnil : cut = [] := by
      rw [eq_nil_iff_forall_not_mem]
      intro c hc
      have hblank := hblanks c (hcut ▸ mem_append_left _ hc)
      rw [h.not_blank c (hword ▸ mem_append_right _ hc)] at hblank
      cases hblank
    rw [hnil, append_nil] at hword
    exact ⟨[], rest, by rw [append_nil, ← hword], rfl⟩

theorem sameLetters_iff {as bs : List Char} :
    sameLetters as bs ↔ as.map Char.toLower = bs.map Char.toLower :=
  beq_iff_eq

/-- Words of different letters are different. -/
theorem not_sameLetters {as bs cs : List Char} (h : sameLetters as bs)
    (hne : bs.map Char.toLower ≠ cs.map Char.toLower) : sameLetters as cs = false := by
  rw [Bool.eq_false_iff]
  intro hsame
  exact hne ((sameLetters_iff.mp h).symm.trans (sameLetters_iff.mp hsame))

theorem lowerChar_of_toLower {c : Char} (h : c.toLower.toNat < 128) : lowerChar c = c.toLower := by
  have hc : c.toNat < 128 := by
    unfold Char.toLower at h
    split at h
    · rename_i hupper
      have hhigh : c.toNat ≤ 90 := hupper.2
      omega
    · exact h
  rw [lowerChar, if_pos hc]

end Text

namespace Query

open Audit (Log)
open Audit.Log (entryOf)

/-! ## The keyword -/

section Keyword

variable {k : MutationKeyword} {word : List Char}

theorem mem_keyword (h : word.map Char.toLower = k.lower.toList) :
    ∀ c ∈ word, Text.isBlank c.toLower = false ∧ c.toLower.toNat < 128 := by
  have hall : (k.lower.toList.all fun c => !Text.isBlank c && c.toNat < 128) = true := by
    cases k <;> rfl
  intro c hc
  have hmem : c.toLower ∈ k.lower.toList := h ▸ mem_map_of_mem hc
  simpa using all_eq_true.mp hall _ hmem

theorem isWord_keyword (h : word.map Char.toLower = k.lower.toList) : Text.IsWord word := by
  refine ⟨?_, fun c hc => Text.isBlank_of_toLower (mem_keyword h c hc).1⟩
  rintro rfl
  cases k <;> cases h

theorem map_lowerChar_keyword (h : word.map Char.toLower = k.lower.toList) :
    word.map Text.lowerChar = k.lower.toList := by
  rw [← h]
  exact map_congr_left fun c hc => Text.lowerChar_of_toLower (mem_keyword h c hc).2

/-- The log notes the keyword, and what stands before the next space, tab or newline. -/
theorem operationOf_keyword (h : word.map Char.toLower = k.lower.toList) (kept : List Char) :
    (Log.operationOf (String.ofList (word ++ kept))).toList =
      k.lower.toList ++
        (kept.takeWhile fun c => c != ' ' && c != '\t' && c != '\n').map Text.lowerChar := by
  have hall : ∀ c ∈ word, (c != ' ' && c != '\t' && c != '\n') = true := by
    intro c hc
    have hc := (isWord_keyword h).not_blank c hc
    simp only [Bool.and_eq_true, bne_iff_ne]
    refine ⟨⟨?_, ?_⟩, ?_⟩ <;> rintro rfl <;> cases hc
  rw [Log.operationOf, String.toList_ofList, takeWhile_append_of_pos hall, Text.lowered,
    String.toList_ofList, String.toList_ofList, map_append, map_lowerChar_keyword h]

end Keyword

/-- Reading the lines behind a header leaves its statement alone. -/
theorem sql_readLines {mutation : Bool} {stop : Nat} {lines : List Line} {focus root : Relation}
    {around : List Relation} {queue rest : List Interpolation}
    (h : readLines mutation stop lines queue focus around = .ok (root, rest)) :
    root.sql = (rootOf focus around).sql := by
  induction lines generalizing queue focus around with
  | nil =>
    unfold readLines at h
    split at h
    · rename_i hout
      rw [isEmpty_iff.mp (Bool.and_eq_true_iff.mp hout).1]
      cases h
      rfl
    · cases h
  | cons l lines ih =>
    unfold readLines at h
    split at h
    · split at h
      · cases h
      · rw [ih h, rootOf]
    split at h
    · split at h
      · rename_i more
        rw [ih h]
        cases more <;> rfl
      split at h
      · cases h
        rfl
      · exact ih h
    split at h
    · exact ih h
    · rw [ih h]
      cases around with
      | nil =>
        unfold Relation.addAttribute rootOf
        split <;> rfl
      | cons outer more => rfl

/-- A mutation has the statement of its header, trimmed. -/
theorem exists_header {s : String} {root : Relation} (h : parseText s = .ok root)
    (hroot : root.isMutation) :
    ∃ first rest, Line.scan s.toList = first :: rest ∧ first.IsHeader ∧ first.opens ∧
      root.sql = String.ofList (Text.trim first.body) := by
  rw [parseText_eq_ok_iff] at h
  cases hscan : Line.scan s.toList with
  | nil =>
    rw [hscan, readRoot] at h
    cases h
  | cons first rest =>
    rw [hscan] at h
    by_cases hheader : first.IsHeader
    · rw [readRoot_header hheader] at h
      split at h
      · rename_i hopens
        exact ⟨first, rest, rfl, hheader, hopens, sql_readLines h⟩
      · cases h
    · -- any other query has no statement at its root
      rw [readRoot_of_not_header hheader] at h
      have hsql : root.sql = "" := sql_readLines h
      rw [Relation.isMutation, hsql, Bool.and_comm] at hroot
      cases hroot

/-- The statement of a mutation: a word that is the keyword, and white space of ASCII other than a
newline behind it, if anything is left there. -/
theorem exists_keyword {s : String} {root : Relation} (h : parseText s = .ok root)
    (hroot : root.isMutation) :
    ∃ first rest k word kept, Line.scan s.toList = first :: rest ∧ first.mutation? = some k ∧
      word.map Char.toLower = k.lower.toList ∧ root.sql = String.ofList (word ++ kept) ∧
      ∀ c ∈ kept.head?, c ∈ Line.asciiSpaces ∧ c ≠ '\n' := by
  obtain ⟨first, rest, hscan, hheader, hopens, hsql⟩ := exists_header h hroot
  obtain ⟨k, hk⟩ := Option.isSome_iff_exists.mp (Line.isSome_mutation?_iff.mpr hheader)
  have hkeyword : k.opens first.text := by
    rw [Line.mutation?, MutationKeyword.ofText?] at hk
    have hfound := find?_some hk
    exact hfound
  obtain ⟨word, after, space, htext, hword, hspace⟩ := Line.opens_iff.mp hkeyword
  have hnewline : space ≠ '\n' := by
    rintro rfl
    have hstanding := standing_of_mem_scan (hscan ▸ mem_cons_self : first ∈ Line.scan s.toList)
    exact hstanding.newline (htext ▸ mem_append_right _ mem_cons_self)
  have hbody : first.body = word ++ space :: after.dropLast := by
    -- the brace at the end of the line is not the white space behind the keyword
    have hafter : after ≠ [] := by
      rintro rfl
      rw [Line.opens, htext, getLast?_concat, beq_iff_eq, Option.some_inj] at hopens
      rw [hopens] at hspace
      exact absurd hspace (by decide)
    rw [Line.body, htext, dropLast_append_of_ne_nil (cons_ne_nil _ _),
      dropLast_cons_of_ne_nil hafter]
  obtain ⟨kept, blanks, htrim, hkept⟩ :=
    Text.exists_trim_append (isWord_keyword hword) (space :: after.dropLast)
  rw [hbody, htrim] at hsql
  refine ⟨first, rest, k, word, kept, hscan, hk, hword, hsql, fun c hc => ?_⟩
  obtain ⟨kept, rfl⟩ := head?_eq_some_iff.mp hc
  obtain ⟨rfl, -⟩ := cons.inj hkept
  exact ⟨hspace, hnewline⟩

/-- **The operation that the log notes.**  A mutation was recognised by the keyword that its first
line opens with, which nothing or white space of ASCII follows in its statement.  The log notes that
keyword, unless the white space is other than a space or a tab. -/
theorem operation_of_parseText {s : String} {root : Relation} (h : parseText s = .ok root)
    (hroot : root.isMutation = true) :
    ∃ first rest k, Line.scan s.toList = first :: rest ∧ first.mutation? = some k ∧
      (∀ c ∈ (root.sql.toList.drop k.lower.length).head?, c ∈ Line.asciiSpaces) ∧
      ∀ (l : Log) (f : Files) (now : Timestamp) (rows : Int),
        l.addMutation f now root rows = l.add f now (entryOf root rows) ∧
          ((entryOf root rows).operation = k.lower ↔
            ∀ c ∈ (root.sql.toList.drop k.lower.length).head?, c = ' ' ∨ c = '\t') := by
  obtain ⟨first, rest, k, word, kept, hscan, hk, hword, hsql, hkept⟩ := exists_keyword h hroot
  have hdrop : root.sql.toList.drop k.lower.length = kept := by
    rw [hsql, String.toList_ofList, ← String.length_toList, ← hword, length_map, drop_left]
  refine ⟨first, rest, k, hscan, hk, ?_, fun l f now rows => ⟨if_pos hroot, ?_⟩⟩ <;> rw [hdrop]
  · exact fun c hc => (hkept c hc).1
  have hnoted := operationOf_keyword hword kept
  rw [← hsql] at hnoted
  show Log.operationOf root.sql = k.lower ↔ _
  rw [← String.toList_inj, hnoted, append_right_eq_self, map_eq_nil_iff]
  cases kept with
  | nil => simp
  | cons c kept => simp [takeWhile_cons, (hkept c rfl).2, or_iff_not_imp_left]

/-- An insertion with a vertical tab behind its keyword. -/
def tabbedInsert : String :=
  "Insert\x0binto a (b) VALUES (1) \x7b\nb\n\x7d"

/-- The log notes the words on both sides of a vertical tab. -/
theorem operation_tabbedInsert :
    ((parseText tabbedInsert).toOption.map fun root =>
      (root.isMutation, (entryOf root 1).operation)) = some (true, "insert\x0binto") := by
  decide +kernel

theorem operation_of_tabbedInsert :
    ∃ root, parseText tabbedInsert = .ok root ∧ root.isMutation = true ∧
      (entryOf root 1).operation ≠ "insert" := by
  have hparse : ((parseText tabbedInsert).toOption.any fun root =>
      root.isMutation && root.sql == "Insert\x0binto a (b) VALUES (1)") = true := by decide +kernel
  obtain ⟨root, hsome, hroot⟩ := (Option.any_eq_true _ _).mp hparse
  have hok : parseText tabbedInsert = .ok root := by
    cases h : parseText tabbedInsert with
    | error e => rw [h] at hsome; cases hsome
    | ok r => rw [h] at hsome; exact congrArg _ (Option.some.inj hsome)
  rw [Bool.and_eq_true, beq_iff_eq] at hroot
  obtain ⟨hmutation, hsql⟩ := hroot
  refine ⟨root, hok, hmutation, fun hinsert => ?_⟩
  obtain ⟨first, rest, k, hscan, hk, -, hlog⟩ := operation_of_parseText hok hmutation
  have hfirst : (Line.scan tabbedInsert.toList).head?.bind Line.mutation? = some .insert := by
    decide +kernel
  rw [hscan] at hfirst
  obtain rfl := Option.some.inj (hk.symm.trans hfirst)
  have hspace := (hlog ⟨""⟩ .empty .zero 1).2.mp hinsert '\x0b' (by rw [hsql]; decide +kernel)
  exact absurd hspace (by decide)

/-! ## The table -/

open Text (IsWord Spaced isBlank sameLetters)

/-- **The words before the table**: of a statement with `INTO`, or of an update. -/
inductive Opening : Bool → List (List Char) → Prop
  | into {verb into : List Char}
      (isVerb : sameLetters verb "INSERT".toList = true ∨ sameLetters verb "REPLACE".toList = true)
      (isInto : sameLetters into "INTO".toList = true) : Opening true [verb, into]
  | insertOr {verb or action into : List Char} (isVerb : sameLetters verb "INSERT".toList = true)
      (isOr : sameLetters or "OR".toList = true) (isInto : sameLetters into "INTO".toList = true) :
    Opening true [verb, or, action, into]
  | update {verb : List Char} (isVerb : sameLetters verb "UPDATE".toList = true) :
    Opening false [verb]
  | updateOr {verb or action : List Char} (isVerb : sameLetters verb "UPDATE".toList = true)
      (isOr : sameLetters or "OR".toList = true) : Opening false [verb, or, action]

/-- What may stand behind the table: a blank, or a parenthesis in a statement with `INTO`. -/
def Follows (into : Bool) (behind : List Char) : Prop :=
  ∀ c ∈ behind.head?, isBlank c = true ∨ into = true ∧ c = '('

section Table

variable {into : Bool} {ws : List (List Char)} {front behind written t : List Char} {q : Char}

/-- The table is the next word, unless that is taken for the `OR` of an update. -/
theorem Opening.targetWord?_append (h : Opening into ws) {word : List Char}
    (hor : ∀ verb, ws = [verb] → sameLetters word "OR".toList = false) (rest : List (List Char)) :
    targetWord? (ws ++ word :: rest) = some word := by
  cases h with
  | @into verb into isVerb isInto =>
    have hor : sameLetters into "OR".toList = false := Text.not_sameLetters isInto (by decide)
    have hupdate : sameLetters verb "UPDATE".toList = false :=
      isVerb.elim (Text.not_sameLetters · (by decide)) (Text.not_sameLetters · (by decide))
    simp [targetWord?, hor, hupdate, isInto, -String.reduceToList]
  | @insertOr verb _ _ _ isVerb isOr isInto =>
    have hupdate : sameLetters verb "UPDATE".toList = false :=
      Text.not_sameLetters isVerb (by decide)
    simp [targetWord?, isOr, hupdate, isInto, -String.reduceToList]
  | update isVerb => simp [targetWord?, isVerb, hor _ rfl, -String.reduceToList]
  | updateOr isVerb isOr => simp [targetWord?, isVerb, isOr, -String.reduceToList]

/-- What is read as the table: the name as it was written, and what stands behind it without a blank
between. -/
theorem targetTable_append (hopening : Opening into ws) (hfront : Spaced ws front)
    (hwritten : IsWord written)
    (hor : ∀ verb, ws = [verb] →
      sameLetters (written ++ behind.takeWhile fun c => !isBlank c) "OR".toList = false) :
    targetTable (front ++ written ++ behind) =
      unquoteName (written ++ behind.takeWhile fun c => !isBlank c) := by
  rw [targetTable, append_assoc, hfront.words_append, Text.words_append hwritten,
    hopening.targetWord?_append hor]

theorem takeWhile_of_follows (h : Follows into behind) :
    (behind.takeWhile fun c => !isBlank c) = [] ∨
      into ∧ ∃ rest, (behind.takeWhile fun c => !isBlank c) = '(' :: rest := by
  cases behind with
  | nil => exact .inl rfl
  | cons c behind =>
    rcases h c rfl with hblank | ⟨hinto, rfl⟩
    · exact .inl (takeWhile_cons_of_neg (by simp [hblank]))
    · exact .inr ⟨hinto, _, takeWhile_cons_of_pos rfl⟩

/-! ### Names in quotes -/

theorem mem_double {c : Char} {name : List Char} (h : c ∈ Sql.Identifier.double q name) :
    c ∈ name := by
  induction name with
  | nil => cases h
  | cons d name ih =>
    unfold Sql.Identifier.double at h
    split at h <;> simp only [mem_cons] at h ⊢ <;> tauto

theorem isWord_quote (hq : q = '"' ∨ q = '\x60') (ht : ∀ c ∈ t, isBlank c = false) :
    IsWord (Sql.Identifier.quote q t) := by
  have hq : isBlank q = false := by
    rcases hq with rfl | rfl <;> rfl
  refine ⟨cons_ne_nil _ _, fun c hc => ?_⟩
  rw [Sql.Identifier.quote, mem_cons, mem_append, mem_singleton] at hc
  rcases hc with rfl | hc | rfl
  · exact hq
  · exact ht c (mem_double hc)
  · exact hq

/-- The first quote behind the opening one ends the name, doubled or not. -/
theorem takeWhile_double (rest : List Char) :
    (Sql.Identifier.double q t ++ q :: rest).takeWhile (· != q) = t.takeWhile (· != q) := by
  induction t with
  | nil => simp [Sql.Identifier.double]
  | cons c t ih =>
    unfold Sql.Identifier.double
    by_cases hc : c = q
    · simp [hc]
    · simp [hc, ih]

theorem unquoteName_quote (hq : q = '"' ∨ q = '\x60') (rest : List Char) :
    unquoteName (Sql.Identifier.quote q t ++ rest) = t.takeWhile (· != q) := by
  have hopens : q = '"' ∨ q = '\x60' ∨ q = '[' := hq.imp_right .inl
  have hcloses : (if q = '[' then ']' else q) = q := by
    rcases hq with rfl | rfl <;> rfl
  rw [Sql.Identifier.quote, cons_append, unquoteName, if_pos hopens, hcloses, append_assoc,
    singleton_append, if_pos (by simp), takeWhile_double]

/-- The name or nothing is read exactly if the name has no quote or starts with one. -/
theorem takeWhile_ne_iff : t.takeWhile (· != q) = t ∨ t.takeWhile (· != q) = [] ↔
    q ∉ t ∨ t.head? = some q := by
  have hself : t.takeWhile (· != q) = t ↔ q ∉ t := by
    induction t with
    | nil => simp
    | cons c t ih =>
      by_cases hc : c = q
      · simp [hc]
      · simp [hc, Ne.symm hc, ih]
  rw [hself]
  cases t <;> simp [takeWhile_cons]

theorem targetTable_quote (hopening : Opening into ws) (hfront : Spaced ws front)
    (hq : q = '"' ∨ q = '\x60') (ht : ∀ c ∈ t, isBlank c = false) :
    targetTable (front ++ Sql.Identifier.quote q t ++ behind) = t.takeWhile (· != q) := by
  rw [targetTable_append hopening hfront (isWord_quote hq ht), unquoteName_quote hq]
  -- a quote does not begin the word `OR`
  intro verb _
  rw [Bool.eq_false_iff]
  intro hsame
  have hhead := (cons.inj (Text.sameLetters_iff.mp hsame)).1
  rcases hq with rfl | rfl <;> exact absurd hhead (by decide)

/-! ### Bare names -/

theorem unquoteName_bare {c : Char} (hc : c ≠ '"' ∧ c ≠ '\x60' ∧ c ≠ '[')
    (ht : '(' ∉ c :: t ∧ ';' ∉ c :: t) {rest : List Char} (hrest : ∀ d ∈ rest.head?, d = '(') :
    unquoteName (c :: t ++ rest) = c :: t := by
  have hall : ∀ d ∈ c :: t, (d != '(' && d != ';') = true := by
    intro d hd
    rw [Bool.and_eq_true, bne_iff_ne, bne_iff_ne]
    exact ⟨fun heq => ht.1 (heq ▸ hd), fun heq => ht.2 (heq ▸ hd)⟩
  have hend : rest.takeWhile (fun d => d != '(' && d != ';') = [] := by
    cases rest with
    | nil => rfl
    | cons d rest => rw [hrest d rfl]; rfl
  rw [cons_append, unquoteName, if_neg (by tauto), ← cons_append, takeWhile_append_of_pos hall,
    hend, append_nil]

theorem targetTable_bare (hopening : Opening into ws) (hfront : Spaced ws front)
    (ht : ∀ c ∈ t, isBlank c = false) (hbehind : Follows into behind) (hne : t ≠ [])
    (hhead : ∀ c ∈ t.head?, c ≠ '"' ∧ c ≠ '\x60' ∧ c ≠ '[') (hend : '(' ∉ t ∧ ';' ∉ t)
    (hor : ∀ verb, ws = [verb] → sameLetters t "OR".toList = false) :
    targetTable (front ++ t ++ behind) = t := by
  obtain ⟨c, t, rfl⟩ := exists_cons_of_ne_nil hne
  rw [targetTable_append hopening hfront ⟨hne, ht⟩]
  · refine unquoteName_bare (hhead c rfl) hend ?_
    rcases takeWhile_of_follows hbehind with hnil | ⟨-, rest, hcons⟩
    · simp [hnil]
    · simp [hcons]
  · rintro verb rfl
    rcases takeWhile_of_follows hbehind with hnil | ⟨rfl, -⟩
    · rw [hnil, append_nil]
      exact hor verb rfl
    · cases hopening

theorem eq_of_mem_identifierQuote {d : Sql.Dialect} (hd : d ∈ Sql.Dialect.all)
    (hq : q ∈ d.identifierQuote) : q = '"' ∨ q = '\x60' := by
  simp only [Sql.Dialect.all, mem_cons, not_mem_nil, or_false] at hd
  rcases hd with rfl | rfl | rfl
  · exact .inl (Option.some.inj hq).symm
  · exact .inl (Option.some.inj hq).symm
  · exact .inr (Option.some.inj hq).symm

/-- **The table that is read.**  Of a name written in quotes, what stands before its first quote is
read, which is the name or nothing exactly if the name has no quote or starts with one; a bare name
is read as it is. -/
theorem targetTable_written (hopening : Opening into ws) (hfront : Spaced ws front)
    (ht : ∀ c ∈ t, isBlank c = false) (hbehind : Follows into behind) :
    (∀ d ∈ Sql.Dialect.all, ∀ q ∈ d.identifierQuote,
      targetTable (front ++ (d.quote (String.ofList t)).toList ++ behind) = t.takeWhile (· != q) ∧
        (t.takeWhile (· != q) = t ∨ t.takeWhile (· != q) = [] ↔ q ∉ t ∨ t.head? = some q)) ∧
      (t ≠ [] → (∀ c ∈ t.head?, c ≠ '"' ∧ c ≠ '\x60' ∧ c ≠ '[') → '(' ∉ t ∧ ';' ∉ t →
        (∀ verb, ws = [verb] → sameLetters t "OR".toList = false) →
          targetTable (front ++ t ++ behind) = t) := by
  refine ⟨fun d hd q hq => ⟨?_, takeWhile_ne_iff⟩, targetTable_bare hopening hfront ht hbehind⟩
  rw [Sql.Dialect.quote, String.toList_ofList, String.toList_ofList, Option.mem_def.mp hq,
    Option.getD_some]
  exact targetTable_quote hopening hfront (eq_of_mem_identifierQuote hd hq) ht

/-- A quote inside a quoted name ends it: another table is read. -/
theorem targetTable_quote_inside :
    targetTable ("INSERT INTO ".toList ++ (Sql.Dialect.sqlite.quote "a\"b").toList) = ['a'] := by
  decide +kernel

theorem targetTable_written_quote :
    targetTable "UPDATE \"a\"\"b\" SET c = 1".toList = ['a'] := by
  have hword (cs : List Char) (h : cs.all fun c => !isBlank c) : ∀ c ∈ cs, isBlank c = false :=
    fun c hc => by simpa using all_eq_true.mp h c hc
  have hfront : Spaced ["UPDATE".toList] ("UPDATE".toList ++ [' '] ++ []) :=
    .cons ⟨by decide, hword _ rfl⟩ (by decide) (all_eq_true.mp rfl) .nil
  have hbehind : Follows false " SET c = 1".toList := by
    rintro c ⟨⟩
    exact .inl rfl
  exact ((targetTable_written (t := "a\"b".toList) (.update rfl) hfront (hword _ rfl) hbehind).1
    .sqlite mem_cons_self '"' rfl).1

end Table

end Query
end TreeQuery

import TreeQuery.Query.Line

/-!
# Where the lines of a query stand

Offsets are byte positions in the literal text.  The text of a line is a part of the literal text,
and `Line.start` is where this part begins (`exists_eq_append_of_mem_scan`).  Lines do not touch:
between two of them there is at least the newline, so a line ends before a later one starts
(`scan_pairwise`).
-/

namespace TreeQuery

open List

namespace Text

theorem bytes_append (as bs : List Char) : bytes (as ++ bs) = bytes as + bytes bs := by
  induction as with
  | nil => simp [bytes]
  | cons a as ih =>
    simp only [cons_append, bytes, ih]
    omega

/-- A text is its leading blanks, what trimming leaves of it, and its trailing blanks. -/
theorem exists_eq_trim_append (cs : List Char) :
    ∃ blanks, cs = cs.takeWhile isBlank ++ trim cs ++ blanks ∧ ∀ c ∈ blanks, isBlank c := by
  have hleft : cs = cs.takeWhile isBlank ++ trimLeft cs := takeWhile_append_dropWhile.symm
  have hright : trimLeft cs =
      trim cs ++ ((trimLeft cs).reverse.takeWhile isBlank).reverse := by
    have h := congrArg List.reverse
      (takeWhile_append_dropWhile (p := isBlank) (l := (trimLeft cs).reverse))
    rw [reverse_append, reverse_reverse] at h
    exact h.symm
  refine ⟨((trimLeft cs).reverse.takeWhile isBlank).reverse, ?_, ?_⟩
  · rw [append_assoc, ← hright]
    exact hleft
  · intro c hc
    exact all_eq_true.mp all_takeWhile c (mem_reverse.mp hc)

theorem lines_ne_nil (cs : List Char) : lines cs ≠ [] := by
  cases cs with
  | nil => simp [lines]
  | cons c cs =>
    unfold lines
    split
    · simp
    · split <;> simp

/-- The lines of a text, put together again. -/
theorem intercalate_lines (cs : List Char) : ['\n'].intercalate (lines cs) = cs := by
  induction cs with
  | nil => rfl
  | cons c cs ih =>
    unfold lines
    split
    · rename_i hc
      obtain ⟨l, ls, hl⟩ := exists_cons_of_ne_nil (lines_ne_nil cs)
      rw [hl] at ih ⊢
      rw [intercalate_cons_cons, ih, hc]
      rfl
    split
    · rename_i hnil
      exact absurd hnil (lines_ne_nil cs)
    rename_i l ls hl
    rw [hl] at ih
    cases ls with
    | nil =>
      rw [intercalate_singleton] at ih ⊢
      rw [ih]
    | cons l' ls =>
      rw [intercalate_cons_cons] at ih ⊢
      rw [← ih]
      rfl

/-- The text before a line consists of the lines before it, each with its newline. -/
theorem exists_eq_append_of_lines {cs raw : List Char} {before after : List (List Char)}
    (h : lines cs = before ++ raw :: after) :
    ∃ rest, cs = before.flatMap (· ++ ['\n']) ++ raw ++ rest := by
  rw [← intercalate_lines cs, h]
  clear h
  induction before with
  | nil =>
    cases after with
    | nil => exact ⟨[], by simp⟩
    | cons next after => exact ⟨_, by rw [nil_append, intercalate_cons_cons, append_assoc]; rfl⟩
  | cons first before ih =>
    obtain ⟨rest, hrest⟩ := ih
    refine ⟨rest, ?_⟩
    rw [cons_append, intercalate_cons_of_ne_nil (by simp), hrest, flatMap_cons]
    simp only [append_assoc]

end Text

namespace Query.Line

variable {pos : Nat} {raws : List (List Char)} {l : Line}

/-- **The lines are the raw lines that are not blank**, trimmed.  A line starts behind the raw lines
before it, each with its newline, and behind the blanks that it starts with. -/
theorem mem_scanFrom_iff :
    l ∈ scanFrom pos raws ↔ ∃ before raw after, raws = before ++ raw :: after ∧
      Text.trim raw ≠ [] ∧ l.text = Text.trim raw ∧
      l.start = pos + Text.bytes (before.flatMap (· ++ ['\n']) ++ raw.takeWhile Text.isBlank) := by
  induction raws generalizing pos with
  | nil => simp [scanFrom]
  | cons raw raws ih =>
    have hmem : l ∈ scanFrom pos (raw :: raws) ↔
        (Text.trim raw ≠ [] ∧
          l = ⟨Text.trim raw, pos + Text.bytes (raw.takeWhile Text.isBlank)⟩) ∨
        l ∈ scanFrom (pos + Text.bytes raw + 1) raws := by
      rw [scanFrom]
      split <;> simp_all
    have hnewline : Text.bytes ['\n'] = 1 := rfl
    rw [hmem, ih]
    constructor
    · rintro (⟨hne, rfl⟩ | ⟨before, raw', after, rfl, hne, htext, hstart⟩)
      · exact ⟨[], raw, raws, rfl, hne, rfl, rfl⟩
      · refine ⟨raw :: before, raw', after, rfl, hne, htext, ?_⟩
        rw [hstart, flatMap_cons]
        simp only [Text.bytes_append]
        omega
    · rintro ⟨_ | ⟨first, before⟩, raw', after, hraws, hne, htext, hstart⟩
      · cases hraws
        exact .inl ⟨hne, congr (congrArg mk htext) hstart⟩
      · cases hraws
        refine .inr ⟨before, raw', after, rfl, hne, htext, ?_⟩
        rw [hstart, flatMap_cons]
        simp only [Text.bytes_append]
        omega

theorem scanFrom_pairwise (pos : Nat) (raws : List (List Char)) :
    (scanFrom pos raws).Pairwise fun l l' => l.stop < l'.start := by
  induction raws generalizing pos with
  | nil => exact List.Pairwise.nil
  | cons raw raws ih =>
    unfold scanFrom
    dsimp only
    split
    · exact ih _
    refine List.Pairwise.cons ?_ (ih _)
    intro l' hl'
    obtain ⟨_, _, _, -, -, -, hlater⟩ := mem_scanFrom_iff.mp hl'
    -- the line lies inside the raw line that it is trimmed from
    obtain ⟨blanks, hraw, -⟩ := Text.exists_eq_trim_append raw
    have hbytes := congrArg Text.bytes hraw
    rw [Text.bytes_append, Text.bytes_append] at hbytes
    simp only [stop]
    omega

/-- **A line ends before a later one starts.** -/
theorem scan_pairwise (literal : List Char) :
    (scan literal).Pairwise fun l l' => l.stop < l'.start :=
  scanFrom_pairwise 0 (Text.lines literal)

/-- **A line is a part of the literal text**, and starts where this part begins. -/
theorem exists_eq_append_of_mem_scan {literal : List Char} (hl : l ∈ scan literal) :
    ∃ front back, literal = front ++ l.text ++ back ∧ l.start = Text.bytes front := by
  obtain ⟨before, raw, after, hlines, -, htext, hstart⟩ := mem_scanFrom_iff.mp hl
  obtain ⟨rest, hrest⟩ := Text.exists_eq_append_of_lines hlines
  obtain ⟨blanks, hraw, -⟩ := Text.exists_eq_trim_append raw
  refine ⟨_, blanks ++ rest, ?_, hstart.trans (Nat.zero_add _)⟩
  calc literal = before.flatMap (· ++ ['\n']) ++ raw ++ rest := hrest
    _ = before.flatMap (· ++ ['\n']) ++ (raw.takeWhile Text.isBlank ++ l.text ++ blanks) ++
        rest := by rw [htext, ← hraw]
    _ = _ := by simp only [append_assoc]

/-- A line that opens a body is its text before the brace, and the brace. -/
theorem body_append_of_opens {l : Line} (h : l.opens) : l.body ++ ['{'] = l.text := by
  obtain ⟨front, hfront⟩ := List.getLast?_eq_some_iff.mp (eq_of_beq h)
  rw [body, hfront, dropLast_concat]

/-- A line that starts a relation is its type, its clause and the brace. -/
theorem text_of_relationStart? {l : Line} {m : RelationStart} (h : l.relationStart? = some m) :
    l.text = m.type ++ m.clause ++ ['{'] ∧ m.start = l.start + Text.bytes m.type := by
  unfold relationStart? at h
  split at h
  · rename_i hopens
    dsimp only at h
    split at h
    · cases h
    · cases h
      refine ⟨?_, rfl⟩
      rw [takeWhile_append_dropWhile, body_append_of_opens hopens]
  · cases h

end Query.Line
end TreeQuery

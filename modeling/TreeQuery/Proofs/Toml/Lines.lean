import TreeQuery.Proofs.Json.RoundTrip
import TreeQuery.Toml.Syntax
import TreeQuery.Toml.Write

/-!
# Reading settings as they are written

What is written for settings and tables is read as one statement a line: the header of each table
and an assignment for each setting (`lines_document`).  `Spells` says of the text of a line that it
is read as a statement, `Lines` says of a text that it is made of such lines, with blanks between
them.

A quoted text is read back as it was (`quotedString_quoted`).  But the replacement character is
written as it is and refused by the reader; it is the only character that makes a written text
unreadable (`isClean_eq`).
-/

namespace TreeQuery.Toml

open List

/-! ## Quoted texts -/

/-- The characters that stand for themselves between quotes. -/
def isInner (c : Char) : Bool :=
  c != '"' && c != '\\' && 32 ≤ c.toNat && c.toNat != 127

/-- The blanks between and inside of lines. -/
def isGap (c : Char) : Bool :=
  isBlank c || isNewline c

variable {c : Char} {tables : List (String × List (String × String))} {name : String}

/-- The characters of a key without quotes are none of those that divide a line. -/
theorem of_isBare (h : isBare c) :
    isGap c = false ∧ isInner c ∧ c ∉ ['"', '\'', '[', '#', '\uFEFF', '�'] := by
  have hrange : 32 ≤ c.toNat ∧ c.toNat ≠ 127 := by
    delta isBare Char.isAlphanum Char.isAlpha Char.isUpper Char.isLower Char.isDigit at h
    simp only [Bool.or_eq_true, Bool.and_eq_true, decide_eq_true_eq, beq_iff_eq, ge_iff_le,
      UInt32.le_iff_toNat_le] at h
    have hbetween : ∀ {low high : Nat}, 32 ≤ low → high < 127 →
        low ≤ c.toNat ∧ c.toNat ≤ high → 32 ≤ c.toNat ∧ c.toNat ≠ 127 := by
      intro low high hlow hhigh h
      omega
    rcases h with (((h | h) | h) | rfl) | rfl
    · exact hbetween (by decide) (by decide) h
    · exact hbetween (by decide) (by decide) h
    · exact hbetween (by decide) (by decide) h
    · decide
    · decide
  have hescape : c ≠ '"' ∧ c ≠ '\\' := by
    constructor <;> rintro rfl <;> exact absurd h (by decide)
  refine ⟨?_, by simp [isInner, hescape, hrange], ?_⟩
  · rw [Bool.eq_false_iff]
    intro hgap
    simp only [isGap, isBlank, isNewline, Bool.or_eq_true, beq_iff_eq] at hgap
    rcases hgap with (rfl | rfl) | rfl | rfl <;> exact absurd h (by decide)
  · intro hmem
    simp only [mem_cons, not_mem_nil, or_false] at hmem
    rcases hmem with rfl | rfl | rfl | rfl | rfl | rfl <;> exact absurd h (by decide)

/-- Controls are written with four digits, which read back as the code. -/
theorem exists_hex_control {n : Nat} (h : n < 32 ∨ n = 127) :
    ∃ a b c d, Text.hex 4 n = [a, b, c, d] ∧ Json.Tree.fourHex? a b c d = some n ∧
      [a, b, c, d].all isBare = true := by
  have hcodes : ∀ n ∈ range 32 ++ [127],
      Text.hex 4 n = ['0', '0', Nat.digitChar (n / 16), Nat.digitChar (n % 16)] ∧
        Json.Tree.fourHex? '0' '0' (Nat.digitChar (n / 16)) (Nat.digitChar (n % 16)) = some n ∧
        ['0', '0', Nat.digitChar (n / 16), Nat.digitChar (n % 16)].all isBare = true := by
    decide
  obtain ⟨hhex, hvalue, hbare⟩ := hcodes n (by simp; omega)
  exact ⟨_, _, _, _, hhex, hvalue, hbare⟩

/-- A character is escaped by a letter or by its code, or it stands for itself. -/
theorem escaped_cases (c : Char) :
    (∃ letter, escaped c = ['\\', letter] ∧ escape? letter = some c ∧ 32 ≤ letter.toNat ∧
        letter.toNat < 127) ∨
      (∃ w x y z, escaped c = ['\\', 'u', w, x, y, z] ∧
        Json.Tree.fourHex? w x y z = some c.toNat ∧ [w, x, y, z].all isBare) ∨
        (escaped c = [c] ∧ isInner c) := by
  by_cases hletter :
    c = '"' ∨ c = '\\' ∨ c = '\x08' ∨ c = '\t' ∨ c = '\n' ∨ c = '\x0c' ∨ c = '\r'
  · rcases hletter with rfl | rfl | rfl | rfl | rfl | rfl | rfl <;>
      exact .inl ⟨_, rfl, rfl, by decide, by decide⟩
  simp only [not_or] at hletter
  obtain ⟨hquote, hbackslash, hback, htab, hnewline, hfeed, hreturn⟩ := hletter
  rw [escaped, if_neg (by simp [hquote, hbackslash]), if_neg hback, if_neg htab,
    if_neg hnewline, if_neg hfeed, if_neg hreturn]
  split
  · rename_i hcontrol
    obtain ⟨w, x, y, z, hhex, hvalue, hbare⟩ := exists_hex_control hcontrol
    exact .inr (.inl ⟨w, x, y, z, by rw [hhex], hvalue, hbare⟩)
  · rename_i hcontrol
    refine .inr (.inr ⟨rfl, ?_⟩)
    have hrange : 32 ≤ c.toNat ∧ c.toNat ≠ 127 := by omega
    simp [isInner, hquote, hbackslash, hrange]

/-- What is written for a character does not start with a quote. -/
theorem escaped_eq_cons (c : Char) : ∃ x xs, escaped c = x :: xs ∧ x ≠ '"' := by
  rcases escaped_cases c with ⟨letter, hc, -⟩ | ⟨w, x, y, z, hc, -⟩ | ⟨hc, hinner⟩
  · exact ⟨_, _, hc, by decide⟩
  · exact ⟨_, _, hc, by decide⟩
  · simp only [isInner, Bool.and_eq_true, bne_iff_ne] at hinner
    exact ⟨_, _, hc, hinner.1.1.1⟩

theorem isNewline_of_isInner (h : isInner c) : isNewline c = false := by
  have hcode : 32 ≤ c.toNat := by
    simp only [isInner, Bool.and_eq_true, decide_eq_true_eq] at h
    exact h.1.2
  have hne : c ≠ '\n' ∧ c ≠ '\r' := by
    constructor <;> rintro rfl <;> exact absurd hcode (by decide)
  simp [isNewline, hne]

theorem lineRaw_inner (h : isInner c) (cs : List Char) :
    lineRaw (c :: cs) = (lineRaw cs).map fun p => (c :: p.1, p.2) := by
  have hne : c ≠ '"' ∧ c ≠ '\\' := by
    simp only [isInner, Bool.and_eq_true, bne_iff_ne] at h
    exact h.1.1
  rw [lineRaw, isNewline_of_isInner h, if_neg Bool.false_ne_true]
  · exact hne.1
  · rintro c' rest rfl
    exact absurd rfl hne.2

/-- An escaped character is passed over in one go. -/
theorem lineRaw_escaped (c : Char) {cs raw after : List Char} (h : lineRaw cs = some (raw, after)) :
    lineRaw (escaped c ++ cs) = some (escaped c ++ raw, after) := by
  rcases escaped_cases c with ⟨letter, hc, -⟩ | ⟨w, x, y, z, hc, -, hbare⟩ | ⟨hc, hinner⟩
  · rw [hc]
    simp [lineRaw, h]
  · simp only [all_cons, all_nil, Bool.and_true, Bool.and_eq_true] at hbare
    obtain ⟨hw, hx, hy, hz⟩ := hbare
    rw [hc]
    simp [lineRaw, lineRaw_inner (of_isBare hw).2.1, lineRaw_inner (of_isBare hx).2.1,
      lineRaw_inner (of_isBare hy).2.1, lineRaw_inner (of_isBare hz).2.1, h]
  · rw [hc]
    simp [lineRaw_inner hinner, h]

theorem lineRaw_flatMap_escaped (s rest : List Char) :
    lineRaw (s.flatMap escaped ++ '"' :: rest) = some (s.flatMap escaped, rest) := by
  induction s with
  | nil => rfl
  | cons c s ih =>
    rw [flatMap_cons, append_assoc]
    exact lineRaw_escaped c ih

theorem scalar?_toNat (c : Char) : scalar? c.toNat = some c := by
  have hvalid : c.toNat < 0xD800 ∨ 0xDFFF < c.toNat ∧ c.toNat < 0x110000 := c.valid
  have hlt : c.toNat < 0x110000 := by omega
  rw [scalar?, if_pos ⟨hlt, by simp [Json.Tree.isSurrogate_toNat]⟩, Char.ofNat_toNat]

theorem unescape_escaped (c : Char) {cs tail : List Char} (h : unescape cs = some tail) :
    unescape (escaped c ++ cs) = some (c :: tail) := by
  rcases escaped_cases c with ⟨letter, hc, hletter, -⟩ | ⟨w, x, y, z, hc, hcode, -⟩ | ⟨hc, hinner⟩
  · have hcode : letter ≠ 'u' ∧ letter ≠ 'U' := by
      constructor <;> rintro rfl <;> cases hletter
    rw [hc]
    show unescape ('\\' :: letter :: cs) = _
    rw [unescape]
    · simp [hletter, h]
    · rintro w x y z rest rfl
      exact absurd rfl hcode.1
    · intro d e f g w x y z rest hletter'
      exact absurd hletter' hcode.2
  · rw [hc]
    simp [unescape, hcode, scalar?_toNat, h]
  · have hne : c ≠ '\\' := by
      simp only [isInner, Bool.and_eq_true, bne_iff_ne] at hinner
      exact hinner.1.1.2
    rw [hc]
    show unescape (c :: cs) = _
    rw [unescape]
    · simp [hne, h]
    all_goals
      intros
      contradiction

theorem unescape_flatMap_escaped (s : List Char) : unescape (s.flatMap escaped) = some s := by
  induction s with
  | nil => rfl
  | cons c s ih =>
    rw [flatMap_cons]
    exact unescape_escaped c ih

theorem toList_quoted (s : String) :
    (quoted s).toList = '"' :: (s.toList.flatMap escaped ++ ['"']) :=
  String.toList_ofList

/-- **A quoted text reads back as it was**, whatever stands behind it. -/
theorem quotedString_quoted (s : String) (rest : List Char) :
    quotedString (s.toList.flatMap escaped ++ '"' :: rest) = some (s, rest) := by
  simp [quotedString, lineRaw_flatMap_escaped, unescape_flatMap_escaped]

/-! ## Clean texts -/

/-- The characters that are ever written: those that can be seen, and line ends. -/
def isWritten (c : Char) : Bool :=
  c == '\n' || (32 ≤ c.toNat && c.toNat != 127)

/-- **Of what is written only the replacement character is refused.** -/
theorem isClean_eq {cs : List Char} (h : ∀ c ∈ cs, isWritten c) :
    isClean cs = !cs.contains '�' := by
  induction cs with
  | nil => rfl
  | cons c cs ih =>
    obtain ⟨hc, hcs⟩ := forall_mem_cons.mp h
    have hreturn : c ≠ '\r' := by
      rintro rfl
      exact absurd hc (by decide)
    rw [isClean, ih hcs]
    · by_cases hreplaced : c = '�'
      · subst hreplaced
        simp
      have hne : ¬ '�' = c := fun heq => hreplaced heq.symm
      by_cases hnewline : c = '\n'
      · subst hnewline
        simp
      · have hrange : 32 ≤ c.toNat ∧ c.toNat ≠ 127 := by
          simpa [isWritten, hnewline] using hc
        simp [hreplaced, hne, hrange]
    · rintro rest rfl
      exact absurd rfl hreturn

theorem isWritten_of_isInner (h : isInner c) : isWritten c = true := by
  simp only [isInner, Bool.and_eq_true] at h
  simp [isWritten, h.1.2, h.2]

theorem isWritten_of_mem_escaped {d : Char} (h : d ∈ escaped c) : isWritten d = true := by
  rcases escaped_cases c with ⟨letter, hc, -, hlow, hhigh⟩ | ⟨w, x, y, z, hc, -, hbare⟩ |
    ⟨hc, hinner⟩
  · rw [hc, mem_cons, mem_singleton] at h
    rcases h with rfl | rfl
    · rfl
    · have hne : d.toNat ≠ 127 := by omega
      simp [isWritten, hlow, hne]
  · rw [hc, mem_cons, mem_cons] at h
    rcases h with rfl | rfl | h
    · rfl
    · rfl
    · exact isWritten_of_isInner (of_isBare (all_eq_true.mp hbare d h)).2.1
  · rw [hc, mem_singleton] at h
    rw [h]
    exact isWritten_of_isInner hinner

/-! ## Lines -/

/-- **The text is read as a statement**, if a line end follows. -/
structure Spells (text : List Char) (s : Statement) : Prop where
  start : ∃ c rest, text = c :: rest ∧ isGap c = false ∧ c ≠ '#' ∧ c ≠ '\uFEFF'
  reads : ∀ rest, statement (text ++ '\n' :: rest) = some (s, '\n' :: rest)

/-- **The text is made of lines** that are read as statements, with blanks before and after. -/
inductive Lines : List Char → List Statement → Prop
  | done {gap : List Char} (h : ∀ c ∈ gap, isGap c) : Lines gap []
  | line {gap text rest : List Char} {s : Statement} {ss : List Statement}
      (h : ∀ c ∈ gap, isGap c) (hs : Spells text s) (hrest : Lines rest ss) :
      Lines (gap ++ (text ++ '\n' :: rest)) (s :: ss)

namespace Lines

variable {cs ds : List Char} {ss ts : List Statement}

theorem gap_append (h : Lines cs ss) {gap : List Char} (hgap : ∀ c ∈ gap, isGap c) :
    Lines (gap ++ cs) ss := by
  cases h with
  | done h => exact .done (forall_mem_append.mpr ⟨hgap, h⟩)
  | line h hs hrest =>
    rw [← append_assoc]
    exact .line (forall_mem_append.mpr ⟨hgap, h⟩) hs hrest

theorem append (h : Lines cs ss) (h' : Lines ds ts) : Lines (cs ++ ds) (ss ++ ts) := by
  induction h with
  | done h => exact h'.gap_append h
  | line h hs _ ih =>
    simp only [append_assoc, cons_append]
    exact .line h hs ih

theorem length_le (h : Lines cs ss) : ss.length ≤ cs.length := by
  induction h with
  | done _ => exact Nat.zero_le _
  | line _ _ _ ih =>
    simp only [length_append, length_cons]
    omega

/-- A byte order mark is no blank, and no line starts with one. -/
theorem head?_ne (h : Lines cs ss) : cs.head? ≠ some '\uFEFF' := by
  have hgap : ∀ {gap : List Char} (rest : List Char), (∀ c ∈ gap, isGap c) → gap ≠ [] →
      (gap ++ rest).head? ≠ some '\uFEFF' := by
    intro gap rest h hne
    cases gap with
    | nil => exact absurd rfl hne
    | cons c gap =>
      intro heq
      obtain rfl : c = '\uFEFF' := Option.some.inj heq
      exact absurd (h _ mem_cons_self) (by decide)
  cases h with
  | done h =>
    by_cases hne : cs = []
    · simp [hne]
    · rw [← append_nil cs]
      exact hgap [] h hne
  | @line gap text rest s ss h hs hrest =>
    by_cases hne : gap = []
    · obtain ⟨c, cs, rfl, -, -, hmark⟩ := hs.start
      simpa [hne] using hmark
    · exact hgap _ h hne

end Lines

/-- Blanks before a line are skipped. -/
theorem skipLines_gap {gap : List Char} (h : ∀ c ∈ gap, isGap c)
    (hgap : isGap c = false) (hcomment : c ≠ '#') (fuel : Nat) (cs : List Char) :
    skipLines (fuel + 1) (gap ++ c :: cs) = c :: cs := by
  have hdrop : (gap ++ c :: cs).dropWhile (fun c => isBlank c || isNewline c) = c :: cs :=
    (dropWhile_append_of_pos h).trans
      (dropWhile_cons_of_neg (by rw [hgap]; exact Bool.false_ne_true))
  rw [skipLines, hdrop]
  split
  · rename_i heq
    exact absurd (cons.inj heq).1 hcomment
  · rfl

/-- **A text that is made of lines is read as their statements.** -/
theorem Lines.statements {cs : List Char} {ss : List Statement} (h : Lines cs ss) {fuel : Nat}
    (hfuel : ss.length < fuel) : statements fuel cs = some ss := by
  induction h generalizing fuel with
  | @done gap h =>
    obtain ⟨fuel, rfl⟩ : ∃ k, fuel = k + 1 := ⟨fuel - 1, by omega⟩
    have hdrop : (gap ++ []).dropWhile (fun c => isBlank c || isNewline c) = [] :=
      dropWhile_append_of_pos h
    rw [append_nil] at hdrop
    simp [Toml.statements, skipLines, hdrop]
  | @line gap text rest s ss h hs _ ih =>
    obtain ⟨fuel, rfl⟩ : ∃ k, fuel = k + 1 := ⟨fuel - 1, by omega⟩
    have hrest := ih (Nat.lt_of_succ_lt_succ hfuel)
    obtain ⟨c, cs, hstart, hgap, hcomment, -⟩ := hs.start
    have hskip := skipLines_gap h hgap hcomment (gap ++ (text ++ '\n' :: rest)).length
      (cs ++ '\n' :: rest)
    rw [← cons_append, ← hstart] at hskip
    have hreads := hs.reads rest
    unfold Toml.statements
    rw [hskip]
    rw [hstart, cons_append] at hreads ⊢
    simp only [hreads]
    simp [endOfLine, skipBlanks, isBlank, isNewline, hrest]

theorem Lines.readAll {text : String} {ss : List Statement} (h : Lines text.toList ss) :
    Statement.readAll text = if isClean text.toList then some ss else none := by
  have hmark := h.head?_ne
  have hread := h.statements (Nat.lt_succ_of_le h.length_le)
  unfold Statement.readAll
  split
  · rename_i heq
    rw [heq] at hmark
    exact absurd rfl hmark
  · dsimp only
    rw [hread]

/-! ## What is written -/

def Statement.setting (entry : String × String) : Statement :=
  .assign [entry.1] (.text entry.2)

/-- A name that stands bare as a key. -/
def isBareName (name : String) : Bool :=
  !name.isEmpty && name.toList.all isBare

theorem keyText_eq (k : String) : keyText k = if isBareName k then k else quoted k := rfl

theorem toList_of_isBareName (h : isBareName name) :
    (∀ c ∈ name.toList, isBare c) ∧ ∃ b bs, name.toList = b :: bs := by
  simp only [isBareName, Bool.and_eq_true, Bool.not_eq_true', all_eq_true] at h
  refine ⟨h.2, ?_⟩
  cases hlist : name.toList with
  | nil =>
    rw [String.toList_eq_nil_iff.mp hlist] at h
    exact absurd h.1 (by decide)
  | cons b bs => exact ⟨b, bs, rfl⟩

theorem keyPart_bare (h : isBareName name) (hc : isBare c = false) (rest : List Char) :
    keyPart (name.toList ++ c :: rest) = some (name, c :: rest) := by
  obtain ⟨hall, b, bs, hname⟩ := toList_of_isBareName h
  have htake : (name.toList ++ c :: rest).takeWhile isBare = name.toList := by
    rw [takeWhile_append_of_pos hall,
      takeWhile_cons_of_neg (by rw [hc]; exact Bool.false_ne_true), append_nil]
  have hdrop : (name.toList ++ c :: rest).dropWhile isBare = c :: rest := by
    rw [dropWhile_append_of_pos hall,
      dropWhile_cons_of_neg (by rw [hc]; exact Bool.false_ne_true)]
  have hempty : name.toList.isEmpty = false := by
    rw [hname]
    rfl
  obtain ⟨hgap, -, hmem⟩ := of_isBare (hall b (by rw [hname]; exact mem_cons_self))
  simp only [isGap, Bool.or_eq_false_iff] at hgap
  have hskip : skipBlanks (name.toList ++ c :: rest) = name.toList ++ c :: rest := by
    rw [skipBlanks, hname]
    exact dropWhile_cons_of_neg (by rw [hgap.1]; exact Bool.false_ne_true)
  unfold keyPart
  rw [hskip]
  split
  · rename_i heq
    rw [hname] at heq
    exact absurd (cons.inj heq).1 fun h => hmem (by simp [h])
  · rename_i heq
    rw [hname] at heq
    exact absurd (cons.inj heq).1 fun h => hmem (by simp [h])
  · simp [htake, hdrop, hempty]

/-- A key is read from what is written for it. -/
theorem keyPart_keyText (k : String) (rest : List Char) :
    keyPart ((keyText k).toList ++ ' ' :: rest) = some (k, ' ' :: rest) := by
  rw [keyText_eq]
  split
  · rename_i hbare
    exact keyPart_bare hbare rfl rest
  have hquoted : (quoted k).toList ++ ' ' :: rest =
      '"' :: (k.toList.flatMap escaped ++ '"' :: ' ' :: rest) := by
    simp [toList_quoted]
  rw [hquoted]
  exact quotedString_quoted k _

theorem key_of_keyPart {cs after : List Char} {k : String} (h : keyPart cs = some (k, after))
    (hdot : (skipBlanks after).head? ≠ some '.') (fuel : Nat) :
    key (fuel + 1) cs = some ([k], skipBlanks after) := by
  unfold key
  simp only [h, Option.bind_eq_bind, Option.bind_some]
  split
  · rename_i heq
    rw [heq] at hdot
    exact absurd rfl hdot
  · rfl

/-- A quoted text at the end of a line is read as a value: no third quote follows two. -/
theorem value_quoted (s : String) (fuel : Nat) (rest : List Char) :
    value (fuel + 1) (' ' :: ((quoted s).toList ++ '\n' :: rest)) =
      some (.text s, '\n' :: rest) := by
  have hquoted : (quoted s).toList ++ '\n' :: rest =
      '"' :: (s.toList.flatMap escaped ++ '"' :: '\n' :: rest) := by
    simp [toList_quoted]
  have hthird : ∀ more, s.toList.flatMap escaped ++ '"' :: '\n' :: rest ≠ '"' :: '"' :: more := by
    intro more heq
    cases hs : s.toList with
    | nil =>
      rw [hs] at heq
      exact absurd (cons.inj (cons.inj heq).2).1 (by decide)
    | cons c cs =>
      obtain ⟨x, xs, hc, hx⟩ := escaped_eq_cons c
      rw [hs, flatMap_cons, hc] at heq
      exact hx (cons.inj heq).1
  have hskip : skipBlanks (' ' :: ((quoted s).toList ++ '\n' :: rest)) =
      (quoted s).toList ++ '\n' :: rest := by
    rw [hquoted]
    rfl
  unfold value
  rw [hskip, hquoted]
  split
  · rename_i heq
    exact absurd (cons.inj heq).2 (hthird _)
  · rename_i heq
    rw [← (cons.inj heq).2, quotedString_quoted]
    rfl
  iterate 4
    · rename_i heq
      exact absurd (cons.inj heq).1 (by decide)
  · rename_i hnot _ _ _ _
    exact absurd rfl (hnot _)

/-- What is written for a key starts a line. -/
theorem keyText_eq_cons (k : String) :
    ∃ c cs, (keyText k).toList = c :: cs ∧ isGap c = false ∧ c ∉ ['[', '#', '\uFEFF'] := by
  rw [keyText_eq]
  split
  · rename_i hbare
    obtain ⟨hall, c, cs, hk⟩ := toList_of_isBareName hbare
    obtain ⟨hgap, -, hmem⟩ := of_isBare (hall c (by rw [hk]; exact mem_cons_self))
    refine ⟨c, cs, hk, hgap, fun h => hmem ?_⟩
    simp only [mem_cons, not_mem_nil, or_false] at h ⊢
    tauto
  · exact ⟨'"', _, toList_quoted k, rfl, by decide⟩

/-- The text of a setting, without indentation and line end. -/
def settingText (entry : String × String) : List Char :=
  (keyText entry.1).toList ++ ' ' :: '=' :: ' ' :: (quoted entry.2).toList

theorem spells_setting (entry : String × String) :
    Spells (settingText entry) (.setting entry) := by
  obtain ⟨k, v⟩ := entry
  obtain ⟨c, cs, hk, hgap, hmem⟩ := keyText_eq_cons k
  simp only [mem_cons, not_mem_nil, or_false, not_or] at hmem
  refine ⟨⟨c, cs ++ ' ' :: '=' :: ' ' :: (quoted v).toList, ?_, hgap, hmem.2.1, hmem.2.2⟩,
    fun rest => ?_⟩
  · rw [settingText, hk]
    rfl
  have hkey := key_of_keyPart (keyPart_keyText k
    ('=' :: ' ' :: ((quoted v).toList ++ '\n' :: rest))) (by simp [skipBlanks, isBlank])
  have hskip : ∀ cs, skipBlanks (' ' :: '=' :: cs) = '=' :: cs := fun _ => rfl
  have htext : settingText (k, v) ++ '\n' :: rest =
      (keyText k).toList ++ ' ' :: '=' :: ' ' :: ((quoted v).toList ++ '\n' :: rest) := by
    simp [settingText]
  rw [htext]
  rw [hk, cons_append] at hkey ⊢
  unfold statement
  split
  · rename_i heq
    exact absurd (cons.inj heq).1 hmem.1
  · rename_i heq
    exact absurd (cons.inj heq).1 hmem.1
  · rw [length_cons, hkey]
    simp only [Option.bind_eq_bind, Option.bind_some, hskip, value_quoted]
    rfl

theorem spells_header (h : isBareName name) :
    Spells ('[' :: (name.toList ++ [']'])) (.table [name]) := by
  refine ⟨⟨'[', _, rfl, rfl, by decide, by decide⟩, fun rest => ?_⟩
  have hkey := key_of_keyPart (keyPart_bare h (c := ']') rfl ('\n' :: rest))
    (by simp [skipBlanks, isBlank])
  have htext : '[' :: (name.toList ++ [']']) ++ '\n' :: rest =
      '[' :: (name.toList ++ ']' :: '\n' :: rest) := by
    simp
  obtain ⟨n, hn⟩ : ∃ n, (name.toList ++ ']' :: '\n' :: rest).length = n + 1 :=
    ⟨_, (length_append).trans rfl⟩
  rw [htext]
  unfold statement
  split
  · rename_i heq
    -- the name does not start with a bracket
    obtain ⟨hall, b, bs, hname⟩ := toList_of_isBareName h
    have hb := hall b (by rw [hname]; exact mem_cons_self)
    rw [hname] at heq
    rw [(cons.inj (cons.inj heq).2).1] at hb
    exact absurd hb (by decide)
  · rename_i heq
    rw [← (cons.inj heq).2, hn, hkey]
    rfl
  · rename_i hnot
    exact absurd rfl (hnot _)

/-- The statements of a table: none if it is empty. -/
def Statement.ofTable (table : String × List (String × String)) : List Statement :=
  if table.2.isEmpty then [] else .table [table.1] :: table.2.map .setting

theorem toList_settings (indent : String) (entries : List (String × String)) :
    (settings indent entries).toList =
      entries.flatMap fun e => indent.toList ++ (settingText e ++ ['\n']) := by
  induction entries with
  | nil => rfl
  | cons e entries ih =>
    rw [flatMap_cons, ← ih]
    simp [settings, String.join_cons, settingText]

theorem lines_settings {indent : String} (h : ∀ c ∈ indent.toList, isGap c)
    (entries : List (String × String)) :
    Lines (settings indent entries).toList (entries.map .setting) := by
  rw [toList_settings]
  induction entries with
  | nil => exact .done (by simp)
  | cons e entries ih =>
    rw [flatMap_cons, append_assoc, append_assoc]
    exact .line h (spells_setting e) ih

theorem lines_section (h : isBareName name) (entries : List (String × String)) :
    Lines ("\n".intercalate (section? name entries)).toList
      (Statement.ofTable (name, entries)) := by
  unfold section? Statement.ofTable
  split
  · exact .done (by simp)
  have hindent : ∀ c ∈ "  ".toList, isGap c = true := all_eq_true.mp (by decide)
  have hlines := Lines.line (by simp : ∀ c ∈ [], isGap c) (spells_header h)
    (lines_settings hindent entries)
  simpa using hlines

/-- Texts that are made of lines may be joined with line ends. -/
theorem lines_intercalate_append {ps qs : List String} {ss ts : List Statement}
    (hps : Lines ("\n".intercalate ps).toList ss) (hqs : Lines ("\n".intercalate qs).toList ts) :
    Lines ("\n".intercalate (ps ++ qs)).toList (ss ++ ts) := by
  by_cases hp : ps = []
  · subst hp
    have hss : ss = [] := length_eq_zero_iff.mp (Nat.le_zero.mp hps.length_le)
    rwa [hss]
  by_cases hq : qs = []
  · subst hq
    have hts : ts = [] := length_eq_zero_iff.mp (Nat.le_zero.mp hqs.length_le)
    rwa [hts, append_nil, append_nil]
  · rw [String.intercalate_append_of_ne_nil hp hq]
    simp only [String.toList_append, append_assoc]
    exact hps.append (hqs.gap_append (all_eq_true.mp (by decide)))

/-- **What is written for settings and tables is read as one statement a line.** -/
theorem lines_document (entries : List (String × String))
    (h : ∀ t ∈ tables, isBareName t.1) :
    Lines (document entries tables).toList
      (entries.map .setting ++ tables.flatMap Statement.ofTable) := by
  refine lines_intercalate_append ?_ ?_
  · split
    · rename_i hempty
      rw [isEmpty_iff.mp hempty]
      exact .done (by simp)
    · exact lines_settings (by simp) entries
  · induction tables with
    | nil => exact .done (by simp)
    | cons t tables ih =>
      obtain ⟨ht, htables⟩ := forall_mem_cons.mp h
      rw [flatMap_cons, flatMap_cons]
      exact lines_intercalate_append (lines_section ht t.2) (ih htables)

/-! ## The characters of what is written -/

/-- The replacement character is written as it is, and for nothing else. -/
theorem mem_escaped_iff (c : Char) : '�' ∈ escaped c ↔ c = '�' := by
  constructor
  · intro hmem
    rcases escaped_cases c with ⟨letter, hc, -, -, hhigh⟩ | ⟨w, x, y, z, hc, -, hbare⟩ | ⟨hc, -⟩
    · rw [hc, mem_cons, mem_singleton] at hmem
      rcases hmem with hmem | rfl
      · exact absurd hmem (by decide)
      · exact absurd hhigh (by decide)
    · rw [hc, mem_cons, mem_cons] at hmem
      rcases hmem with hmem | hmem | hmem
      · exact absurd hmem (by decide)
      · exact absurd hmem (by decide)
      · exact absurd (all_eq_true.mp hbare _ hmem) (by decide)
    · rw [hc, mem_singleton] at hmem
      exact hmem.symm
  · rintro rfl
    decide

theorem mem_quoted_iff (s : String) : '�' ∈ (quoted s).toList ↔ '�' ∈ s.toList := by
  simp [toList_quoted, mem_escaped_iff]

theorem mem_keyText_iff (k : String) : '�' ∈ (keyText k).toList ↔ '�' ∈ k.toList := by
  rw [keyText_eq]
  split
  · rfl
  · exact mem_quoted_iff k

theorem mem_settingText_iff (entry : String × String) :
    '�' ∈ settingText entry ↔ '�' ∈ entry.1.toList ∨ '�' ∈ entry.2.toList := by
  simp [settingText, mem_keyText_iff, mem_quoted_iff]

theorem isWritten_of_mem_quoted {s : String} (h : c ∈ (quoted s).toList) :
    isWritten c = true := by
  rw [toList_quoted, mem_cons, mem_append, mem_singleton, mem_flatMap] at h
  rcases h with rfl | ⟨d, -, hd⟩ | rfl
  · rfl
  · exact isWritten_of_mem_escaped hd
  · rfl

theorem isWritten_of_mem_name (h : isBareName name) (hc : c ∈ name.toList) : isWritten c = true :=
  isWritten_of_isInner (of_isBare ((toList_of_isBareName h).1 c hc)).2.1

theorem isWritten_of_mem_settingText {entry : String × String}
    (h : c ∈ settingText entry) : isWritten c = true := by
  simp only [settingText, mem_append, mem_cons] at h
  rcases h with h | rfl | rfl | rfl | h
  · rw [keyText_eq] at h
    split at h
    · rename_i hbare
      exact isWritten_of_mem_name hbare h
    · exact isWritten_of_mem_quoted h
  · rfl
  · rfl
  · rfl
  · exact isWritten_of_mem_quoted h

theorem mem_intercalate_iff (hc : c ≠ '\n') (parts : List String) :
    c ∈ ("\n".intercalate parts).toList ↔ ∃ p ∈ parts, c ∈ p.toList := by
  induction parts with
  | nil => simp
  | cons p parts ih =>
    by_cases hparts : parts = []
    · simp [hparts]
    have hsplit := String.intercalate_append_of_ne_nil (s := "\n") (cons_ne_nil p []) hparts
    rw [singleton_append] at hsplit
    rw [hsplit]
    simp only [String.toList_append, mem_append, ih]
    simp [hc]

theorem mem_document_iff (hc : c ≠ '\n') (entries : List (String × String))
    (tables : List (String × List (String × String))) :
    c ∈ (document entries tables).toList ↔ (∃ e ∈ entries, c ∈ settingText e) ∨
      ∃ t ∈ tables, t.2 ≠ [] ∧ (c ∈ '[' :: (t.1.toList ++ [']']) ∨
        ∃ e ∈ t.2, c = ' ' ∨ c ∈ settingText e) := by
  have hsettings : ∀ indent es, c ∈ (settings indent es).toList ↔
      ∃ e ∈ es, c ∈ indent.toList ∨ c ∈ settingText e := by
    intro indent es
    simp [toList_settings, hc]
  have htop : (∃ p ∈ (if entries.isEmpty then [] else [settings "" entries]), c ∈ p.toList) ↔
      ∃ e ∈ entries, c ∈ settingText e := by
    split
    · rename_i hempty
      simp [isEmpty_iff.mp hempty]
    · simp [hsettings]
  have hsection : ∀ t : String × List (String × String),
      (∃ p ∈ section? t.1 t.2, c ∈ p.toList) ↔ t.2 ≠ [] ∧ (c ∈ '[' :: (t.1.toList ++ [']']) ∨
        ∃ e ∈ t.2, c = ' ' ∨ c ∈ settingText e) := by
    intro t
    unfold section?
    split
    · rename_i hempty
      simp [isEmpty_iff.mp hempty]
    · rename_i hempty
      have hne : t.2 ≠ [] := fun h => hempty (isEmpty_iff.mpr h)
      simp [hsettings, hc, hne, or_assoc]
  unfold document
  dsimp only
  rw [mem_intercalate_iff hc]
  simp only [mem_append, mem_flatMap, or_and_right, exists_or, htop]
  refine or_congr_right ⟨?_, ?_⟩
  · rintro ⟨p, ⟨t, ht, hp⟩, hmem⟩
    exact ⟨t, ht, (hsection t).mp ⟨p, hp, hmem⟩⟩
  · rintro ⟨t, ht, hmem⟩
    obtain ⟨p, hp, hmem⟩ := (hsection t).mpr hmem
    exact ⟨p, ⟨t, ht, hp⟩, hmem⟩

/-- Whether a setting has a replacement character in it. -/
def isReplaced (entry : String × String) : Bool :=
  entry.1.toList.contains '�' || entry.2.toList.contains '�'

theorem isReplaced_iff (entry : String × String) :
    isReplaced entry ↔ '�' ∈ settingText entry := by
  simp [isReplaced, mem_settingText_iff]

/-- **What is written is clean, unless a replacement character is in it.** -/
theorem isClean_document (entries : List (String × String))
    (h : ∀ t ∈ tables, isBareName t.1) :
    isClean (document entries tables).toList =
      !(entries ++ tables.flatMap Prod.snd).any isReplaced := by
  have hwritten : ∀ c ∈ (document entries tables).toList, isWritten c = true := by
    intro c hmem
    by_cases hc : c = '\n'
    · rw [hc]
      rfl
    rcases (mem_document_iff hc entries tables).mp hmem with ⟨e, -, he⟩ | ⟨t, ht, -, hmem⟩
    · exact isWritten_of_mem_settingText he
    simp only [mem_cons, mem_append, not_mem_nil, or_false] at hmem
    rcases hmem with (rfl | hname | rfl) | ⟨e, -, rfl | he⟩
    · rfl
    · exact isWritten_of_mem_name (h t ht) hname
    · rfl
    · rfl
    · exact isWritten_of_mem_settingText he
  have hname : ∀ t ∈ tables, '�' ∉ t.1.toList := fun t ht hmem =>
    absurd ((toList_of_isBareName (h t ht)).1 _ hmem) (by decide)
  rw [isClean_eq hwritten, Bool.not_inj_iff, Bool.eq_iff_iff, contains_iff_mem,
    mem_document_iff (by decide), any_append, Bool.or_eq_true, any_eq_true,
    any_eq_true]
  simp only [isReplaced_iff]
  refine or_congr_right ⟨?_, ?_⟩
  · rintro ⟨t, ht, -, hmem⟩
    rcases hmem with hmem | ⟨e, he, hspace | hmem⟩
    · simp [hname t ht] at hmem
    · exact absurd hspace (by decide)
    · exact ⟨e, mem_flatMap.mpr ⟨t, ht, he⟩, hmem⟩
  · rintro ⟨e, he, hmem⟩
    obtain ⟨t, ht, he⟩ := mem_flatMap.mp he
    exact ⟨t, ht, ne_nil_of_mem he, .inr ⟨e, he, .inr hmem⟩⟩

theorem readAll_document (entries : List (String × String))
    (h : ∀ t ∈ tables, isBareName t.1) :
    Statement.readAll (document entries tables) =
      if (entries ++ tables.flatMap Prod.snd).any isReplaced then none
      else some (entries.map .setting ++ tables.flatMap Statement.ofTable) := by
  rw [(lines_document entries h).readAll, isClean_document entries h]
  cases (entries ++ tables.flatMap Prod.snd).any isReplaced <;> rfl

end TreeQuery.Toml

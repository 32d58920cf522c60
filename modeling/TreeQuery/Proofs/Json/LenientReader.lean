import TreeQuery.Proofs.Json.Lenient

/-!
# The lenient reader

The reader takes a text for a tree just when the lenient grammar does (`read_eq_some_iff`).  One way
goes by the fuel: whatever the readers take with some fuel keeps to the grammar (`Sound`).  The
other goes by the rules of the grammar: a part of a text is read with any fuel that is at least
twice its length (`Reads`).

Two consequences: a text is taken for one tree only (`Loosely.unique`), and a JSON text is read as
the tree it stands for, unless it nests too deep (`read_of_denotes`).
-/

namespace TreeQuery.Json

open List TreeQuery.Json.Tree

/-! ## Reading strings -/

variable {s cs out : List Char} {p : Part} {c : Char} {fuel : Nat} {t : Tree (List Char)}
  {ts : List (Tree (List Char))} {first : Bool} {ms : List (String × Tree (List Char))}
  {depth : Nat} {escaped : Bool} {name : String}

/-- A code in a lenient string has four digits. -/
theorem LooseChars.of_code (h : LooseChars escaped cs s) (hcode : ['\\', 'u'] <+: cs) :
    ∃ w x y z rest, cs = '\\' :: 'u' :: w :: x :: y :: z :: rest := by
  cases h with
  | nil => cases prefix_nil.mp hcode
  | plain _ hbackslash => exact absurd (cons_prefix_cons.mp hcode).1.symm hbackslash
  | letter hletter =>
    obtain ⟨rfl, -⟩ := cons_prefix_cons.mp (cons_prefix_cons.mp hcode).2
    cases hletter
  | code => exact ⟨_, _, _, _, _, rfl⟩
  | pair => exact ⟨_, _, _, _, _, rfl⟩
  | halves => exact ⟨_, _, _, _, _, rfl⟩

/-- What is read as a string is a lenient string. -/
theorem looseChars_of_stringBody {after : List Char} (h : stringBody escaped cs = some (s, after)) :
    ∃ front, cs = front ++ '"' :: after ∧ LooseChars escaped front s := by
  fun_induction stringBody escaped cs generalizing s after with
  | case1 => cases h
  | case2 escaped rest =>
    cases h
    exact ⟨[], rfl, .nil⟩
  | case3 escaped w x y z w' x' y' z' rest ihrest ihcode =>
    simp only [Option.bind_eq_bind, Option.bind_eq_some_iff] at h
    obtain ⟨first, hfirst, h⟩ := h
    split at h
    · rename_i hsurrogate
      simp only [Option.bind_eq_some_iff] at h
      obtain ⟨second, hsecond, ⟨tail, after'⟩, htail, h⟩ := h
      obtain ⟨front, rfl, hfront⟩ := ihrest htail
      dsimp only at h
      cases hpaired : paired? first second with
      | some c =>
        rw [hpaired] at h
        cases h
        exact ⟨_, rfl, .pair hfirst hsecond hpaired hfront⟩
      | none =>
        rw [hpaired] at h
        cases h
        exact ⟨_, rfl, .halves hfirst hsecond hsurrogate hpaired hfront⟩
    · rename_i hsurrogate
      simp only [Option.bind_eq_some_iff] at h
      obtain ⟨⟨tail, after'⟩, htail, h⟩ := h
      obtain ⟨front, hcs, hfront⟩ := ihcode htail
      cases h
      rw [hcs]
      exact ⟨_, rfl, .code hfirst (fun hhalf => absurd hhalf hsurrogate) hfront⟩
  | case4 escaped w x y z rest hnext ih =>
    simp only [Option.bind_eq_bind, Option.bind_eq_some_iff] at h
    obtain ⟨first, hfirst, ⟨tail, after'⟩, htail, h⟩ := h
    obtain ⟨front, rfl, hfront⟩ := ih htail
    cases h
    refine ⟨_, rfl, .code hfirst (fun _ hcode => ?_) hfront⟩
    obtain ⟨e, f, g, k, back, rfl⟩ := hfront.of_code hcode
    exact hnext e f g k _ rfl
  | case5 escaped c rest _ _ ih =>
    simp only [Option.bind_eq_bind, Option.bind_eq_some_iff] at h
    obtain ⟨d, hletter, ⟨tail, after'⟩, htail, h⟩ := h
    obtain ⟨front, rfl, hfront⟩ := ih htail
    cases h
    exact ⟨_, rfl, .letter hletter hfront⟩
  | case6 => cases h
  | case7 escaped c rest hquote _ _ _ hplain ih =>
    rw [not_or] at hplain
    simp only [Option.bind_eq_bind, Option.bind_eq_some_iff] at h
    obtain ⟨⟨tail, after'⟩, htail, h⟩ := h
    obtain ⟨front, rfl, hfront⟩ := ih htail
    cases h
    exact ⟨_, rfl, .plain hquote hplain.1 hplain.2 hfront⟩

/-- A lenient string is read, whatever stands behind it. -/
theorem LooseChars.stringBody_eq (h : LooseChars escaped cs s)
    (after : List Char) : stringBody escaped (cs ++ '"' :: after) = some (s, after) := by
  induction h with
  | nil => rw [nil_append, Tree.stringBody]
  | @plain escaped c cs s hquote hbackslash hcontrol _ ih =>
    rw [cons_append, Tree.stringBody]
    · rw [if_neg (not_or.mpr ⟨hbackslash, hcontrol⟩), ih]
      rfl
    · exact hquote
    all_goals
      intros
      contradiction
  | @letter escaped letter c cs s hletter _ ih =>
    have hu : letter ≠ 'u' := by
      rintro rfl
      cases hletter
    rw [cons_append, cons_append, Tree.stringBody]
    · rw [hletter, ih]
      rfl
    all_goals
      intros
      contradiction
  | @code escaped w x y z n cs s hcode halone hrest ih =>
    -- two codes in a row are looked at together, since they may be a surrogate pair
    simp only [cons_append]
    by_cases hnext : ∃ e f g k rest, cs ++ '"' :: after = '\\' :: 'u' :: e :: f :: g :: k :: rest
    · obtain ⟨e, f, g, k, rest, hcs⟩ := hnext
      have hlone : isSurrogate n = false := by
        rw [Bool.eq_false_iff]
        intro hhalf
        refine halone hhalf ?_
        cases hrest with
        | nil => cases hcs
        | plain _ hbackslash => exact absurd (cons.inj hcs).1 hbackslash
        | letter hletter =>
          obtain ⟨rfl, -⟩ := cons.inj (cons.inj hcs).2
          cases hletter
        | code => exact ⟨_, rfl⟩
        | pair => exact ⟨_, rfl⟩
        | halves => exact ⟨_, rfl⟩
      rw [hcs] at ih ⊢
      rw [Tree.stringBody, hcode]
      simp [hlone, ih]
    · rw [Tree.stringBody, hcode]
      · simp [ih]
      · intro e f g k rest hcs
        exact hnext ⟨e, f, g, k, rest, hcs⟩
  | @pair escaped w x y z w' x' y' z' c high low cs s hhigh hlow hpaired _ ih =>
    simp only [cons_append]
    rw [Tree.stringBody, hhigh]
    simp [isSurrogate_of_paired? hpaired, hlow, ih, hpaired]
  | @halves escaped w x y z w' x' y' z' first second cs s hfirst hsecond hsurrogate hpaired _ ih =>
    simp only [cons_append]
    rw [Tree.stringBody, hfirst]
    simp [hsurrogate, hsecond, ih, hpaired]

/-! ## What is read is taken -/

/-- Text is white space and what is left of it when that is skipped. -/
theorem exists_blank_skipSpace (cs : List Char) :
    ∃ before, Blank before ∧ before ++ skipSpace cs = cs :=
  ⟨cs.takeWhile isSpace, all_eq_true.mp all_takeWhile, takeWhile_append_dropWhile⟩

/-- **What the readers take with so much fuel keeps to the lenient grammar.** -/
structure Sound (fuel : Nat) : Prop where
  value {depth : Nat} {cs out : List Char} {t : Tree (List Char)}
    (h : valueWith numberText fuel depth cs = some (t, out)) :
    ∃ front, cs = front ++ out ∧ Loosely depth front (.value t)
  elements {depth : Nat} {cs out : List Char} {ts : List (Tree (List Char))}
    (h : elementsWith numberText fuel depth cs = some (ts, out)) :
    ts ≠ [] ∧ ∃ front, cs = front ++ ']' :: out ∧ Loosely depth front (.elements ts)
  members {depth : Nat} {first : Bool} {cs out : List Char}
    {ms : List (String × Tree (List Char))}
    (h : membersWith numberText fuel depth first cs = some (ms, out)) :
    ms ≠ [] ∧ ∃ front, cs = front ++ '\x7d' :: out ∧ Loosely depth front (.members first ms)

/-- White space in front of what is taken is taken with it. -/
theorem exists_front {front : List Char} (hcs : skipSpace cs = front ++ out)
    (h : Loosely depth front p) : ∃ front', cs = front' ++ out ∧ Loosely depth front' p := by
  obtain ⟨before, hbefore, hsplit⟩ := exists_blank_skipSpace cs
  refine ⟨before ++ front, ?_, h.behind hbefore⟩
  rw [append_assoc, ← hcs, hsplit]

/-- White space behind what is taken is taken with it. -/
theorem exists_back {front after : List Char} (hafter : skipSpace after = out)
    (h : Loosely depth front p) :
    ∃ front', front ++ after = front' ++ out ∧ Loosely depth front' p := by
  obtain ⟨space, hspace, hsplit⟩ := exists_blank_skipSpace after
  refine ⟨front ++ space, ?_, h.ahead hspace⟩
  rw [append_assoc, ← hafter, hsplit]

theorem isRun_takeWhile (rest : List Char) (hstart : c.isDigit ∨ c = '-') :
    IsRun ((c :: rest).takeWhile isNumberChar) := by
  have hc : isNumberChar c = true := by
    rcases hstart with hdigit | rfl
    · simp [isNumberChar, hdigit]
    · rfl
  refine ⟨⟨c, rest.takeWhile isNumberChar, ?_, hstart⟩, all_eq_true.mp all_takeWhile⟩
  rw [takeWhile_cons_of_pos hc]

theorem Sound.value_succ (ih : Sound fuel)
    (h : valueWith numberText (fuel + 1) depth cs = some (t, out)) :
    ∃ front, cs = front ++ out ∧ Loosely depth front (.value t) := by
  rcases valueWith_cases h with ⟨rest, s, hcs, hbody, rfl⟩ | ⟨hcs, rfl⟩ | ⟨hcs, rfl⟩ | ⟨hcs, rfl⟩ |
    ⟨rest, d, rfl, hcs, hrest⟩ | ⟨rest, d, rfl, hcs, hrest⟩ | ⟨c, rest, x, hcs, hstart, hx, rfl⟩
  · obtain ⟨front, rfl, hfront⟩ := looseChars_of_stringBody hbody
    exact exists_front (by simpa using hcs) (.string hfront)
  · exact exists_front hcs .null
  · exact exists_front hcs .isTrue
  · exact exists_front hcs .isFalse
  · rcases hrest with ⟨hclose, rfl⟩ | ⟨ts, helements, rfl⟩
    · obtain ⟨front, hsplit, hfront⟩ := exists_back hclose Loosely.noElements
      rw [nil_append] at hsplit
      rw [hsplit] at hcs
      exact exists_front (by simpa using hcs) (.array hfront)
    · obtain ⟨-, front, rfl, hfront⟩ := ih.elements helements
      exact exists_front (by simpa using hcs) (.array hfront)
  · rcases hrest with ⟨hclose, rfl⟩ | ⟨ms, hmembers, rfl⟩
    · obtain ⟨front, hsplit, hfront⟩ := exists_back hclose Loosely.noMembers
      rw [nil_append] at hsplit
      rw [hsplit] at hcs
      exact exists_front (by simpa using hcs) (.object hfront)
    · obtain ⟨-, front, rfl, hfront⟩ := ih.members hmembers
      exact exists_front (by simpa using hcs) (.object hfront)
  · cases hx
    refine exists_front ?_ (.number (isRun_takeWhile rest hstart))
    rw [takeWhile_append_dropWhile, hcs]

theorem Sound.elements_succ (ih : Sound fuel)
    (h : elementsWith numberText (fuel + 1) depth cs = some (ts, out)) :
    ts ≠ [] ∧ ∃ front, cs = front ++ ']' :: out ∧ Loosely depth front (.elements ts) := by
  obtain ⟨t, after, hvalue, hafter⟩ := elementsWith_cases h
  obtain ⟨front, rfl, hfront⟩ := ih.value hvalue
  rcases hafter with ⟨hclose, rfl⟩ | ⟨rest, ts', hcomma, hmore, rfl⟩
  · obtain ⟨front', hcs, hfront'⟩ := exists_back hclose hfront
    exact ⟨cons_ne_nil _ _, front', hcs, .element hfront'⟩
  obtain ⟨front', hcs, hfront'⟩ := exists_back hcomma hfront
  obtain ⟨hne, more, rfl, hothers⟩ := ih.elements hmore
  obtain ⟨t', ts, rfl⟩ := exists_cons_of_ne_nil hne
  refine ⟨cons_ne_nil _ _, front' ++ ',' :: more, ?_, .moreElements hfront' hothers⟩
  rw [hcs, append_assoc, cons_append]

theorem exists_name (h : memberName first cs = some (name, out)) :
    ∃ front, cs = front ++ out ∧ Loosely depth front (.name first name) := by
  rcases memberName_cases h with ⟨rest, s, hcs, hbody, rfl⟩ | ⟨rfl, hcs, rfl⟩
  · obtain ⟨front, rfl, hfront⟩ := looseChars_of_stringBody hbody
    exact exists_front (by simpa using hcs) (.named hfront)
  · exact exists_front hcs .unnamed

theorem Sound.members_succ (ih : Sound fuel)
    (h : membersWith numberText (fuel + 1) depth first cs = some (ms, out)) :
    ms ≠ [] ∧ ∃ front, cs = front ++ '\x7d' :: out ∧ Loosely depth front (.members first ms) := by
  obtain ⟨name, after, rest, t, after', hname, hcolon, hvalue, hafter⟩ := membersWith_cases h
  obtain ⟨front, rfl, hfront⟩ :
      ∃ front, cs = front ++ after ∧ Loosely depth front (.name first name) := exists_name hname
  obtain ⟨ns, hns, hname⟩ := exists_back hcolon hfront
  obtain ⟨cs, rfl, hcs⟩ := ih.value hvalue
  rcases hafter with ⟨hclose, rfl⟩ | ⟨more, ms', hcomma, hmore, rfl⟩
  · obtain ⟨cs', hsplit, hcs'⟩ := exists_back hclose hcs
    refine ⟨cons_ne_nil _ _, ns ++ ':' :: cs', ?_, .member hname hcs'⟩
    rw [hns, hsplit, append_assoc, cons_append]
  obtain ⟨cs', hsplit, hcs'⟩ := exists_back hcomma hcs
  obtain ⟨hne, more, rfl, hothers⟩ := ih.members hmore
  obtain ⟨m, ms, rfl⟩ := exists_cons_of_ne_nil hne
  refine ⟨cons_ne_nil _ _, ns ++ ':' :: (cs' ++ ',' :: more), ?_,
    .moreMembers hname hcs' hothers⟩
  rw [hns, hsplit]
  simp

/-- **All that is read keeps to the lenient grammar.** -/
theorem sound (fuel : Nat) : Sound fuel := by
  induction fuel with
  | zero =>
    refine ⟨fun h => ?_, fun h => ?_, fun h => ?_⟩
    · rw [valueWith] at h
      cases h
    · rw [elementsWith] at h
      cases h
    · rw [membersWith] at h
      cases h
  | succ fuel ih => exact ⟨ih.value_succ, ih.elements_succ, ih.members_succ⟩

/-! ## What is taken is read -/

/-- No number goes on in the text. -/
def Apart (rest : List Char) : Prop := ∀ c ∈ rest.head?, isNumberChar c = false

/-- **What the readers make of a part of a text**, with enough fuel, before any text that ends the
part.  White space behind a value is left for the next reader. -/
def Reads (depth : Nat) (cs : List Char) : Part → Prop
  | .value t => ∀ (fuel : Nat) (rest : List Char), 2 * cs.length + 1 ≤ fuel → Apart rest →
      ∃ after, valueWith numberText fuel depth (cs ++ rest) = some (t, after) ∧
        skipSpace after = skipSpace rest
  | .elements [] => Blank cs
  | .elements ts => ∀ (fuel : Nat) (rest after : List Char), 2 * cs.length + 2 ≤ fuel →
      skipSpace rest = ']' :: after →
      elementsWith numberText fuel depth (cs ++ rest) = some (ts, after)
  | .name first name => ∀ rest, ∃ after, memberName first (cs ++ rest) = some (name, after) ∧
      skipSpace after = skipSpace rest
  | .members _ [] => Blank cs
  | .members first ms => ∀ (fuel : Nat) (rest after : List Char), 2 * cs.length + 2 ≤ fuel →
      skipSpace rest = '\x7d' :: after →
      membersWith numberText fuel depth first (cs ++ rest) = some (ms, after)

theorem isSpace_of_isNumberChar (h : isNumberChar c) : isSpace c = false := by
  rw [Bool.eq_false_iff]
  intro hspace
  simp only [isSpace, Bool.or_eq_true, beq_iff_eq] at hspace
  rcases hspace with ((rfl | rfl) | rfl) | rfl <;> cases h

theorem apart_cons (h : isNumberChar c = false) (rest : List Char) : Apart (c :: rest) := by
  intro d hd
  cases hd
  exact h

/-- White space ends a number. -/
theorem apart_of_skipSpace {rest : List Char} (h : Apart (skipSpace rest)) : Apart rest := by
  cases rest with
  | nil => exact h
  | cons c rest =>
    cases hspace : isSpace c with
    | true =>
      refine apart_cons ?_ rest
      rw [Bool.eq_false_iff]
      intro hnumber
      rw [isSpace_of_isNumberChar hnumber] at hspace
      cases hspace
    | false => rwa [skipSpace_cons hspace] at h

theorem Apart.behind {space rest : List Char} (hspace : Blank space) (h : Apart rest) :
    Apart (space ++ rest) := by
  cases space with
  | nil => exact h
  | cons c space =>
    refine apart_cons ?_ _
    rw [Bool.eq_false_iff]
    intro hnumber
    have hc := hspace c mem_cons_self
    rw [isSpace_of_isNumberChar hnumber] at hc
    cases hc

theorem valueWith_number {ν : Type} {number : Reader ν} (hstart : c.isDigit ∨ c = '-') :
    valueWith number (fuel + 1) depth (c :: cs) =
      (number (c :: cs)).map fun r => (.number r.1, r.2) := by
  have hspace : skipSpace (c :: cs) = c :: cs := by
    refine skipSpace_cons (isSpace_of_isNumberChar ?_) cs
    rcases hstart with hdigit | rfl
    · simp [isNumberChar, hdigit]
    · rfl
  -- no other value starts so
  have hother : ∀ d : Char, (d.isDigit || d == '-') = false → ∀ {rest}, c :: cs ≠ d :: rest := by
    rintro d hd rest heq
    obtain ⟨rfl, -⟩ := cons.inj heq
    simp_all
  rw [valueWith, hspace]
  split
  · exact absurd ‹_› (hother '"' rfl)
  · exact absurd ‹_› (hother 'n' rfl)
  · exact absurd ‹_› (hother 't' rfl)
  · exact absurd ‹_› (hother 'f' rfl)
  · exact absurd ‹_› (hother '[' rfl)
  · exact absurd ‹_› (hother '\x7b' rfl)
  · rename_i heq
    cases heq
    rw [if_pos hstart]
  · rename_i heq
    cases heq

/-! The readers follow the grammar, rule by rule. -/

theorem reads_number (h : IsRun cs) : Reads depth cs (.value (.number cs)) := by
  intro fuel rest hfuel hrest
  obtain ⟨fuel, rfl⟩ := Nat.exists_eq_add_of_le' (Nat.le_of_add_left_le hfuel)
  obtain ⟨⟨c, run, rfl, hstart⟩, hrun⟩ := h
  have hend : rest.takeWhile isNumberChar = [] ∧ rest.dropWhile isNumberChar = rest := by
    cases rest with
    | nil => exact ⟨rfl, rfl⟩
    | cons d rest => simp [hrest d rfl]
  refine ⟨rest, ?_, rfl⟩
  rw [cons_append, valueWith_number hstart, ← cons_append, numberText,
    takeWhile_append_of_pos hrun, dropWhile_append_of_pos hrun, hend.1, hend.2,
    append_nil]
  rfl

theorem reads_string (h : LooseChars false cs s) :
    Reads depth ('"' :: (cs ++ ['"'])) (.value (.string (String.ofList s))) := by
  intro fuel rest hfuel _
  obtain ⟨fuel, rfl⟩ := Nat.exists_eq_add_of_le' (Nat.le_of_add_left_le hfuel)
  refine ⟨rest, ?_, rfl⟩
  show (stringBody false (cs ++ ['"'] ++ rest)).map _ = _
  rw [append_assoc, singleton_append, h.stringBody_eq]
  rfl

theorem reads_named (h : LooseChars false cs s) :
    Reads depth ('"' :: (cs ++ ['"'])) (.name first (String.ofList s)) := by
  intro rest
  refine ⟨rest, ?_, rfl⟩
  show (stringBody false (cs ++ ['"'] ++ rest)).map _ = _
  rw [append_assoc, singleton_append, h.stringBody_eq]
  rfl

theorem reads_array (h : Reads depth cs (.elements ts)) :
    Reads (depth + 1) ('[' :: (cs ++ [']'])) (.value (.array ts)) := by
  intro fuel rest hfuel _
  obtain ⟨fuel, rfl⟩ := Nat.exists_eq_add_of_le' (Nat.le_of_add_left_le hfuel)
  simp only [length_cons, length_append, length_nil] at hfuel
  refine ⟨rest, ?_, rfl⟩
  have hclose : skipSpace (']' :: rest) = ']' :: rest := rfl
  rw [cons_append, append_assoc, singleton_append]
  cases ts with
  | nil =>
    have hopen : skipSpace ('[' :: (cs ++ ']' :: rest)) = '[' :: (cs ++ ']' :: rest) := rfl
    simp only [valueWith, hopen, skipSpace_append h, hclose]
  | cons t ts => exact valueWith_elements (h fuel _ rest (by omega) hclose)

theorem reads_object (h : Reads depth cs (.members true ms)) :
    Reads (depth + 1) ('\x7b' :: (cs ++ ['\x7d'])) (.value (.object ms)) := by
  intro fuel rest hfuel _
  obtain ⟨fuel, rfl⟩ := Nat.exists_eq_add_of_le' (Nat.le_of_add_left_le hfuel)
  simp only [length_cons, length_append, length_nil] at hfuel
  refine ⟨rest, ?_, rfl⟩
  have hclose : skipSpace ('\x7d' :: rest) = '\x7d' :: rest := rfl
  rw [cons_append, append_assoc, singleton_append]
  cases ms with
  | nil =>
    have hopen : skipSpace ('\x7b' :: (cs ++ '\x7d' :: rest)) =
        '\x7b' :: (cs ++ '\x7d' :: rest) := rfl
    simp only [valueWith, hopen, skipSpace_append h, hclose]
  | cons m ms => exact valueWith_members (h fuel _ rest (by omega) hclose)

theorem reads_element (h : Reads depth cs (.value t)) : Reads depth cs (.elements [t]) := by
  intro fuel rest after hfuel hrest
  obtain ⟨fuel, rfl⟩ : ∃ k, fuel = k + 1 := Nat.exists_eq_add_of_le' (by omega)
  have hapart : Apart rest := apart_of_skipSpace (by rw [hrest]; exact apart_cons rfl _)
  obtain ⟨after', hvalue, hafter⟩ := h fuel rest (by omega) hapart
  exact elementsWith_close hvalue (hafter.trans hrest)

theorem reads_moreElements {more : List Char} {t' : Tree (List Char)}
    (h : Reads depth cs (.value t)) (hmore : Reads depth more (.elements (t' :: ts))) :
    Reads depth (cs ++ ',' :: more) (.elements (t :: t' :: ts)) := by
  intro fuel rest after hfuel hrest
  obtain ⟨fuel, rfl⟩ : ∃ k, fuel = k + 1 := Nat.exists_eq_add_of_le' (by omega)
  simp only [length_cons, length_append] at hfuel
  obtain ⟨after', hvalue, hafter⟩ := h fuel (',' :: (more ++ rest)) (by omega) (apart_cons rfl _)
  rw [append_assoc, cons_append]
  exact elementsWith_more hvalue (hafter.trans (skipSpace_cons rfl _))
    (hmore fuel rest after (by omega) hrest)

theorem reads_member {ns : List Char}
    (hname : Reads depth ns (.name first name)) (h : Reads depth cs (.value t)) :
    Reads depth (ns ++ ':' :: cs) (.members first [(name, t)]) := by
  intro fuel rest after hfuel hrest
  obtain ⟨fuel, rfl⟩ : ∃ k, fuel = k + 1 := Nat.exists_eq_add_of_le' (by omega)
  simp only [length_cons, length_append] at hfuel
  have hapart : Apart rest := apart_of_skipSpace (by rw [hrest]; exact apart_cons rfl _)
  obtain ⟨behind, hname, hbehind⟩ := hname (':' :: (cs ++ rest))
  obtain ⟨after', hvalue, hafter⟩ := h fuel rest (by omega) hapart
  rw [append_assoc, cons_append]
  exact membersWith_close hname (hbehind.trans (skipSpace_cons rfl _)) hvalue (hafter.trans hrest)

theorem reads_moreMembers {ns more : List Char}
    {m : String × Tree (List Char)} (hname : Reads depth ns (.name first name))
    (h : Reads depth cs (.value t)) (hmore : Reads depth more (.members false (m :: ms))) :
    Reads depth (ns ++ ':' :: (cs ++ ',' :: more)) (.members first ((name, t) :: m :: ms)) := by
  intro fuel rest after hfuel hrest
  obtain ⟨fuel, rfl⟩ : ∃ k, fuel = k + 1 := Nat.exists_eq_add_of_le' (by omega)
  simp only [length_cons, length_append] at hfuel
  obtain ⟨behind, hname, hbehind⟩ := hname (':' :: (cs ++ ',' :: (more ++ rest)))
  obtain ⟨after', hvalue, hafter⟩ := h fuel (',' :: (more ++ rest)) (by omega) (apart_cons rfl _)
  simp only [append_assoc, cons_append]
  exact membersWith_more hname (hbehind.trans (skipSpace_cons rfl _)) hvalue
    (hafter.trans (skipSpace_cons rfl _)) (hmore fuel rest after (by omega) hrest)

theorem reads_padded {before after : List Char} (hbefore : Blank before)
    (hafter : Blank after) (h : Reads depth cs p) : Reads depth (before ++ (cs ++ after)) p := by
  have hskip : ∀ rest, skipSpace (before ++ (cs ++ after) ++ rest) =
      skipSpace (cs ++ (after ++ rest)) := by
    intro rest
    rw [append_assoc, skipSpace_append hbefore, append_assoc]
  have hlength : cs.length ≤ (before ++ (cs ++ after)).length := by
    simp only [length_append]
    omega
  have hblank : Blank cs → Blank (before ++ (cs ++ after)) := fun hcs =>
    forall_mem_append.mpr ⟨hbefore, forall_mem_append.mpr ⟨hcs, hafter⟩⟩
  cases p with
  | value t =>
    intro fuel rest hfuel hrest
    obtain ⟨left, hvalue, hleft⟩ := h fuel (after ++ rest) (by omega) (hrest.behind hafter)
    refine ⟨left, ?_, ?_⟩
    · rw [valueWith_congr (hskip rest), hvalue]
    · rw [hleft, skipSpace_append hafter]
  | elements ts =>
    cases ts with
    | nil => exact hblank h
    | cons t ts =>
      intro fuel rest left hfuel hrest
      rw [elementsWith_congr (hskip rest)]
      exact h fuel (after ++ rest) left (by omega) (by rw [skipSpace_append hafter, hrest])
  | name first name =>
    intro rest
    obtain ⟨left, hname, hleft⟩ := h (after ++ rest)
    refine ⟨left, ?_, ?_⟩
    · rw [memberName_congr (hskip rest), hname]
    · rw [hleft, skipSpace_append hafter]
  | members first ms =>
    cases ms with
    | nil => exact hblank h
    | cons m ms =>
      intro fuel rest left hfuel hrest
      rw [membersWith_congr (hskip rest)]
      exact h fuel (after ++ rest) left (by omega) (by rw [skipSpace_append hafter, hrest])

/-- **All that keeps to the lenient grammar is read.** -/
theorem Loosely.reads (h : Loosely depth cs p) : Reads depth cs p := by
  have hword : ∀ {depth : Nat} {word : List Char} {t : Tree (List Char)},
      (∀ fuel rest, valueWith numberText (fuel + 1) depth (word ++ rest) = some (t, rest)) →
        Reads depth word (.value t) := by
    intro depth word t h fuel rest hfuel _
    obtain ⟨fuel, rfl⟩ := Nat.exists_eq_add_of_le' (Nat.le_of_add_left_le hfuel)
    exact ⟨rest, h fuel rest, rfl⟩
  induction h with
  | null => exact hword fun _ _ => rfl
  | isFalse => exact hword fun _ _ => rfl
  | isTrue => exact hword fun _ _ => rfl
  | number h => exact reads_number h
  | string h => exact reads_string h
  | array _ ih => exact reads_array ih
  | object _ ih => exact reads_object ih
  | noElements => exact blank_nil
  | element _ ih => exact reads_element ih
  | moreElements _ _ ih ihmore => exact reads_moreElements ih ihmore
  | named h => exact reads_named h
  | unnamed => exact fun rest => ⟨rest, rfl, rfl⟩
  | noMembers => exact blank_nil
  | member _ _ ihname ih => exact reads_member ihname ih
  | moreMembers _ _ _ ihname ih ihmore => exact reads_moreMembers ihname ih ihmore
  | padded hbefore hafter _ ih => exact reads_padded hbefore hafter ih

/-! ## Whole texts -/

/-- Reading ends here: at the end of the text, or at a null character. -/
def Ended (after : List Char) : Prop := after = [] ∨ ∃ more, after = '\x00' :: more

/-- **A text that is taken for a tree**: a value of the lenient grammar up to where reading ends. -/
def Taken (cs : List Char) (t : Tree (List Char)) : Prop :=
  ∃ front after, cs = front ++ after ∧ Loosely maxDepth front (.value t) ∧ Ended after

theorem Ended.apart {after : List Char} (h : Ended after) : Apart after := by
  rcases h with rfl | ⟨more, rfl⟩
  · intro c hc
    cases hc
  · exact apart_cons rfl more

theorem atEnd_iff : atEnd cs ↔ Ended (skipSpace cs) := by
  rw [atEnd]
  split
  · rename_i hend
    exact ⟨fun _ => .inl hend, fun _ => rfl⟩
  rename_i c rest hcs
  rw [hcs, beq_iff_eq]
  constructor
  · rintro rfl
    exact .inr ⟨rest, rfl⟩
  · rintro (hnil | ⟨more, hmore⟩)
    · cases hnil
    · exact (cons.inj hmore).1

/-- **The reader takes exactly the texts of the lenient grammar.** -/
theorem read_eq_some_iff : Tree.read numberText cs = some t ↔ Taken cs t := by
  rw [Tree.read, value]
  constructor
  · intro h
    split at h
    · rename_i t' after hvalue
      split at h
      · rename_i hend
        cases h
        obtain ⟨front, rfl, hfront⟩ := (sound _).value hvalue
        obtain ⟨front', hsplit, hfront'⟩ := exists_back rfl hfront
        exact ⟨front', skipSpace after, hsplit, hfront', atEnd_iff.mp hend⟩
      · cases h
    · cases h
  · rintro ⟨front, after, rfl, hfront, hafter⟩
    have hfuel : 2 * front.length + 1 ≤ 2 * (front ++ after).length + 2 := by
      rw [length_append]
      omega
    obtain ⟨rest, hvalue, hrest⟩ := hfront.reads _ after hfuel hafter.apart
    have hend : atEnd rest = true := by
      rw [atEnd_iff, hrest]
      rcases hafter with rfl | ⟨more, rfl⟩
      · exact .inl rfl
      · exact .inr ⟨more, rfl⟩
    rw [hvalue]
    dsimp only
    rw [if_pos hend]

/-- **A text is taken for one tree only**, whatever the depth. -/
theorem Loosely.unique {depth depth' : Nat} {front after : List Char} {t' : Tree (List Char)}
    (h : Loosely depth cs (.value t)) (h' : Loosely depth' front (.value t'))
    (hcs : cs = front ++ after) (hafter : Apart after) : t = t' := by
  have hnothing : Apart [] := Ended.apart (.inl rfl)
  have hfuel : 2 * front.length + 1 ≤ 2 * cs.length + 1 := by
    rw [hcs, length_append]
    omega
  obtain ⟨rest, hvalue, -⟩ :=
    (h.mono (Nat.le_max_left depth depth')).reads (2 * cs.length + 1) [] (Nat.le_refl _) hnothing
  obtain ⟨rest', hvalue', -⟩ :=
    (h'.mono (Nat.le_max_right depth depth')).reads (2 * cs.length + 1) after hfuel hafter
  rw [← hcs] at hvalue'
  rw [append_nil, hvalue'] at hvalue
  exact ((Prod.mk.inj (Option.some.inj hvalue)).1).symm

/-- **A JSON text is read as the tree it stands for**, and not at all if it nests too deep. -/
theorem read_of_denotes {spaced : Bool} (h : Denotes spaced cs (.value t)) :
    Tree.read numberText cs = if t.depth ≤ maxDepth then some t else none := by
  split
  · rename_i hdepth
    exact read_eq_some_iff.mpr ⟨cs, [], by simp, h.loose _ hdepth, .inl rfl⟩
  rename_i hdepth
  rw [Option.eq_none_iff_forall_ne_some]
  intro t' hread
  obtain ⟨front, after, hcs, hfront, hafter⟩ := read_eq_some_iff.mp hread
  have hsame := (h.loose _ (Nat.le_refl _)).unique hfront hcs hafter.apart
  subst hsame
  exact hdepth hfront.depth_le

end TreeQuery.Json

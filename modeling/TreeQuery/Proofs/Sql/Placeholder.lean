import Mathlib.Data.List.Chain
import TreeQuery.Sql.Dialect

/-!
# Numbered placeholders

What a database with numbered placeholders finds in a statement is read off the statement without
regard to how it came about: quoted runs are skipped (`outside`), and every `$` in front of digits
is a placeholder of that number (`placeholders`).

The statements of this library are **composed** of plain text and of quoted names (`Composed`).
Plain text is tame: it has no quotes, no comments, and neither a `$` nor a question mark in front
of a digit.  Numbering a composed statement from `n` on leaves the placeholders `n`, `n + 1`, …,
one for each question mark of the plain text, whatever the names are
(`Composed.placeholders_numberedFrom`), and it can be done part by part
(`Composed.numberedFrom_append`).
-/

namespace TreeQuery.Sql.Placeholder

open List

/-! ## What a database finds -/

/-- The text outside of quoted runs; `run` is the quote of the run that the text starts in.  The
quotes stay, so that the texts on both sides of a run do not touch. -/
def outside : Option Char → List Char → List Char
  | _, [] => []
  | none, c :: rest => c :: outside (if isQuote c then some c else none) rest
  | some q, c :: rest => if c = q then c :: outside none rest else outside (some q) rest

/-- The numbers that follow a dollar sign, in order. -/
def dollars : List Char → List Nat
  | [] => []
  | c :: rest =>
    if c = '$' ∧ rest.head?.any Char.isDigit = true then
      Nat.ofDigitChars 10 (rest.takeWhile Char.isDigit) 0 :: dollars rest
    else dollars rest

/-- **The placeholders of a statement**: the numbers after dollar signs outside of quoted runs. -/
def placeholders (cs : List Char) : List Nat :=
  dollars (outside none cs)

example : placeholders "a = $2 AND \"$3\" <> '$4' OR b = $10".toList = [2, 10] := by decide +kernel

variable {cs : List Char}

theorem outside_append (h : ∀ c ∈ cs, isQuote c = false) (rest : List Char) :
    outside none (cs ++ rest) = cs ++ outside none rest := by
  induction cs with
  | nil => rfl
  | cons c cs ih =>
    have hc := h c mem_cons_self
    have hcs := ih fun d hd => h d (mem_cons_of_mem _ hd)
    simp [outside, hc, hcs]

theorem head?_outside (cs : List Char) : (outside none cs).head? = cs.head? := by
  cases cs <;> rfl

variable {c : Char} {rest : List Char} {n : Nat}

theorem dollars_cons_of_ne (h : c ≠ '$') (rest : List Char) :
    dollars (c :: rest) = dollars rest := by
  simp [dollars, h]

theorem dollars_append_of_digits (h : ∀ c ∈ cs, c.isDigit) (rest : List Char) :
    dollars (cs ++ rest) = dollars rest := by
  induction cs with
  | nil => rfl
  | cons c cs ih =>
    have hne : c ≠ '$' := by
      rintro rfl
      have := h '$' mem_cons_self
      revert this
      decide
    rw [cons_append, dollars_cons_of_ne hne]
    exact ih fun d hd => h d (mem_cons_of_mem _ hd)

/-! ## Quoted names -/

section Quoted

variable {q : Char}

theorem ne_dollar_of_isQuote (hq : isQuote q) : q ≠ '$' := by
  rintro rfl
  revert hq
  decide

theorem dollars_outside_double (hq : isQuote q) (name rest : List Char) :
    dollars (outside (some q) (Identifier.double q name ++ q :: rest)) =
      placeholders rest := by
  have hne := ne_dollar_of_isQuote hq
  induction name with
  | nil => simp [Identifier.double, outside, dollars_cons_of_ne hne, placeholders]
  | cons c name ih =>
    unfold Identifier.double
    split
    · rename_i hc
      subst hc
      simp [outside, hq, dollars_cons_of_ne hne, ih]
    · rename_i hc
      simp [outside, hc, ih]

/-- **A quoted name holds no placeholder**, whatever it spells. -/
theorem placeholders_quote_append (hq : isQuote q) (name rest : List Char) :
    placeholders (Identifier.quote q name ++ rest) = placeholders rest := by
  have h := dollars_outside_double hq name rest
  simp only [placeholders, Identifier.quote, cons_append, append_assoc, nil_append,
    outside, hq, if_true, dollars_cons_of_ne (ne_dollar_of_isQuote hq)] at h ⊢
  exact h

theorem skipQuoted_double (hrest : rest.head? ≠ some q) (name : List Char) :
    skipQuoted q (Identifier.double q name ++ q :: rest) =
      (Identifier.double q name ++ [q], rest) := by
  induction name with
  | nil =>
    cases rest with
    | nil => rfl
    | cons d rest =>
      have hd : d ≠ q := fun heq => hrest (heq ▸ rfl)
      simp [Identifier.double, skipQuoted, hd]
  | cons c name ih =>
    unfold Identifier.double
    split
    · rename_i hc
      subst hc
      simp [skipQuoted, ih]
    rename_i hc
    -- what follows is never empty: the run has still to be closed
    obtain ⟨d, after, hafter⟩ : ∃ d after, Identifier.double q name ++ q :: rest = d :: after :=
      exists_cons_of_ne_nil (by simp)
    rw [hafter] at ih
    simp [skipQuoted, hc, hafter, ih]

/-- **Numbering passes over a quoted name.** -/
theorem numberedFrom_quote_append (hrest : rest.head? ≠ some q) (hq : isQuote q) (n : Nat)
    (name : List Char) :
    numberedFrom n (Identifier.quote q name ++ rest) =
      Identifier.quote q name ++ numberedFrom n rest := by
  have hskip := skipQuoted_double hrest name
  have hdash : q ≠ '-' := by rintro rfl; revert hq; decide
  have hslash : q ≠ '/' := by rintro rfl; revert hq; decide
  simp only [Identifier.quote, cons_append, append_assoc, nil_append]
  rw [numberedFrom.eq_4 _ _ _ (by simp [hdash]) (by simp [hslash]), if_pos hq, hskip]
  simp

end Quoted

/-! ## Plain text -/

/-- Two characters that may follow each other in plain text. -/
def Safe (a b : Char) : Prop :=
  ¬(a = '-' ∧ b = '-') ∧ ¬(a = '/' ∧ b = '*') ∧ ¬((a = '$' ∨ a = '?') ∧ b.isDigit = true)

instance (a b : Char) : Decidable (Safe a b) := by
  unfold Safe
  infer_instance

/-- Two texts may follow each other: the characters at the seam may. -/
def Meets (cs ds : List Char) : Prop :=
  ∀ x ∈ cs.getLast?, ∀ y ∈ ds.head?, Safe x y

/-- **Tame text**: no quotes, no comments, and no `$` or question mark in front of a digit. -/
structure Tame (cs : List Char) : Prop where
  unquoted : ∀ c ∈ cs, isQuote c = false
  chain : cs.IsChain Safe

instance (cs : List Char) : Decidable (Tame cs) :=
  -- the quotes are looked for in the text, not among all characters
  haveI : Decidable (∀ c ∈ cs, isQuote c = false) := decidableBAll _ cs
  decidable_of_iff ((∀ c ∈ cs, isQuote c = false) ∧ cs.IsChain Safe)
    ⟨fun h => ⟨h.1, h.2⟩, fun h => ⟨h.unquoted, h.chain⟩⟩

/-- The text with its question marks numbered from `n` on. -/
def renumber : Nat → List Char → List Char
  | _, [] => []
  | n, c :: rest =>
    if c = '?' then '$' :: (digits n ++ renumber (n + 1) rest) else c :: renumber n rest

theorem renumber_eq_self (h : cs.count '?' = 0) (n : Nat) : renumber n cs = cs := by
  induction cs with
  | nil => rfl
  | cons c cs ih =>
    have hc : c ≠ '?' := by
      rintro rfl
      simp at h
    rw [count_cons_of_ne hc] at h
    rw [renumber, if_neg hc, ih h]

theorem isDigit_of_mem_digits (h : c ∈ digits n) : c.isDigit :=
  Nat.isDigit_of_mem_toDigits (by decide) (by decide) h

theorem isQuote_of_isDigit (h : c.isDigit) : isQuote c = false := by
  rw [← Bool.not_eq_true]
  intro hq
  simp only [isQuote, Bool.or_eq_true, beq_iff_eq] at hq
  rcases hq with (rfl | rfl) | rfl <;> revert h <;> decide

theorem digits_ne_nil (n : Nat) : digits n ≠ [] :=
  Nat.toDigits_ne_nil

namespace Tame

variable {cs ds : List Char}

theorem of_cons (h : Tame (c :: cs)) : Tame cs :=
  ⟨fun d hd => h.unquoted d (mem_cons_of_mem _ hd), h.chain.tail⟩

theorem part (h : Tame ds) (hcs : cs <:+: ds) : Tame cs :=
  ⟨fun c hc => h.unquoted c (hcs.subset hc), List.IsChain.infix h.chain hcs⟩

theorem append (hc : Tame cs) (hd : Tame ds) (hmeet : Meets cs ds) : Tame (cs ++ ds) := by
  refine ⟨fun c hmem => ?_, isChain_append.mpr ⟨hc.chain, hd.chain, hmeet⟩⟩
  rcases mem_append.mp hmem with hmem | hmem
  · exact hc.unquoted c hmem
  · exact hd.unquoted c hmem

end Tame

theorem isQuote_of_mem_renumber (h : ∀ c ∈ cs, isQuote c = false) {d : Char}
    (hd : d ∈ renumber n cs) : isQuote d = false := by
  induction cs generalizing n with
  | nil => cases hd
  | cons c cs ih =>
    have hcs : ∀ c ∈ cs, isQuote c = false := fun e he => h e (mem_cons_of_mem _ he)
    unfold renumber at hd
    split at hd
    · rcases mem_cons.mp hd with rfl | hd
      · decide
      · rcases mem_append.mp hd with hd | hd
        · exact isQuote_of_isDigit (isDigit_of_mem_digits hd)
        · exact ih hcs hd
    · rcases mem_cons.mp hd with rfl | hd
      · exact h d mem_cons_self
      · exact ih hcs hd

/-- What stands at the head of numbered text is a digit only if it was one. -/
theorem head?_renumber_append (h : ∀ c ∈ (cs ++ rest).head?, c.isDigit = false) :
    (renumber n cs ++ rest).head?.any Char.isDigit = false := by
  cases cs with
  | nil => cases rest <;> simp_all [renumber]
  | cons c cs =>
    unfold renumber
    split
    · rfl
    · simpa using h

theorem Meets.of_cons {ds : List Char} (h : Tame (c :: cs)) (hmeet : Meets (c :: cs) ds) :
    (∀ y ∈ (cs ++ ds).head?, Safe c y) ∧ Meets cs ds := by
  constructor
  · cases cs with
    | nil => exact hmeet c rfl
    | cons d cs =>
      rintro y ⟨⟩
      exact (isChain_cons_cons.mp h.chain).1
  · intro x hx
    exact hmeet x (by simp_all [getLast?_cons])

/-- **Numbering tame text** writes the numbers in place of the question marks, and goes on after
it. -/
theorem Tame.numberedFrom_append (h : Tame cs) (hmeet : Meets cs rest) (n : Nat) :
    numberedFrom n (cs ++ rest) = renumber n cs ++ numberedFrom (n + cs.count '?') rest := by
  induction cs generalizing n with
  | nil => rfl
  | cons c cs ih =>
    have hquote := h.unquoted c mem_cons_self
    obtain ⟨hnext, hrest⟩ := Meets.of_cons h hmeet
    -- the next character opens no comment together with this one
    rw [cons_append, numberedFrom.eq_4, if_neg (by simp [hquote]), renumber]
    · split
      · rename_i hc
        subst hc
        rw [ih h.of_cons hrest (n + 1), count_cons_self]
        simp only [cons_append, append_assoc, Nat.add_assoc, Nat.add_comm 1]
      · rename_i hc
        rw [ih h.of_cons hrest n, count_cons_of_ne hc]
        rfl
    · intro tail hc htail
      rw [htail] at hnext
      exact (hnext '-' rfl).1 ⟨hc, rfl⟩
    · intro tail hc htail
      rw [htail] at hnext
      exact (hnext '*' rfl).2.1 ⟨hc, rfl⟩

theorem Tame.numberedFrom_eq (h : Tame cs) (n : Nat) : numberedFrom n cs = renumber n cs := by
  have hmeet : Meets cs [] := by simp [Meets]
  simpa [numberedFrom] using h.numberedFrom_append hmeet n

theorem dollars_digits_append (h : rest.head?.any Char.isDigit = false) (n : Nat) :
    dollars ('$' :: (digits n ++ rest)) = n :: dollars rest := by
  have hhead : (digits n ++ rest).head?.any Char.isDigit = true := by
    obtain ⟨d, ds, hds⟩ := exists_cons_of_ne_nil (digits_ne_nil n)
    have hd : d.isDigit = true := isDigit_of_mem_digits (by rw [hds]; exact mem_cons_self)
    rw [hds]
    simpa using hd
  have htake : (digits n ++ rest).takeWhile Char.isDigit = digits n := by
    rw [takeWhile_append_of_pos fun d hd => isDigit_of_mem_digits hd]
    cases rest with
    | nil => simp
    | cons c rest =>
      have hc : c.isDigit = false := by simpa using h
      simp [hc]
  rw [dollars, if_pos ⟨rfl, hhead⟩, htake, digits, Nat.ofDigitChars_ten_toDigits, ← digits,
    dollars_append_of_digits fun d hd => isDigit_of_mem_digits hd]

/-- **Numbered tame text has the numbers given to it** as placeholders. -/
theorem Tame.placeholders_renumber_append (h : Tame cs) (hmeet : Meets cs rest) (n : Nat) :
    placeholders (renumber n cs ++ rest) = range' n (cs.count '?') ++ placeholders rest := by
  unfold placeholders
  rw [outside_append fun d hd => isQuote_of_mem_renumber h.unquoted hd]
  induction cs generalizing n with
  | nil => rfl
  | cons c cs ih =>
    obtain ⟨hnext, hrest⟩ := Meets.of_cons h hmeet
    have hdigit (hc : c = '$' ∨ c = '?') (m : Nat) :
        (renumber m cs ++ outside none rest).head?.any Char.isDigit = false := by
      refine head?_renumber_append fun y hy => ?_
      have hy : y ∈ (cs ++ rest).head? := by
        simpa only [head?_append, head?_outside] using hy
      have hsafe := (hnext y hy).2.2
      simpa [hc] using hsafe
    unfold renumber
    split
    · rename_i hc
      subst hc
      rw [cons_append, append_assoc, dollars_digits_append (hdigit (.inr rfl) (n + 1)),
        ih h.of_cons hrest, count_cons_self, range'_succ, cons_append]
    · rename_i hc
      rw [count_cons_of_ne hc, ← ih h.of_cons hrest, cons_append, dollars, if_neg]
      rintro ⟨hdollar, hany⟩
      rw [hdigit (.inl hdollar) n] at hany
      cases hany

theorem Tame.placeholders_renumber (h : Tame cs) (n : Nat) :
    placeholders (renumber n cs) = range' n (cs.count '?') := by
  have hmeet : Meets cs [] := by simp [Meets]
  have hnil : placeholders [] = [] := rfl
  simpa [hnil] using h.placeholders_renumber_append hmeet n

/-! ## Composed statements -/

/-- The characters that part the pieces of a statement. -/
def Separator (c : Char) : Prop :=
  c = ' ' ∨ c = ',' ∨ c = ')'

/-- Two texts with a separator at their seam. -/
def Parted (cs ds : List Char) : Prop :=
  ∀ x ∈ cs.getLast?, ∀ y ∈ ds.head?, Separator x ∨ Separator y

theorem Parted.meets {ds : List Char} (h : Parted cs ds) : Meets cs ds := by
  intro x hx y hy
  unfold Safe
  rcases h x hx y hy with (rfl | rfl | rfl) | (rfl | rfl | rfl) <;> simp

theorem parted_of_head {ds : List Char} (h : ∀ y ∈ ds.head?, Separator y) : Parted cs ds :=
  fun _ _ y hy => .inr (h y hy)

theorem parted_of_getLast {ds : List Char} (h : ∀ x ∈ cs.getLast?, Separator x) : Parted cs ds :=
  fun x hx _ _ => .inl (h x hx)

theorem Separator.isQuote (h : Separator c) : isQuote c = false := by
  rcases h with rfl | rfl | rfl <;> decide

/-- **A composed statement**: plain text with quoted names in it, and the number of question marks
in the plain text.  Between two names there is plain text. -/
inductive Composed : List Char → Nat → Prop
  | plain {cs : List Char} : Tame cs → Composed cs (cs.count '?')
  | named {cs rest : List Char} {q : Char} {k : Nat} (name : List Char) :
      Tame cs → isQuote q = true →
      (∀ c ∈ rest.head?, isQuote c = false) → Composed rest k →
      Composed (cs ++ (Identifier.quote q name ++ rest)) (cs.count '?' + k)

namespace Composed

variable {cs ds : List Char} {k l : Nat} {q : Char}

/-- Text without a question mark. -/
theorem constant (h : Tame cs) (hcount : cs.count '?' = 0) : Composed cs 0 :=
  hcount ▸ plain h

theorem quote (hq : isQuote q) (name : List Char) : Composed (Identifier.quote q name) 0 := by
  have hnil : Tame [] := ⟨by simp, by simp⟩
  have h := named name hnil hq (by simp) (constant hnil rfl)
  simpa using h

/-- Plain text may stand before a quoted name, whatever it ends in. -/
theorem meets_quote (cs : List Char) (hq : isQuote q) (name rest : List Char) :
    Meets cs (Identifier.quote q name ++ rest) := by
  rintro x - y ⟨⟩
  have hdigit : ¬ q.isDigit = true := fun hd => by simp [isQuote_of_isDigit hd] at hq
  have hdash : q ≠ '-' := by rintro rfl; revert hq; decide
  have hstar : q ≠ '*' := by rintro rfl; revert hq; decide
  exact ⟨fun h => hdash h.2, fun h => hstar h.2, fun h => hdigit h.2⟩

theorem numberedFrom_named (hc : Tame cs) (hq : isQuote q)
    (hrest : ∀ c ∈ rest.head?, isQuote c = false) (name : List Char) (n : Nat) :
    numberedFrom n (cs ++ (Identifier.quote q name ++ rest)) =
      renumber n cs ++ (Identifier.quote q name ++ numberedFrom (n + cs.count '?') rest) := by
  have hhead : rest.head? ≠ some q := fun h => by simp [hrest q h] at hq
  rw [hc.numberedFrom_append (meets_quote cs hq name _), numberedFrom_quote_append hhead hq]

/-- What follows a name and the text after it is parted from that text, and is no quote. -/
theorem parted_of_named {name : List Char} (hq : isQuote q)
    (hrest : ∀ c ∈ rest.head?, isQuote c = false)
    (hparted : Parted (cs ++ (Identifier.quote q name ++ rest)) ds) :
    Parted rest ds ∧ ∀ c ∈ (rest ++ ds).head?, isQuote c = false := by
  constructor
  · intro x hx
    refine hparted x ?_
    have hne : rest.getLast? ≠ none := by
      rw [hx]
      simp
    simp_all [getLast?_append]
  cases rest with
  | cons c rest => simpa using hrest
  | nil =>
    -- the name stands at the seam, and its quote is no separator
    intro y hy
    have hlast : q ∈ (cs ++ (Identifier.quote q name ++ [])).getLast? := by
      rw [Identifier.quote, append_nil, ← cons_append, ← append_assoc,
        getLast?_concat]
      rfl
    rcases hparted q hlast y hy with h | h
    · rw [h.isQuote] at hq
      cases hq
    · exact h.isQuote

/-- **A composed statement is numbered part by part.** -/
theorem numberedFrom_append (h : Composed cs k) (hparted : Parted cs ds) (n : Nat) :
    numberedFrom n (cs ++ ds) = numberedFrom n cs ++ numberedFrom (n + k) ds := by
  induction h generalizing n with
  | plain hc => rw [hc.numberedFrom_append hparted.meets, hc.numberedFrom_eq]
  | named name hc hq hrest _ ih =>
    obtain ⟨hparted, hhead⟩ := parted_of_named hq hrest hparted
    rw [append_assoc, append_assoc, numberedFrom_named hc hq hhead,
      numberedFrom_named hc hq hrest, ih hparted]
    simp only [append_assoc, Nat.add_assoc]

/-- **Composed statements can be put together** where a separator stands at the seam. -/
theorem append (hc : Composed cs k) (hd : Composed ds l) (hparted : Parted cs ds) :
    Composed (cs ++ ds) (k + l) := by
  induction hc with
  | @plain cs hc =>
    cases hd with
    | plain hd =>
      rw [← count_append]
      exact plain (hc.append hd hparted.meets)
    | @named es rest q l name he hq hrest hd =>
      have hparted : Parted cs es := by
        intro x hx y hy
        refine hparted x hx y ?_
        simp_all [head?_append]
      rw [← append_assoc, ← Nat.add_assoc, ← count_append]
      exact named name (hc.append he hparted.meets) hq hrest hd
  | named name hc hq hrest _ ih =>
    obtain ⟨hparted, hhead⟩ := parted_of_named hq hrest hparted
    rw [append_assoc, append_assoc, Nat.add_assoc]
    exact named name hc hq hhead (ih hparted)

/-- A list of parts without question marks, with commas between them. -/
theorem intercalate {parts : List (List Char)} (h : ∀ part ∈ parts, Composed part 0) :
    Composed ([','].intercalate parts) 0 := by
  have hcomma : Composed [','] 0 := constant (by decide) rfl
  induction parts with
  | nil => exact constant ⟨by simp, by simp⟩ rfl
  | cons part parts ih =>
    have hpart := h part mem_cons_self
    cases parts with
    | nil => simpa using hpart
    | cons next parts =>
      have hrest := ih fun p hp => h p (mem_cons_of_mem _ hp)
      rw [intercalate_cons_cons]
      refine (hpart.append hcomma (parted_of_head ?_)).append hrest (parted_of_getLast ?_)
      · simp [Separator]
      · simp [Separator]

/-- **Without question marks in the plain text numbering changes nothing.** -/
theorem numberedFrom_eq_self (h : Composed cs 0) (n : Nat) : numberedFrom n cs = cs := by
  generalize hk : 0 = k at h
  induction h generalizing n with
  | plain hc => rw [hc.numberedFrom_eq, renumber_eq_self hk.symm]
  | named name hc hq hrest _ ih =>
    rw [numberedFrom_named hc hq hrest, renumber_eq_self (by omega), ih _ (by omega)]

/-- **The placeholders of a numbered statement** are consecutive, one for each question mark of its
plain text. -/
theorem placeholders_numberedFrom (h : Composed cs k) (n : Nat) :
    placeholders (numberedFrom n cs) = range' n k := by
  induction h generalizing n with
  | plain hc => rw [hc.numberedFrom_eq, hc.placeholders_renumber]
  | @named cs rest q k name hc hq hrest _ ih =>
    rw [numberedFrom_named hc hq hrest,
      hc.placeholders_renumber_append (meets_quote cs hq name _), placeholders_quote_append hq, ih,
      range'_append_1]

end Composed

end TreeQuery.Sql.Placeholder

import TreeQuery.Proofs.Sql.Placeholder

/-!
# Quoted names

The quotes inside a name are doubled when it is quoted.  A reader that takes two quotes for one and
a lone one for the end finds the end of the name, whatever the name spells: quotes, question marks
or the start of a comment.  So numbering passes over quoted names, and names can be read back from
them (`quote_inert`).
-/

namespace TreeQuery.Sql.Identifier

open List Placeholder

variable {q : Char} {name text : List Char}

/-- The text up to a closing quote that ends it, with doubled quotes halved. -/
def halve? (q : Char) : List Char → Option (List Char)
  | [] => none
  | [c] => if c = q then some [] else none
  | c :: d :: rest =>
    if c = q then
      if d = q then (halve? q rest).map (c :: ·) else none
    else (halve? q (d :: rest)).map (c :: ·)

/-- **The name that a text spells in quotes.** -/
def unquote? (q : Char) : List Char → Option (List Char)
  | [] => none
  | c :: rest => if c = q then halve? q rest else none

theorem halve?_double (q : Char) (name : List Char) :
    halve? q (double q name ++ [q]) = some name := by
  induction name with
  | nil => simp [double, halve?]
  | cons c name ih =>
    unfold double
    split
    · rename_i hc
      subst hc
      simp [halve?, ih]
    rename_i hc
    obtain ⟨d, after, hafter⟩ : ∃ d after, double q name ++ [q] = d :: after :=
      exists_cons_of_ne_nil (by simp)
    rw [hafter] at ih
    simp [halve?, hc, hafter, ih]

/-- Only a text with doubled quotes is halved. -/
theorem eq_double_of_halve? (h : halve? q text = some name) : text = double q name ++ [q] := by
  fun_induction halve? q text generalizing name with
  | case1 => cases h
  | case2 => cases h; rfl
  | case3 => cases h
  | case4 rest ih =>
    obtain ⟨inner, hinner, rfl⟩ := Option.map_eq_some_iff.mp h
    simp [double, ih hinner]
  | case5 => cases h
  | case6 c d rest hc ih =>
    obtain ⟨inner, hinner, rfl⟩ := Option.map_eq_some_iff.mp h
    simp [double, hc, ih hinner]

/-- **A text spells a name just if it is the name quoted.** -/
theorem unquote?_eq_some_iff : unquote? q text = some name ↔ text = quote q name := by
  constructor
  · intro h
    cases text with
    | nil => cases h
    | cons c text =>
      rw [unquote?] at h
      split at h
      · rename_i hc
        rw [hc, eq_double_of_halve? h, quote]
      · cases h
  · rintro rfl
    rw [quote, unquote?, if_pos rfl, halve?_double]

theorem quote_injective (q : Char) : Function.Injective (quote q) := by
  intro name name' h
  have hname := unquote?_eq_some_iff.mpr h
  rw [unquote?_eq_some_iff.mpr rfl] at hname
  exact Option.some.inj hname

theorem numbered_quote_append (hq : isQuote q) (name : List Char) {rest : String}
    (hrest : rest.toList.head? ≠ some q) :
    numbered (String.ofList (quote q name) ++ rest) =
      String.ofList (quote q name) ++ numbered rest := by
  rw [numbered, String.toList_append, String.toList_ofList, numberedFrom_quote_append hrest hq,
    String.ofList_append, numbered]

/-- **Quoted names are inert and can be read back.**  A reader of quoted text stops at the end of
the name, numbering and binding leave it as it is and go on behind it, and no other text spells the
name. -/
theorem quote_inert (hq : isQuote q) (name rest : String) (hrest : rest.toList.head? ≠ some q) :
    skipQuoted q ((quote q name.toList).tail ++ rest.toList) =
        ((quote q name.toList).tail, rest.toList) ∧
      numbered (String.ofList (quote q name.toList) ++ rest) =
        String.ofList (quote q name.toList) ++ numbered rest ∧
      (∀ d : Dialect, d.identifierQuote.getD '"' = q →
        d.bind (d.quote name ++ rest) = d.quote name ++ d.bind rest) ∧
      (∀ text, unquote? q text = some name.toList ↔ text = quote q name.toList) ∧
      Function.Injective (quote q) := by
  have hnumbered := numbered_quote_append hq name.toList hrest
  refine ⟨?_, hnumbered, ?_, fun _ => unquote?_eq_some_iff, quote_injective q⟩
  · rw [quote, tail_cons, append_assoc]
    exact skipQuoted_double hrest name.toList
  · rintro d rfl
    unfold Dialect.bind
    split
    · exact hnumbered
    · rfl

/-- A name of a quote, a question mark and the openings of both comments, in front of a text that
starts with another quote. -/
theorem quote_inert_comment :
    isQuote '"' ∧ "'?' = ?".toList.head? ≠ some '"' ∧
      numbered ("\"\"\"?/*--\"" ++ "'?' = ?") = "\"\"\"?/*--\"" ++ numbered "'?' = ?" := by
  have hrest : "'?' = ?".toList.head? ≠ some '"' := by decide
  exact ⟨rfl, hrest, (quote_inert rfl "\"?/*--" "'?' = ?" hrest).2.1⟩

end TreeQuery.Sql.Identifier

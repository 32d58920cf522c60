import TreeQuery.Json.Tree

/-!
# One step of the reader

The readers of values, elements and members call each other.  For each of them there is a lemma that
says what it takes if it succeeds (`valueWith_cases`, `elementsWith_cases`, `membersWith_cases`),
and there are lemmas that say when it does.  White space in front makes no difference to them.
-/

namespace TreeQuery.Json.Tree

theorem skipSpace_cons {c : Char} (h : isSpace c = false) (cs : List Char) :
    skipSpace (c :: cs) = c :: cs := by
  rw [skipSpace, List.dropWhile_cons_of_neg (by rw [h]; exact Bool.false_ne_true)]

variable {ν : Type} {number : Reader ν} {fuel depth : Nat} {cs ds out : List Char}

theorem valueWith_congr (h : skipSpace cs = skipSpace ds) :
    valueWith number fuel depth cs = valueWith number fuel depth ds := by
  cases fuel with
  | zero => rw [valueWith, valueWith]
  | succ fuel => rw [valueWith, valueWith, h]

theorem elementsWith_congr (h : skipSpace cs = skipSpace ds) :
    elementsWith number fuel depth cs = elementsWith number fuel depth ds := by
  cases fuel with
  | zero => rw [elementsWith, elementsWith]
  | succ fuel => rw [elementsWith, elementsWith, valueWith_congr h]

theorem memberName_congr {first : Bool} (h : skipSpace cs = skipSpace ds) :
    memberName first cs = memberName first ds := by
  rw [memberName, memberName, h]

theorem membersWith_congr {first : Bool} (h : skipSpace cs = skipSpace ds) :
    membersWith number fuel depth first cs = membersWith number fuel depth first ds := by
  cases fuel with
  | zero => rw [membersWith, membersWith]
  | succ fuel => rw [membersWith, membersWith, memberName_congr h]

/-- What the reader of values takes. -/
theorem valueWith_cases {t : Tree ν} (h : valueWith number (fuel + 1) depth cs = some (t, out)) :
    (∃ rest s, skipSpace cs = '"' :: rest ∧ stringBody false rest = some (s, out) ∧
      t = .string (String.ofList s)) ∨
    (skipSpace cs = ['n', 'u', 'l', 'l'] ++ out ∧ t = .null) ∨
    (skipSpace cs = ['t', 'r', 'u', 'e'] ++ out ∧ t = .bool true) ∨
    (skipSpace cs = ['f', 'a', 'l', 's', 'e'] ++ out ∧ t = .bool false) ∨
    (∃ rest d, depth = d + 1 ∧ skipSpace cs = '[' :: rest ∧
      (skipSpace rest = ']' :: out ∧ t = .array [] ∨
        ∃ ts, elementsWith number fuel d rest = some (ts, out) ∧ t = .array ts)) ∨
    (∃ rest d, depth = d + 1 ∧ skipSpace cs = '\x7b' :: rest ∧
      (skipSpace rest = '\x7d' :: out ∧ t = .object [] ∨
        ∃ ms, membersWith number fuel d true rest = some (ms, out) ∧ t = .object ms)) ∨
    ∃ c rest x, skipSpace cs = c :: rest ∧ (c.isDigit ∨ c = '-') ∧
      number (c :: rest) = some (x, out) ∧ t = .number x := by
  rw [valueWith] at h
  split at h
  · rename_i rest heq
    obtain ⟨⟨s, after⟩, hbody, hout⟩ := Option.map_eq_some_iff.mp h
    cases hout
    exact .inl ⟨rest, s, heq, hbody, rfl⟩
  · rename_i rest heq
    cases h
    exact .inr (.inl ⟨heq, rfl⟩)
  · rename_i rest heq
    cases h
    exact .inr (.inr (.inl ⟨heq, rfl⟩))
  · rename_i rest heq
    cases h
    exact .inr (.inr (.inr (.inl ⟨heq, rfl⟩)))
  · rename_i rest heq
    split at h
    · cases h
    rename_i d
    refine .inr (.inr (.inr (.inr (.inl ⟨rest, d, rfl, heq, ?_⟩))))
    split at h
    · rename_i after hclose
      cases h
      exact .inl ⟨hclose, rfl⟩
    · obtain ⟨⟨ts, after⟩, helements, hout⟩ := Option.map_eq_some_iff.mp h
      cases hout
      exact .inr ⟨ts, helements, rfl⟩
  · rename_i rest heq
    split at h
    · cases h
    rename_i d
    refine .inr (.inr (.inr (.inr (.inr (.inl ⟨rest, d, rfl, heq, ?_⟩)))))
    split at h
    · rename_i after hclose
      cases h
      exact .inl ⟨hclose, rfl⟩
    · obtain ⟨⟨ms, after⟩, hmembers, hout⟩ := Option.map_eq_some_iff.mp h
      cases hout
      exact .inr ⟨ms, hmembers, rfl⟩
  · rename_i c rest _ _ _ _ _ _ heq
    split at h
    · rename_i hstart
      obtain ⟨⟨x, after⟩, hnumber, hout⟩ := Option.map_eq_some_iff.mp h
      cases hout
      exact .inr (.inr (.inr (.inr (.inr (.inr ⟨c, rest, x, heq, hstart, hnumber, rfl⟩)))))
    · cases h
  · cases h

variable {ts : List (Tree ν)} {ms : List (String × Tree ν)}

/-- What the reader of elements takes: a value and a closing bracket, or a comma and more. -/
theorem elementsWith_cases (h : elementsWith number (fuel + 1) depth cs = some (ts, out)) :
    ∃ t after, valueWith number fuel depth cs = some (t, after) ∧
      (skipSpace after = ']' :: out ∧ ts = [t] ∨
        ∃ rest ts', skipSpace after = ',' :: rest ∧
          elementsWith number fuel depth rest = some (ts', out) ∧ ts = t :: ts') := by
  rw [elementsWith] at h
  simp only [Option.bind_eq_bind, Option.bind_eq_some_iff] at h
  obtain ⟨⟨t, after⟩, hvalue, h⟩ := h
  refine ⟨t, after, hvalue, ?_⟩
  dsimp only at h
  split at h
  · rename_i rest hcomma
    obtain ⟨⟨ts', after'⟩, hmore, hout⟩ := Option.bind_eq_some_iff.mp h
    cases hout
    exact .inr ⟨rest, ts', hcomma, hmore, rfl⟩
  · rename_i rest hclose
    cases h
    exact .inl ⟨hclose, rfl⟩
  · cases h

theorem memberName_cases {first : Bool} {name : String}
    (h : memberName first cs = some (name, out)) :
    (∃ rest s, skipSpace cs = '"' :: rest ∧ stringBody false rest = some (s, out) ∧
      name = String.ofList s) ∨
    (first = false ∧ skipSpace cs = ['n', 'u', 'l', 'l'] ++ out ∧ name = "") := by
  rw [memberName] at h
  split at h
  · rename_i rest heq
    obtain ⟨⟨s, after⟩, hbody, hout⟩ := Option.map_eq_some_iff.mp h
    cases hout
    exact .inl ⟨rest, s, heq, hbody, rfl⟩
  · rename_i rest heq
    split at h
    · cases h
    · rename_i hfirst
      cases h
      exact .inr ⟨Bool.eq_false_iff.mpr hfirst, heq, rfl⟩
  · cases h

/-- What the reader of members takes: a name, a colon, a value and a closing brace, or a comma and
more. -/
theorem membersWith_cases {first : Bool}
    (h : membersWith number (fuel + 1) depth first cs = some (ms, out)) :
    ∃ name after rest t after', memberName first cs = some (name, after) ∧
      skipSpace after = ':' :: rest ∧ valueWith number fuel depth rest = some (t, after') ∧
      (skipSpace after' = '\x7d' :: out ∧ ms = [(name, t)] ∨
        ∃ more ms', skipSpace after' = ',' :: more ∧
          membersWith number fuel depth false more = some (ms', out) ∧ ms = (name, t) :: ms') := by
  rw [membersWith] at h
  simp only [Option.bind_eq_bind, Option.bind_eq_some_iff] at h
  obtain ⟨⟨name, after⟩, hname, h⟩ := h
  dsimp only at h
  split at h
  · rename_i rest hcolon
    obtain ⟨⟨t, after'⟩, hvalue, h⟩ := Option.bind_eq_some_iff.mp h
    refine ⟨name, after, rest, t, after', hname, hcolon, hvalue, ?_⟩
    dsimp only at h
    split at h
    · rename_i more hcomma
      obtain ⟨⟨ms', after''⟩, hmore, hout⟩ := Option.bind_eq_some_iff.mp h
      cases hout
      exact .inr ⟨more, ms', hcomma, hmore, rfl⟩
    · rename_i more hclose
      cases h
      exact .inl ⟨hclose, rfl⟩
    · cases h
  · cases h

variable {rest : List Char}

/-- A value does not begin with a closing bracket. -/
theorem skipSpace_ne_of_elementsWith {r : List (Tree ν) × List Char}
    (h : elementsWith number fuel depth cs = some r) (after : List Char) :
    skipSpace cs ≠ ']' :: after := by
  intro hclose
  cases fuel with
  | zero =>
    rw [elementsWith] at h
    cases h
  | succ fuel =>
    obtain ⟨t, after', hvalue, -⟩ := elementsWith_cases h
    cases fuel with
    | zero =>
      rw [valueWith] at hvalue
      cases hvalue
    | succ fuel =>
      rw [valueWith, hclose] at hvalue
      cases hvalue

theorem skipSpace_ne_of_membersWith {first : Bool} {r : List (String × Tree ν) × List Char}
    (h : membersWith number fuel depth first cs = some r) (after : List Char) :
    skipSpace cs ≠ '\x7d' :: after := by
  intro hclose
  cases fuel with
  | zero =>
    rw [membersWith] at h
    cases h
  | succ fuel =>
    obtain ⟨name, after', _, _, _, hname, -⟩ := membersWith_cases h
    rw [memberName, hclose] at hname
    cases hname

theorem valueWith_elements (h : elementsWith number fuel depth cs = some (ts, rest)) :
    valueWith number (fuel + 1) (depth + 1) ('[' :: cs) = some (.array ts, rest) := by
  have hopen : skipSpace ('[' :: cs) = '[' :: cs := rfl
  simp only [valueWith, hopen]
  split
  · rename_i after hclose
    exact absurd hclose (skipSpace_ne_of_elementsWith h after)
  · rw [h]
    rfl

theorem valueWith_members (h : membersWith number fuel depth true cs = some (ms, rest)) :
    valueWith number (fuel + 1) (depth + 1) ('\x7b' :: cs) = some (.object ms, rest) := by
  have hopen : skipSpace ('\x7b' :: cs) = '\x7b' :: cs := rfl
  simp only [valueWith, hopen]
  split
  · rename_i after hclose
    exact absurd hclose (skipSpace_ne_of_membersWith h after)
  · rw [h]
    rfl

theorem elementsWith_close {t : Tree ν} {after out : List Char}
    (h : valueWith number fuel depth cs = some (t, after)) (hafter : skipSpace after = ']' :: out) :
    elementsWith number (fuel + 1) depth cs = some ([t], out) := by
  rw [elementsWith, h]
  simp only [Option.bind_eq_bind, Option.bind_some, hafter, pure]

theorem elementsWith_more {t : Tree ν} {after more out : List Char}
    (h : valueWith number fuel depth cs = some (t, after)) (hafter : skipSpace after = ',' :: more)
    (hmore : elementsWith number fuel depth more = some (ts, out)) :
    elementsWith number (fuel + 1) depth cs = some (t :: ts, out) := by
  rw [elementsWith, h]
  simp only [Option.bind_eq_bind, Option.bind_some, hafter, hmore, pure]

variable {first : Bool} {name : String} {t : Tree ν} {after after' out more : List Char}

theorem membersWith_close (hname : memberName first cs = some (name, after))
    (hcolon : skipSpace after = ':' :: rest)
    (h : valueWith number fuel depth rest = some (t, after'))
    (hafter : skipSpace after' = '\x7d' :: out) :
    membersWith number (fuel + 1) depth first cs = some ([(name, t)], out) := by
  rw [membersWith, hname]
  simp only [Option.bind_eq_bind, Option.bind_some, hcolon, h, hafter, pure]

theorem membersWith_more
    (hname : memberName first cs = some (name, after)) (hcolon : skipSpace after = ':' :: rest)
    (h : valueWith number fuel depth rest = some (t, after'))
    (hafter : skipSpace after' = ',' :: more)
    (hmore : membersWith number fuel depth false more = some (ms, out)) :
    membersWith number (fuel + 1) depth first cs = some ((name, t) :: ms, out) := by
  rw [membersWith, hname]
  simp only [Option.bind_eq_bind, Option.bind_some, hcolon, h, hafter, hmore, pure]

end TreeQuery.Json.Tree

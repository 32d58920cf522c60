import TreeQuery.Text.Search

/-!
# The pieces of a text

A text is cut at the occurrences of a separator, found from the left.  Finding an occurrence and
passing over a character are the two steps of the cut, and of counting (`cut_induction`).  So the
pieces are one more than the occurrences (`length_splitOnCons`), the separator between them gives
back the text (`intercalate_splitOnCons`), and none of them holds the separator
(`not_infix_of_mem_splitOnCons`); in a row they are the text without it (`erases_splitOnCons`).

Occurrences may overlap, and those found from the left are not the only ones that a text can be cut
at.  But there is no cut into more pieces (`mostOccurrences`).

For a separator of one character the cut is the same whether a text is cut as a whole or at an
occurrence first (`splitOnCons_append`).
-/

namespace TreeQuery.Text

open List

/-- **A text without the occurrences of a marker**, found from the left and not overlapping: the
number of occurrences, and what is left. -/
inductive Erases (marker : List Char) : List Char → Nat → List Char → Prop where
  | nil : Erases marker [] 0 []
  | skip {cs left : List Char} {n : Nat} (h : Erases marker cs n left) :
      Erases marker (marker ++ cs) (n + 1) left
  | keep {c : Char} {cs left : List Char} {n : Nat} (hc : ¬ marker <+: c :: cs)
      (h : Erases marker cs n left) : Erases marker (c :: cs) n (c :: left)

/-- **The number of occurrences of a separator that do not overlap**: the text is one more piece
than that, with the separator between them, and is not more pieces in any other way. -/
structure MostOccurrences (sep cs : List Char) (n : Nat) : Prop where
  pieces : ∃ ps : List (List Char), ps.length = n + 1 ∧ sep.intercalate ps = cs
  most : ∀ ps : List (List Char), sep.intercalate ps = cs → ps.length ≤ n + 1

/-! ## The steps of a cut -/

section Steps

variable (m : Char) (ms : List Char)

theorem splitOnCons_ne_nil (cs : List Char) : splitOnCons m ms cs ≠ [] := by
  fun_cases splitOnCons m ms cs <;> simp

theorem splitOnCons_sep_append (cs : List Char) :
    splitOnCons m ms (m :: ms ++ cs) = [] :: splitOnCons m ms cs := by
  have hstarts : (m :: ms).isPrefixOf (m :: (ms ++ cs)) = true :=
    List.isPrefixOf_iff_prefix.mpr (prefix_append (m :: ms) cs)
  rw [cons_append, splitOnCons, if_pos hstarts, drop_left]

theorem occurrencesCons_nil : occurrencesCons m ms [] = 0 := by
  rw [occurrencesCons]
  rfl

theorem occurrencesCons_sep_append (cs : List Char) :
    occurrencesCons m ms (m :: ms ++ cs) = occurrencesCons m ms cs + 1 := by
  have hstarts : (m :: ms).isPrefixOf (m :: (ms ++ cs)) = true :=
    List.isPrefixOf_iff_prefix.mpr (prefix_append (m :: ms) cs)
  have hcut : findCut (m :: ms) (m :: ms ++ cs) = some ([], cs) := by
    rw [cons_append, findCut, if_pos hstarts, ← cons_append, drop_left]
  rw [occurrencesCons]
  split
  · rename_i hnone
    rw [hcut] at hnone
    cases hnone
  · rename_i cut hsome
    rw [hcut] at hsome
    cases hsome
    rfl

/-- **Induction along a cut**: the separator is found at the front, or one character is passed
over. -/
theorem cut_induction {P : List Char → Prop} (nil : P [])
    (occurs : ∀ cs, P cs → P (m :: ms ++ cs))
    (keep : ∀ c cs, ¬ m :: ms <+: c :: cs → P cs → P (c :: cs)) (cs : List Char) : P cs := by
  fun_induction splitOnCons m ms cs with
  | case1 => exact nil
  | case2 c rest hstarts ih =>
    obtain ⟨back, hback⟩ := List.isPrefixOf_iff_prefix.mp hstarts
    obtain ⟨rfl, rfl⟩ : m = c ∧ ms ++ back = rest := cons.inj hback
    rw [drop_left] at ih
    exact occurs back ih
  | case3 c rest hstarts hnil ih =>
    exact keep c rest (mt List.isPrefixOf_iff_prefix.mpr hstarts) ih
  | case4 c rest hstarts piece pieces hpieces ih =>
    exact keep c rest (mt List.isPrefixOf_iff_prefix.mpr hstarts) ih

variable {m ms}

theorem exists_splitOnCons_cons {c : Char} {cs : List Char} (h : ¬ m :: ms <+: c :: cs) :
    ∃ piece pieces, splitOnCons m ms cs = piece :: pieces ∧
      splitOnCons m ms (c :: cs) = (c :: piece) :: pieces := by
  rw [splitOnCons, if_neg (mt List.isPrefixOf_iff_prefix.mp h)]
  cases hpieces : splitOnCons m ms cs with
  | nil => exact absurd hpieces (splitOnCons_ne_nil m ms cs)
  | cons piece pieces => exact ⟨piece, pieces, rfl, rfl⟩

theorem occurrencesCons_cons {c : Char} {cs : List Char} (h : ¬ m :: ms <+: c :: cs) :
    occurrencesCons m ms (c :: cs) = occurrencesCons m ms cs := by
  have hcut : findCut (m :: ms) (c :: cs) =
      (findCut (m :: ms) cs).map fun cut => (c :: cut.1, cut.2) := by
    rw [findCut, if_neg (mt List.isPrefixOf_iff_prefix.mp h)]
  rw [occurrencesCons, occurrencesCons.eq_def m ms cs]
  cases hrest : findCut (m :: ms) cs with
  | none =>
    rw [hrest] at hcut
    split
    · rfl
    · rename_i cut hsome
      rw [hcut] at hsome
      cases hsome
  | some cut =>
    rw [hrest] at hcut
    split
    · rename_i hnone
      rw [hcut] at hnone
      cases hnone
    · rename_i cut' hsome
      rw [hcut] at hsome
      cases hsome
      rfl

end Steps

/-! ## Pieces and occurrences -/

section Pieces

variable (m : Char) (ms : List Char)

/-- There is one more piece than there are occurrences. -/
theorem length_splitOnCons (cs : List Char) :
    (splitOnCons m ms cs).length = occurrencesCons m ms cs + 1 := by
  induction cs using cut_induction m ms with
  | nil => rw [splitOnCons, occurrencesCons_nil]; rfl
  | occurs cs ih => rw [splitOnCons_sep_append, occurrencesCons_sep_append, length_cons, ih]
  | keep c cs hc ih =>
    obtain ⟨piece, pieces, hpieces, hcons⟩ := exists_splitOnCons_cons hc
    rw [hcons, occurrencesCons_cons hc, ← ih, hpieces]
    rfl

/-- Cutting a text at a marker leaves the text without the marker, in pieces. -/
theorem erases_splitOnCons (cs : List Char) :
    Erases (m :: ms) cs (occurrencesCons m ms cs) (splitOnCons m ms cs).flatten := by
  induction cs using cut_induction m ms with
  | nil => rw [splitOnCons, occurrencesCons_nil]; exact .nil
  | occurs cs ih =>
    rw [splitOnCons_sep_append, occurrencesCons_sep_append, flatten_cons, nil_append]
    exact .skip ih
  | keep c cs hc ih =>
    obtain ⟨piece, pieces, hpieces, hcons⟩ := exists_splitOnCons_cons hc
    rw [hpieces] at ih
    rw [hcons, occurrencesCons_cons hc]
    exact .keep hc ih

/-- The separator between the pieces gives back the text. -/
theorem intercalate_splitOnCons (cs : List Char) :
    (m :: ms).intercalate (splitOnCons m ms cs) = cs := by
  induction cs using cut_induction m ms with
  | nil => rw [splitOnCons]; rfl
  | occurs cs ih =>
    rw [splitOnCons_sep_append,
      intercalate_cons_of_ne_nil (splitOnCons_ne_nil m ms cs), ih, nil_append]
  | keep c cs hc ih =>
    obtain ⟨piece, pieces, hpieces, hcons⟩ := exists_splitOnCons_cons hc
    rw [hpieces] at ih
    rw [hcons, ← ih]
    cases pieces <;> simp

/-- No piece holds the separator. -/
theorem not_infix_of_mem_splitOnCons (cs : List Char) :
    ∀ piece ∈ splitOnCons m ms cs, ¬ m :: ms <:+: piece := by
  have hnil : ¬ m :: ms <:+: [] := by simp
  induction cs using cut_induction m ms with
  | nil =>
    rw [splitOnCons]
    exact forall_mem_singleton.mpr hnil
  | occurs cs ih =>
    rw [splitOnCons_sep_append]
    exact forall_mem_cons.mpr ⟨hnil, ih⟩
  | keep c cs hc ih =>
    obtain ⟨piece, pieces, hpieces, hcons⟩ := exists_splitOnCons_cons hc
    rw [hpieces] at ih
    obtain ⟨hpiece, hrest⟩ := forall_mem_cons.mp ih
    rw [hcons]
    refine forall_mem_cons.mpr ⟨fun hinfix => ?_, hrest⟩
    rcases infix_cons_iff.mp hinfix with hstarts | hinfix
    · -- the first piece is a front of the text, which does not start with the separator
      have hfront : piece <+: cs := by
        rw [← intercalate_splitOnCons m ms cs, hpieces]
        cases pieces <;> simp
      exact hc (hstarts.trans ((prefix_cons_inj c).mpr hfront))
    · exact hpiece hinfix

end Pieces

/-! ## No cut has more pieces -/

/-- Behind some characters there are no more occurrences than in the whole text, and if these are no
more than the separator is long then there is at most one less. -/
theorem occurrencesCons_drop (m : Char) (ms cs : List Char) :
    (∀ i, occurrencesCons m ms (cs.drop i) ≤ occurrencesCons m ms cs) ∧
      ∀ i, i ≤ ms.length + 1 →
        occurrencesCons m ms cs ≤ occurrencesCons m ms (cs.drop i) + 1 := by
  -- both are needed at once: a separator at the front reaches over the next one behind it
  induction hn : cs.length using Nat.strongRecOn generalizing cs with
  | _ n ih =>
    cases cs with
    | nil => simp
    | cons c rest =>
      obtain ⟨hdrop, hlose⟩ := ih rest.length (by rw [← hn]; exact Nat.lt_succ_self _) rest rfl
      by_cases hstarts : m :: ms <+: c :: rest
      · obtain ⟨back, hback⟩ := hstarts
        obtain ⟨rfl, rfl⟩ : m = c ∧ ms ++ back = rest := cons.inj hback
        have hcount := occurrencesCons_sep_append m ms back
        rw [cons_append] at hcount
        have hbehind : (ms ++ back).drop ms.length = back := drop_left
        refine ⟨fun i => ?_, fun i hi => ?_⟩
        · cases i with
          | zero => exact Nat.le_refl _
          | succ i =>
            have hone := hlose ms.length (Nat.le_succ _)
            rw [hbehind] at hone
            rw [drop_succ_cons, hcount]
            exact Nat.le_trans (hdrop i) hone
        · cases i with
          | zero => exact Nat.le_succ _
          | succ i =>
            have hlength : ((ms ++ back).drop i).length < n := by
              rw [← hn, length_cons, length_drop]
              omega
            have hmore := (ih _ hlength _ rfl).1 (ms.length - i)
            rw [drop_drop, Nat.add_sub_cancel' (Nat.le_of_succ_le_succ hi), hbehind] at hmore
            rw [drop_succ_cons, hcount]
            exact Nat.succ_le_succ hmore
      · rw [occurrencesCons_cons hstarts]
        refine ⟨fun i => ?_, fun i hi => ?_⟩
        · cases i with
          | zero => exact Nat.le_of_eq (occurrencesCons_cons hstarts)
          | succ i => exact hdrop i
        · cases i with
          | zero => rw [drop_zero, occurrencesCons_cons hstarts]; exact Nat.le_succ _
          | succ i => exact hlose i (Nat.le_of_succ_le hi)

/-- **The occurrences found from the left are as many as there can be.** -/
theorem mostOccurrencesCons (m : Char) (ms cs : List Char) :
    MostOccurrences (m :: ms) cs (occurrencesCons m ms cs) := by
  refine ⟨⟨_, length_splitOnCons m ms cs, intercalate_splitOnCons m ms cs⟩, fun ps hps => ?_⟩
  induction ps generalizing cs with
  | nil => exact Nat.zero_le _
  | cons p ps ih =>
    cases ps with
    | nil => exact Nat.succ_le_succ (Nat.zero_le _)
    | cons q qs =>
      -- behind the first piece there is a separator, and behind that the others
      have hbehind : cs.drop p.length = m :: ms ++ (m :: ms).intercalate (q :: qs) := by
        rw [← hps, intercalate_cons_cons, append_assoc, drop_left]
      have hdrop := (occurrencesCons_drop m ms cs).1 p.length
      rw [hbehind, occurrencesCons_sep_append] at hdrop
      have hrest := ih _ rfl
      rw [length_cons]
      omega

/-! ## Any separator -/

theorem erases_splitOn {sep : List Char} (hsep : sep ≠ []) (cs : List Char) :
    Erases sep cs (occurrences sep cs) (splitOn sep cs).flatten := by
  cases sep with
  | nil => exact absurd rfl hsep
  | cons m ms => exact erases_splitOnCons m ms cs

theorem mostOccurrences {sep : List Char} (hsep : sep ≠ []) (cs : List Char) :
    MostOccurrences sep cs (occurrences sep cs) := by
  cases sep with
  | nil => exact absurd rfl hsep
  | cons m ms => exact mostOccurrencesCons m ms cs

theorem length_pieces (sep s : String) :
    (pieces sep s).length = occurrences sep.toList s.toList + 1 := by
  rw [pieces, length_map]
  cases sep.toList with
  | nil => rfl
  | cons m ms => exact length_splitOnCons m ms s.toList

/-- The separator between the pieces of a string gives back the string. -/
theorem intercalate_pieces {sep : String} (hsep : sep.toList ≠ []) (s : String) :
    sep.intercalate (pieces sep s) = s := by
  apply String.toList_inj.mp
  rw [String.toList_intercalate, pieces, map_map]
  cases hchars : sep.toList with
  | nil => exact absurd hchars hsep
  | cons m ms =>
    have hid : String.toList ∘ String.ofList = id := by
      funext cs
      exact String.toList_ofList
    rw [hid, map_id]
    exact intercalate_splitOnCons m ms s.toList

theorem not_infix_of_mem_pieces {sep : String} (hsep : sep.toList ≠ []) {s piece : String}
    (h : piece ∈ pieces sep s) : ¬ sep.toList <:+: piece.toList := by
  obtain ⟨cs, hcs, rfl⟩ := mem_map.mp h
  rw [String.toList_ofList]
  cases hchars : sep.toList with
  | nil => exact absurd hchars hsep
  | cons m ms =>
    rw [hchars] at hcs
    exact not_infix_of_mem_splitOnCons m ms s.toList cs hcs

theorem flatMap_toList_pieces (sep s : String) :
    (pieces sep s).flatMap String.toList = (splitOn sep.toList s.toList).flatten := by
  rw [pieces, flatMap_map]
  simp only [String.toList_ofList]
  exact flatMap_id

/-- Replacing a marker by nothing puts the pieces in a row. -/
theorem replaced_empty (sep s : String) :
    replaced sep "" s = String.ofList (splitOn sep.toList s.toList).flatten := by
  have hintercalate : ∀ ls : List (List Char), ([] : List Char).intercalate ls = ls.flatten := by
    intro ls
    induction ls with
    | nil => rfl
    | cons l ls ih =>
      cases ls with
      | nil => simp
      | cons l' ls => rw [intercalate_cons_cons, ih]; simp
  rw [replaced, replaceAll]
  exact congrArg String.ofList (hintercalate _)

/-! ## Separators of one character -/

/-- Texts with a separator between them are cut there. -/
theorem splitOnCons_append (m : Char) (cs ds : List Char) :
    splitOnCons m [] (cs ++ m :: ds) = splitOnCons m [] cs ++ splitOnCons m [] ds := by
  induction cs with
  | nil =>
    rw [nil_append, splitOnCons, splitOnCons, if_pos (by simp)]
    rfl
  | cons c cs ih =>
    rw [cons_append, splitOnCons, splitOnCons]
    by_cases hc : m = c
    · subst hc
      rw [if_pos (by simp), if_pos (by simp), length_nil, drop_zero, drop_zero, ih,
        cons_append]
    · rw [if_neg (by simpa using hc), if_neg (by simpa using hc), ih]
      cases hpieces : splitOnCons m [] cs with
      | nil => exact absurd hpieces (splitOnCons_ne_nil m [] cs)
      | cons piece pieces => rfl

theorem splitOnCons_of_not_mem {m : Char} {cs : List Char} (h : m ∉ cs) :
    splitOnCons m [] cs = [cs] := by
  induction cs with
  | nil => rw [splitOnCons]
  | cons c cs ih =>
    rw [mem_cons, not_or] at h
    rw [splitOnCons, if_neg (by simpa using h.1), ih h.2]

/-- **Pieces with a separator between them are the pieces of the text.** -/
theorem splitOn_intercalate {m : Char} {pieces : List (List Char)} (hne : pieces ≠ [])
    (h : ∀ piece ∈ pieces, m ∉ piece) : splitOn [m] ([m].intercalate pieces) = pieces := by
  show splitOnCons m [] _ = _
  induction pieces with
  | nil => exact absurd rfl hne
  | cons piece pieces ih =>
    obtain ⟨hpiece, hpieces⟩ := forall_mem_cons.mp h
    cases pieces with
    | nil => rw [intercalate_singleton, splitOnCons_of_not_mem hpiece]
    | cons piece' pieces =>
      rw [intercalate_cons_cons, append_assoc, singleton_append,
        splitOnCons_append, splitOnCons_of_not_mem hpiece, ih (cons_ne_nil _ _) hpieces]
      rfl

/-- The characters of texts with a separator between them. -/
theorem mem_intercalate {m c : Char} {texts : List (List Char)} (h : c ∈ [m].intercalate texts) :
    c = m ∨ ∃ text ∈ texts, c ∈ text := by
  induction texts with
  | nil => cases h
  | cons text texts ih =>
    cases texts with
    | nil =>
      rw [intercalate_singleton] at h
      exact .inr ⟨text, mem_cons_self, h⟩
    | cons text' texts =>
      rw [intercalate_cons_cons, append_assoc, mem_append] at h
      rcases h with h | h
      · exact .inr ⟨text, mem_cons_self, h⟩
      rcases mem_cons.mp h with rfl | h
      · exact .inl rfl
      · rcases ih h with hm | ⟨other, hother, hc⟩
        · exact .inl hm
        · exact .inr ⟨other, mem_cons_of_mem text hother, hc⟩

/-- What ends texts with a separator between them, and does not hold it, ends one of the texts. -/
theorem suffix_of_suffix_intercalate {m : Char} {ending : List Char} {texts : List (List Char)}
    (hne : ending ≠ []) (hm : m ∉ ending) (h : ending <:+ [m].intercalate texts) :
    ∃ text ∈ texts, ending <:+ text := by
  induction texts with
  | nil => exact absurd (suffix_nil.mp h) hne
  | cons text texts ih =>
    cases texts with
    | nil =>
      rw [intercalate_singleton] at h
      exact ⟨text, mem_cons_self, h⟩
    | cons text' texts =>
      rw [intercalate_cons_cons, append_assoc, singleton_append] at h
      rcases suffix_or_suffix_of_suffix h (suffix_append text _) with hback | hfront
      · rcases suffix_cons_iff.mp hback with rfl | hback
        · exact absurd mem_cons_self hm
        · obtain ⟨other, hother, hending⟩ := ih hback
          exact ⟨other, mem_cons_of_mem text hother, hending⟩
      · exact absurd (hfront.subset mem_cons_self) hm

/-- The characters of a text that is put together of parts. -/
theorem toList_foldl_append (s : String) (parts : List String) (t : String) :
    (parts.foldl (· ++ ·) s ++ t).toList =
      s.toList ++ parts.foldr (fun part rest => part.toList ++ rest) t.toList := by
  induction parts generalizing s with
  | nil => exact String.toList_append
  | cons part parts ih => rw [foldl_cons, ih, String.toList_append, append_assoc, foldr_cons]

end TreeQuery.Text

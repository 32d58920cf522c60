import Mathlib.Data.List.Infix
import Mathlib.Data.List.TakeWhile
import TreeQuery.Proofs.Query.Rendering
import TreeQuery.Proofs.Text.Lower
import TreeQuery.Proofs.Text.Pieces
import TreeQuery.Slug

/-!
# A normalised name stays as it is

A component of a name that was normalised is empty, a slug (`IsSlug`), or made of characters of
which a slug would keep nothing (`IsSigns`): that is `component_cases`.  Each of the three is its
own normal form, holds no slash and does not end in the extension of a query file.  Hence the
components of a normalised name are those it was put together from (`components_queryName`), and
normalising it again changes nothing (`queryName_queryName`).
-/

namespace TreeQuery.Slug

open List TreeQuery.Text

/-! ## What becomes of a character -/

/-- The characters of a slug that a character becomes. -/
def slugOf (c : Char) : List Char :=
  ((substitute c).flatMap plainSpelling).map fun d => slugChar d.toLower

/-- **Nothing remains of the character** but dashes and underscores. -/
def vanishes (c : Char) : Bool := (slugOf c).all isEdge

theorem make_eq (cs : List Char) :
    make cs = trimEdges (joinDashes ((trim cs).flatMap slugOf)) := by
  have hpieces : ∀ ds : List Char, (((ds.flatMap substitute).flatMap plainSpelling).map
      Char.toLower).map slugChar = ds.flatMap slugOf := by
    intro ds
    rw [map_map, flatMap_assoc, map_flatMap]
    rfl
  rw [make, hpieces]

variable {c : Char} {cs : List Char}

/-- Characters that are no signs stand for themselves. -/
theorem substitute_of_not_sign (h : c.toNat ∉ signs) : substitute c = [c] := by
  have hne : ∀ d : Char, d.toNat ∈ signs → c ≠ d := by
    rintro d hd rfl
    exact h hd
  rw [substitute, if_neg (hne '&' (by decide)), if_neg (hne '@' (by decide)), if_neg, if_neg]
  · simp only [hne '‒' (by decide), hne '–' (by decide), hne '—' (by decide), hne '―' (by decide),
      or_self, not_false_eq_true]
  · simp only [hne '"' (by decide), hne '\'' (by decide), hne '’' (by decide), or_self,
      not_false_eq_true]

theorem slugOf_of_not_sign (h : c.toNat ∉ signs) :
    slugOf c = (plainSpelling c).map fun d => slugChar d.toLower := by
  rw [slugOf, substitute_of_not_sign h, flatMap_singleton]

theorem lowerChar_of_sign (h : c.toNat ∈ signs) : lowerChar c = c := by
  have hall : (signs.all fun n => lowerRuns.all fun r => !Capitals.has r n) = true := by
    decide +kernel
  refine lowerChar_of_isSmall fun r hr => ?_
  simpa using all_eq_true.mp (all_eq_true.mp hall c.toNat h) r hr

theorem plainSpelling_lowerChar (h : ¬ c.toNat < 0x180) :
    plainSpelling (lowerChar c) = plainSpelling c := by
  unfold plainSpelling
  rw [lowerChar_lowerChar, ite_self, if_neg h]

/-- The capitals of the table have plain spellings. -/
theorem isSmall_of_vanishes (h : vanishes c) (htable : c.toNat < 0x180) : IsSmall c := by
  have hall : (lowerRuns.all fun r => !Nat.blt r.1 0x180 || (range 0x180).all fun n =>
      !Capitals.has r n || !vanishes (Char.ofNat n)) = true := by
    decide +kernel
  intro r hr
  by_contra hhas
  rw [Bool.not_eq_false] at hhas
  have hfirst : r.1 ≤ c.toNat := by
    simp only [Capitals.has, Bool.and_eq_true, decide_eq_true_eq] at hhas
    exact hhas.1.1
  have hrun := all_eq_true.mp hall r hr
  rw [Nat.blt_eq.mpr (Nat.lt_of_le_of_lt hfirst htable), Bool.not_true, Bool.false_or] at hrun
  have hcode := all_eq_true.mp hrun c.toNat (mem_range.mpr htable)
  rw [hhas, Char.ofNat_toNat, h] at hcode
  cases hcode

/-- **Lower case keeps what vanishes.**  What vanishes has no capital in the table, and beyond it a
capital is spelled as its small letter. -/
theorem vanishes_lowerChar (h : vanishes c) : vanishes (lowerChar c) := by
  by_cases htable : c.toNat < 0x180
  · rwa [lowerChar_of_isSmall (isSmall_of_vanishes h htable)]
  by_cases hsign : c.toNat ∈ signs
  · rwa [lowerChar_of_sign hsign]
  have hlower : (lowerChar c).toNat ∉ signs := by
    intro hlower
    rw [lowerChar_of_isSign hlower] at hlower
    exact hsign hlower
  rw [vanishes, slugOf_of_not_sign hsign] at h
  rwa [vanishes, slugOf_of_not_sign hlower, plainSpelling_lowerChar htable]

theorem mem_of_mem_trim (h : c ∈ trim cs) : c ∈ cs := by
  obtain ⟨blanks, hcs, -⟩ := exists_eq_trim_append cs
  rw [hcs]
  exact mem_append_left _ (mem_append_right _ h)

theorem trim_of_not_blank (h : ∀ c ∈ cs, isBlank c = false) : trim cs = cs :=
  trim_eq_self_iff.mpr
    ⟨fun c hc => h c (mem_of_mem_head? hc), fun c hc => h c (mem_of_mem_getLast? hc)⟩

/-! ## Slugs -/

/-- The characters of a normalised slug. -/
def isSlugLetter (c : Char) : Bool := c.isLower || c.isDigit || c == '-'

/-- **A slug**: small letters and digits, with single dashes between them. -/
structure IsSlug (cs : List Char) : Prop where
  ne_nil : cs ≠ []
  letters : ∀ c ∈ cs, isSlugLetter c = true
  dashes : ¬ ['-', '-'] <:+: cs
  head : ∀ c ∈ cs.head?, c ≠ '-'
  last : ∀ c ∈ cs.getLast?, c ≠ '-'

theorem isUpper_toLower (c : Char) : c.toLower.isUpper = false := by
  by_cases hupper : 0x41 ≤ c.toNat ∧ c.toNat ≤ 0x5A
  · have hcode := toNat_toLower hupper.1 hupper.2
    refine decide_eq_false fun hcapital => ?_
    have hlow := hupper.1
    have hhigh : c.toLower.toNat ≤ 0x5A := hcapital.2
    omega
  · have hlower : c.toLower = c := dif_neg hupper
    rw [hlower]
    exact decide_eq_false hupper

theorem eq_underscore_of_toLower (h : c.toLower = '_') : c = '_' := by
  by_cases hupper : 0x41 ≤ c.toNat ∧ c.toNat ≤ 0x5A
  · have hcode := toNat_toLower hupper.1 hupper.2
    rw [h, show '_'.toNat = 95 from rfl] at hcode
    omega
  · have hlower : c.toLower = c := dif_neg hupper
    rwa [hlower] at h

/-- A slug has no other characters, unless there is an underscore. -/
theorem isSlugLetter_slugChar (h : c ≠ '_') : isSlugLetter (slugChar c.toLower) := by
  unfold slugChar
  split
  · rename_i hkept
    have halphanum : c.toLower.isAlphanum =
        (c.toLower.isUpper || c.toLower.isLower || c.toLower.isDigit) := rfl
    have hne : c.toLower ≠ '_' := fun heq => h (eq_underscore_of_toLower heq)
    rw [halphanum, isUpper_toLower, Bool.false_or, beq_eq_false_iff_ne.mpr hne,
      Bool.or_false] at hkept
    exact hkept
  · rfl

theorem underscore_not_mem_tableSpelling (h : c ≠ '_') : '_' ∉ tableSpelling c := by
  have hlatin : (latin.toList.all fun s => !s.toList.contains '_') = true := by decide +kernel
  intro hmem
  unfold tableSpelling at hmem
  dsimp only at hmem
  split at hmem
  · exact h (mem_singleton.mp hmem).symm
  split at hmem
  · cases mem_singleton.mp hmem
  split at hmem
  · cases hmem
  cases hentry : latin[c.toNat - 0xA0]? with
  | none =>
    rw [hentry] at hmem
    cases hmem
  | some s =>
    rw [hentry, Option.getD_some] at hmem
    have hlisted := Array.mem_toList_iff.mpr (Array.mem_of_getElem? hentry)
    have hs := all_eq_true.mp hlatin s hlisted
    rw [contains_iff_mem.mpr hmem] at hs
    cases hs

/-- Only an underscore is spelled with one. -/
theorem underscore_not_mem_spelling (h : c ≠ '_') : '_' ∉ (substitute c).flatMap plainSpelling := by
  by_cases hsign : c.toNat ∈ signs
  · have hall : (signs.all fun n => Nat.beq n 95 ||
        !((substitute (Char.ofNat n)).flatMap plainSpelling).contains '_') = true := by
      decide +kernel
    intro hmem
    have hcode := all_eq_true.mp hall c.toNat hsign
    rw [Char.ofNat_toNat, contains_iff_mem.mpr hmem, Bool.not_true, Bool.or_false,
      Nat.beq_eq] at hcode
    exact h (Char.toNat_inj.mp hcode)
  · rw [substitute_of_not_sign hsign, flatMap_singleton, plainSpelling]
    split
    · exact underscore_not_mem_tableSpelling h
    · refine underscore_not_mem_tableSpelling fun hlower => ?_
      rw [lowerChar_of_isSign (by rw [hlower]; decide)] at hlower
      exact h hlower

theorem isSlugLetter_of_mem_slugOf {x : Char} (h : c ≠ '_') (hx : x ∈ slugOf c) :
    isSlugLetter x := by
  obtain ⟨d, hd, rfl⟩ := mem_map.mp hx
  refine isSlugLetter_slugChar ?_
  rintro rfl
  exact underscore_not_mem_spelling h hd

theorem mem_joinDashes : c ∈ joinDashes cs ↔ c ∈ cs := by
  fun_induction joinDashes cs with
  | case1 => exact Iff.rfl
  | case2 => exact Iff.rfl
  | case3 c' d rest h ih =>
    rw [ih, h.1, h.2]
    simp
  | case4 c' d rest h ih => rw [mem_cons, ih, mem_cons (l := d :: rest)]

theorem head?_joinDashes (cs : List Char) : (joinDashes cs).head? = cs.head? := by
  fun_induction joinDashes cs with
  | case1 => rfl
  | case2 => rfl
  | case3 c d rest h ih => rw [ih, h.1, h.2]; rfl
  | case4 => rfl

theorem dashes_joinDashes (cs : List Char) : ¬ ['-', '-'] <:+: joinDashes cs := by
  fun_induction joinDashes cs with
  | case1 => simp
  | case2 c =>
    intro h
    have := h.length_le
    simp at this
  | case3 c d rest h ih => exact ih
  | case4 c d rest h ih =>
    intro hinside
    rcases infix_cons_iff.mp hinside with hstarts | hinside
    · obtain ⟨hc, hrest⟩ := cons_prefix_cons.mp hstarts
      have hhead := head?_joinDashes (d :: rest)
      obtain ⟨after, hafter⟩ := hrest
      rw [← hafter] at hhead
      exact h ⟨hc.symm, (Option.some.inj hhead).symm⟩
    · exact ih hinside

theorem joinDashes_of_dashes (h : ¬ ['-', '-'] <:+: cs) : joinDashes cs = cs := by
  fun_induction joinDashes cs with
  | case1 => rfl
  | case2 => rfl
  | case3 c d rest hdash ih =>
    exact absurd ⟨[], rest, by rw [hdash.1, hdash.2]; rfl⟩ h
  | case4 c d rest hdash ih =>
    rw [ih fun hinside => h (hinside.trans (suffix_cons c _).isInfix)]

/-! ## Trimming a slug -/

theorem trimEdges_starts (cs : List Char) : trimEdges cs <+: cs.dropWhile isEdge := by
  rw [trimEdges, ← reverse_suffix, reverse_reverse]
  exact dropWhile_suffix _

theorem trimEdges_inside (cs : List Char) : trimEdges cs <:+: cs :=
  (trimEdges_starts cs).isInfix.trans (dropWhile_suffix _).isInfix

theorem isEdge_of_mem_head?_dropWhile (h : c ∈ (cs.dropWhile isEdge).head?) : isEdge c = false := by
  have hhead := head?_dropWhile_not isEdge cs
  rw [Option.mem_def.mp h] at hhead
  exact hhead

theorem trimEdges_eq_nil_iff : trimEdges cs = [] ↔ ∀ c ∈ cs, isEdge c := by
  rw [trimEdges, reverse_eq_nil_iff, dropWhile_eq_nil_iff]
  constructor
  · intro h
    have hnil : cs.dropWhile isEdge = [] := by
      cases hdrop : cs.dropWhile isEdge with
      | nil => rfl
      | cons c rest =>
        have hinside : isEdge c = false := isEdge_of_mem_head?_dropWhile (by rw [hdrop]; rfl)
        have hedge := h c (by rw [hdrop]; simp)
        rw [hedge] at hinside
        cases hinside
    exact dropWhile_eq_nil_iff.mp hnil
  · intro h c hc
    rw [mem_reverse] at hc
    exact h c ((dropWhile_suffix _).subset hc)

theorem isEdge_of_mem_head? (h : c ∈ (trimEdges cs).head?) : isEdge c = false := by
  obtain ⟨back, hback⟩ := trimEdges_starts cs
  refine @isEdge_of_mem_head?_dropWhile _ cs ?_
  rw [← hback, head?_append, Option.mem_def.mp h]
  rfl

theorem isEdge_of_mem_getLast? (h : c ∈ (trimEdges cs).getLast?) : isEdge c = false := by
  rw [trimEdges, getLast?_reverse] at h
  exact isEdge_of_mem_head?_dropWhile h

theorem dropWhile_isEdge (h : ∀ c ∈ cs.head?, isEdge c = false) : cs.dropWhile isEdge = cs := by
  cases cs with
  | nil => rfl
  | cons c cs => rw [dropWhile_cons_of_neg (by simp [h c rfl])]

theorem trimEdges_of_ends (hhead : ∀ c ∈ cs.head?, isEdge c = false)
    (hlast : ∀ c ∈ cs.getLast?, isEdge c = false) : trimEdges cs = cs := by
  rw [trimEdges, dropWhile_isEdge hhead, dropWhile_isEdge, reverse_reverse]
  rwa [head?_reverse]

/-- **What is made of a text without underscores is a slug**, if anything is left. -/
theorem isSlug_make (h : '_' ∉ cs) (hne : make cs ≠ []) : IsSlug (make cs) := by
  have hletters : ∀ c ∈ make cs, isSlugLetter c = true := by
    intro c hc
    rw [make_eq] at hc
    have hjoined := mem_joinDashes.mp ((trimEdges_inside _).subset hc)
    obtain ⟨d, hd, hc⟩ := mem_flatMap.mp hjoined
    refine isSlugLetter_of_mem_slugOf ?_ hc
    rintro rfl
    exact h (mem_of_mem_trim hd)
  have hdash : ∀ {c : Char}, isEdge c = false → c ≠ '-' := by
    rintro c hc rfl
    cases hc
  refine ⟨hne, hletters, fun hdashes => ?_, fun c hc => hdash ?_, fun c hc => hdash ?_⟩
  · rw [make_eq] at hdashes
    exact dashes_joinDashes _ (hdashes.trans (trimEdges_inside _))
  · rw [make_eq] at hc
    exact isEdge_of_mem_head? hc
  · rw [make_eq] at hc
    exact isEdge_of_mem_getLast? hc

/-- Nothing is made of a text all of whose characters vanish, and only of such. -/
theorem make_eq_nil_iff : make cs = [] ↔ ∀ c ∈ trim cs, vanishes c := by
  rw [make_eq, trimEdges_eq_nil_iff]
  constructor
  · intro h c hc
    refine all_eq_true.mpr fun d hd => h d (mem_joinDashes.mpr ?_)
    exact mem_flatMap.mpr ⟨c, hc, hd⟩
  · intro h d hd
    obtain ⟨c, hc, hd⟩ := mem_flatMap.mp (mem_joinDashes.mp hd)
    exact all_eq_true.mp (h c hc) d hd

/-- **What holds of the letters of a slug**, by their codes. -/
theorem forall_isSlugLetter {P : Char → Prop}
    (h : ∀ n ∈ range 128, isSlugLetter (Char.ofNat n) → P (Char.ofNat n))
    (hc : isSlugLetter c) : P c := by
  have hascii : c.toNat < 128 := by
    simp only [isSlugLetter, Bool.or_eq_true, beq_iff_eq] at hc
    rcases hc with (hc | hc) | rfl
    · have hhigh : c.toNat ≤ 122 := of_decide_eq_true (Bool.and_eq_true_iff.mp hc).2
      omega
    · have hhigh : c.toNat ≤ 57 := of_decide_eq_true (Bool.and_eq_true_iff.mp hc).2
      omega
    · decide
  have hcode := h c.toNat (mem_range.mpr hascii)
  rw [Char.ofNat_toNat] at hcode
  exact hcode hc

/-- The letters of a slug become themselves. -/
theorem slugOf_of_isSlugLetter (h : isSlugLetter c) : slugOf c = [c] :=
  forall_isSlugLetter (P := fun c => slugOf c = [c]) (by decide +kernel) h

theorem isBlank_of_isSlugLetter (h : isSlugLetter c) : isBlank c = false :=
  forall_isSlugLetter (P := fun c => isBlank c = false) (by decide +kernel) h

/-- **A slug is what is made of it.** -/
theorem IsSlug.make_eq_self (h : IsSlug cs) : make cs = cs := by
  have hspelled : cs.flatMap slugOf = cs := by
    have hletters := h.letters
    clear h
    induction cs with
    | nil => rfl
    | cons c cs ih =>
      obtain ⟨hc, hcs⟩ := forall_mem_cons.mp hletters
      rw [flatMap_cons, slugOf_of_isSlugLetter hc, ih hcs]
      rfl
  have hedge : ∀ c ∈ cs, c ≠ '-' → isEdge c = false := by
    intro c hc hdash
    have hne : c ≠ '_' := by
      rintro rfl
      cases h.letters _ hc
    simp [isEdge, hdash, hne]
  rw [make_eq, trim_of_not_blank fun c hc => isBlank_of_isSlugLetter (h.letters c hc), hspelled,
    joinDashes_of_dashes h.dashes]
  exact trimEdges_of_ends (fun c hc => hedge c (mem_of_mem_head? hc) (h.head c hc))
    fun c hc => hedge c (mem_of_mem_getLast? hc) (h.last c hc)

/-! ## Components -/

/-- **A component without a plain spelling**: no character of it remains in a slug. -/
structure IsSigns (cs : List Char) : Prop where
  ne_nil : cs ≠ []
  blank : ∀ c ∈ cs, isBlank c = false
  underscore : '_' ∉ cs
  lower : ∀ c ∈ cs, lowerChar c = c
  vanishes : ∀ c ∈ cs, vanishes c = true

theorem wordsFrom_of_not_blank {current : List Char} (h : ∀ c ∈ cs, isBlank c = false)
    (hne : current ++ cs ≠ []) : wordsFrom current cs = [current.reverse ++ cs] := by
  induction cs generalizing current with
  | nil =>
    rw [append_nil] at hne
    simp [wordsFrom, hne]
  | cons c cs ih =>
    obtain ⟨hc, hcs⟩ := forall_mem_cons.mp h
    rw [wordsFrom, if_neg (by simp [hc]), ih hcs (by simp)]
    simp

/-- The words of a text hold no blanks, and nothing that is not in the text. -/
theorem mem_wordsFrom {current word : List Char} (hcurrent : ∀ d ∈ current, isBlank d = false)
    (hword : word ∈ wordsFrom current cs) (hc : c ∈ word) :
    isBlank c = false ∧ (c ∈ current ∨ c ∈ cs) := by
  fun_induction wordsFrom current cs with
  | case1 => cases hword
  | case2 current =>
    rw [mem_singleton.mp hword, mem_reverse] at hc
    exact ⟨hcurrent c hc, .inl hc⟩
  | case3 current d rest hd hempty ih =>
    obtain ⟨hblank, hmem⟩ := ih (by simp) hword
    exact ⟨hblank, .inr (mem_cons_of_mem d (by simpa using hmem))⟩
  | case4 current d rest hd hempty ih =>
    rcases mem_cons.mp hword with rfl | hword
    · rw [mem_reverse] at hc
      exact ⟨hcurrent c hc, .inl hc⟩
    · obtain ⟨hblank, hmem⟩ := ih (by simp) hword
      exact ⟨hblank, .inr (mem_cons_of_mem d (by simpa using hmem))⟩
  | case5 current d rest hd ih =>
    rw [Bool.not_eq_true] at hd
    obtain ⟨hblank, hmem⟩ := ih (forall_mem_cons.mpr ⟨hd, hcurrent⟩) hword
    refine ⟨hblank, ?_⟩
    rw [mem_cons] at hmem ⊢
    tauto

/-- The text of a component in which underscores are blanks. -/
def unscored (s : String) : List Char :=
  trim (s.toList.map fun c => if c = '_' then ' ' else c)

/-- The words of a text with dashes between them, in lower case. -/
def dashed (cs : List Char) : List Char :=
  (['-'].intercalate (words cs)).map lowerChar

theorem component_eq (s : String) :
    component s = String.ofList (if (make (unscored s)).isEmpty then dashed (unscored s)
      else make (unscored s)) := by
  rw [component, ← unscored]
  split
  · rw [lowered, String.toList_ofList, dashed]
  · rfl

theorem underscore_not_mem_unscored (s : String) : '_' ∉ unscored s := by
  intro hmem
  obtain ⟨c, -, hc⟩ := mem_map.mp (mem_of_mem_trim hmem)
  split at hc
  · cases hc
  · rename_i hne
    exact hne hc

theorem unscored_eq_self (hunderscore : '_' ∉ cs) (hblank : ∀ c ∈ cs, isBlank c = false) :
    unscored (String.ofList cs) = cs := by
  have hmap : cs.map (fun c => if c = '_' then ' ' else c) = cs := by
    conv_rhs => rw [← map_id cs]
    refine map_congr_left fun c hc => if_neg ?_
    rintro rfl
    exact hunderscore hc
  rw [unscored, String.toList_ofList, hmap, trim_of_not_blank hblank]

/-- The characters of words with dashes between them. -/
theorem mem_dashed (h : c ∈ dashed cs) :
    c = '-' ∨ ∃ d ∈ cs, isBlank d = false ∧ lowerChar d = c := by
  obtain ⟨d, hd, rfl⟩ := mem_map.mp h
  rcases mem_intercalate hd with rfl | ⟨word, hword, hd⟩
  · exact .inl (by decide +kernel)
  · obtain ⟨hblank, hmem⟩ := mem_wordsFrom (by simp) hword hd
    exact .inr ⟨d, by simpa using hmem, hblank, rfl⟩

theorem isBlank_lowerChar (h : isBlank c = false) : isBlank (lowerChar c) = false := by
  rw [Bool.eq_false_iff]
  intro hblank
  rw [lowerChar_of_isSign (mem_signs_of_isBlank hblank), h] at hblank
  cases hblank

/-- A text that vanishes keeps its characters, in lower case. -/
theorem isSigns_dashed (hunderscore : '_' ∉ cs) (hvanishes : ∀ c ∈ cs, vanishes c)
    (hne : dashed cs ≠ []) : IsSigns (dashed cs) := by
  refine ⟨hne, fun c hc => ?_, fun hc => ?_, fun c hc => ?_, fun c hc => ?_⟩
  · rcases mem_dashed hc with rfl | ⟨d, -, hd, rfl⟩
    · rfl
    · exact isBlank_lowerChar hd
  · rcases mem_dashed hc with hdash | ⟨d, hd, -, hlower⟩
    · cases hdash
    · rw [lowerChar_of_isSign (by rw [hlower]; decide)] at hlower
      exact hunderscore (hlower ▸ hd)
  · rcases mem_dashed hc with rfl | ⟨d, -, -, rfl⟩
    · decide +kernel
    · exact lowerChar_lowerChar d
  · rcases mem_dashed hc with rfl | ⟨d, hd, -, rfl⟩
    · decide
    · exact vanishes_lowerChar (hvanishes d hd)

/-- **A normalised component** is empty, a slug, or made of characters without a plain spelling. -/
theorem component_cases (s : String) :
    (component s).toList = [] ∨ IsSlug (component s).toList ∨ IsSigns (component s).toList := by
  have hunderscore := underscore_not_mem_unscored s
  have htight : trim (unscored s) = unscored s := trim_eq_self_iff.mpr (tight_trim _)
  rw [component_eq, String.toList_ofList]
  split
  · rename_i hempty
    have hvanishes := make_eq_nil_iff.mp (isEmpty_iff.mp hempty)
    rw [htight] at hvanishes
    by_cases hne : dashed (unscored s) = []
    · exact .inl hne
    · exact .inr (.inr (isSigns_dashed hunderscore hvanishes hne))
  · rename_i hfull
    exact .inr (.inl (isSlug_make hunderscore (by simpa using hfull)))

theorem IsSlug.component_eq_self (h : IsSlug cs) :
    component (String.ofList cs) = String.ofList cs := by
  have hunderscore : '_' ∉ cs := by
    intro hmem
    cases h.letters _ hmem
  have hsame := unscored_eq_self hunderscore fun c hc => isBlank_of_isSlugLetter (h.letters c hc)
  rw [component_eq, hsame, h.make_eq_self, if_neg (by simpa using h.ne_nil)]

theorem IsSigns.component_eq_self (h : IsSigns cs) :
    component (String.ofList cs) = String.ofList cs := by
  have hnothing : make cs = [] := by
    rw [make_eq_nil_iff, trim_of_not_blank h.blank]
    exact h.vanishes
  have hwords : words cs = [cs] := wordsFrom_of_not_blank h.blank h.ne_nil
  have hdashed : dashed cs = cs := by
    rw [dashed, hwords, intercalate_singleton]
    conv_rhs => rw [← map_id cs]
    exact map_congr_left h.lower
  rw [component_eq, unscored_eq_self h.underscore h.blank, hnothing, hdashed]
  rfl

/-- **Normalising a component once is enough.** -/
theorem component_component (s : String) : component (component s) = component s := by
  have hsame : String.ofList (component s).toList = component s := String.ofList_toList
  rcases component_cases s with hempty | hslug | hsigns
  · rw [String.toList_eq_nil_iff.mp hempty]
    decide +kernel
  · rw [← hsame]
    exact hslug.component_eq_self
  · rw [← hsame]
    exact hsigns.component_eq_self

/-! ## Names -/

def IsComponent (cs : List Char) : Prop := IsSlug cs ∨ IsSigns cs

theorem IsComponent.ne_nil (h : IsComponent cs) : cs ≠ [] :=
  h.elim IsSlug.ne_nil IsSigns.ne_nil

theorem IsComponent.blank (h : IsComponent cs) : ∀ c ∈ cs, isBlank c = false := by
  rcases h with hslug | hsigns
  · exact fun c hc => isBlank_of_isSlugLetter (hslug.letters c hc)
  · exact hsigns.blank

/-- A slug has no point, and the letters of the extension do not vanish. -/
theorem IsComponent.not_extension_suffix (h : IsComponent cs) : ¬ extension.toList <:+ cs := by
  intro hending
  rcases h with hslug | hsigns
  · have hpoint := hslug.letters '.' (hending.subset (by decide))
    cases hpoint
  · have hletter := hsigns.vanishes 'q' (hending.subset (by decide))
    revert hletter
    decide

theorem slash_not_mem_component {s : String} (h : '/' ∉ s.toList) : '/' ∉ (component s).toList := by
  have hunscored : '/' ∉ unscored s := by
    intro hmem
    obtain ⟨c, hc, hslash⟩ := mem_map.mp (mem_of_mem_trim hmem)
    split at hslash
    · cases hslash
    · exact h (hslash ▸ hc)
  rw [component_eq, String.toList_ofList]
  split
  · intro hmem
    rcases mem_dashed hmem with hdash | ⟨c, hc, -, hlower⟩
    · cases hdash
    · rw [lowerChar_of_isSign (by rw [hlower]; decide)] at hlower
      exact hunscored (hlower ▸ hc)
  · rename_i hfull
    intro hmem
    have hslug := isSlug_make (underscore_not_mem_unscored s) (by simpa using hfull)
    cases hslug.letters _ hmem

def components (name : String) : List String :=
  let cs := trim name.toList
  ((splitOn ['/'] ((dropEnd? extension.toList cs).getD cs)).map fun p =>
    component (String.ofList p)).filter fun p => !p.isEmpty

theorem queryName_eq (name : String) : queryName name = "/".intercalate (components name) := rfl

theorem mem_components {name part : String} (h : part ∈ components name) :
    IsComponent part.toList ∧ '/' ∉ part.toList ∧ component part = part := by
  obtain ⟨hpart, hne⟩ := mem_filter.mp h
  obtain ⟨piece, hpiece, rfl⟩ := mem_map.mp hpart
  have hslash : '/' ∉ piece := by
    intro hmem
    exact not_infix_of_mem_splitOnCons '/' [] _ piece hpiece
      ((singleton_infix_iff '/' piece).mpr hmem)
  refine ⟨?_, slash_not_mem_component (by rwa [String.toList_ofList]), component_component _⟩
  rcases component_cases (String.ofList piece) with hempty | hfull
  · rw [String.toList_eq_nil_iff.mp hempty] at hne
    cases hne
  · exact hfull

/-- The components of a name that was normalised are its components. -/
theorem components_queryName (name : String) : components (queryName name) = components name := by
  have hparts : ∀ part ∈ components name,
      IsComponent part.toList ∧ '/' ∉ part.toList ∧ component part = part :=
    fun part => mem_components
  rw [queryName_eq]
  generalize components name = parts at hparts
  have hchars : ("/".intercalate parts).toList = ['/'].intercalate (parts.map String.toList) :=
    String.toList_intercalate
  have hblank : ∀ c ∈ ("/".intercalate parts).toList, isBlank c = false := by
    rw [hchars]
    intro c hc
    rcases mem_intercalate hc with rfl | ⟨text, htext, hc⟩
    · rfl
    · obtain ⟨part, hpart, rfl⟩ := mem_map.mp htext
      exact (hparts part hpart).1.blank c hc
  have hending : ¬ extension.toList <:+ ("/".intercalate parts).toList := by
    rw [hchars]
    intro hending
    obtain ⟨text, htext, hending⟩ :=
      suffix_of_suffix_intercalate (by decide) (by decide) hending
    obtain ⟨part, hpart, rfl⟩ := mem_map.mp htext
    exact (hparts part hpart).1.not_extension_suffix hending
  have hbare : dropEnd? extension.toList ("/".intercalate parts).toList = none := by
    rw [dropEnd?, if_neg]
    rwa [isSuffixOf_iff_suffix]
  rw [components, trim_of_not_blank hblank, hbare, Option.getD_none, hchars]
  by_cases hne : parts = []
  · rw [hne]
    decide +kernel
  rw [Text.splitOn_intercalate (by simpa using hne), map_map]
  · have hsame :
        (parts.map ((fun p => component (String.ofList p)) ∘ String.toList)) = parts := by
      conv_rhs => rw [← map_id parts]
      refine map_congr_left fun part hpart => ?_
      rw [Function.comp_apply, String.ofList_toList, (hparts part hpart).2.2, id_eq]
    rw [hsame, filter_eq_self]
    intro part hpart
    have hfull := (hparts part hpart).1.ne_nil
    simpa using hfull
  · intro text htext
    obtain ⟨part, hpart, rfl⟩ := mem_map.mp htext
    exact (hparts part hpart).2.1

/-- **Normalising a name once is enough.** -/
theorem queryName_queryName (name : String) : queryName (queryName name) = queryName name := by
  rw [queryName_eq (queryName name), components_queryName, ← queryName_eq]

end TreeQuery.Slug

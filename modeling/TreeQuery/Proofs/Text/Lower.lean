import TreeQuery.Text.Blank
import TreeQuery.Text.Lower

/-!
# Lower case is a normal form

The lower case of a character is no capital (`isSmall_lowerChar`), so taking it twice is taking it
once (`lowerChar_lowerChar`).  And it is no blank and none of the signs that divide names, unless
the character was one itself (`lowerChar_of_isSign`).

The table of capitals is looked at run by run: the small letters of a run lie between two codes,
and no run of capitals meets them (`Capitals.isApart`).
-/

namespace TreeQuery.Text

open List

/-! ## Runs of capitals -/

/-- A run of capitals: the first and the last, the step between them and the way to the small
letters. -/
abbrev Capitals := Nat × Nat × Nat × Int

/-- Blanks, and the signs that have a meaning in names. -/
def signs : List Nat :=
  [9, 10, 11, 12, 13, 0x20, 0x85, 0xA0, 0x1680, 0x2000, 0x2001, 0x2002, 0x2003, 0x2004, 0x2005,
    0x2006, 0x2007, 0x2008, 0x2009, 0x200A, 0x2028, 0x2029, 0x202F, 0x205F, 0x3000] ++
  ['_', '/', '&', '@', '"', '\'', '’', '‒', '–', '—', '―'].map Char.toNat

theorem mem_signs_of_isBlank {c : Char} (h : isBlank c) : c.toNat ∈ signs := by
  have hcontrols : ∀ n ∈ range 5, 9 + n ∈ signs := by decide
  have hspaces : ∀ n ∈ range 11, 0x2000 + n ∈ signs := by decide
  simp only [isBlank, Bool.or_eq_true, Bool.and_eq_true, decide_eq_true_eq, beq_iff_eq] at h
  rcases h with (((((((((h | h) | h) | h) | h) | h) | h) | h) | h) | h) | h
  · obtain ⟨k, hk⟩ := Nat.exists_eq_add_of_le h.1
    rw [hk]
    exact hcontrols k (mem_range.mpr (by omega))
  iterate 4 (rw [h]; decide)
  · obtain ⟨k, hk⟩ := Nat.exists_eq_add_of_le h.1
    rw [hk]
    exact hspaces k (mem_range.mpr (by omega))
  all_goals
    rw [h]
    decide

namespace Capitals

/-- Whether a code belongs to the run. -/
def has (r : Capitals) (n : Nat) : Bool :=
  r.1 ≤ n && n ≤ r.2.1 && (n - r.1) % r.2.2.1 == 0

/-- The small letter of the first capital. -/
def small (r : Capitals) : Nat := ((r.1 : Int) + r.2.2.2).toNat

/-- The small letters of a run are characters, and none of them is a sign. -/
def isSound (r : Capitals) : Bool :=
  decide (0 ≤ (r.1 : Int) + r.2.2.2) &&
    (Nat.blt (r.small + (r.2.1 - r.1)) 0xD800 ||
      (Nat.ble 0xE000 r.small && Nat.blt (r.small + (r.2.1 - r.1)) 0x110000)) &&
    signs.all fun k => Nat.blt k r.small || Nat.blt (r.small + (r.2.1 - r.1)) k

/-- The small letters of one run are no capitals of another: they lie below or above them, or
between two of them. -/
def isApart (r s : Capitals) : Bool :=
  Nat.blt (r.small + (r.2.1 - r.1)) s.1 || Nat.blt s.2.1 r.small ||
    (Nat.beq s.2.2.1 2 && (Nat.beq r.2.2.1 2 || Nat.beq r.1 r.2.1) &&
      Nat.beq ((r.small + s.1) % 2) 1)

theorem isSound_of_mem {r : Capitals} (h : r ∈ lowerRuns) : r.isSound := by
  have hall : (lowerRuns.all fun r => Capitals.isSound r) = true := by decide +kernel
  exact all_eq_true.mp hall r h

theorem isApart_of_mem {r s : Capitals} (hr : r ∈ lowerRuns) (hs : s ∈ lowerRuns) :
    r.isApart s := by
  have hall : (lowerRuns.all fun r => lowerRuns.all fun s => Capitals.isApart r s) = true := by
    decide +kernel
  exact all_eq_true.mp (all_eq_true.mp hall r hr) s hs

/-- **The small letter of a capital** is as far from the first one as the capital is. -/
theorem toNat_lower {r : Capitals} (hr : r ∈ lowerRuns) {n : Nat} (h : r.has n) :
    ∃ i, (Char.ofNat ((n : Int) + r.2.2.2).toNat).toNat = r.small + i ∧ i ≤ r.2.1 - r.1 ∧
      i % r.2.2.1 = 0 := by
  have hsound := isSound_of_mem hr
  simp only [has, isSound, Bool.and_eq_true, Bool.or_eq_true, decide_eq_true_eq, beq_iff_eq,
    Nat.blt_eq, Nat.ble_eq] at h hsound
  obtain ⟨⟨hnat, hrange⟩, -⟩ := hsound
  have hcode : ((n : Int) + r.2.2.2).toNat = r.small + (n - r.1) := by
    unfold small
    omega
  have hvalid : (r.small + (n - r.1)).isValidChar := by
    unfold Nat.isValidChar
    omega
  refine ⟨n - r.1, ?_, by omega, h.2⟩
  rw [hcode, Char.ofNat, dif_pos hvalid]
  rfl

theorem has_small_add {r s : Capitals} (h : r.isApart s) {i : Nat}
    (hi : i ≤ r.2.1 - r.1) (hstep : i % r.2.2.1 = 0) : s.has (r.small + i) = false := by
  rw [Bool.eq_false_iff]
  intro hhas
  simp only [has, isApart, Bool.and_eq_true, Bool.or_eq_true, decide_eq_true_eq, beq_iff_eq,
    Nat.blt_eq, Nat.beq_eq] at h hhas
  rcases h with (h | h) | ⟨⟨hs, hr | hr⟩, hodd⟩
  · omega
  · omega
  · rw [hr] at hstep
    rw [hs] at hhas
    omega
  · rw [hs] at hhas
    omega

end Capitals

/-! ## Small letters -/

def IsSmall (c : Char) : Prop := ∀ r ∈ lowerRuns, Capitals.has r c.toNat = false

theorem lowerChar_of_isSmall {c : Char} (h : IsSmall c) : lowerChar c = c := by
  unfold lowerChar
  split
  · have hupper := h (0x41, 0x5A, 1, 32) (by decide)
    delta Char.toLower
    rw [dif_neg]
    rintro ⟨hlow, hhigh⟩
    simp only [Capitals.has, Bool.and_eq_false_iff, decide_eq_false_iff_not, beq_eq_false_iff_ne,
      Nat.mod_one, ne_eq, not_true, or_false] at hupper
    have hlow' : 0x41 ≤ c.toNat := hlow
    have hhigh' : c.toNat ≤ 0x5A := hhigh
    omega
  · have hnone : lowerRuns.find? (fun r => Capitals.has r c.toNat) = none :=
      find?_eq_none.mpr fun r hr => by simp [h r hr]
    dsimp only
    split
    · rename_i hfound
      cases hnone.symm.trans hfound
    · rfl

/-- The small letter of an ASCII capital. -/
theorem toNat_toLower {c : Char} (hlow : 0x41 ≤ c.toNat) (hhigh : c.toNat ≤ 0x5A) :
    c.toLower.toNat = c.toNat + 32 := by
  have hcapital : c.val ≥ 'A'.val ∧ c.val ≤ 'Z'.val := ⟨hlow, hhigh⟩
  have hnowrap : c.val.toNat ≤ 0x5A := hhigh
  delta Char.toLower
  rw [dif_pos hcapital]
  show (c.val + 32).toNat = c.val.toNat + 32
  rw [UInt32.toNat_add]
  exact Nat.mod_eq_of_lt (by simp; omega)

/-- **What the lower case of a character is**: itself, if it is no capital, and otherwise a letter
of the run that belongs to it. -/
theorem lowerChar_cases (c : Char) :
    (IsSmall c ∧ lowerChar c = c) ∨
      ∃ r ∈ lowerRuns, ∃ i, (lowerChar c).toNat = Capitals.small r + i ∧ i ≤ r.2.1 - r.1 ∧
        i % r.2.2.1 = 0 := by
  by_cases hsmall : IsSmall c
  · exact .inl ⟨hsmall, lowerChar_of_isSmall hsmall⟩
  refine .inr ?_
  obtain ⟨r, hmem⟩ := Classical.not_forall.mp hsmall
  obtain ⟨hr, hhas⟩ := Classical.not_imp.mp hmem
  rw [Bool.not_eq_false] at hhas
  unfold lowerChar
  split
  · rename_i hascii
    have hfirst : ∀ r ∈ lowerRuns, r.1 < 128 → r = (0x41, 0x5A, 1, 32) := by
      decide +kernel
    simp only [Capitals.has, Bool.and_eq_true, decide_eq_true_eq] at hhas
    obtain rfl := hfirst r hr (by omega)
    refine ⟨_, hr, c.toNat - 0x41, ?_, by omega, Nat.mod_one _⟩
    rw [toNat_toLower hhas.1.1 hhas.1.2]
    have hstart : Capitals.small (0x41, 0x5A, 1, 32) = 0x61 := by decide
    omega
  · dsimp only
    split
    · rename_i a b step shift hfound
      have hmem := mem_of_find?_eq_some hfound
      have hrun := find?_some hfound
      exact ⟨_, hmem, Capitals.toNat_lower hmem hrun⟩
    · rename_i hnone
      exact absurd hhas (find?_eq_none.mp hnone r hr)

theorem isSmall_lowerChar (c : Char) : IsSmall (lowerChar c) := by
  rcases lowerChar_cases c with ⟨hsmall, heq⟩ | ⟨r, hr, i, hcode, hi, hstep⟩
  · rwa [heq]
  · intro s hs
    rw [hcode]
    exact Capitals.has_small_add (Capitals.isApart_of_mem hr hs) hi hstep

/-- **Lower case is a normal form.** -/
theorem lowerChar_lowerChar (c : Char) : lowerChar (lowerChar c) = lowerChar c :=
  lowerChar_of_isSmall (isSmall_lowerChar c)

/-- **Signs have no capitals.** -/
theorem lowerChar_of_isSign {c : Char} (h : (lowerChar c).toNat ∈ signs) : lowerChar c = c := by
  rcases lowerChar_cases c with ⟨-, heq⟩ | ⟨r, hr, i, hcode, hi, -⟩
  · exact heq
  have hsound := Capitals.isSound_of_mem hr
  simp only [Capitals.isSound, Bool.and_eq_true, all_eq_true, Bool.or_eq_true,
    Nat.blt_eq] at hsound
  have hsign := hsound.2 _ h
  omega

end TreeQuery.Text

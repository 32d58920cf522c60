import TreeQuery.Number.Shortest

/-!
# The digits of a number

A positive double precision number is written with digits of which the first is no zero
(`isNormal_shortest`).  Digits that read back as the number cannot be those of zero.  If no grid had
a neighbour that reads back, the last grid would be taken unchecked; there the number has a
neighbour other than zero as well (`neighbours_ne_zero`), because the point is guessed well enough:
the guess is made from the binary logarithm, and its error is checked for all exponents that
doubles have (`ten_pow_le_two_pow`).
-/

namespace TreeQuery

open List

namespace Decimal

/-- **The first digit is no zero.** -/
structure IsNormal (d : Decimal) : Prop where
  isDigit : ∀ c ∈ d.digits, c.isDigit = true
  head : ∃ c cs, d.digits = c :: cs ∧ c ≠ '0'

/-! ## Digits of natural numbers -/

variable {n num den m : Nat} {e : Int}

theorem toDigits_eq_cons (h : n ≠ 0) :
    ∃ c cs, Nat.toDigits 10 n = c :: cs ∧ c ≠ '0' := by
  induction n using Nat.strongRecOn with
  | ind n ih =>
    by_cases hlt : n < 10
    · refine ⟨_, [], Nat.toDigits_of_lt_base hlt, ?_⟩
      have hdigits : ∀ n, n < 10 → n ≠ 0 → Nat.digitChar n ≠ '0' := by decide
      exact hdigits n hlt h
    · obtain ⟨c, cs, hdigits, hc⟩ := ih (n / 10) (by omega) (by omega)
      refine ⟨c, cs ++ [Nat.digitChar (n % 10)], ?_, hc⟩
      rw [Nat.toDigits_of_base_le (by decide) (by omega), hdigits, cons_append]

theorem dropZeros_cons {c : Char} (h : c ≠ '0') (cs : List Char) :
    ∃ ds, dropZeros (c :: cs) = c :: ds ∧ ds <+: cs := by
  have hc : (c == '0') = false := by simpa using h
  refine ⟨(cs.reverse.dropWhile (· == '0')).reverse, ?_, ?_⟩
  · rw [dropZeros, reverse_cons, dropWhile_append,
      dropWhile_cons_of_neg (by simpa using h)]
    split
    · rename_i hempty
      rw [isEmpty_iff.mp hempty]
      rfl
    · rw [reverse_append]
      rfl
  · have hsuffix := dropWhile_suffix (l := cs.reverse) (· == '0')
    simpa using List.reverse_prefix.mpr hsuffix

theorem isNormal_ofScaled (h : n ≠ 0) (scale : Int) : (ofScaled n scale).IsNormal := by
  obtain ⟨c, cs, hdigits, hc⟩ := toDigits_eq_cons h
  obtain ⟨ds, hdrop, hprefix⟩ := dropZeros_cons hc cs
  have heq : (ofScaled n scale).digits = c :: ds := by
    rw [ofScaled, hdigits, hdrop]
  refine ⟨fun d hd => ?_, c, ds, heq, hc⟩
  have hmem : d ∈ Nat.toDigits 10 n := by
    rw [heq] at hd
    rw [hdigits]
    exact cons_subset_cons c hprefix.subset hd
  exact Nat.isDigit_of_mem_toDigits (by decide) (by decide) hmem

/-! ## The last grid -/

/-- `base ^ a` is at most the quotient. -/
def PowerBelow (base num den : Nat) (a : Int) : Prop :=
  den * Nat.pow base a.toNat ≤ num * Nat.pow base (-a).toNat

theorem mul_le_mul_of_cross {x y w z : Nat} (hw : 0 < w) (hcross : x * w ≤ y * z)
    (h : den * y ≤ num * w) : den * x ≤ num * z := by
  refine Nat.le_of_mul_le_mul_right ?_ hw
  calc den * x * w = den * (x * w) := Nat.mul_assoc den x w
    _ ≤ den * (y * z) := Nat.mul_le_mul_left den hcross
    _ = den * y * z := (Nat.mul_assoc den y z).symm
    _ ≤ num * w * z := Nat.mul_le_mul_right z h
    _ = num * z * w := Nat.mul_right_comm num w z

theorem PowerBelow.mono {a b : Int} (h : PowerBelow 10 num den a) (hba : b ≤ a) :
    PowerBelow 10 num den b := by
  refine mul_le_mul_of_cross (Nat.pow_pos (by decide)) ?_ h
  simp only [Nat.pow_eq, ← Nat.pow_add]
  exact Nat.pow_le_pow_right (by decide) (by omega)

/-- A power of ten and a power of two compared: the guess of the point is at most 16 too high, for
all exponents that doubles have. -/
theorem ten_pow_le_two_pow {g : Int} (hlow : -1100 ≤ g) (hhigh : g < 1100) :
    Nat.pow 10 (g * 30103 / 100000 - 16).toNat * Nat.pow 2 (-(g - 2)).toNat ≤
      Nat.pow 2 (g - 2).toNat * Nat.pow 10 (-(g * 30103 / 100000 - 16)).toNat := by
  have hall : ∀ i ∈ range 2200,
      Nat.pow 10 (((i : Int) - 1100) * 30103 / 100000 - 16).toNat *
          Nat.pow 2 (-((i : Int) - 1100 - 2)).toNat ≤
        Nat.pow 2 ((i : Int) - 1100 - 2).toNat *
          Nat.pow 10 (-(((i : Int) - 1100) * 30103 / 100000 - 16)).toNat := by
    decide +kernel
  have hg : ((g + 1100).toNat : Int) - 1100 = g := by omega
  have hmem : (g + 1100).toNat ∈ range 2200 := by
    rw [mem_range]
    omega
  have hcase := hall _ hmem
  rwa [hg] at hcase

/-- The binary logarithms give a power of two below the quotient. -/
theorem powerBelow_log2 (hnum : num ≠ 0) :
    PowerBelow 2 num den ((Nat.log2 num : Int) - Nat.log2 den + 1 - 2) := by
  have hlow : Nat.pow 2 (Nat.log2 num) ≤ num := Nat.log2_self_le hnum
  have hhigh : den < Nat.pow 2 (Nat.log2 den + 1) := Nat.lt_log2_self
  generalize Nat.log2 num = n at *
  generalize Nat.log2 den = d at *
  unfold PowerBelow
  by_cases h : d + 1 ≤ n
  · have hpos : ((n : Int) - d + 1 - 2).toNat = n - (d + 1) := by omega
    have hneg : (-((n : Int) - d + 1 - 2)).toNat = 0 := by omega
    rw [hpos, hneg]
    calc den * Nat.pow 2 (n - (d + 1))
        ≤ Nat.pow 2 (d + 1) * Nat.pow 2 (n - (d + 1)) := Nat.mul_le_mul_right _ (Nat.le_of_lt hhigh)
      _ = Nat.pow 2 n := by
        rw [Nat.pow_eq, Nat.pow_eq, Nat.pow_eq, ← Nat.pow_add, Nat.add_sub_cancel' h]
      _ ≤ num * Nat.pow 2 0 := by simpa using hlow
  · have hpos : ((n : Int) - d + 1 - 2).toNat = 0 := by omega
    have hneg : (-((n : Int) - d + 1 - 2)).toNat = d + 1 - n := by omega
    rw [hpos, hneg]
    calc den * Nat.pow 2 0 ≤ Nat.pow 2 (d + 1) := by simpa using Nat.le_of_lt hhigh
      _ = Nat.pow 2 n * Nat.pow 2 (d + 1 - n) := by
        rw [Nat.pow_eq, Nat.pow_eq, Nat.pow_eq, ← Nat.pow_add, Nat.add_sub_cancel' (by omega)]
      _ ≤ num * Nat.pow 2 (d + 1 - n) := Nat.mul_le_mul_right _ hlow

theorem pointFrom_le (num den fuel : Nat) (p : Int) : pointFrom num den fuel p ≤ p := by
  induction fuel generalizing p with
  | zero => exact Int.le_refl p
  | succ fuel ih =>
    have hstep : pointFrom num den fuel (p - 1) ≤ p := by
      have hbelow := ih (p - 1)
      omega
    have heither : ∀ (below : Prop) [Decidable below],
        (if below then pointFrom num den fuel (p - 1) else p) ≤ p := by
      intro below _
      split
      · exact hstep
      · exact Int.le_refl p
    exact heither _

/-- A neighbour on a grid that is no coarser than the number is not zero. -/
theorem neighbours_ne_zero {scale : Int} (hden : 0 < den)
    (h : PowerBelow 10 num den scale) : (neighbours num den scale).headD 0 ≠ 0 := by
  have hlow : ∀ {n d : Nat}, 0 < d → d ≤ n → n / d ≠ 0 := by
    intro n d hd hle
    exact Nat.ne_of_gt (Nat.div_pos hle hd)
  have hhead : ∀ {n d : Nat}, 0 < d → d ≤ n →
      (if n % d = 0 then [n / d]
        else if 2 * (n % d) < d ∨ (2 * (n % d) = d ∧ n / d % 2 = 0) then [n / d, n / d + 1]
        else [n / d + 1, n / d]).headD 0 ≠ 0 := by
    intro n d hd hle
    split
    · exact hlow hd hle
    · split
      · exact hlow hd hle
      · exact Nat.succ_ne_zero _
  unfold PowerBelow at h
  unfold neighbours
  by_cases hscale : 0 ≤ scale
  · have hneg : (-scale).toNat = 0 := by omega
    rw [hneg, show Nat.pow 10 0 = 1 from rfl, Nat.mul_one] at h
    rw [if_pos hscale]
    exact hhead (Nat.mul_pos hden (Nat.pow_pos (by decide))) h
  · have hpos : scale.toNat = 0 := by omega
    rw [hpos, show Nat.pow 10 0 = 1 from rfl, Nat.mul_one] at h
    rw [if_neg hscale]
    exact hhead hden h

/-! ## The search -/

theorem isNormal_search {point : Int} (hm : m ≠ 0) {fuel : Nat}
    (hlast : (neighbours num den (point - (n + fuel : Nat))).headD 0 ≠ 0) :
    (search (.finite false m e) num den point fuel n).IsNormal := by
  induction fuel generalizing n with
  | zero => exact isNormal_ofScaled hlast _
  | succ fuel ih =>
    unfold search
    dsimp only
    split
    · rename_i d hfind
      refine isNormal_ofScaled ?_ _
      -- zero does not read back as a positive number
      rintro rfl
      have hreads := find?_some hfind
      have hzero : Double.ofDecimal false 0 (point - n) =
          .finite false 0 Double.leastExponent := rfl
      rw [hzero, beq_iff_eq] at hreads
      cases hreads
      exact hm rfl
    · refine ih ?_
      rwa [show n + 1 + fuel = n + (fuel + 1) by omega]

/-- The parts of the quotient are of a size that the guess is good for. -/
theorem ratio_spec (hm : m ≠ 0) (hbinary : m < Nat.pow 2 53)
    (hlow : Double.leastExponent ≤ e) (hhigh : e ≤ Double.greatestExponent) :
    ∃ num den, ratio m e = (num, den) ∧ num ≠ 0 ∧ 0 < den ∧
      Nat.log2 num < 1024 ∧ Nat.log2 den < 1075 := by
  unfold Double.leastExponent at hlow
  unfold Double.greatestExponent at hhigh
  have hpow : ∀ k, 0 < Nat.pow 2 k := fun k => Nat.pow_pos (by decide)
  have hlog : ∀ {n a k : Nat}, n ≠ 0 → n < 2 ^ a → a ≤ k → Nat.log2 n < k := by
    intro n a k hn hlt hak
    exact (Nat.log2_lt hn).mpr (Nat.lt_of_lt_of_le hlt (Nat.pow_le_pow_right (by decide) hak))
  by_cases he : 0 ≤ e
  · have hnum : m * Nat.pow 2 e.toNat ≠ 0 := Nat.mul_ne_zero hm (Nat.ne_of_gt (hpow _))
    refine ⟨m * Nat.pow 2 e.toNat, 1, if_pos he, hnum, Nat.one_pos, ?_, by decide⟩
    have hlt : m * Nat.pow 2 e.toNat < 2 ^ (53 + e.toNat) :=
      calc m * Nat.pow 2 e.toNat < Nat.pow 2 53 * Nat.pow 2 e.toNat :=
            Nat.mul_lt_mul_of_pos_right hbinary (hpow _)
        _ = 2 ^ (53 + e.toNat) := (Nat.pow_add 2 53 e.toNat).symm
    exact hlog hnum hlt (by omega)
  · refine ⟨m, Nat.pow 2 (-e).toNat, if_neg he, hm, hpow _, ?_, ?_⟩
    · exact hlog hm hbinary (by decide)
    · exact hlog (Nat.ne_of_gt (hpow _)) (Nat.pow_lt_pow_right (by decide) (Nat.lt_succ_self _))
        (by omega)

/-- **The digits of a positive double precision number start with a digit other than zero.** -/
theorem isNormal_shortest (hm : m ≠ 0) (hbinary : m < Nat.pow 2 53)
    (hlow : Double.leastExponent ≤ e) (hhigh : e ≤ Double.greatestExponent) :
    (shortest m e).IsNormal := by
  obtain ⟨num, den, hratio, hnum, hden, hlognum, hlogden⟩ := ratio_spec hm hbinary hlow hhigh
  rw [shortest, if_neg hm, hratio]
  refine isNormal_search hm (neighbours_ne_zero hden ?_)
  have hguess : PowerBelow 10 num den
      (((Nat.log2 num : Int) - Nat.log2 den + 1) * 30103 / 100000 - 16) :=
    mul_le_mul_of_cross (Nat.pow_pos (by decide)) (ten_pow_le_two_pow (by omega) (by omega))
      (powerBelow_log2 hnum)
  have hpoint := pointFrom_le num den 6
    (((Nat.log2 num : Int) - Nat.log2 den + 1) * 30103 / 100000 + 2)
  exact hguess.mono (by omega)

end Decimal
end TreeQuery

import TreeQuery.Number.Double

/-!
# Rounding gives doubles

What is rounded has the parts of a double precision number (`isBinary_ofRatio`).  The binary
logarithms bound the quotient by a power of two, so the mantissa has at most 53 bits before it is
rounded; rounded up to `2 ^ 53` it moves to the next exponent.
-/

namespace TreeQuery.Double

/-- **Whether the parts are those of a double precision number.** -/
def isBinary : Double → Bool
  | .finite _ mantissa exponent =>
    mantissa < Nat.pow 2 53 && leastExponent ≤ exponent && exponent ≤ greatestExponent
  | _ => true

theorem isBinary_zero (negative : Bool) : (finite negative 0 leastExponent).isBinary := by
  decide +revert

theorem roundDiv_le {num den b : Nat} (h : num < den * b) : roundDiv num den ≤ b := by
  have hlt : num / den < b := Nat.div_lt_of_lt_mul h
  unfold roundDiv
  dsimp only
  split
  · omega
  · split <;> omega

/-! ## Comparing with powers of two

One of the powers `2 ^ e` and `2 ^ (-e)`, cut off at one, is one: comparisons are written with both,
whatever the sign of the exponent.
-/

theorem ratioBelow_iff {num den : Nat} {e : Int} :
    ratioBelow num den e ↔ num * Nat.pow 2 (-e).toNat < den * Nat.pow 2 e.toNat := by
  unfold ratioBelow
  by_cases he : 0 ≤ e
  · have hneg : (-e).toNat = 0 := by omega
    rw [if_pos he, hneg, decide_eq_true_eq, show Nat.pow 2 0 = 1 from rfl, Nat.mul_one]
  · have hpos : e.toNat = 0 := by omega
    rw [if_neg he, hpos, decide_eq_true_eq, show Nat.pow 2 0 = 1 from rfl, Nat.mul_one]

theorem scaledRound_eq (num den : Nat) (e : Int) :
    scaledRound num den e = roundDiv (num * Nat.pow 2 (-e).toNat) (den * Nat.pow 2 e.toNat) := by
  unfold scaledRound
  by_cases he : 0 ≤ e
  · have hneg : (-e).toNat = 0 := by omega
    rw [if_pos he, hneg, show Nat.pow 2 0 = 1 from rfl, Nat.mul_one]
  · have hpos : e.toNat = 0 := by omega
    rw [if_neg he, hpos, show Nat.pow 2 0 = 1 from rfl, Nat.mul_one]

/-- The binary logarithms give a power of two above the quotient. -/
theorem ratioBelow_log2 {num den : Nat} (hden : den ≠ 0) :
    ratioBelow num den ((Nat.log2 num : Int) - Nat.log2 den + 1) := by
  have hnum : num < Nat.pow 2 (Nat.log2 num + 1) := Nat.lt_log2_self
  have hden : Nat.pow 2 (Nat.log2 den) ≤ den := Nat.log2_self_le hden
  rw [ratioBelow_iff]
  generalize Nat.log2 num = n at *
  generalize Nat.log2 den = d at *
  generalize hg : (n : Int) - d + 1 = g
  have hexponents : n + 1 + (-g).toNat = d + g.toNat := by omega
  calc num * Nat.pow 2 (-g).toNat
      < Nat.pow 2 (n + 1) * Nat.pow 2 (-g).toNat :=
        Nat.mul_lt_mul_of_pos_right hnum (Nat.pow_pos (by decide))
    _ = Nat.pow 2 (n + 1 + (-g).toNat) := (Nat.pow_add 2 _ _).symm
    _ = Nat.pow 2 (d + g.toNat) := by rw [hexponents]
    _ = Nat.pow 2 d * Nat.pow 2 g.toNat := Nat.pow_add 2 _ _
    _ ≤ den * Nat.pow 2 g.toNat := Nat.mul_le_mul_right _ hden

/-- A quotient below `2 ^ top` gives a mantissa of 53 bits, before it is rounded. -/
theorem scaledRound_le {num den : Nat} {top e : Int} (h : ratioBelow num den top)
    (he : top - 53 ≤ e) : scaledRound num den e ≤ Nat.pow 2 53 := by
  rw [ratioBelow_iff] at h
  rw [scaledRound_eq]
  refine roundDiv_le (Nat.lt_of_mul_lt_mul_right (a := Nat.pow 2 (-top).toNat) ?_)
  have hexponents : top.toNat + (-e).toNat ≤ e.toNat + 53 + (-top).toNat := by omega
  calc num * Nat.pow 2 (-e).toNat * Nat.pow 2 (-top).toNat
      = num * Nat.pow 2 (-top).toNat * Nat.pow 2 (-e).toNat := Nat.mul_right_comm ..
    _ < den * Nat.pow 2 top.toNat * Nat.pow 2 (-e).toNat :=
        Nat.mul_lt_mul_of_pos_right h (Nat.pow_pos (by decide))
    _ = den * Nat.pow 2 (top.toNat + (-e).toNat) := by
        rw [Nat.mul_assoc]
        exact congrArg (den * ·) (Nat.pow_add 2 _ _).symm
    _ ≤ den * Nat.pow 2 (e.toNat + 53 + (-top).toNat) :=
        Nat.mul_le_mul_left _ (Nat.pow_le_pow_right (by decide) hexponents)
    _ = den * (Nat.pow 2 e.toNat * Nat.pow 2 53 * Nat.pow 2 (-top).toNat) := by
        simp only [Nat.pow_eq, Nat.pow_add]
    _ = den * Nat.pow 2 e.toNat * Nat.pow 2 53 * Nat.pow 2 (-top).toNat := by
        rw [← Nat.mul_assoc, ← Nat.mul_assoc]

/-! ## Rounding -/

/-- **Rounding a quotient gives a double precision number.** -/
theorem isBinary_ofRatio (negative : Bool) (num : Nat) {den : Nat} (hden : den ≠ 0) :
    (ofRatio negative num den).isBinary := by
  unfold ofRatio
  split
  · exact isBinary_zero negative
  dsimp only
  generalize htop : (if ratioBelow num den ((Nat.log2 num : Int) - Nat.log2 den) = true then
    (Nat.log2 num : Int) - Nat.log2 den else (Nat.log2 num : Int) - Nat.log2 den + 1) = top
  have hbelow : ratioBelow num den top = true := by
    rw [← htop]
    split
    · assumption
    · exact ratioBelow_log2 hden
  have hmantissa := scaledRound_le (e := max (top - 53) leastExponent) hbelow (Int.le_max_left ..)
  have hleast : leastExponent ≤ max (top - 53) leastExponent := Int.le_max_right ..
  generalize max (top - 53) leastExponent = e at hmantissa hleast ⊢
  generalize scaledRound num den e = m at hmantissa ⊢
  by_cases hm : m = Nat.pow 2 53
  · rw [if_pos hm]
    dsimp only
    split
    · rfl
    · rename_i hgreatest
      simp only [isBinary, Bool.and_eq_true, decide_eq_true_eq]
      exact ⟨⟨by decide, by omega⟩, by omega⟩
  · rw [if_neg hm]
    dsimp only
    split
    · rfl
    · rename_i hgreatest
      simp only [isBinary, Bool.and_eq_true, decide_eq_true_eq]
      exact ⟨⟨Nat.lt_of_le_of_ne hmantissa hm, hleast⟩, by omega⟩

/-- **A number written with decimal digits is rounded to a double precision number.** -/
theorem isBinary_ofDecimal (negative : Bool) (digits : Nat) (exponent : Int) :
    (ofDecimal negative digits exponent).isBinary := by
  unfold ofDecimal
  split
  · exact isBinary_zero negative
  split
  · rfl
  split
  · exact isBinary_zero negative
  · split
    · exact isBinary_ofRatio negative _ Nat.one_ne_zero
    · exact isBinary_ofRatio negative _ (Nat.ne_of_gt (Nat.pow_pos (by decide)))

end TreeQuery.Double

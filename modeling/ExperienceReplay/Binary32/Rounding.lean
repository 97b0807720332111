/-!
Rounding of a quotient of naturals to a number of significant bits, to nearest with ties to even.
Main statement: the result fits the number of bits asked for.
-/

-- The power of a natural number is the one of the core library, whatever a module imports besides.
attribute [instance (high), default_instance (high + 1)] instPowNat

namespace ExperienceReplay.Rounding

/-- The integer nearest to `num / den`; an exact half goes to the even neighbour. -/
def nearestQuotient (num den : Nat) : Nat :=
  let quotient := num / den
  let remainder := num % den
  if 2 * remainder < den then quotient
  else if den < 2 * remainder then quotient + 1
  else quotient + quotient % 2

/-- Numbers with `bits` significant bits around `num / den` are spaced by two to this power. -/
def gridExponent (bits num den : Nat) : Nat := (num / den).log2 + 1 - bits

def toBits (bits num den : Nat) : Nat :=
  let spacing := 2 ^ gridExponent bits num den
  nearestQuotient num (den * spacing) * spacing

/-- A natural number whose binary digits beyond the leading `bits` are zero. -/
def Fits (bits n : Nat) : Prop := 2 ^ (n.log2 + 1 - bits) ∣ n

instance (bits n : Nat) : Decidable (Fits bits n) :=
  inferInstanceAs (Decidable (_ ∣ _))

theorem nearestQuotient_le (num den : Nat) : nearestQuotient num den ≤ num / den + 1 := by
  simp only [nearestQuotient]
  split
  · omega
  · split <;> omega

theorem fits_mul_two_pow {bits q s : Nat} (positive : 0 < bits) (h : q ≤ 2 ^ bits) :
    Fits bits (q * 2 ^ s) := by
  unfold Fits
  rcases Nat.eq_zero_or_pos q with rfl | hq
  · simp
  have hpos : q * 2 ^ s ≠ 0 := Nat.mul_ne_zero (by omega) (by simp)
  rcases Nat.lt_or_eq_of_le h with hlt | rfl
  · have hlog : (q * 2 ^ s).log2 < bits + s := by
      rw [Nat.log2_lt hpos, Nat.pow_add]
      exact Nat.mul_lt_mul_of_pos_right hlt (Nat.two_pow_pos s)
    exact Nat.dvd_trans (Nat.pow_dvd_pow 2 (by omega)) (Nat.dvd_mul_left _ _)
  · rw [← Nat.pow_add, Nat.log2_two_pow]
    exact Nat.pow_dvd_pow 2 (by omega)

theorem nearestQuotient_grid_le (bits num den : Nat) :
    nearestQuotient num (den * 2 ^ gridExponent bits num den) ≤ 2 ^ bits := by
  have hlog : num / den < 2 ^ (bits + gridExponent bits num den) :=
    Nat.lt_of_lt_of_le Nat.lt_log2_self
      (Nat.pow_le_pow_right (by omega) (by unfold gridExponent; omega))
  apply Nat.le_trans (nearestQuotient_le _ _)
  rw [← Nat.div_div_eq_div_mul, Nat.succ_le_iff, Nat.div_lt_iff_lt_mul (Nat.two_pow_pos _),
    ← Nat.pow_add]
  exact hlog

theorem fits_toBits {bits : Nat} (positive : 0 < bits) (num den : Nat) :
    Fits bits (toBits bits num den) :=
  fits_mul_two_pow positive (nearestQuotient_grid_le bits num den)

end ExperienceReplay.Rounding

import ExperienceReplay.Binary32.Rounding
import Mathlib.Tactic.Linarith
import Mathlib.Tactic.Ring

/-!
Laws of rounding to nearest. Main statements: rounding is monotone in the quotient, and a quotient
that has no more bits than asked for is its own rounding.
-/

namespace ExperienceReplay.Rounding

theorem div_le_nearestQuotient (num den : Nat) : num / den ≤ nearestQuotient num den := by
  simp only [nearestQuotient]
  split
  · exact Nat.le_refl _
  · split <;> omega

/-- Where the nearest integer lies is decided by the midpoint above `k`; the midpoint itself goes
to the even side. -/
theorem nearestQuotient_le_iff {num den k : Nat} (positive : 0 < den) :
    nearestQuotient num den ≤ k ↔
      2 * num < (2 * k + 1) * den ∨ 2 * num = (2 * k + 1) * den ∧ k % 2 = 0 := by
  have whole : den * (num / den) + num % den = num := Nat.div_add_mod num den
  have remainder : num % den < den := Nat.mod_lt num positive
  have above := nearestQuotient_le num den
  have below := div_le_nearestQuotient num den
  rcases Nat.lt_trichotomy k (num / den) with less | rfl | greater
  · have : den * (k + 1) ≤ den * (num / den) := Nat.mul_le_mul_left den less
    have : (2 * k + 1) * den + den = 2 * (den * (k + 1)) := by ring
    constructor
    · intro h
      omega
    · intro h
      omega
  · have : (2 * (num / den) + 1) * den = 2 * (den * (num / den)) + den := by ring
    simp only [nearestQuotient]
    split <;> [skip; split] <;> omega
  · have : den * (num / den + 1) ≤ den * k := Nat.mul_le_mul_left den greater
    have : (2 * k + 1) * den = 2 * (den * k) + den := by ring
    have : den * (num / den + 1) = den * (num / den) + den := Nat.mul_succ _ _
    constructor
    · intro _
      left
      omega
    · intro _
      omega

theorem nearestQuotient_mono {num den num' den' : Nat} (positive : 0 < den)
    (positive' : 0 < den') (h : num * den' ≤ num' * den) :
    nearestQuotient num den ≤ nearestQuotient num' den' := by
  have bound := (nearestQuotient_le_iff positive').1 (Nat.le_refl (nearestQuotient num' den'))
  generalize nearestQuotient num' den' = k at bound ⊢
  rw [nearestQuotient_le_iff positive]
  have scaled : 2 * num * den' ≤ 2 * num' * den := by linarith
  rcases bound with below | ⟨middle, even⟩
  · left
    have : 2 * num' * den < (2 * k + 1) * den' * den := Nat.mul_lt_mul_of_pos_right below positive
    apply Nat.lt_of_mul_lt_mul_right (a := den')
    calc 2 * num * den' ≤ 2 * num' * den := scaled
      _ < (2 * k + 1) * den' * den := this
      _ = (2 * k + 1) * den * den' := by ring
  · have : 2 * num * den' ≤ (2 * k + 1) * den * den' := by
      calc 2 * num * den' ≤ 2 * num' * den := scaled
        _ = (2 * k + 1) * den * den' := by rw [middle]; ring
    rcases Nat.lt_or_eq_of_le (Nat.le_of_mul_le_mul_right this positive') with less | equal
    · exact Or.inl less
    · exact Or.inr ⟨equal, even⟩

theorem nearestQuotient_mul_self (n : Nat) {den : Nat} (positive : 0 < den) :
    nearestQuotient (n * den) den = n := by
  simp only [nearestQuotient, Nat.mul_mod_left, Nat.mul_div_cancel n positive]
  rw [if_pos (by omega)]

theorem log2_mono {m n : Nat} (h : m ≤ n) : m.log2 ≤ n.log2 := by
  rcases Nat.eq_zero_or_pos m with rfl | positive
  · simp
  · rw [Nat.le_log2 (by omega)]
    exact Nat.le_trans (Nat.log2_self_le (by omega)) h

theorem gridExponent_mono {bits num den num' den' : Nat} (h : num / den ≤ num' / den') :
    gridExponent bits num den ≤ gridExponent bits num' den' := by
  have := log2_mono h
  simp only [gridExponent]
  omega

theorem two_pow_le_nearestQuotient_grid {bits num den : Nat} (bits_pos : 0 < bits)
    (coarse : 0 < gridExponent bits num den) :
    2 ^ (bits - 1) ≤ nearestQuotient num (den * 2 ^ gridExponent bits num den) := by
  have log : gridExponent bits num den + bits = (num / den).log2 + 1 := by
    simp only [gridExponent] at coarse ⊢
    omega
  have nonzero : num / den ≠ 0 := by
    intro zero
    rw [zero, Nat.log2_zero] at log
    omega
  generalize gridExponent bits num den = g at log ⊢
  apply Nat.le_trans _ (div_le_nearestQuotient _ _)
  rw [← Nat.div_div_eq_div_mul, Nat.le_div_iff_mul_le (Nat.two_pow_pos g), ← Nat.pow_add]
  exact Nat.le_trans (Nat.pow_le_pow_right (by omega) (by omega)) (Nat.log2_self_le nonzero)

theorem toBits_mono {bits num den num' den' : Nat} (bits_pos : 0 < bits) (positive : 0 < den)
    (positive' : 0 < den') (h : num * den' ≤ num' * den) :
    toBits bits num den ≤ toBits bits num' den' := by
  have quotients : num / den ≤ num' / den' := by
    rw [Nat.le_div_iff_mul_le positive']
    refine Nat.le_of_mul_le_mul_right ?_ positive
    calc num / den * den' * den = num / den * den * den' := by ring
      _ ≤ num * den' := Nat.mul_le_mul_right _ (Nat.div_mul_le_self num den)
      _ ≤ num' * den := h
  unfold toBits
  rcases Nat.lt_or_eq_of_le (gridExponent_mono quotients) with finer | same
  · -- the coarser grid begins at a power of two, which lies between the two results
    have lower := nearestQuotient_grid_le bits num den
    have upper := two_pow_le_nearestQuotient_grid bits_pos (Nat.zero_lt_of_lt finer)
    generalize gridExponent bits num den = g at finer lower ⊢
    generalize gridExponent bits num' den' = g' at finer upper ⊢
    calc nearestQuotient num (den * 2 ^ g) * 2 ^ g ≤ 2 ^ bits * 2 ^ g :=
          Nat.mul_le_mul_right _ lower
      _ = 2 ^ (bits + g) := (Nat.pow_add 2 bits g).symm
      _ ≤ 2 ^ (bits - 1 + g') := Nat.pow_le_pow_right (by omega) (by omega)
      _ = 2 ^ (bits - 1) * 2 ^ g' := Nat.pow_add 2 (bits - 1) g'
      _ ≤ nearestQuotient num' (den' * 2 ^ g') * 2 ^ g' := Nat.mul_le_mul_right _ upper
  · rw [same]
    refine Nat.mul_le_mul_right _ (nearestQuotient_mono (by positivity) (by positivity) ?_)
    calc num * (den' * 2 ^ gridExponent bits num' den')
        = num * den' * 2 ^ gridExponent bits num' den' := by ring
      _ ≤ num' * den * 2 ^ gridExponent bits num' den' := Nat.mul_le_mul_right _ h
      _ = num' * (den * 2 ^ gridExponent bits num' den') := by ring

theorem toBits_congr {bits num den num' den' : Nat} (bits_pos : 0 < bits) (positive : 0 < den)
    (positive' : 0 < den') (h : num * den' = num' * den) :
    toBits bits num den = toBits bits num' den' :=
  Nat.le_antisymm (toBits_mono bits_pos positive positive' h.le)
    (toBits_mono bits_pos positive' positive h.ge)

theorem toBits_of_fits {bits n : Nat} (fits : Fits bits n) : toBits bits n 1 = n := by
  obtain ⟨count, h⟩ := fits
  simp only [toBits, gridExponent, Nat.div_one, Nat.one_mul]
  generalize n.log2 + 1 - bits = g at h ⊢
  rw [h, Nat.mul_comm (2 ^ g) count, nearestQuotient_mul_self count (Nat.two_pow_pos g)]

theorem toBits_eq_of_fits {bits num den n : Nat} (bits_pos : 0 < bits) (positive : 0 < den)
    (fits : Fits bits n) (h : num = n * den) : toBits bits num den = n := by
  rw [toBits_congr bits_pos positive Nat.one_pos (by omega : num * 1 = n * den),
    toBits_of_fits fits]

theorem toBits_le {bits num den n : Nat} (bits_pos : 0 < bits) (positive : 0 < den)
    (fits : Fits bits n) (h : num ≤ n * den) : toBits bits num den ≤ n := by
  have := toBits_mono bits_pos positive Nat.one_pos (by omega : num * 1 ≤ n * den)
  rwa [toBits_of_fits fits] at this

theorem le_toBits {bits num den n : Nat} (bits_pos : 0 < bits) (positive : 0 < den)
    (fits : Fits bits n) (h : n * den ≤ num) : n ≤ toBits bits num den := by
  have := toBits_mono bits_pos Nat.one_pos positive (by omega : n * den ≤ num * 1)
  rwa [toBits_of_fits fits] at this

theorem Fits.exists_count {bits n : Nat} (fits : Fits bits n) :
    ∃ count < 2 ^ bits, n = count * 2 ^ (n.log2 + 1 - bits) := by
  obtain ⟨count, h⟩ := fits
  refine ⟨count, ?_, by rwa [Nat.mul_comm]⟩
  have below : n < 2 ^ (n.log2 + 1 - bits + bits) :=
    Nat.lt_of_lt_of_le Nat.lt_log2_self (Nat.pow_le_pow_right (by omega) (by omega))
  generalize n.log2 + 1 - bits = g at h below
  rw [h, Nat.pow_add] at below
  exact Nat.lt_of_mul_lt_mul_left below

theorem Fits.two_pow_mul {bits n : Nat} (bits_pos : 0 < bits) (fits : Fits bits n) (s : Nat) :
    Fits bits (2 ^ s * n) := by
  obtain ⟨count, small, h⟩ := fits.exists_count
  rw [h, Nat.mul_left_comm, ← Nat.pow_add]
  exact fits_mul_two_pow bits_pos (Nat.le_of_lt small)

theorem Fits.sub_spacing {bits n : Nat} (bits_pos : 0 < bits) (fits : Fits bits n) :
    Fits bits (n - 2 ^ (n.log2 + 1 - bits)) := by
  obtain ⟨count, small, h⟩ := fits.exists_count
  generalize n.log2 + 1 - bits = g at h ⊢
  rw [h, ← Nat.sub_one_mul]
  exact fits_mul_two_pow bits_pos (by omega)

end ExperienceReplay.Rounding

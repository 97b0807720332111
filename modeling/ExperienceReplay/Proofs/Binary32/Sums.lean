import ExperienceReplay.Proofs.Binary32.Order
import ExperienceReplay.Proofs.Binary32.Rounding

/-!
Arithmetic on numbers without a sign. Main statements: a sum is finite if some number of the format
bounds the exact sum, and the share `1 - 2 ^ -23` of a number of full precision is less than the
number.
-/

namespace ExperienceReplay.Binary32

open Rounding (Fits)

theorem exists_ofQuotient {num den : Nat} (negative : Bool)
    (h : Rounding.toBits precision num den ≤ greatestUnits) :
    ∃ m : Magnitude, ofQuotient negative num den = finite negative m ∧
      m.units = Rounding.toBits precision num den :=
  ⟨⟨_, Rounding.fits_toBits (by decide) num den, h⟩, dif_pos h, rfl⟩

theorem ofQuotient_eq {num den : Nat} (negative : Bool) (m : Magnitude) (positive : 0 < den)
    (h : num = m.units * den) : ofQuotient negative num den = finite negative m := by
  have exact : Rounding.toBits precision num den = m.units :=
    Rounding.toBits_eq_of_fits (by decide) positive m.fits h
  obtain ⟨n, equal, units⟩ := exists_ofQuotient negative (exact ▸ m.le_greatest)
  rw [equal, Magnitude.ext (units.trans exact)]

theorem zero_le_ofQuotient {negative : Bool} {num den : Nat} (positive : 0 < den)
    (h : negative = true → num = 0) : 0 ≤ ofQuotient negative num den := by
  cases negative with
  | true =>
    rw [h rfl, ofQuotient_eq true .zero positive (Nat.zero_mul den).symm]
    decide
  | false =>
    unfold ofQuotient
    split
    · exact zero_le_finite _
    · decide

theorem add_finite (a b : Magnitude) :
    finite false a + finite false b = ofQuotient false (a.units + b.units) 1 := by
  change (if (a.units : Int) + b.units = 0 then finite false .zero else
    ofQuotient (decide ((a.units : Int) + b.units < 0)) ((a.units : Int) + b.units).natAbs 1) = _
  split
  next zero =>
    have : a.units + b.units = 0 := by omega
    rw [ofQuotient_eq false .zero Nat.one_pos this]
  next =>
    rw [decide_eq_false (by omega)]
    rfl

theorem exists_add_finite {a b : Magnitude} {bound : Nat} (fits : Fits precision bound)
    (le_greatest : bound ≤ greatestUnits) (h : a.units + b.units ≤ bound) :
    ∃ c : Magnitude, finite false a + finite false b = finite false c ∧ a.units ≤ c.units ∧
      b.units ≤ c.units ∧ c.units ≤ bound := by
  have below : Rounding.toBits precision (a.units + b.units) 1 ≤ bound :=
    Rounding.toBits_le (by decide) Nat.one_pos fits (by omega)
  obtain ⟨c, equal, units⟩ := exists_ofQuotient false (Nat.le_trans below le_greatest)
  refine ⟨c, (add_finite a b).trans equal, ?_, ?_, units ▸ below⟩
  · rw [units]
    exact Rounding.le_toBits (by decide) Nat.one_pos a.fits (by omega)
  · rw [units]
    exact Rounding.le_toBits (by decide) Nat.one_pos b.fits (by omega)

theorem finite_add_zero (a : Magnitude) : finite false a + 0 = finite false a := by
  change finite false a + finite false .zero = _
  rw [add_finite, ofQuotient_eq false a Nat.one_pos (by simp [Magnitude.zero])]

theorem zero_add_finite (a : Magnitude) : 0 + finite false a = finite false a := by
  change finite false .zero + finite false a = _
  rw [add_finite, ofQuotient_eq false a Nat.one_pos (by simp [Magnitude.zero])]

theorem div_finite (a : Magnitude) {b : Magnitude} (positive : 0 < b.units) :
    finite false a / finite false b = ofQuotient false (a.units * unitsPerOne) b.units := by
  change (if b.units = 0 then _ else ofQuotient (false ^^ false) _ _) = _
  rw [if_neg (by omega), Bool.xor_false]

theorem div_self_finite {a : Magnitude} (positive : 0 < a.units) :
    finite false a / finite false a = 1 := by
  rw [div_finite a positive]
  exact ofQuotient_eq false ⟨unitsPerOne, by decide, by decide⟩ positive (Nat.mul_comm _ _)

theorem finite_mul_one (negative : Bool) (a : Magnitude) :
    finite negative a * 1 = finite negative a := by
  change ofQuotient (negative ^^ false) (a.units * unitsPerOne) unitsPerOne = _
  rw [Bool.xor_false, ofQuotient_eq negative a (by decide) rfl]

/-- A share of a number of full precision that is one unit of the last place below the whole rounds
to less than the number. -/
theorem exists_mul_belowOne {a : Magnitude} (normal : 2 ^ 23 ≤ a.units) :
    ∃ c : Magnitude, finite false a * belowOne = finite false c ∧ c.units < a.units := by
  have leading : 2 ^ a.units.log2 ≤ a.units := Nat.log2_self_le (by omega)
  have log : 23 ≤ a.units.log2 := (Nat.le_log2 (by omega)).2 normal
  have grid : 2 ^ (a.units.log2 + 1 - precision) * 2 ^ 23 = 2 ^ a.units.log2 := by
    rw [← Nat.pow_add]
    congr 1
    simp only [precision]
    omega
  have fits := a.fits.sub_spacing (by decide)
  have positive : 0 < 2 ^ (a.units.log2 + 1 - precision) := Nat.two_pow_pos _
  generalize 2 ^ (a.units.log2 + 1 - precision) = spacing at grid fits positive
  have share : Rounding.toBits precision (a.units * ((2 ^ 23 - 1) * 2 ^ 126)) unitsPerOne ≤
      a.units - spacing := by
    apply Rounding.toBits_le (by decide) (by decide) fits
    have : a.units * (2 ^ 23 - 1) ≤ (a.units - spacing) * 2 ^ 23 := by
      rw [Nat.sub_mul, grid]
      omega
    calc a.units * ((2 ^ 23 - 1) * 2 ^ 126) = a.units * (2 ^ 23 - 1) * 2 ^ 126 := by ring
      _ ≤ (a.units - spacing) * 2 ^ 23 * 2 ^ 126 := Nat.mul_le_mul_right _ this
      _ = (a.units - spacing) * unitsPerOne := by rw [Nat.mul_assoc]; rfl
  have le_greatest := a.le_greatest
  obtain ⟨c, equal, units⟩ := exists_ofQuotient false
    (Nat.le_trans share (by omega : a.units - spacing ≤ greatestUnits))
  exact ⟨c, equal, by omega⟩

theorem zero_le_mul_finite {x : Binary32} {a : Magnitude} (nonneg : 0 ≤ x) (below : x < 1) :
    0 ≤ x * finite false a := by
  obtain ⟨negative, m, rfl, minusZero, _⟩ := exists_finite_of_share nonneg below
  change 0 ≤ ofQuotient (negative ^^ false) (m.units * a.units) unitsPerOne
  rw [Bool.xor_false]
  apply zero_le_ofQuotient (by decide)
  intro minus
  rw [minusZero minus, Nat.zero_mul]

end ExperienceReplay.Binary32

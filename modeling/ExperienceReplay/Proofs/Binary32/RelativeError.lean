import ExperienceReplay.Proofs.Binary32.Midpoint
import ExperienceReplay.Proofs.Binary32.Monotone
import Mathlib.Algebra.Order.Field.Basic
import Mathlib.Tactic.NormNum

/-!
How far a sum is from the exact one. Main statement: a sum of numbers without a sign that is finite
has finite terms, and rounding it adds or takes away no more than a part in `2 ^ 24`.
-/

namespace ExperienceReplay

namespace Rounding

theorem nearestQuotient_near (num : Nat) {den : Nat} (positive : 0 < den) :
    2 * (nearestQuotient num den * den) ≤ 2 * num + den ∧
      2 * num ≤ 2 * (nearestQuotient num den * den) + den := by
  have atMost := (nearestQuotient_le_iff positive).1 (Nat.le_refl (nearestQuotient num den))
  have more (k : Nat) : ¬nearestQuotient num den ≤ k → (2 * k + 1) * den ≤ 2 * num := by
    rw [nearestQuotient_le_iff positive]
    omega
  generalize nearestQuotient num den = n at atMost more ⊢
  have upper : (2 * n + 1) * den = 2 * (n * den) + den := by ring
  constructor
  · cases n with
    | zero => omega
    | succ k =>
      have := more k (Nat.not_succ_le_self k)
      have : (2 * k + 1) * den + den = 2 * ((k + 1) * den) := by ring
      omega
  · omega

theorem toBits_near {bits : Nat} (bits_pos : 0 < bits) (n : Nat) :
    2 ^ bits * toBits bits n 1 ≤ 2 ^ bits * n + n ∧
      2 ^ bits * n ≤ 2 ^ bits * toBits bits n 1 + n := by
  rcases Nat.eq_zero_or_pos (gridExponent bits n 1) with finest | coarse
  · have exact : toBits bits n 1 = n := by
      simpa [toBits, finest] using nearestQuotient_mul_self n Nat.one_pos
    rw [exact]
    omega
  · have half := two_pow_grid_le_div bits_pos coarse
    rw [Nat.div_one, Nat.pow_add] at half
    have near := nearestQuotient_near n (Nat.two_pow_pos (gridExponent bits n 1))
    unfold toBits
    simp only [Nat.one_mul]
    generalize 2 ^ gridExponent bits n 1 = spacing at half near ⊢
    generalize nearestQuotient n spacing * spacing = rounded at near ⊢
    have upper := Nat.mul_le_mul_left (2 ^ bits) near.1
    have lower := Nat.mul_le_mul_left (2 ^ bits) near.2
    rw [Nat.mul_add] at upper lower
    constructor <;> linarith

end Rounding

/-- The computed number is as near to the exact one as so many roundings keep it. -/
structure WithinRoundings (roundings : Nat) (exact computed : ℚ) : Prop where
  lower : exact * (1 - 1 / 2 ^ 24) ^ roundings ≤ computed
  upper : computed ≤ exact * (1 + 1 / 2 ^ 24) ^ roundings

namespace WithinRoundings

variable {m n : Nat} {a b x y : ℚ}

theorem refl (x : ℚ) : WithinRoundings 0 x x := ⟨by simp, by simp⟩

theorem mono (within : WithinRoundings m a x) (nonneg : 0 ≤ a) (le : m ≤ n) :
    WithinRoundings n a x where
  lower := by
    refine le_trans (mul_le_mul_of_nonneg_left ?_ nonneg) within.lower
    exact pow_le_pow_of_le_one (by norm_num) (by norm_num) le
  upper := by
    refine le_trans within.upper (mul_le_mul_of_nonneg_left ?_ nonneg)
    exact pow_le_pow_right₀ (by norm_num) le

theorem add (within : WithinRoundings n a x) (within' : WithinRoundings n b y) :
    WithinRoundings n (a + b) (x + y) where
  lower := by
    rw [add_mul]
    exact add_le_add within.lower within'.lower
  upper := by
    rw [add_mul]
    exact add_le_add within.upper within'.upper

theorem trans (within : WithinRoundings m a x) (within' : WithinRoundings n x y) :
    WithinRoundings (m + n) a y where
  lower := by
    rw [pow_add, ← mul_assoc]
    exact le_trans (mul_le_mul_of_nonneg_right within.lower (by norm_num)) within'.lower
  upper := by
    rw [pow_add, ← mul_assoc]
    exact le_trans within'.upper (mul_le_mul_of_nonneg_right within.upper (by norm_num))

end WithinRoundings

namespace Binary32

/-- A finite number as a rational; all others as zero. -/
def toRat (x : Binary32) : ℚ := (x.units?.getD 0 : ℚ) / 2 ^ 149

variable {x y : Binary32} {m n : Nat}

theorem HasUnits.toRat_eq (h : x.HasUnits n) : x.toRat = n / 2 ^ 149 := by
  unfold toRat
  rw [h]
  rfl

theorem toRat_zero : (0 : Binary32).toRat = 0 := by
  rw [hasUnits_zero.toRat_eq]
  simp

theorem toRat_nonneg (nonneg : 0 ≤ x) : 0 ≤ x.toRat := by
  by_cases finite : x.isFinite
  · obtain ⟨n, units⟩ := exists_hasUnits_of_isFinite nonneg finite
    rw [units.toRat_eq]
    positivity
  · cases x with
    | nan => simp [toRat, units?]
    | infinite _ => simp [toRat, units?]
    | finite _ _ => exact absurd rfl finite

theorem IsRounded.hasUnits (rounded : x.IsRounded n m) (nonneg : 0 ≤ x) (finite : x.isFinite) :
    x.HasUnits (Rounding.toBits precision n m) := by
  obtain ⟨units, h⟩ := exists_hasUnits_of_isFinite nonneg finite
  have same := rounded.natAbs_units h
  rw [Int.natAbs_natCast, Int.natAbs_natCast] at same
  rwa [same] at h

theorem isFinite_of_add (finite : (x + y).isFinite) : x.isFinite ∧ y.isFinite := by
  cases x with
  | nan => cases finite
  | infinite s =>
    cases y with
    | nan => cases finite
    | infinite t => cases s <;> cases t <;> cases finite
    | finite t b => cases finite
  | finite s a =>
    cases y with
    | nan => cases finite
    | infinite t => cases finite
    | finite t b => exact ⟨rfl, rfl⟩

theorem HasUnits.isRounded_add (hx : x.HasUnits m) (hy : y.HasUnits n) :
    (x + y).IsRounded (m + n : Nat) 1 := by
  rw [Int.natCast_add]
  exact Binary32.isRounded_add hx hy

theorem withinRoundings_add (hx : x.HasUnits m) (hy : y.HasUnits n) (finite : (x + y).isFinite) :
    0 ≤ x + y ∧ WithinRoundings 1 (x.toRat + y.toRat) (x + y).toRat := by
  have rounded := hx.isRounded_add hy
  have nonneg : 0 ≤ x + y := rounded.le_units hasUnits_zero Nat.one_pos (by omega)
  have units := rounded.hasUnits nonneg finite
  obtain ⟨upper, lower⟩ := Rounding.toBits_near (by decide : 0 < precision) (m + n)
  refine ⟨nonneg, ?_⟩
  rw [hx.toRat_eq, hy.toRat_eq, units.toRat_eq, ← add_div]
  generalize Rounding.toBits precision (m + n) 1 = sum at upper lower
  unfold precision at upper lower
  have upper : (2 ^ 24 * sum : ℚ) ≤ 2 ^ 24 * (m + n) + (m + n) := by exact_mod_cast upper
  have lower : (2 ^ 24 * (m + n) : ℚ) ≤ 2 ^ 24 * sum + (m + n) := by exact_mod_cast lower
  constructor
  · rw [pow_one, div_mul_eq_mul_div, div_le_div_iff_of_pos_right (by positivity)]
    linarith
  · rw [pow_one, div_mul_eq_mul_div, div_le_div_iff_of_pos_right (by positivity)]
    linarith

theorem isFinite_add (hx : x.HasUnits m) (hy : y.HasUnits n)
    (le_greatest : x.toRat + y.toRat ≤ greatest.toRat) : (x + y).isFinite := by
  have most : greatest.HasUnits greatestUnits := hasUnits_finite _
  have small : m + n ≤ greatestUnits := by
    rw [hx.toRat_eq, hy.toRat_eq, most.toRat_eq, ← add_div,
      div_le_div_iff_of_pos_right (by positivity)] at le_greatest
    exact_mod_cast le_greatest
  obtain ⟨sum, units, _, _⟩ := (hx.isRounded_add hy).exists_units Nat.one_pos hasUnits_zero most
    (by omega) (by omega)
  obtain ⟨_, _, same, _⟩ := exists_finite_of_units? units
  rw [same]
  rfl

end Binary32

end ExperienceReplay

import ExperienceReplay.Proofs.Binary32.Sums

/-!
Arithmetic without rounding. A sum of multiples of a power of two is exact if it has no more steps
than the format has significant digits for, and so is the difference between any number below that
and such a multiple.
-/

namespace ExperienceReplay

namespace Rounding

theorem fits_of_dvd {bits q n : Nat} (positive : 0 < bits) (multiple : 2 ^ q ∣ n)
    (small : n ≤ 2 ^ bits * 2 ^ q) : Fits bits n := by
  obtain ⟨count, rfl⟩ := multiple
  rw [Nat.mul_comm] at small ⊢
  exact fits_mul_two_pow positive (Nat.le_of_mul_le_mul_right small (Nat.two_pow_pos q))

/-- A number has no digits below the place where its significant digits end, and neither has a
multiple of the unit of that place or of a greater one. -/
theorem Fits.sub {bits q m n : Nat} (positive : 0 < bits) (fits : Fits bits m)
    (small : m < 2 ^ bits * 2 ^ q) (multiple : 2 ^ q ∣ n) : Fits bits (m - n) := by
  have place : m.log2 + 1 - bits ≤ q := by
    rcases Nat.eq_zero_or_pos m with rfl | nonzero
    · rw [Nat.log2_zero]
      omega
    · rw [← Nat.pow_add] at small
      have := (Nat.log2_lt (by omega)).2 small
      omega
  obtain ⟨count, below, h⟩ := fits.exists_count
  obtain ⟨steps, rfl⟩ := (Nat.pow_dvd_pow 2 place).trans multiple
  generalize m.log2 + 1 - bits = place at h
  rw [h, Nat.mul_comm (2 ^ place) steps, ← Nat.sub_mul]
  exact fits_mul_two_pow positive (by omega)

end Rounding

namespace Binary32

open Rounding (Fits)

/-- A number that is not less than zero, of so many units. -/
def HasUnits (x : Binary32) (n : Nat) : Prop := x.units? = some (n : Int)

variable {x y : Binary32} {m n : Nat}

theorem hasUnits_finite (a : Magnitude) : (finite false a).HasUnits a.units := rfl

theorem hasUnits_zero : (0 : Binary32).HasUnits 0 := rfl

theorem hasUnits_one : (1 : Binary32).HasUnits unitsPerOne := rfl

theorem HasUnits.exists_magnitude (h : x.HasUnits n) : ∃ a : Magnitude, a.units = n := by
  obtain ⟨negative, a, _, units⟩ := exists_finite_of_units? h
  refine ⟨a, ?_⟩
  split at units <;> omega

theorem HasUnits.exists_finite (h : x.HasUnits n) (positive : 0 < n) :
    ∃ a : Magnitude, x = finite false a ∧ a.units = n := by
  obtain ⟨negative, a, rfl, units⟩ := exists_finite_of_units? h
  cases negative with
  | false => exact ⟨a, rfl, (Int.ofNat.inj units).symm⟩
  | true =>
    rw [if_pos rfl] at units
    omega

theorem HasUnits.isFinite (h : x.HasUnits n) : x.isFinite := by
  obtain ⟨negative, a, rfl, _⟩ := exists_finite_of_units? h
  rfl

theorem exists_hasUnits_of_isFinite (nonneg : 0 ≤ x) (isFinite : x.isFinite) :
    ∃ n, x.HasUnits n := by
  obtain ⟨a, ha⟩ : ∃ a, x.units? = some a := by
    cases x with
    | nan => cases isFinite
    | infinite negative => cases isFinite
    | finite negative m => exact ⟨_, rfl⟩
  obtain ⟨n, rfl⟩ := Int.eq_ofNat_of_zero_le ((le_iff_of_units? hasUnits_zero ha).1 nonneg)
  exact ⟨n, ha⟩

theorem ne_nan_of_units? {a : Int} (h : x.units? = some a) : x ≠ nan := by
  rintro rfl
  cases h

theorem finite_lt_infinity {a : Int} (h : x.units? = some a) : x < infinity := by
  have := natAbs_units_lt_infinity h
  exact lt_iff_rank.2 ⟨a, 2 ^ 277, rank?_of_units? h, rfl, by omega⟩

theorem negInfinity_lt_finite {a : Int} (h : x.units? = some a) :
    infinite true < x := by
  have := natAbs_units_lt_infinity h
  exact lt_iff_rank.2 ⟨-2 ^ 277, a, rfl, rank?_of_units? h, by omega⟩

theorem HasUnits.lt_iff (hx : x.HasUnits m) (hy : y.HasUnits n) : x < y ↔ m < n :=
  (lt_iff_of_units? hx hy).trans Int.ofNat_lt

theorem HasUnits.le_iff (hx : x.HasUnits m) (hy : y.HasUnits n) : x ≤ y ↔ m ≤ n :=
  (le_iff_of_units? hx hy).trans Int.ofNat_le

theorem HasUnits.exists_below (hy : y.HasUnits n) (nonneg : 0 ≤ x) (below : x < y) :
    ∃ m < n, x.HasUnits m := by
  obtain ⟨a, hx, zero_le, _⟩ := exists_units_of_between hasUnits_zero hy nonneg (le_of_lt below)
  obtain ⟨m, rfl⟩ := Int.eq_ofNat_of_zero_le zero_le
  exact ⟨m, (HasUnits.lt_iff hx hy).1 below, hx⟩

theorem HasUnits.lesser (hx : x.HasUnits m) (hy : y.HasUnits n) :
    (x.lesser y).HasUnits (min m n) := by
  unfold Binary32.lesser
  rw [if_neg (ne_nan_of_units? hx)]
  split
  next less => rwa [Nat.min_eq_right (Nat.le_of_lt ((hy.lt_iff hx).1 less))]
  next notLess => rwa [Nat.min_eq_left (Nat.le_of_not_lt (mt (hy.lt_iff hx).2 notLess))]

theorem add_eq (s t : Bool) (m n : Magnitude) :
    let sum : Int := (if s then -(m.units : Int) else m.units) +
      if t then -(n.units : Int) else n.units
    finite s m + finite t n =
      if sum = 0 then finite (s && t) .zero else ofQuotient (decide (sum < 0)) sum.natAbs 1 := rfl

theorem units?_add {a b : Int} (hx : x.units? = some a) (hy : y.units? = some b)
    (fits : Fits precision (a + b).natAbs) (le_greatest : (a + b).natAbs ≤ greatestUnits) :
    (x + y).units? = some (a + b) := by
  obtain ⟨s, m, rfl, rfl⟩ := exists_finite_of_units? hx
  obtain ⟨t, n, rfl, rfl⟩ := exists_finite_of_units? hy
  rw [add_eq]
  generalize (if s then -(m.units : Int) else m.units) + _ = sum at fits le_greatest ⊢
  split
  next zero =>
    rw [zero]
    cases s && t <;> rfl
  next nonzero =>
    rw [ofQuotient_eq _ ⟨_, fits, le_greatest⟩ Nat.one_pos (Nat.mul_one _).symm, units?]
    simp only [decide_eq_true_eq, Option.some.injEq]
    omega

theorem HasUnits.add (hx : x.HasUnits m) (hy : y.HasUnits n) (fits : Fits precision (m + n))
    (le_greatest : m + n ≤ greatestUnits) : (x + y).HasUnits (m + n) :=
  units?_add hx hy fits le_greatest

theorem units?_neg {a : Int} (h : x.units? = some a) : (-x).units? = some (-a) := by
  obtain ⟨negative, m, rfl, rfl⟩ := exists_finite_of_units? h
  change units? (finite (!negative) m) = _
  cases negative <;> simp [units?]

theorem HasUnits.sub (hx : x.HasUnits m) (hy : y.HasUnits n) (le : n ≤ m)
    (fits : Fits precision (m - n)) : (x - y).HasUnits (m - n) := by
  obtain ⟨a, rfl⟩ := hx.exists_magnitude
  have exact : (a.units : Int) + -n = ((a.units - n : Nat) : Int) := by omega
  have := a.le_greatest
  unfold HasUnits
  rw [← exact]
  refine units?_add hx (units?_neg hy) ?_ ?_
  · rwa [exact, Int.natAbs_natCast]
  · omega

theorem exists_hasUnits_mul (nonneg : 0 ≤ x) (below : x < 1) (a : Magnitude) :
    ∃ share ≤ a.units, (x * finite false a).HasUnits share := by
  obtain ⟨negative, m, rfl, minusZero, small⟩ := exists_finite_of_share nonneg below
  have bounded : Rounding.toBits precision (m.units * a.units) unitsPerOne ≤ a.units :=
    Rounding.toBits_le (by decide) (by decide) a.fits
      (by rw [Nat.mul_comm]; exact Nat.mul_le_mul_left _ (Nat.le_of_lt small))
  obtain ⟨c, product, units⟩ :=
    exists_ofQuotient (negative ^^ false) (Nat.le_trans bounded a.le_greatest)
  refine ⟨c.units, units ▸ bounded, ?_⟩
  change (ofQuotient (negative ^^ false) (m.units * a.units) unitsPerOne).HasUnits _
  rw [product, Bool.xor_false]
  cases negative with
  | false => exact hasUnits_finite c
  | true =>
    have zero : c.units = 0 := by
      rw [units, minusZero rfl, Nat.zero_mul]
      decide
    rw [zero]
    change some (-(c.units : Int)) = _
    rw [zero]
    rfl

theorem le_units_mul_belowOne {a c : Magnitude}
    (product : finite false a * belowOne = finite false c) (fits : Fits precision n)
    (share : n * 2 ^ 23 ≤ a.units * (2 ^ 23 - 1)) : n ≤ c.units := by
  have rounded : n ≤
      Rounding.toBits precision (a.units * ((2 ^ 23 - 1) * 2 ^ 126)) unitsPerOne := by
    apply Rounding.le_toBits (by decide) (by decide) fits
    calc n * unitsPerOne = n * 2 ^ 23 * 2 ^ 126 := by rw [Nat.mul_assoc]; rfl
      _ ≤ a.units * (2 ^ 23 - 1) * 2 ^ 126 := Nat.mul_le_mul_right _ share
      _ = a.units * ((2 ^ 23 - 1) * 2 ^ 126) := Nat.mul_assoc _ _ _
  change ofQuotient false (a.units * ((2 ^ 23 - 1) * 2 ^ 126)) unitsPerOne = _ at product
  unfold ofQuotient at product
  split at product
  · cases product
    exact rounded
  · cases product

end Binary32

end ExperienceReplay

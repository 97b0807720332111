import ExperienceReplay.Proofs.Binary32.Midpoint
import ExperienceReplay.Proofs.Binary32.Sums
import ExperienceReplay.Proofs.Decimal.Reading

/-!
The shortest decimal of a number, read back. Main statements: the decimal is rounded to the number
it was made of, and the number read through double precision is another one exactly if its last
significant bit is set and the double precision number nearest to the decimal lies half way to a
neighbour.
-/

namespace ExperienceReplay.Decimal

open Rounding Binary32

variable {magnitude : Magnitude}

namespace RoundingRange

theorem gridExponent_units : gridExponent precision magnitude.units 1 =
    magnitude.units.log2 + 1 - precision := by
  rw [gridExponent, Nat.div_one]

theorem lower_rangeOf : (rangeOf magnitude).lower =
    2 * (2 * magnitude.units - spacingBelow precision magnitude.units) * 10 ^ finestPlace := by
  simp only [rangeOf, gridExponent_units, spacingBelow, spacing]
  congr 1
  split
  next halved =>
    rw [← Nat.sub_add_cancel halved.1, Nat.pow_succ, Nat.add_sub_cancel]
    omega
  next => omega

theorem upper_rangeOf : (rangeOf magnitude).upper =
    2 * (2 * magnitude.units + spacing precision magnitude.units) * 10 ^ finestPlace := by
  simp only [rangeOf, gridExponent_units, spacing]
  congr 1
  omega

theorem closed_rangeOf : (rangeOf magnitude).closed = true ↔
    magnitude.units / spacing precision magnitude.units % 2 = 0 := by
  simp only [rangeOf, gridExponent_units, spacing, decide_eq_true_eq]

theorem contains_rangeOf_iff (nonzero : magnitude.units ≠ 0) (n : Nat) :
    (rangeOf magnitude).contains n = true ↔
      toBits precision n rangeScale = magnitude.units := by
  have scale (k : Nat) : k * rangeScale = 2 * (2 * k * 10 ^ finestPlace) := by
    rw [rangeScale]
    ring
  rw [toBits_eq_iff (by decide) (by decide) magnitude.fits nonzero, contains, scale, scale,
    ← lower_rangeOf, ← upper_rangeOf]
  by_cases closed : (rangeOf magnitude).closed = true
  · rw [if_pos closed, if_pos (closed_rangeOf.1 closed)]
    simp
  · rw [if_neg closed, if_neg (mt closed_rangeOf.2 closed)]
    simp

theorem contains_of_nearestMultiple? {range : RoundingRange} {tie : Tie} {spacing digits : Nat}
    (found : range.nearestMultiple? tie spacing = some digits) :
    range.contains (digits * spacing) = true := by
  unfold nearestMultiple? at found
  dsimp only at found
  split at found
  next => cases found
  next below _ =>
    cases found
    exact below
  next _ above =>
    cases found
    exact above
  next below above =>
    have : digits = range.value / spacing ∨ digits = range.value / spacing + 1 := by
      repeat' split at found
      all_goals cases found; simp
    rcases this with rfl | rfl
    · exact below
    · exact above

theorem exists_nearestMultiple? {range : RoundingRange} (tie : Tie) {spacing : Nat}
    (positive : 0 < spacing) (lower : range.lower ≤ range.value)
    (upper : range.value + spacing < range.upper) :
    ∃ digits, range.nearestMultiple? tie spacing = some digits := by
  have above : range.value < (range.value / spacing + 1) * spacing := by
    rw [Nat.mul_comm]
    exact Nat.lt_mul_div_succ _ positive
  have near : (range.value / spacing + 1) * spacing ≤ range.value + spacing := by
    rw [Nat.succ_mul]
    exact Nat.add_le_add_right (Nat.div_mul_le_self _ _) _
  have inside : range.contains ((range.value / spacing + 1) * spacing) = true := by
    unfold contains
    split <;> simp <;> omega
  unfold nearestMultiple?
  dsimp only
  rw [inside]
  split
  next none => cases none
  next => exact ⟨_, rfl⟩
  next => exact ⟨_, rfl⟩
  next =>
    refine Option.isSome_iff_exists.1 ?_
    repeat' split
    all_goals rfl

end RoundingRange

def placeSpacing (place : Nat) : Nat := 10 ^ place * (4 * unitsPerOne)

theorem exists_nearestMultiple?_finest (magnitude : Magnitude) (tie : Tie) :
    ∃ digits, (rangeOf magnitude).nearestMultiple? tie (placeSpacing 0) = some digits := by
  refine RoundingRange.exists_nearestMultiple? tie (by decide) ?_ ?_
  · simp only [rangeOf, rangeScale, ← Nat.mul_assoc]
    exact Nat.mul_le_mul_right _ (by omega)
  · have step : placeSpacing 0 < 2 * 10 ^ finestPlace := by decide
    have gap : 1 ≤ spacing precision magnitude.units := Nat.two_pow_pos _
    have := Nat.mul_le_mul_right (10 ^ finestPlace) gap
    have value : (rangeOf magnitude).value = 2 * (2 * magnitude.units) * 10 ^ finestPlace := by
      simp only [rangeOf, rangeScale]
      ring
    rw [RoundingRange.upper_rangeOf, value, Nat.mul_add, Nat.add_mul, Nat.mul_assoc 2 (spacing _ _)]
    omega

structure IsShort (magnitude : Magnitude) (d : Decimal) (place : Nat) : Prop where
  exponent : d.exponent = place - finestPlace
  contains : (rangeOf magnitude).contains (d.digits * placeSpacing place) = true

theorem exists_isShort (tie : Tie) (nonzero : magnitude.units ≠ 0) :
    ∃ place, IsShort magnitude (shortest tie magnitude) place := by
  obtain ⟨finest, found⟩ := exists_nearestMultiple?_finest magnitude tie
  unfold shortest
  rw [if_neg nonzero]
  cases result : places.findSome? fun (place : Nat) =>
      ((rangeOf magnitude).nearestMultiple? tie (10 ^ place * (4 * unitsPerOne))).map
        fun digits => (⟨digits, place - finestPlace⟩ : Decimal) with
  | none =>
    rw [List.findSome?_eq_none_iff] at result
    have missing := result 0 (by decide)
    rw [← placeSpacing, found] at missing
    cases missing
  | some d =>
    obtain ⟨place, -, made⟩ := List.exists_of_findSome?_eq_some result
    obtain ⟨digits, nearest, rfl⟩ := Option.map_eq_some_iff.1 made
    exact ⟨place, rfl, RoundingRange.contains_of_nearestMultiple? nearest⟩

/-- Half way to the neighbour below, in units of double precision. -/
def halfwayBelow (magnitude : Magnitude) : Nat :=
  (2 * magnitude.units - spacingBelow precision magnitude.units) * 2 ^ 924

def halfwayAbove (magnitude : Magnitude) : Nat :=
  (2 * magnitude.units + spacing precision magnitude.units) * 2 ^ 924

theorem fits_odd {count g : Nat} (small : count < 2 ^ precision) (s : Nat) :
    Fits 53 ((2 * count + 1) * 2 ^ g * 2 ^ s) := by
  rw [Nat.mul_assoc, ← Nat.pow_add]
  refine fits_mul_two_pow (by decide) ?_
  have : 2 * 2 ^ precision ≤ 2 ^ 53 := by decide
  omega

theorem fits_halfwayBelow (nonzero : magnitude.units ≠ 0) : Fits 53 (halfwayBelow magnitude) := by
  obtain ⟨count, g, below⟩ := magnitude.fits.exists_below (by decide) nonzero
  have middle : 2 * magnitude.units - spacingBelow precision magnitude.units =
      (2 * count + 1) * 2 ^ g := by
    rw [below.below, ← two_mul_add_two_pow, below.eq_add]
    omega
  rw [halfwayBelow, middle]
  exact fits_odd below.small 924

theorem fits_halfwayAbove : Fits 53 (halfwayAbove magnitude) := by
  obtain ⟨count, small, h⟩ := magnitude.fits.exists_count
  have middle : 2 * magnitude.units + spacing precision magnitude.units =
      (2 * count + 1) * spacing precision magnitude.units := by
    rw [spacing, ← two_mul_add_two_pow, ← h]
  rw [halfwayAbove, middle]
  exact fits_odd small 924

theorem halfwayAbove_le (nonzero : magnitude.units ≠ 0) :
    2 * magnitude.units + spacing precision magnitude.units ≤ 3 * greatestUnits := by
  have : spacing precision magnitude.units ≤ magnitude.units :=
    Nat.le_of_dvd (Nat.pos_of_ne_zero nonzero) magnitude.fits
  have := magnitude.le_greatest
  omega

theorem mul_two_pow_925 (k : Nat) : k * 2 ^ 925 = 2 * (k * 2 ^ 924) := by
  have double : 2 ^ 925 = 2 * 2 ^ 924 := by decide +kernel
  rw [double]
  generalize 2 ^ 924 = half
  ring

namespace IsShort

variable {d : Decimal} {place : Nat}

theorem rounded (short : IsShort magnitude d place) (nonzero : magnitude.units ≠ 0) :
    toBits precision (d.digits * placeSpacing place) rangeScale = magnitude.units :=
  (RoundingRange.contains_rangeOf_iff nonzero _).1 short.contains

theorem digits_ne_zero (short : IsShort magnitude d place) (nonzero : magnitude.units ≠ 0) :
    d.digits ≠ 0 := by
  intro zero
  have rounded := short.rounded nonzero
  rw [zero, Nat.zero_mul, toBits_eq_of_fits (by decide) (by decide) (by decide : Fits precision 0)
    (Nat.zero_mul _).symm] at rounded
  exact nonzero rounded.symm

theorem between (short : IsShort magnitude d place) :
    (rangeOf magnitude).lower ≤ d.digits * placeSpacing place ∧
      d.digits * placeSpacing place ≤ (rangeOf magnitude).upper := by
  have inside := short.contains
  unfold RoundingRange.contains at inside
  split at inside <;> simp at inside <;> omega

/-- The rounding range is on the scale of units of double precision, once multiplied by
`2 ^ 925`. -/
theorem rangeScale_mul (k : Nat) :
    2 * k * 10 ^ finestPlace * 2 ^ 925 = k * 2 ^ 924 * rangeScale := by
  rw [rangeScale, mul_two_pow_925]
  generalize 2 ^ 924 = scale
  ring

theorem toBits_le_halfwayAbove (short : IsShort magnitude d place) :
    toBits 53 (d.digits * placeSpacing place * 2 ^ 925) rangeScale ≤ halfwayAbove magnitude := by
  refine toBits_le (by decide) (by decide) fits_halfwayAbove ?_
  rw [halfwayAbove, ← rangeScale_mul, ← RoundingRange.upper_rangeOf]
  exact Nat.mul_le_mul_right _ short.between.2

theorem halfwayBelow_le_toBits (short : IsShort magnitude d place) (nonzero : magnitude.units ≠ 0) :
    halfwayBelow magnitude ≤ toBits 53 (d.digits * placeSpacing place * 2 ^ 925) rangeScale := by
  refine le_toBits (by decide) (by decide) (fits_halfwayBelow nonzero) ?_
  rw [halfwayBelow, ← rangeScale_mul, ← RoundingRange.lower_rangeOf]
  exact Nat.mul_le_mul_right _ short.between.1

theorem digits_mul_lt (short : IsShort magnitude d place) (nonzero : magnitude.units ≠ 0) :
    d.digits * 10 ^ place < 10 ^ 85 := by
  have most : 2 * (3 * greatestUnits) * 10 ^ finestPlace < 10 ^ 85 * (4 * unitsPerOne) := by
    decide +kernel
  have := short.between.2
  rw [placeSpacing, ← Nat.mul_assoc, RoundingRange.upper_rangeOf] at this
  refine Nat.lt_of_mul_lt_mul_right (Nat.lt_of_le_of_lt (Nat.le_trans this ?_) most)
  exact Nat.mul_le_mul_right _ (Nat.mul_le_mul_left 2 (halfwayAbove_le nonzero))

theorem point_mem (short : IsShort magnitude d place) (nonzero : magnitude.units ≠ 0) :
    -330 ≤ d.point ∧ d.point ≤ 310 := by
  have bound := short.digits_mul_lt nonzero
  have digits : 0 < d.digits := Nat.pos_of_ne_zero (short.digits_ne_zero nonzero)
  have coarsest : place < 85 := by
    rw [← Nat.pow_lt_pow_iff_right (by decide : 1 < 10)]
    exact Nat.lt_of_le_of_lt (Nat.le_mul_of_pos_left _ digits) bound
  have length : (Nat.toDigits 10 d.digits).length ≤ 85 - place := by
    rw [Nat.length_toDigits_le_iff (by decide) (by omega)]
    refine Nat.lt_of_mul_lt_mul_right (a := 10 ^ place) ?_
    rwa [← Nat.pow_add, Nat.sub_add_cancel coarsest.le]
  have : 0 < (Nat.toDigits 10 d.digits).length := List.length_pos_iff.2 Nat.toDigits_ne_nil
  have := short.exponent
  unfold point
  unfold finestPlace at this
  omega

theorem toBits_doubles (short : IsShort magnitude d place) :
    toBits 53 (d.digits * 10 ^ d.exponent.toNat * 2 ^ 1074) (10 ^ (-d.exponent).toNat) =
      toBits 53 (d.digits * placeSpacing place * 2 ^ 925) rangeScale := by
  have exponents : d.exponent.toNat + finestPlace = place + (-d.exponent).toNat := by
    have := short.exponent
    omega
  refine toBits_congr (by decide) (Nat.pow_pos (by decide)) (by decide) ?_
  have split : 2 ^ 1074 = 2 ^ 149 * 2 ^ 925 := by decide +kernel
  rw [rangeScale, placeSpacing, unitsPerOne, split]
  generalize 2 ^ 149 = one
  generalize 2 ^ 925 = scale
  calc d.digits * 10 ^ d.exponent.toNat * (one * scale) * (4 * 10 ^ finestPlace)
      = d.digits * 4 * one * scale * 10 ^ (d.exponent.toNat + finestPlace) := by
        rw [Nat.pow_add]; ring
    _ = d.digits * 4 * one * scale * 10 ^ (place + (-d.exponent).toNat) := by rw [exponents]
    _ = d.digits * (10 ^ place * (4 * one)) * scale * 10 ^ (-d.exponent).toNat := by
        rw [Nat.pow_add]; ring

theorem doubleUnits?_eq (short : IsShort magnitude d place) (nonzero : magnitude.units ≠ 0) :
    d.doubleUnits? = some (toBits 53 (d.digits * placeSpacing place * 2 ^ 925) rangeScale) := by
  obtain ⟨least, most⟩ := short.point_mem nonzero
  have finite : toBits 53 (d.digits * placeSpacing place * 2 ^ 925) rangeScale ≤
      (2 ^ 53 - 1) * 2 ^ 2045 :=
    calc toBits 53 (d.digits * placeSpacing place * 2 ^ 925) rangeScale
        ≤ halfwayAbove magnitude := short.toBits_le_halfwayAbove
      _ ≤ 3 * greatestUnits * 2 ^ 924 := Nat.mul_le_mul_right _ (halfwayAbove_le nonzero)
      _ ≤ (2 ^ 53 - 1) * 2 ^ 2045 := by decide +kernel
  unfold doubleUnits?
  rw [if_neg (short.digits_ne_zero nonzero), ← point]
  dsimp only
  rw [if_neg (by omega), if_neg (by omega), short.toBits_doubles, if_pos finite]

end IsShort

def readUnits (magnitude : Magnitude) : Nat := (shortest .even magnitude).doubleUnits?.getD 0

theorem shortest_zero {tie : Tie} (zero : magnitude.units = 0) :
    shortest tie magnitude = ⟨0, 0⟩ := by
  rw [shortest, if_pos zero]

theorem doubleUnits?_shortest (magnitude : Magnitude) :
    (shortest .even magnitude).doubleUnits? = some (readUnits magnitude) := by
  have : ∃ units, (shortest .even magnitude).doubleUnits? = some units := by
    by_cases zero : magnitude.units = 0
    · rw [shortest_zero zero, doubleUnits?, if_pos rfl]
      exact ⟨0, rfl⟩
    · obtain ⟨place, short⟩ := exists_isShort .even zero
      exact ⟨_, short.doubleUnits?_eq zero⟩
  obtain ⟨units, read⟩ := this
  rw [readUnits, read, Option.getD_some]

/-- The number is odd in its last bit, and what is read in double precision lies half way between
it and a neighbour. -/
def IsRoundedAway (magnitude : Magnitude) : Prop :=
  magnitude.units / spacing precision magnitude.units % 2 = 1 ∧
    (readUnits magnitude = halfwayBelow magnitude ∨ readUnits magnitude = halfwayAbove magnitude)

instance : Decidable (IsRoundedAway magnitude) := inferInstanceAs (Decidable (_ ∧ _))

theorem toBits_readUnits_iff (nonzero : magnitude.units ≠ 0) :
    toBits precision (readUnits magnitude) (2 ^ 925) = magnitude.units ↔
      ¬ IsRoundedAway magnitude := by
  obtain ⟨place, short⟩ := exists_isShort .even nonzero
  have read := short.doubleUnits?_eq nonzero
  rw [doubleUnits?_shortest, Option.some_inj] at read
  have above := short.toBits_le_halfwayAbove
  have below := short.halfwayBelow_le_toBits nonzero
  rw [← read] at above below
  rw [toBits_eq_iff (by decide) (Nat.two_pow_pos 925) magnitude.fits nonzero, IsRoundedAway,
    mul_two_pow_925, mul_two_pow_925, ← halfwayBelow, ← halfwayAbove]
  split <;> omega

theorem toBinary32_readUnits_iff (negative : Bool) :
    (Double.finite negative (readUnits magnitude)).toBinary32 = .finite negative magnitude ↔
      ¬ IsRoundedAway magnitude := by
  rw [Double.toBinary32]
  by_cases zero : magnitude.units = 0
  · have none : readUnits magnitude = 0 := by
      rw [readUnits, shortest_zero zero, doubleUnits?, if_pos rfl, Option.getD_some]
    have read : readUnits magnitude = magnitude.units * 2 ^ 925 := by
      simp only [none, zero, Nat.zero_mul]
    rw [ofQuotient_eq negative magnitude (Nat.two_pow_pos 925) read]
    simp [IsRoundedAway, zero]
  · rw [ofQuotient_eq_finite_iff, toBits_readUnits_iff zero]

end ExperienceReplay.Decimal

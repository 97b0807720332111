import ExperienceReplay.Binary32.Arithmetic

/-!
The order of binary32 numbers. Not-a-number compares with nothing, so each law goes through the
positions of the numbers that do compare.
-/

namespace ExperienceReplay.Binary32

theorem lt_iff_rank {a b : Binary32} :
    a < b ↔ ∃ x y, a.rank? = some x ∧ b.rank? = some y ∧ x < y := by
  change compareBy _ a b = true ↔ _
  unfold compareBy
  cases a.rank? <;> cases b.rank? <;> simp

theorem le_iff_rank {a b : Binary32} :
    a ≤ b ↔ ∃ x y, a.rank? = some x ∧ b.rank? = some y ∧ x ≤ y := by
  change compareBy _ a b = true ↔ _
  unfold compareBy
  cases a.rank? <;> cases b.rank? <;> simp

theorem exists_rank {a : Binary32} (number : a ≠ nan) : ∃ x, a.rank? = some x := by
  cases a with
  | nan => exact absurd rfl number
  | infinite negative => exact ⟨_, rfl⟩
  | finite negative magnitude => exact ⟨_, rfl⟩

theorem le_refl {a : Binary32} (number : a ≠ nan) : a ≤ a := by
  obtain ⟨x, hx⟩ := exists_rank number
  exact le_iff_rank.2 ⟨x, x, hx, hx, Int.le_refl x⟩

theorem lt_irrefl (a : Binary32) : ¬a < a := by
  intro less
  obtain ⟨x, y, hx, hy, less⟩ := lt_iff_rank.1 less
  obtain rfl : x = y := Option.some.inj (hx.symm.trans hy)
  exact Int.lt_irrefl x less

theorem le_of_lt {a b : Binary32} (h : a < b) : a ≤ b := by
  obtain ⟨x, y, hx, hy, less⟩ := lt_iff_rank.1 h
  exact le_iff_rank.2 ⟨x, y, hx, hy, Int.le_of_lt less⟩

theorem le_trans {a b c : Binary32} (h : a ≤ b) (h' : b ≤ c) : a ≤ c := by
  obtain ⟨x, y, hx, hy, below⟩ := le_iff_rank.1 h
  obtain ⟨y', z, hy', hz, above⟩ := le_iff_rank.1 h'
  obtain rfl : y = y' := Option.some.inj (hy.symm.trans hy')
  exact le_iff_rank.2 ⟨x, z, hx, hz, Int.le_trans below above⟩

theorem lt_of_le_of_lt {a b c : Binary32} (h : a ≤ b) (h' : b < c) : a < c := by
  obtain ⟨x, y, hx, hy, below⟩ := le_iff_rank.1 h
  obtain ⟨y', z, hy', hz, above⟩ := lt_iff_rank.1 h'
  obtain rfl : y = y' := Option.some.inj (hy.symm.trans hy')
  exact lt_iff_rank.2 ⟨x, z, hx, hz, Int.lt_of_le_of_lt below above⟩

theorem lt_of_lt_of_le {a b c : Binary32} (h : a < b) (h' : b ≤ c) : a < c := by
  obtain ⟨x, y, hx, hy, below⟩ := lt_iff_rank.1 h
  obtain ⟨y', z, hy', hz, above⟩ := le_iff_rank.1 h'
  obtain rfl : y = y' := Option.some.inj (hy.symm.trans hy')
  exact lt_iff_rank.2 ⟨x, z, hx, hz, Int.lt_of_lt_of_le below above⟩

theorem ne_nan_of_le {a b : Binary32} (h : a ≤ b) : a ≠ nan ∧ b ≠ nan := by
  obtain ⟨x, y, hx, hy, _⟩ := le_iff_rank.1 h
  refine ⟨?_, ?_⟩
  · rintro rfl
    cases hx
  · rintro rfl
    cases hy

theorem ne_nan_of_lt {a b : Binary32} (h : a < b) : a ≠ nan ∧ b ≠ nan := ne_nan_of_le (le_of_lt h)

theorem le_of_not_lt {a b : Binary32} (ha : a ≠ nan) (hb : b ≠ nan) (h : ¬b < a) : a ≤ b := by
  obtain ⟨x, hx⟩ := exists_rank ha
  obtain ⟨y, hy⟩ := exists_rank hb
  refine le_iff_rank.2 ⟨x, y, hx, hy, Int.not_lt.1 fun less => h ?_⟩
  exact lt_iff_rank.2 ⟨y, x, hy, hx, less⟩

theorem same_of_le_of_le {a b : Binary32} (h : a ≤ b) (h' : b ≤ a) : a.same b = true := by
  obtain ⟨x, y, hx, hy, below⟩ := le_iff_rank.1 h
  obtain ⟨y', x', hy', hx', above⟩ := le_iff_rank.1 h'
  obtain rfl : y = y' := Option.some.inj (hy.symm.trans hy')
  obtain rfl : x = x' := Option.some.inj (hx.symm.trans hx')
  simp only [same, compareBy, hx, hy, decide_eq_true_eq]
  omega

theorem finite_lt_finite {a b : Magnitude} :
    finite false a < finite false b ↔ a.units < b.units := by
  rw [lt_iff_rank]
  simp [rank?]

theorem finite_le_finite {a b : Magnitude} :
    finite false a ≤ finite false b ↔ a.units ≤ b.units := by
  rw [le_iff_rank]
  simp [rank?]

theorem zero_le_finite (a : Magnitude) : 0 ≤ finite false a := finite_le_finite.2 (Nat.zero_le _)

theorem zero_lt_finite {a : Magnitude} : 0 < finite false a ↔ 0 < a.units := finite_lt_finite

theorem Magnitude.ext {m n : Magnitude} (units : m.units = n.units) : m = n := by
  cases m
  cases n
  cases units
  rfl

theorem units_lt_infinity (m : Magnitude) : (m.units : Int) < 2 ^ 277 := by
  have fits := m.le_greatest
  have large : greatestUnits < 2 ^ 250 * 2 ^ 27 := by decide
  have same : (2 : Int) ^ 277 = 2 ^ 250 * 2 ^ 27 := by rw [← Int.pow_add]
  omega

theorem eq_of_rank?_pos {a : Binary32} {x : Int} (positive : 0 < x) (ha : a.rank? = some x) :
    a = infinity ∧ x = 2 ^ 277 ∨ ∃ m : Magnitude, a = finite false m ∧ x = m.units := by
  cases a with
  | nan => cases ha
  | infinite negative =>
    obtain rfl := Option.some.inj ha
    cases negative with
    | false => exact Or.inl ⟨rfl, rfl⟩
    | true =>
      have : (0 : Int) < -2 ^ 277 := positive
      omega
  | finite negative m =>
    obtain rfl := Option.some.inj ha
    cases negative with
    | false => exact Or.inr ⟨m, rfl, rfl⟩
    | true =>
      have : (0 : Int) < -m.units := positive
      omega

theorem eq_of_le_of_le {a b : Binary32} (positive : 0 < a) (h : a ≤ b) (h' : b ≤ a) : a = b := by
  obtain ⟨x, y, hx, hy, below⟩ := le_iff_rank.1 h
  obtain ⟨y', x', hy', hx', above⟩ := le_iff_rank.1 h'
  obtain ⟨zero, z, hzero, hz, above_zero⟩ := lt_iff_rank.1 positive
  obtain rfl : 0 = zero := Option.some.inj hzero
  obtain rfl : x = x' := Option.some.inj (hx.symm.trans hx')
  obtain rfl : x = z := Option.some.inj (hx.symm.trans hz)
  obtain rfl : y = y' := Option.some.inj (hy.symm.trans hy')
  obtain rfl : x = y := Int.le_antisymm below above
  rcases eq_of_rank?_pos above_zero hx with ⟨rfl, large⟩ | ⟨m, rfl, units⟩ <;>
    rcases eq_of_rank?_pos above_zero hy with ⟨rfl, large'⟩ | ⟨n, rfl, units'⟩
  · rfl
  · exact absurd (units_lt_infinity n) (by omega)
  · exact absurd (units_lt_infinity m) (by omega)
  · obtain rfl : m = n := Magnitude.ext (by omega)
    rfl

theorem le_infinity {a : Binary32} (number : a ≠ nan) : a ≤ infinity := by
  obtain ⟨x, hx⟩ := exists_rank number
  refine le_iff_rank.2 ⟨x, 2 ^ 277, hx, rfl, ?_⟩
  cases a with
  | nan => exact absurd rfl number
  | infinite negative =>
    obtain rfl := Option.some.inj hx
    split <;> omega
  | finite negative magnitude =>
    have := units_lt_infinity magnitude
    obtain rfl := Option.some.inj hx
    split <;> omega

theorem ofQuotient_eq_finite_iff {negative : Bool} {num den : Nat} {magnitude : Magnitude} :
    ofQuotient negative num den = .finite negative magnitude ↔
      Rounding.toBits precision num den = magnitude.units := by
  unfold ofQuotient
  split
  next =>
    cases magnitude with
    | mk units fits le_greatest => simp
  next above =>
    refine iff_of_false nofun fun same => ?_
    rw [same] at above
    exact above magnitude.le_greatest

theorem same_ofQuotient_iff {negative : Bool} {num den : Nat} {magnitude : Magnitude} :
    (ofQuotient negative num den).same (.finite negative magnitude) = true ↔
      ofQuotient negative num den = .finite negative magnitude := by
  have below := units_lt_infinity magnitude
  have le_greatest := magnitude.le_greatest
  rw [ofQuotient_eq_finite_iff]
  unfold ofQuotient
  split
  next =>
    simp only [same, compareBy, rank?, decide_eq_true_eq]
    split <;> omega
  next =>
    simp only [same, compareBy, rank?, decide_eq_true_eq]
    split <;> omega

theorem not_infinity_le_finite (m : Magnitude) : ¬infinity ≤ finite false m := by
  intro h
  obtain ⟨x, y, hx, hy, le⟩ := le_iff_rank.1 h
  obtain rfl : 2 ^ 277 = x := Option.some.inj hx
  obtain rfl : (m.units : Int) = y := Option.some.inj hy
  have := units_lt_infinity m
  omega

section

variable {x y z : Binary32} {a b c : Int}

theorem exists_finite_of_units? (h : x.units? = some a) :
    ∃ (negative : Bool) (m : Magnitude), x = finite negative m ∧
      a = if negative then -(m.units : Int) else m.units := by
  cases x with
  | nan => cases h
  | infinite negative => cases h
  | finite negative m => exact ⟨negative, m, rfl, (Option.some.inj h).symm⟩

theorem rank?_of_units? (h : x.units? = some a) : x.rank? = some a := by
  obtain ⟨negative, m, rfl, rfl⟩ := exists_finite_of_units? h
  rfl

theorem natAbs_units_lt_infinity (h : x.units? = some a) : a.natAbs < 2 ^ 277 := by
  obtain ⟨negative, m, rfl, rfl⟩ := exists_finite_of_units? h
  have := units_lt_infinity m
  split <;> omega

theorem lt_iff_of_units? (hx : x.units? = some a) (hy : y.units? = some b) : x < y ↔ a < b := by
  rw [lt_iff_rank, rank?_of_units? hx, rank?_of_units? hy]
  simp

theorem le_iff_of_units? (hx : x.units? = some a) (hy : y.units? = some b) : x ≤ y ↔ a ≤ b := by
  rw [le_iff_rank, rank?_of_units? hx, rank?_of_units? hy]
  simp

theorem exists_units_of_between (hx : x.units? = some a)
    (hz : z.units? = some c) (below : x ≤ y) (above : y ≤ z) :
    ∃ b, y.units? = some b ∧ a ≤ b ∧ b ≤ c := by
  obtain ⟨a', b, ha, hb, lower⟩ := le_iff_rank.1 below
  obtain ⟨b', c', hb', hc, upper⟩ := le_iff_rank.1 above
  obtain rfl : a = a' := Option.some.inj ((rank?_of_units? hx).symm.trans ha)
  obtain rfl : c = c' := Option.some.inj ((rank?_of_units? hz).symm.trans hc)
  obtain rfl : b = b' := Option.some.inj (hb.symm.trans hb')
  refine ⟨b, ?_, lower, upper⟩
  have := natAbs_units_lt_infinity hx
  have := natAbs_units_lt_infinity hz
  cases y with
  | nan => cases hb
  | infinite negative =>
    obtain rfl := Option.some.inj hb
    cases negative with
    | false =>
      have : 2 ^ 277 ≤ c := upper
      omega
    | true =>
      have : a ≤ -2 ^ 277 := lower
      omega
  | finite negative m => exact hb

end

theorem exists_finite_of_between {a : Binary32} {low high : Magnitude} (positive : 0 < low.units)
    (below : finite false low ≤ a) (above : a ≤ finite false high) :
    ∃ m : Magnitude, a = finite false m ∧ low.units ≤ m.units ∧ m.units ≤ high.units := by
  have hlow : (finite false low).units? = some (low.units : Int) := rfl
  obtain ⟨units, ha, lower, upper⟩ := exists_units_of_between hlow rfl below above
  obtain ⟨negative, m, rfl, rfl⟩ := exists_finite_of_units? ha
  cases negative with
  | false => exact ⟨m, rfl, Int.ofNat_le.1 lower, Int.ofNat_le.1 upper⟩
  | true =>
    have : (low.units : Int) ≤ -m.units := lower
    omega

/-- A number from `[0, 1)` is finite; the negative zero is the only one with a sign. -/
theorem exists_finite_of_share {a : Binary32} (nonneg : 0 ≤ a) (below : a < 1) :
    ∃ (negative : Bool) (m : Magnitude), a = finite negative m ∧
      (negative = true → m.units = 0) ∧ m.units < unitsPerOne := by
  have zero : (0 : Binary32).units? = some 0 := rfl
  have one : (1 : Binary32).units? = some (unitsPerOne : Int) := rfl
  obtain ⟨units, ha, lower, _⟩ := exists_units_of_between zero one nonneg (le_of_lt below)
  have less := (lt_iff_of_units? ha one).1 below
  obtain ⟨negative, m, rfl, rfl⟩ := exists_finite_of_units? ha
  cases negative with
  | false => exact ⟨false, m, rfl, nofun, Int.ofNat_lt.1 less⟩
  | true =>
    have : (0 : Int) ≤ -m.units := lower
    exact ⟨true, m, rfl, fun _ => by omega, by rw [show m.units = 0 by omega]; decide⟩

theorem lesser_le_lesser {a b : Binary32} (h : a ≤ b) (c : Binary32) : a.lesser c ≤ b.lesser c := by
  obtain ⟨ha, hb⟩ := ne_nan_of_le h
  unfold lesser
  rw [if_neg ha, if_neg hb]
  split
  next under =>
    rw [if_pos (lt_of_lt_of_le under h)]
    exact le_refl (ne_nan_of_lt under).1
  next notUnder =>
    split
    next under => exact le_of_not_lt ha (ne_nan_of_lt under).1 notUnder
    next => exact h

theorem greater_le_greater {a b : Binary32} (h : a ≤ b) (c : Binary32) :
    a.greater c ≤ b.greater c := by
  obtain ⟨ha, hb⟩ := ne_nan_of_le h
  unfold greater
  rw [if_neg ha, if_neg hb]
  split
  next exceeds =>
    have number := (ne_nan_of_lt exceeds).2
    split
    next => exact le_refl number
    next notExceeds => exact le_of_not_lt number hb notExceeds
  next notExceeds =>
    rw [if_neg fun exceeds => notExceeds (lt_of_le_of_lt h exceeds)]
    exact h

theorem lesser_eq_or (a b : Binary32) : a.lesser b = a ∨ a.lesser b = b := by
  unfold lesser
  split
  · exact Or.inr rfl
  · split
    · exact Or.inr rfl
    · exact Or.inl rfl

theorem greater_eq_or (a b : Binary32) : a.greater b = a ∨ a.greater b = b := by
  unfold greater
  split
  · exact Or.inr rfl
  · split
    · exact Or.inr rfl
    · exact Or.inl rfl

theorem lesser_le_left {a b : Binary32} (number : a ≠ nan) : a.lesser b ≤ a := by
  unfold lesser
  rw [if_neg number]
  split
  next less => exact le_of_lt less
  next => exact le_refl number

theorem lesser_le_right {a b : Binary32} (number : b ≠ nan) : a.lesser b ≤ b := by
  unfold lesser
  split
  next => exact le_refl number
  next ha =>
    split
    next => exact le_refl number
    next h => exact le_of_not_lt ha number h

theorem le_greater_left {a b : Binary32} (number : a ≠ nan) : a ≤ a.greater b := by
  unfold greater
  rw [if_neg number]
  split
  next less => exact le_of_lt less
  next => exact le_refl number

theorem le_greater_right {a b : Binary32} (number : b ≠ nan) : b ≤ a.greater b := by
  unfold greater
  split
  next => exact le_refl number
  next ha =>
    split
    next => exact le_refl number
    next h => exact le_of_not_lt number ha h

end ExperienceReplay.Binary32

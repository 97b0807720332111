import ExperienceReplay.Proofs.Annealing
import ExperienceReplay.Proofs.Binary32.Midpoint

/-!
The way of an annealed exponent from one end to the other. Main statement: it moves in one direction
and stays between the ends, unless the share of the way that is done is rounded to the whole before
the last update and the way itself was rounded beyond the end. Up to `2 ^ 24` updates no such share
is rounded to the whole.
-/

namespace ExperienceReplay

open Binary32 (unitsPerOne precision)

theorem Binary32.hasUnits_ofNat {n : Nat} (small : n ≤ 2 ^ precision) :
    (ofNat n).HasUnits (n * unitsPerOne) := by
  have fits : Rounding.Fits precision (n * unitsPerOne) :=
    Rounding.fits_mul_two_pow (by decide) small
  have le_greatest : n * unitsPerOne ≤ greatestUnits :=
    (Nat.mul_le_mul_right unitsPerOne small).trans (by decide)
  rw [ofNat, ofQuotient_eq false ⟨_, fits, le_greatest⟩ Nat.one_pos (Nat.mul_one _).symm]
  exact hasUnits_finite _

/-- What lies between counts that are rounded to one number is rounded to that number too. -/
theorem Binary32.ofNat_eq_of_between {j k n : Nat} (positive : 0 < ofNat n) (le : j ≤ k)
    (le' : k ≤ n) (same : ofNat j = ofNat n) : ofNat k = ofNat n := by
  symm
  apply eq_of_le_of_le positive
  · rw [← same]
    exact ofNat_le_ofNat le
  · exact ofNat_le_ofNat le'

namespace Annealing

variable {annealing : Annealing} {j k a b r p q : Nat} {d : Int}

/-- From the initial exponent to the final one, and never back or beyond. -/
structure Approaches (annealing : Annealing) : Prop where
  begins : 0 < annealing.updatesFinal → (annealing.betaAt 0).same annealing.initial = true
  rises : annealing.initial ≤ annealing.final → ∀ k, annealing.initial ≤ annealing.betaAt k ∧
    annealing.betaAt k ≤ annealing.final ∧ annealing.betaAt k ≤ annealing.betaAt (k + 1)
  falls : annealing.final ≤ annealing.initial → ∀ k, annealing.final ≤ annealing.betaAt k ∧
    annealing.betaAt k ≤ annealing.initial ∧ annealing.betaAt (k + 1) ≤ annealing.betaAt k

structure NotPassed (annealing : Annealing) (beta : Binary32) : Prop where
  rising : annealing.initial ≤ annealing.final → beta ≤ annealing.final
  falling : annealing.final ≤ annealing.initial → annealing.final ≤ beta

theorem Way.betaAt_le_betaAt (way : annealing.Way p q d) {a' b' r' : Nat}
    (counts : annealing.Counts j a b r) (counts' : annealing.Counts k a' b' r')
    (ordered : d * r ≤ d * r') : annealing.betaAt j ≤ annealing.betaAt k := by
  obtain ⟨s, hs, _⟩ := way.exists_step counts
  obtain ⟨s', hs', _⟩ := way.exists_step counts'
  have steps := (Binary32.le_iff_of_units? hs hs').1
    (Binary32.mul_le_mul way.way counts.share way.way counts'.share ordered)
  rw [betaAt_of_lt counts.before, betaAt_of_lt counts'.before]
  exact (Binary32.isRounded_add way.initial hs).le (Binary32.isRounded_add way.initial hs')
    Nat.one_pos Nat.one_pos (by omega)

theorem Counts.share_le_share {a' b' r' : Nat} (counts : annealing.Counts j a b r)
    (counts' : annealing.Counts k a' b' r') (le : j ≤ k) : r ≤ r' := by
  have done := (counts.done.le_iff counts'.done).1 (Binary32.ofNat_le_ofNat le)
  refine (counts.share.le_iff counts'.share).1 (Binary32.div_le_div counts.done counts'.done
    counts.all counts.all counts.positive counts.positive ?_)
  exact_mod_cast Nat.mul_le_mul_right b done

theorem Way.zero_le_way (way : annealing.Way p q d) (up : annealing.initial ≤ annealing.final) :
    0 ≤ d := by
  have := (way.initial.le_iff way.final).1 up
  refine (Binary32.le_iff_of_units? Binary32.hasUnits_zero way.way).1 ?_
  exact (Binary32.isRounded_sub way.final way.initial).le_units Binary32.hasUnits_zero Nat.one_pos
    (by omega)

theorem Way.way_le_zero (way : annealing.Way p q d) (down : annealing.final ≤ annealing.initial) :
    d ≤ 0 := by
  have := (way.final.le_iff way.initial).1 down
  refine (Binary32.le_iff_of_units? way.way Binary32.hasUnits_zero).1 ?_
  exact (Binary32.isRounded_sub way.final way.initial).units_le Binary32.hasUnits_zero Nat.one_pos
    (by omega)

theorem Sound.betaAt_mono (sound : annealing.Sound) (up : annealing.initial ≤ annealing.final)
    (le : j ≤ k) (before : k < annealing.updatesFinal) :
    annealing.betaAt j ≤ annealing.betaAt k := by
  obtain ⟨p, q, d, way⟩ := sound.exists_way
  obtain ⟨a, b, r, counts⟩ := sound.exists_counts (Nat.lt_of_le_of_lt le before)
  obtain ⟨a', b', r', counts'⟩ := sound.exists_counts before
  apply way.betaAt_le_betaAt counts counts'
  have shares := counts.share_le_share counts' le
  exact Int.mul_le_mul_of_nonneg_left (by omega) (way.zero_le_way up)

theorem Sound.betaAt_anti (sound : annealing.Sound) (down : annealing.final ≤ annealing.initial)
    (le : j ≤ k) (before : k < annealing.updatesFinal) :
    annealing.betaAt k ≤ annealing.betaAt j := by
  obtain ⟨p, q, d, way⟩ := sound.exists_way
  obtain ⟨a, b, r, counts⟩ := sound.exists_counts (Nat.lt_of_le_of_lt le before)
  obtain ⟨a', b', r', counts'⟩ := sound.exists_counts before
  apply way.betaAt_le_betaAt counts' counts
  have shares := counts.share_le_share counts' le
  exact Int.mul_le_mul_of_nonpos_left (way.way_le_zero down) (by omega)

theorem Sound.betaAt_zero (sound : annealing.Sound) (before : 0 < annealing.updatesFinal) :
    annealing.betaAt 0 ≤ annealing.initial ∧ annealing.initial ≤ annealing.betaAt 0 := by
  obtain ⟨p, q, d, way⟩ := sound.exists_way
  obtain ⟨a, b, r, counts⟩ := sound.exists_counts before
  obtain ⟨s, hs, _⟩ := way.exists_step counts
  have nothing : (Binary32.ofNat 0).HasUnits 0 := rfl
  have noShare :=
    (Binary32.isRounded_div nothing counts.all counts.positive).natAbs_units counts.share
  obtain rfl : r = 0 := by simpa using noShare
  have noStep := (Binary32.isRounded_mul way.way counts.share).natAbs_units hs
  obtain rfl : s = 0 := by simpa using noStep
  have rounded := Binary32.isRounded_add way.initial hs
  rw [betaAt_of_lt before]
  exact ⟨rounded.units_le way.initial Nat.one_pos (by omega),
    rounded.le_units way.initial Nat.one_pos (by omega)⟩

/-- A share of the way that is not rounded to the whole falls short of it by a part in `2 ^ 24`. -/
theorem Counts.share_mul_two_pow_le (counts : annealing.Counts k a b r) (distinct : a ≠ b) :
    r * 2 ^ precision ≤ (2 ^ precision - 1) * unitsPerOne := by
  obtain ⟨m, rfl⟩ := counts.done.exists_magnitude
  obtain ⟨n, rfl⟩ := counts.all.exists_magnitude
  have short := m.fits.mul_two_pow_le n.fits (Nat.lt_of_le_of_ne counts.le distinct)
  have one : unitsPerOne = 2 ^ precision * 2 ^ 125 := by decide
  have last := Binary32.hasUnits_finite ⟨(2 ^ precision - 1) * 2 ^ 125, by decide, by decide⟩
  have exact : m.units * unitsPerOne ≤ (2 ^ precision - 1) * 2 ^ 125 * n.units :=
    calc m.units * unitsPerOne = m.units * 2 ^ precision * 2 ^ 125 := by rw [one, Nat.mul_assoc]
      _ ≤ (2 ^ precision - 1) * n.units * 2 ^ 125 := Nat.mul_le_mul_right _ short
      _ = (2 ^ precision - 1) * 2 ^ 125 * n.units := Nat.mul_right_comm _ _ _
  have atMost := (counts.share.le_iff last).1
    ((Binary32.isRounded_div counts.done counts.all counts.positive).units_le last counts.positive
      (by exact_mod_cast exact))
  calc r * 2 ^ precision ≤ (2 ^ precision - 1) * 2 ^ 125 * 2 ^ precision :=
        Nat.mul_le_mul_right _ atMost
    _ = (2 ^ precision - 1) * unitsPerOne := by rw [one, Nat.mul_assoc, Nat.mul_comm (2 ^ 125)]

/-- Such a share takes back what rounding added to the way. -/
theorem Way.notPassed_betaAt (way : annealing.Way p q d) (counts : annealing.Counts k a b r)
    (distinct : a ≠ b) : annealing.NotPassed (annealing.betaAt k) := by
  obtain ⟨s, hs, _⟩ := way.exists_step counts
  have length := (Binary32.isRounded_sub way.final way.initial).natAbs_units way.way
  have step := (Binary32.isRounded_mul way.way counts.share).natAbs_units hs
  rw [Int.natAbs_mul, Int.natAbs_natCast, length] at step
  have short : s.natAbs ≤ ((q : Int) - p).natAbs := by
    rw [step]
    exact Rounding.toBits_share_le (by decide) (by decide) (counts.share_mul_two_pow_le distinct)
  have rounded := Binary32.isRounded_add way.initial hs
  rw [betaAt_of_lt counts.before]
  constructor
  · intro up
    have := (way.initial.le_iff way.final).1 up
    exact rounded.units_le way.final Nat.one_pos (by omega)
  · intro down
    have := (way.final.le_iff way.initial).1 down
    exact rounded.le_units way.final Nat.one_pos (by omega)

theorem Way.betaAt_eq_add (way : annealing.Way p q d) (counts : annealing.Counts k a b r)
    (same : Binary32.ofNat k = Binary32.ofNat annealing.updatesFinal) :
    annealing.betaAt k = annealing.initial + (annealing.final - annealing.initial) := by
  obtain ⟨n, all, rfl⟩ := counts.all.exists_finite counts.positive
  obtain ⟨negative, m, rounded, _⟩ := Binary32.exists_finite_of_units? way.way
  rw [betaAt_of_lt counts.before, share, same, all, Binary32.div_self_finite counts.positive,
    rounded, Binary32.finite_mul_one]

theorem Counts.ofNat_eq_iff (counts : annealing.Counts k a b r) :
    Binary32.ofNat k = Binary32.ofNat annealing.updatesFinal ↔ a = b := by
  constructor
  · intro same
    have all := counts.all
    rw [← same] at all
    exact Int.ofNat.inj (Option.some.inj (counts.done.symm.trans all))
  · rintro rfl
    apply Binary32.eq_of_le_of_le ((Binary32.hasUnits_zero.lt_iff counts.done).2 counts.positive)
    · exact (counts.done.le_iff counts.all).2 le_rfl
    · exact (counts.all.le_iff counts.done).2 le_rfl

theorem toward_final (le : Binary32 → Binary32 → Prop)
    (trans : ∀ {x y z}, le x y → le y z → le x z) (refl : le annealing.final annealing.final)
    (ends : le annealing.initial annealing.final)
    (start : 0 < annealing.updatesFinal → le annealing.initial (annealing.betaAt 0))
    (ordered : ∀ {j k}, j ≤ k → k < annealing.updatesFinal →
      le (annealing.betaAt j) (annealing.betaAt k))
    (short : ∀ k < annealing.updatesFinal, le (annealing.betaAt k) annealing.final) (k : Nat) :
    le annealing.initial (annealing.betaAt k) ∧ le (annealing.betaAt k) annealing.final ∧
      le (annealing.betaAt k) (annealing.betaAt (k + 1)) := by
  rcases Nat.lt_or_ge k annealing.updatesFinal with before | done
  · have beyond := trans (start (Nat.zero_lt_of_lt before)) (ordered (Nat.zero_le k) before)
    refine ⟨beyond, short k before, ?_⟩
    rcases Nat.lt_or_ge (k + 1) annealing.updatesFinal with before' | done'
    · exact ordered (Nat.le_succ k) before'
    · rw [betaAt_of_le done']
      exact short k before
  · rw [betaAt_of_le done, betaAt_of_le (Nat.le_succ_of_le done)]
    exact ⟨ends, refl, refl⟩

theorem Sound.approaches_of_notPassed (sound : annealing.Sound)
    (short : ∀ k < annealing.updatesFinal, annealing.NotPassed (annealing.betaAt k)) :
    annealing.Approaches where
  begins before := by
    obtain ⟨below, above⟩ := sound.betaAt_zero before
    exact Binary32.same_of_le_of_le below above
  rises up := toward_final (· ≤ ·) Binary32.le_trans
    (Binary32.le_refl (Binary32.ne_nan_of_le up).2) up (fun before => (sound.betaAt_zero before).2)
    (sound.betaAt_mono up) fun k before => (short k before).rising up
  falls down k := by
    obtain ⟨atMost, atLeast, next⟩ := toward_final (fun x y => y ≤ x)
      (fun h h' => Binary32.le_trans h' h) (Binary32.le_refl (Binary32.ne_nan_of_le down).1) down
      (fun before => (sound.betaAt_zero before).1) (sound.betaAt_anti down)
      (fun k before => (short k before).falling down) k
    exact ⟨atLeast, atMost, next⟩

/-- The exponent approaches the final one, unless the last count is rounded to the whole and the
rounded way leads beyond the end. -/
theorem Sound.approaches_iff (sound : annealing.Sound) :
    annealing.Approaches ↔
      (0 < annealing.updatesFinal →
        Binary32.ofNat (annealing.updatesFinal - 1) = Binary32.ofNat annealing.updatesFinal →
        annealing.NotPassed (annealing.initial + (annealing.final - annealing.initial))) := by
  obtain ⟨p, q, d, way⟩ := sound.exists_way
  constructor
  · intro approaches positive same
    obtain ⟨a, b, r, counts⟩ := sound.exists_counts (Nat.sub_one_lt_of_lt positive)
    rw [← way.betaAt_eq_add counts same]
    exact ⟨fun up => (approaches.rises up _).2.1, fun down => (approaches.falls down _).1⟩
  · -- a count that is rounded to the count of all makes the last count be so, too
    intro last
    apply sound.approaches_of_notPassed
    intro k before
    obtain ⟨a, b, r, counts⟩ := sound.exists_counts before
    by_cases equal : a = b
    · have same := counts.ofNat_eq_iff.2 equal
      rw [way.betaAt_eq_add counts same]
      exact last (Nat.zero_lt_of_lt before) (Binary32.ofNat_eq_of_between
        ((Binary32.hasUnits_zero.lt_iff counts.all).2 counts.positive)
        (Nat.le_sub_one_of_lt before) (Nat.sub_le _ 1) same)
    · exact way.notPassed_betaAt counts equal

theorem Sound.approaches_of_small (sound : annealing.Sound)
    (small : annealing.updatesFinal ≤ 2 ^ precision) : annealing.Approaches := by
  rw [sound.approaches_iff]
  intro positive same
  have last := Binary32.hasUnits_ofNat ((Nat.sub_le annealing.updatesFinal 1).trans small)
  rw [same] at last
  have less := ((Binary32.hasUnits_ofNat small).le_iff last).1
    (Binary32.le_refl (Binary32.ne_nan_of_units? last))
  have := Nat.le_of_mul_le_mul_right less (by decide)
  omega

end Annealing

end ExperienceReplay

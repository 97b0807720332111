import ExperienceReplay.Buffer.Rescoring
import ExperienceReplay.Proofs.SegmentTree.Minima
import ExperienceReplay.Proofs.SegmentTree.Sums
import ExperienceReplay.Proofs.SegmentTree.Writes

/-!
The trees of a buffer. Both hold the same weights, and are neutral where a slot has none. Weights
have full precision and are small enough for the sum of all leaves to be finite.
-/

namespace ExperienceReplay

open Binary32 (Magnitude finite greatestUnits precision unitsPerOne)

def greatestWeightUnits (height : Nat) : Nat := (2 ^ 24 - 1) * 2 ^ (252 - height)

theorem fits_greatestWeightUnits (height : Nat) :
    Rounding.Fits precision (greatestWeightUnits height) :=
  Rounding.fits_mul_two_pow (by decide) (by decide)

theorem two_pow_mul_greatestWeightUnits {height : Nat} (small : height ≤ 126) :
    2 ^ height * greatestWeightUnits height ≤ greatestUnits := by
  have whole : 2 ^ height * 2 ^ (252 - height) = 2 ^ 252 := by
    rw [← Nat.pow_add]
    congr 1
    omega
  unfold greatestWeightUnits greatestUnits
  rw [Nat.mul_left_comm, whole]
  decide

theorem greatestWeightUnits_le (height : Nat) : greatestWeightUnits height ≤ greatestUnits :=
  Nat.mul_le_mul_left _ (Nat.pow_le_pow_right (by decide) (by omega))

theorem unitsPerOne_le_greatestWeightUnits {height : Nat} (small : height ≤ 126) :
    unitsPerOne ≤ greatestWeightUnits height :=
  calc unitsPerOne ≤ (2 ^ 24 - 1) * 2 ^ 126 := by decide
    _ ≤ greatestWeightUnits height :=
      Nat.mul_le_mul_left _ (Nat.pow_le_pow_right (by decide) (by omega))

/-- What a slot may weigh: a number of full precision, no greater than the greatest weight. -/
def IsWeight (height : Nat) (x : Binary32) : Prop :=
  ∃ m : Magnitude, x = finite false m ∧ 2 ^ 23 ≤ m.units ∧ m.units ≤ greatestWeightUnits height

theorem IsWeight.isAmount {height : Nat} {x : Binary32} (weight : IsWeight height x) :
    x.IsAmount (greatestWeightUnits height) := by
  obtain ⟨m, equal, _, below⟩ := weight
  exact ⟨m, equal, below⟩

theorem isWeight_one {height : Nat} (small : height ≤ 126) : IsWeight height 1 :=
  ⟨⟨unitsPerOne, by decide, by decide⟩, rfl, by decide, unitsPerOne_le_greatestWeightUnits small⟩

theorem Buffer.greatestWeight_eq {buffer : Buffer} (small : buffer.sums.height ≤ 126) :
    buffer.greatestWeight = finite false ⟨greatestWeightUnits buffer.sums.height,
      fits_greatestWeightUnits _, greatestWeightUnits_le _⟩ := by
  have leaves : 2 * buffer.sums.size = 1 * 2 ^ (buffer.sums.height + 1) := by
    unfold SegmentTree.size
    ring
  unfold greatestWeight
  rw [leaves]
  generalize buffer.sums.height = height at small ⊢
  have le : 1 * 2 ^ (height + 150) ≤ greatestUnits :=
    calc 1 * 2 ^ (height + 150) ≤ 1 * 2 ^ (23 + 253) :=
          Nat.mul_le_mul_left _ (Nat.pow_le_pow_right (by decide) (by omega))
      _ = 2 ^ 23 * 2 ^ 253 := (Nat.one_mul _).trans (Nat.pow_add 2 23 253)
      _ ≤ greatestUnits := Nat.mul_le_mul_right _ (by decide)
  obtain ⟨count, units⟩ : ∃ m : Magnitude, m.units = 1 * 2 ^ (height + 150) :=
    ⟨⟨_, Rounding.fits_mul_two_pow (by decide) (by decide), le⟩, rfl⟩
  have exact : Binary32.ofNat (1 * 2 ^ (height + 1)) = finite false count := by
    apply Binary32.ofQuotient_eq false count Nat.one_pos
    rw [units, unitsPerOne]
    ring
  have positive : 0 < count.units := by
    rw [units]
    positivity
  have whole : 2 ^ (252 - height) * 2 ^ (height + 150) = 2 ^ 253 * 2 ^ 149 := by
    rw [← Nat.pow_add, ← Nat.pow_add]
    congr 1
    omega
  rw [exact]
  change finite false ⟨greatestUnits, _, _⟩ / finite false count = _
  rw [Binary32.div_finite _ positive]
  apply Binary32.ofQuotient_eq false _ positive
  simp only [units, greatestWeightUnits, greatestUnits, unitsPerOne]
  rw [Nat.one_mul, Nat.mul_assoc, Nat.mul_assoc, whole]

theorem Buffer.isWeight_of_isScorable [Power] {buffer : Buffer} {priority : Binary32}
    (small : buffer.sums.height ≤ 126) (scorable : buffer.isScorable priority) :
    IsWeight buffer.sums.height (Power.pow priority buffer.alpha) := by
  unfold isScorable at scorable
  simp only [Bool.and_eq_true, decide_eq_true_eq] at scorable
  obtain ⟨⟨_, normal⟩, below⟩ := scorable
  rw [greatestWeight_eq small] at below
  exact Binary32.exists_finite_of_between (by decide) normal below

structure Weights (sums : SumTree) (mins : MinTree) (weighed : Nat → Prop) : Prop where
  height_eq : mins.height = sums.height
  small : sums.height ≤ 126
  sums_combined : sums.root.Combined .sum
  mins_combined : mins.root.Combined .min
  weight : ∀ slot < sums.size, weighed slot →
    IsWeight sums.height (sums.root.get slot) ∧ mins.root.get slot = sums.root.get slot
  neutral : ∀ slot < sums.size, ¬weighed slot →
    sums.root.get slot = 0 ∧ mins.root.get slot = .infinity

namespace Weights

variable {sums : SumTree} {mins : MinTree} {weighed : Nat → Prop}

theorem ofCapacity {capacity : Nat} (word : capacity < 2 ^ 64) :
    Weights (.ofCapacity _ capacity) (.ofCapacity _ capacity) fun _ => False where
  height_eq := rfl
  small := Nat.le_trans (ceilLog2_le (Nat.le_of_lt word)) (by decide)
  sums_combined := PerfectTree.combined_replicate rfl _
  mins_combined := PerfectTree.combined_replicate (Operation.min_self _) _
  weight _ _ := False.elim
  neutral slot _ _ := ⟨PerfectTree.get_replicate _ _ slot, PerfectTree.get_replicate _ _ slot⟩

theorem congr {weighed' : Nat → Prop} (weights : Weights sums mins weighed)
    (same : ∀ slot, weighed slot ↔ weighed' slot) : Weights sums mins weighed' := by
  obtain rfl : weighed = weighed' := funext fun slot => propext (same slot)
  exact weights

theorem size_eq (weights : Weights sums mins weighed) : mins.size = sums.size := by
  unfold SegmentTree.size
  rw [weights.height_eq]

theorem write (weights : Weights sums mins weighed) {x : Binary32}
    (weight : IsWeight sums.height x) {slot : Nat} (inside : slot < sums.size) :
    Weights (sums.write slot x .replace) (mins.write slot x .replace)
      fun other => weighed other ∨ other = slot := by
  have inside' : slot < mins.size := by rwa [weights.size_eq]
  have leaves : ∀ other < sums.size,
      (sums.write slot x .replace).root.get other =
        (if slot = other then x else sums.root.get other) ∧
      (mins.write slot x .replace).root.get other =
        if slot = other then x else mins.root.get other :=
    fun other below => ⟨SegmentTree.get_write_replace sums x inside below,
      SegmentTree.get_write_replace mins x inside' (by rwa [weights.size_eq])⟩
  exact {
    height_eq := weights.height_eq
    small := weights.small
    sums_combined := weights.sums_combined.modify _ slot
    mins_combined := weights.mins_combined.modify _ slot
    weight := by
      intro other below has
      obtain ⟨inSums, inMins⟩ := leaves other below
      rw [inSums, inMins]
      split
      next => exact ⟨weight, rfl⟩
      next different =>
        exact weights.weight other below (has.resolve_right fun same => different same.symm)
    neutral := by
      intro other below has
      obtain ⟨before, different⟩ := not_or.1 has
      obtain ⟨inSums, inMins⟩ := leaves other below
      rw [inSums, inMins, if_neg (Ne.symm different), if_neg (Ne.symm different)]
      exact weights.neutral other below before }

theorem writeAll (weights : Weights sums mins weighed) {entries : List (Nat × Binary32)}
    (inside : ∀ entry ∈ entries, entry.1 < sums.size ∧ IsWeight sums.height entry.2) :
    Weights (sums.writeAll entries) (mins.writeAll entries)
      fun slot => weighed slot ∨ slot ∈ entries.map Prod.fst := by
  induction entries generalizing sums mins weighed with
  | nil => exact weights.congr fun slot => by simp
  | cons entry rest ih =>
    obtain ⟨⟨here, weight⟩, inside⟩ := List.forall_mem_cons.1 inside
    apply (ih (weights.write weight here) inside).congr
    intro slot
    rw [List.map_cons, List.mem_cons, or_assoc]

theorem amounts (weights : Weights sums mins weighed) :
    sums.root.Amounts (greatestWeightUnits sums.height) := by
  intro slot below
  by_cases has : weighed slot
  · exact (weights.weight slot below has).1.isAmount
  · rw [(weights.neutral slot below has).1]
    exact ⟨.zero, rfl, Nat.zero_le _⟩

theorem mins_ne_nan (weights : Weights sums mins weighed) :
    ∀ slot < 2 ^ mins.height, mins.root.get slot ≠ .nan := by
  intro slot below
  rw [weights.height_eq] at below
  by_cases has : weighed slot
  · obtain ⟨⟨m, equal, _⟩, same⟩ := weights.weight slot below has
    rw [same, equal]
    exact Binary32.noConfusion
  · rw [(weights.neutral slot below has).2]
    exact Binary32.noConfusion

theorem exists_reduce (weights : Weights sums mins weighed) {last slot : Nat}
    (inside : last < sums.size) (before : slot ≤ last) (has : weighed slot) :
    ∃ m : Magnitude, sums.reduce 0 last = .ok (finite false m) ∧ 2 ^ 23 ≤ m.units := by
  obtain ⟨m, equal, _, leaves⟩ := PerfectTree.isSumOf_foldRange (fits_greatestWeightUnits _)
    (two_pow_mul_greatestWeightUnits weights.small) weights.sums_combined weights.amounts
    (Nat.succ_pos last) inside
  obtain ⟨⟨leaf, hleaf, normal, _⟩, _⟩ := weights.weight slot (by omega) has
  refine ⟨m, ?_, normal.trans (leaves slot (by omega) leaf hleaf)⟩
  rw [SegmentTree.reduce_zero inside, equal]

theorem exists_total (weights : Weights sums mins weighed) {slot : Nat} (inside : slot < sums.size)
    (has : weighed slot) : ∃ m : Magnitude, sums.total = finite false m ∧ 2 ^ 23 ≤ m.units := by
  obtain ⟨m, equal, _, leaves⟩ := PerfectTree.isSumOf_value (fits_greatestWeightUnits _)
    (two_pow_mul_greatestWeightUnits weights.small) weights.sums_combined weights.amounts
  obtain ⟨⟨leaf, hleaf, normal, _⟩, _⟩ := weights.weight slot inside has
  exact ⟨m, equal, normal.trans (leaves slot inside leaf hleaf)⟩

end Weights

end ExperienceReplay

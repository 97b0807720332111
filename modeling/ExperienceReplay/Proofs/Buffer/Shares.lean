import ExperienceReplay.Proofs.Buffer.Runs
import ExperienceReplay.Proofs.SegmentTree.PrefixSums

/-!
The slot that a draw selects where all weights are multiples of a power of two and few enough for
every sum to be exact. Main statement: it is the slot whose share of the mass the draw falls in;
neither keeping the target below the root nor keeping the slot below the size makes a difference.
-/

namespace ExperienceReplay

open Binary32 (Magnitude finite HasUnits precision greatestUnits)
open Finset (range)

namespace Buffer

/-- Slots that were written weigh multiples of `2 ^ q` units and no other slot weighs anything; all
of them together weigh at most `2 ^ 23` times as much. -/
structure WeighsOnGrid (buffer : Buffer) (q : Nat) (units : Nat → Nat) : Prop where
  written : ∀ slot < buffer.size, ∃ leaf,
    buffer.sums.leaf slot = .ok leaf ∧ leaf.HasUnits (units slot)
  multiple : ∀ slot < buffer.size, 2 ^ q ∣ units slot
  unwritten : ∀ slot < buffer.priorityCapacity, buffer.size ≤ slot → buffer.sums.leaf slot = .ok 0
  within : ∑ slot ∈ range buffer.size, units slot ≤ 2 ^ 23 * 2 ^ q

/-- The slot for a share of the mass: the first at which the running sum exceeds the share, or the
last that was written if the share was rounded to the whole mass. A search for the share itself
finds the same slot. -/
def SlotFor (buffer : Buffer) (units : Nat → Nat) (share : Binary32) (slot : Nat) : Prop :=
  ∃ amount ≤ ∑ k ∈ range buffer.size, units k, share.HasUnits amount ∧
    (amount < ∑ k ∈ range buffer.size, units k →
      IsLeast {i | amount < ∑ k ∈ range (i + 1), units k} slot ∧
        buffer.sums.indexOfPrefixSum share = .ok slot) ∧
    (amount = ∑ k ∈ range buffer.size, units k → slot + 1 = buffer.size)

def writtenUnits (buffer : Buffer) (units : Nat → Nat) (slot : Nat) : Nat :=
  if slot < buffer.size then units slot else 0

theorem sum_writtenUnits (buffer : Buffer) (units : Nat → Nat) {n : Nat} (h : n ≤ buffer.size) :
    ∑ slot ∈ range n, buffer.writtenUnits units slot = ∑ slot ∈ range n, units slot :=
  Finset.sum_congr rfl fun slot mem => if_pos (by have := Finset.mem_range.1 mem; omega)

theorem sum_writtenUnits_of_le (buffer : Buffer) (units : Nat → Nat) {n : Nat}
    (h : buffer.size ≤ n) :
    ∑ slot ∈ range n, buffer.writtenUnits units slot = ∑ slot ∈ range buffer.size, units slot := by
  rw [← sum_writtenUnits buffer units (Nat.le_refl _)]
  exact Finset.eventually_constant_sum (fun slot beyond => if_neg (by omega)) h

variable [Power] {buffer : Buffer} {layout : RecordRing.Layout} {named : List Nat}
variable {q : Nat} {units : Nat → Nat}

theorem Sound.get_of_written (sound : buffer.Sound layout named)
    (weighs : buffer.WeighsOnGrid q units) {slot : Nat} (written : slot < buffer.size) :
    ∃ m : Magnitude, buffer.sums.root.get slot = finite false m ∧ m.units = units slot ∧
      2 ^ 23 ≤ m.units := by
  have inside := sound.size_le_sums
  obtain ⟨leaf, found, here⟩ := weighs.written slot written
  obtain ⟨⟨m, equal, normal, _⟩, _⟩ := sound.weights.weight slot (by omega) (Or.inl written)
  rw [SegmentTree.leaf_eq_ok (by omega), equal] at found
  cases found
  exact ⟨m, equal, Int.ofNat.inj (Option.some.inj here), normal⟩

omit [Power] in
theorem WeighsOnGrid.get_of_unwritten (weighs : buffer.WeighsOnGrid q units) {slot : Nat}
    (inside : slot < buffer.sums.size) (beyond : buffer.size ≤ slot) :
    buffer.sums.root.get slot = 0 :=
  Except.ok.inj ((SegmentTree.leaf_eq_ok inside).symm.trans (weighs.unwritten slot inside beyond))

theorem Sound.onGrid (sound : buffer.Sound layout named) (weighs : buffer.WeighsOnGrid q units) :
    buffer.sums.root.OnGrid q (buffer.writtenUnits units) where
  leaf slot inside := by
    unfold writtenUnits
    split
    next written =>
      obtain ⟨m, equal, same, _⟩ := sound.get_of_written weighs written
      rw [equal, ← same]
      exact Binary32.hasUnits_finite m
    next beyond =>
      rw [weighs.get_of_unwritten inside (by omega)]
      rfl
  multiple slot inside := by
    unfold writtenUnits
    split
    next written => exact weighs.multiple slot written
    next => exact Nat.dvd_zero _
  within :=
    (sum_writtenUnits_of_le buffer units sound.size_le_sums).trans_le
      (weighs.within.trans (Nat.mul_le_mul_right _ (by decide)))
  le_greatest := by
    have small : ∀ slot ∈ range (2 ^ buffer.sums.height),
        buffer.writtenUnits units slot ≤ greatestWeightUnits buffer.sums.height := by
      intro slot mem
      obtain ⟨m, equal, small⟩ := sound.weights.amounts slot (Finset.mem_range.1 mem)
      unfold writtenUnits
      split
      next written =>
        obtain ⟨m', equal', same, _⟩ := sound.get_of_written weighs written
        cases equal.symm.trans equal'
        rwa [← same]
      next => exact Nat.zero_le _
    have total := Finset.sum_le_card_nsmul _ _ _ small
    rw [Finset.card_range, nsmul_eq_mul, Nat.cast_id] at total
    exact total.trans (two_pow_mul_greatestWeightUnits sound.weights.small)

theorem Sound.exists_exact_mass (sound : buffer.Sound layout named)
    (weighs : buffer.WeighsOnGrid q units) (positive : 0 < buffer.size) :
    ∃ mass : Magnitude, buffer.totalMass = .ok (finite false mass) ∧
      buffer.sums.total = finite false mass ∧
      mass.units = ∑ slot ∈ range buffer.size, units slot ∧ 2 ^ 23 ≤ mass.units := by
  have inside := sound.size_le_sums
  obtain ⟨mass, total, normal⟩ := sound.weights.exists_total (by omega : 0 < _) (Or.inl positive)
  refine ⟨mass, totalMass_eq_ok positive ?_ (by omega), total, ?_, normal⟩
  · rw [SegmentTree.reduce_zero (by omega), Nat.sub_add_cancel positive, ← total]
    congr 1
    exact PerfectTree.foldRange_eq_value (fits_greatestWeightUnits _)
      (two_pow_mul_greatestWeightUnits sound.weights.small) sound.weights.sums_combined
      sound.weights.amounts positive inside
      fun slot beyond below => weighs.get_of_unwritten below beyond
  · have exact : buffer.sums.total.HasUnits _ :=
      (sound.onGrid weighs).hasUnits_value sound.weights.sums_combined
    rw [total] at exact
    exact (Int.ofNat.inj (Option.some.inj exact)).trans
      (sum_writtenUnits_of_le buffer units inside)

omit [Power] in
/-- Running sums go in steps of `2 ^ q`, so that the first to exceed a target less than a step below
the mass is the mass. -/
theorem WeighsOnGrid.sum_eq_of_near (weighs : buffer.WeighsOnGrid q units) {slot bound : Nat}
    (written : slot < buffer.size) (near : ∑ k ∈ range buffer.size, units k ≤ bound + 2 ^ q)
    (exceeded : bound < ∑ k ∈ range (slot + 1), units k) :
    ∑ k ∈ range (slot + 1), units k = ∑ k ∈ range buffer.size, units k := by
  have upTo {n : Nat} (h : n ≤ buffer.size) : 2 ^ q ∣ ∑ k ∈ range n, units k :=
    Finset.dvd_sum fun k mem => weighs.multiple k (by have := Finset.mem_range.1 mem; omega)
  obtain ⟨steps, part⟩ := upTo (Nat.succ_le_of_lt written)
  obtain ⟨all, whole⟩ := upTo (Nat.le_refl _)
  have less : ∑ k ∈ range (slot + 1), units k ≤ ∑ k ∈ range buffer.size, units k :=
    sum_range_mono units written
  rw [part] at exceeded less ⊢
  rw [whole] at near less ⊢
  have : 2 ^ q * all < 2 ^ q * (steps + 1) := by
    rw [Nat.mul_succ]
    omega
  have := Nat.lt_of_mul_lt_mul_left this
  have := Nat.le_of_mul_le_mul_left less (Nat.two_pow_pos q)
  congr 1
  omega

omit [Power] in
theorem WeighsOnGrid.exists_bound (weighs : buffer.WeighsOnGrid q units) {mass : Magnitude}
    (total : mass.units = ∑ slot ∈ range buffer.size, units slot) (normal : 2 ^ 23 ≤ mass.units) :
    ∃ bound : Magnitude, finite false mass * Binary32.belowOne = finite false bound ∧
      bound.units < mass.units ∧ mass.units ≤ bound.units + 2 ^ q := by
  obtain ⟨bound, product, less⟩ := Binary32.exists_mul_belowOne normal
  refine ⟨bound, product, less, ?_⟩
  have within := weighs.within
  rw [← total] at within
  have multiple : 2 ^ q ∣ mass.units := by
    rw [total]
    exact Finset.dvd_sum fun k mem => weighs.multiple k (Finset.mem_range.1 mem)
  have fits : Rounding.Fits precision (mass.units - 2 ^ q) := by
    apply Rounding.fits_of_dvd (by decide) (Nat.dvd_sub multiple (Nat.dvd_refl _))
    calc mass.units - 2 ^ q ≤ 2 ^ 23 * 2 ^ q := (Nat.sub_le _ _).trans within
      _ ≤ 2 ^ precision * 2 ^ q := Nat.mul_le_mul_right _ (by decide)
  have := Binary32.le_units_mul_belowOne product fits (by omega)
  omega

theorem Sound.exists_index (sound : buffer.Sound layout named)
    (weighs : buffer.WeighsOnGrid q units) {target : Binary32} {amount : Nat}
    (here : target.HasUnits amount) (below : amount < ∑ slot ∈ range buffer.size, units slot) :
    ∃ slot < buffer.size, buffer.sums.indexOfPrefixSum target = .ok slot ∧
      ∑ k ∈ range slot, units k ≤ amount ∧ amount < ∑ k ∈ range (slot + 1), units k := by
  have onGrid := sound.onGrid weighs
  have combined := sound.weights.sums_combined
  rw [← sum_writtenUnits_of_le buffer units sound.size_le_sums] at below
  obtain ⟨_, before, exceeded⟩ := onGrid.descend combined here below
  have found := SegmentTree.indexOfPrefixSum_eq_descend (onGrid.hasUnits_value combined) here below
  rw [sum_writtenUnits_of_le buffer units sound.size_le_sums] at below
  generalize buffer.sums.root.descend target = slot at before exceeded found
  have written : slot < buffer.size := by
    apply Nat.lt_of_not_le
    intro beyond
    rw [sum_writtenUnits_of_le buffer units beyond] at before
    omega
  rw [sum_writtenUnits buffer units (by omega)] at before exceeded
  exact ⟨slot, written, found, before, exceeded⟩

theorem Sound.exists_slotFor (sound : buffer.Sound layout named)
    (weighs : buffer.WeighsOnGrid q units) (positive : 0 < buffer.size) {mass : Magnitude}
    (total : buffer.sums.total = finite false mass)
    (exact : mass.units = ∑ slot ∈ range buffer.size, units slot) (normal : 2 ^ 23 ≤ mass.units)
    {draw : Binary32} (nonneg : 0 ≤ draw) (below : draw < 1) :
    ∃ slot, buffer.select (finite false mass) draw = .ok slot ∧
      buffer.SlotFor units (draw * finite false mass) slot := by
  obtain ⟨amount, le, here⟩ := Binary32.exists_hasUnits_mul nonneg below mass
  obtain ⟨bound, bounded, less, near⟩ := weighs.exists_bound exact normal
  rw [exact] at le less near
  obtain ⟨slot, written, found, before, exceeded⟩ := sound.exists_index weighs
    (here.lesser (Binary32.hasUnits_finite bound)) (by omega)
  -- where the bound moved the target, the slot found is where the running sum reaches the mass
  have moved : bound.units < amount →
      ∑ k ∈ range (slot + 1), units k = ∑ k ∈ range buffer.size, units k :=
    fun _ => weighs.sum_eq_of_near written near (by omega)
  have selected := select_eq_ok positive (total ▸ bounded) found
  rw [Nat.min_eq_left (by omega)] at selected
  refine ⟨slot, selected, amount, le, here, ?_, ?_⟩
  · intro part
    have first := isLeast_running_sum (by omega : ∑ k ∈ range slot, units k ≤ amount)
      (by omega : amount < ∑ k ∈ range (slot + 1), units k)
    obtain ⟨other, _, found', before', exceeded'⟩ := sound.exists_index weighs here part
    obtain rfl : other = slot := (isLeast_running_sum before' exceeded').unique first
    exact ⟨first, found'⟩
  · intro all
    by_contra notLast
    have next := moved (by omega)
    obtain ⟨m, _, same, normal⟩ := sound.get_of_written weighs (by omega : slot + 1 < buffer.size)
    have : ∑ k ∈ range (slot + 1 + 1), units k ≤ ∑ k ∈ range buffer.size, units k :=
      sum_range_mono units (by omega)
    rw [Finset.sum_range_succ] at this
    omega

/-- Whatever was asked of a buffer before, if its weights are multiples of one power of two with a
mass of at most `2 ^ 23` times as much, each draw selects the slot whose share of the mass it falls
in. -/
theorem draws_select_shares_after_build {config : Config} (word : config.capacity < 2 ^ 64)
    (one_pow : Power.pow 1 config.alpha = 1) {start : Buffer} (built : build config = .ok start)
    (requests : List Request) (holdsRecords : 0 < (start.after requests).size) {q : Nat}
    {units : Nat → Nat} (weighs : (start.after requests).WeighsOnGrid q units) :
    let buffer := start.after requests
    ∃ mass, buffer.totalMass = .ok mass ∧
      mass.HasUnits (∑ slot ∈ range buffer.size, units slot) ∧
      ∀ draws : List Binary32, (∀ draw ∈ draws, 0 ≤ draw ∧ draw < 1) →
        ∃ batch, buffer.sampleWith draws = .ok batch ∧
          List.Forall₂ (fun draw slot => buffer.SlotFor units (draw * mass) slot)
            draws batch.indices := by
  obtain ⟨layout, _, sound⟩ := exists_sound_of_build word one_pow built
  have sound := sound.after requests
  intro buffer
  obtain ⟨mass, massed, total, exact, normal⟩ := sound.exists_exact_mass weighs holdsRecords
  refine ⟨finite false mass, massed, exact ▸ Binary32.hasUnits_finite mass, fun draws shares => ?_⟩
  obtain ⟨batch, sampled, _⟩ := sound.exists_sampleWith holdsRecords shares
  refine ⟨batch, sampled, ?_⟩
  obtain ⟨mass', massed', _, selected, _⟩ := sampleWith_eq_ok_iff.1 sampled
  obtain rfl : mass' = finite false mass := Except.ok.inj (massed'.symm.trans massed)
  obtain ⟨indices, selected', slots⟩ := exists_mapM_eq_ok fun draw mem =>
    sound.exists_slotFor weighs holdsRecords total exact normal (shares draw mem).1
      (shares draw mem).2
  obtain rfl : indices = batch.indices := Except.ok.inj (selected'.symm.trans selected)
  exact slots

omit [Power] in
/-- Of two slots, the second with twice the weight of the first, zero selects the first and the
greatest share that can be drawn the second. -/
theorem draws_select_shares_after_build_rescored :
    letI := Power.linear
    ∃ start, build (.linear 3) = .ok start ∧
      let buffer := start.after [.insert (.ofList [("states", [0, 1]), ("terminals", [0, 1])]),
        .update [1] [Binary32.ofNat 2]]
      ∃ batch, buffer.sampleWith [0, Binary32.belowOne] = .ok batch ∧
        List.Forall₂ (fun draw slot =>
            buffer.SlotFor (fun slot => (slot + 1) * 2 ^ 149) (draw * Binary32.ofNat 3) slot)
          [0, Binary32.belowOne] batch.indices := by
  let _ := Power.linear
  have built : build (.linear 3) = .ok _ := rfl
  refine ⟨_, built, ?_⟩
  intro buffer
  have size : buffer.size = 2 := by decide +kernel
  have leaves : buffer.priorityCapacity = 4 := by decide +kernel
  have weighs : buffer.WeighsOnGrid 149 fun slot => (slot + 1) * 2 ^ 149 := by
    refine ⟨fun slot below => ?_, fun slot _ => Nat.dvd_mul_left _ _,
      fun slot below beyond => ?_, ?_⟩
    · rw [size] at below
      obtain rfl | rfl : slot = 0 ∨ slot = 1 := by omega
      · exact ⟨1, by decide +kernel, rfl⟩
      · exact ⟨Binary32.ofNat 2, by decide +kernel, rfl⟩
    · rw [leaves] at below
      rw [size] at beyond
      obtain rfl | rfl : slot = 2 ∨ slot = 3 := by omega
      · decide +kernel
      · decide +kernel
    · rw [size]
      decide
  obtain ⟨mass, massed, _, selects⟩ := draws_select_shares_after_build (by decide) rfl built
    [.insert (.ofList [("states", [0, 1]), ("terminals", [0, 1])]), .update [1] [Binary32.ofNat 2]]
    (by decide +kernel) weighs
  obtain rfl : mass = Binary32.ofNat 3 :=
    Except.ok.inj (massed.symm.trans (by decide +kernel))
  exact selects [0, Binary32.belowOne] (by decide)

end Buffer

end ExperienceReplay

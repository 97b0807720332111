import ExperienceReplay.Proofs.SegmentTree.Nodes
import ExperienceReplay.Proofs.SegmentTree.Shares
import ExperienceReplay.Proofs.SegmentTree.Sums

/-!
Searching a tree for a running sum. Main statement: whatever was written to a tree, if its sums are
exact, then every number from zero up to the total is found in the leaf that takes the running sum
beyond it, every other number is refused, and no leaf of weight zero is ever found.
-/

namespace ExperienceReplay

open Binary32 (HasUnits)
open Finset (range)

instance (x : Binary32) (n : Nat) : Decidable (x.HasUnits n) :=
  inferInstanceAs (Decidable (_ = _))

namespace SegmentTree

variable {tree : SumTree} {target : Binary32} {n amount i q : Nat} {units : Nat → Nat}

theorem succeeds_iff_of_total (total : tree.total.HasUnits n) :
    (∃ i, tree.indexOfPrefixSum target = .ok i) ↔ 0 < n ∧ 0 ≤ target ∧ target < tree.total := by
  have zero := Binary32.hasUnits_zero
  constructor
  · rintro ⟨i, found⟩
    obtain ⟨⟨positive, _⟩, inside, _⟩ := indexOfPrefixSum_eq_ok_iff.1 found
    exact ⟨(zero.lt_iff total).1 positive, inside⟩
  · rintro ⟨positive, inside⟩
    exact ⟨_, indexOfPrefixSum_eq_ok_iff.2
      ⟨⟨(zero.lt_iff total).2 positive, total.isFinite⟩, inside, rfl⟩⟩

theorem indexOfPrefixSum_eq_descend (total : tree.total.HasUnits n)
    (here : target.HasUnits amount) (below : amount < n) :
    tree.indexOfPrefixSum target = .ok (tree.root.descend target) := by
  have zero := Binary32.hasUnits_zero
  exact indexOfPrefixSum_eq_ok_iff.2
    ⟨⟨(zero.lt_iff total).2 (Nat.zero_lt_of_lt below), total.isFinite⟩,
      ⟨(zero.le_iff here).2 (Nat.zero_le amount), (here.lt_iff total).2 below⟩, rfl⟩

theorem found_iff_of_onGrid (onGrid : tree.root.OnGrid q units)
    (combined : tree.root.Combined .sum) : tree.indexOfPrefixSum target = .ok i ↔
      i < tree.size ∧ ∃ amount, target.HasUnits amount ∧
        ∑ k ∈ range i, units k ≤ amount ∧ amount < ∑ k ∈ range (i + 1), units k := by
  have total : tree.total.HasUnits (∑ k ∈ range tree.size, units k) :=
    onGrid.hasUnits_value combined
  constructor
  · intro found
    obtain ⟨_, nonneg, less⟩ := (succeeds_iff_of_total total).1 ⟨i, found⟩
    obtain ⟨amount, below, here⟩ := total.exists_below nonneg less
    obtain ⟨inside, between⟩ := onGrid.descend combined here below
    obtain rfl := Except.ok.inj ((indexOfPrefixSum_eq_descend total here below).symm.trans found)
    exact ⟨inside, amount, here, between⟩
  · rintro ⟨inside, amount, here, before, exceeded⟩
    have below : amount < ∑ k ∈ range tree.size, units k :=
      exceeded.trans_le (sum_range_mono units inside)
    obtain ⟨_, before', exceeded'⟩ := onGrid.descend combined here below
    rw [indexOfPrefixSum_eq_descend total here below]
    exact congrArg _ ((isLeast_running_sum before' exceeded').unique
      (isLeast_running_sum before exceeded))

/-- A search for a target inverts the running sums of leaves of so many units each. -/
structure InvertsSums (tree : SumTree) (units : Nat → Nat) : Prop where
  total : tree.total.HasUnits (∑ k ∈ range tree.size, units k)
  succeeds_iff : ∀ target, (∃ i, tree.indexOfPrefixSum target = .ok i) ↔
    0 < ∑ k ∈ range tree.size, units k ∧ 0 ≤ target ∧ target < tree.total
  found_iff : ∀ target i, tree.indexOfPrefixSum target = .ok i ↔
    i < tree.size ∧ ∃ amount, target.HasUnits amount ∧
      ∑ k ∈ range i, units k ≤ amount ∧ amount < ∑ k ∈ range (i + 1), units k
  carries : ∀ target i, tree.indexOfPrefixSum target = .ok i → 0 < units i

theorem invertsSums_of_onGrid (onGrid : tree.root.OnGrid q units)
    (combined : tree.root.Combined .sum) : tree.InvertsSums units where
  total := onGrid.hasUnits_value combined
  succeeds_iff _ := succeeds_iff_of_total (onGrid.hasUnits_value combined)
  found_iff _ _ := found_iff_of_onGrid onGrid combined
  carries target i found := by
    obtain ⟨_, amount, _, before, exceeded⟩ := (found_iff_of_onGrid onGrid combined).1 found
    rw [Finset.sum_range_succ] at exceeded
    omega

/-- Whatever writes were offered to an empty tree, if its leaves are then multiples of one power of
two with a total that is within the precision and the range of the format, a search inverts their
running sums. -/
theorem invertsSums_offerAll_ofCapacity (capacity : Nat) (writes : List (LeafWrite Binary32))
    (onGrid : ((ofCapacity .sum capacity).offerAll writes).root.OnGrid q units) :
    ((ofCapacity .sum capacity).offerAll writes).InvertsSums units :=
  invertsSums_of_onGrid onGrid (combined_offerAll (PerfectTree.combined_replicate rfl _) writes)

/-- Targets that are no multiple of the leaves, on the boundary of two leaves with zeros between
them, and beyond the total. -/
theorem invertsSums_offerAll_ofCapacity_off_grid :
    let tree := (ofCapacity .sum 5).offerAll [⟨1, .nan, .replace⟩, ⟨4, 1, .accumulate⟩,
      ⟨2, -0, .replace⟩, ⟨1, 1, .replace⟩, ⟨4, 1, .accumulate⟩, ⟨8, 1, .replace⟩]
    tree.root.OnGrid 149 (fun k => if k = 1 then 2 ^ 149 else if k = 4 then 2 ^ 150 else 0) ∧
      tree.indexOfPrefixSum Binary32.belowOne = .ok 1 ∧ tree.indexOfPrefixSum (-0) = .ok 1 ∧
      tree.indexOfPrefixSum 1 = .ok 4 ∧ ¬∃ i, tree.indexOfPrefixSum (Binary32.ofNat 3) = .ok i := by
  intro tree
  have onGrid : tree.root.OnGrid 149
      (fun k => if k = 1 then 2 ^ 149 else if k = 4 then 2 ^ 150 else 0) :=
    ⟨by decide +kernel, by decide +kernel, by decide +kernel, by decide +kernel⟩
  have inverts : tree.InvertsSums _ := invertsSums_offerAll_ofCapacity 5 _ onGrid
  have found {target : Binary32} {i : Nat} := (inverts.found_iff target i).2
  refine ⟨onGrid, found ⟨by decide, (2 ^ 23 - 1) * 2 ^ 126, ?_⟩, found ⟨by decide, 0, ?_⟩,
    found ⟨by decide, 2 ^ 149, ?_⟩, mt (inverts.succeeds_iff _).1 ?_⟩
  · decide +kernel
  · decide +kernel
  · decide +kernel
  · decide +kernel

end SegmentTree

end ExperienceReplay

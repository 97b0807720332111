import ExperienceReplay.Proofs.Binary32.Sums
import ExperienceReplay.Proofs.SegmentTree.Combined

/-!
Sums over a tree of numbers without a sign. If all leaves keep below a bound that is a number of
the format, so do the sums of all subtrees below its multiple by their number of leaves: rounding
never leads beyond such a multiple. Leaves that are zero do not count.
-/

namespace ExperienceReplay

open Binary32 (precision greatestUnits finite)

def Binary32.IsAmount (bound : Nat) (x : Binary32) : Prop :=
  ∃ m : Magnitude, x = finite false m ∧ m.units ≤ bound

namespace PerfectTree

variable {height bound : Nat} {tree : PerfectTree Binary32 height}

def Amounts (bound : Nat) (tree : PerfectTree Binary32 height) : Prop :=
  ∀ i < 2 ^ height, (tree.get i).IsAmount bound

theorem Amounts.left {v : Binary32} {left right : PerfectTree Binary32 height}
    (amounts : (node v left right).Amounts bound) : left.Amounts bound := by
  intro i hi
  rw [← get_node_left v left right hi]
  exact amounts i (by omega)

theorem Amounts.right {v : Binary32} {left right : PerfectTree Binary32 height}
    (amounts : (node v left right).Amounts bound) : right.Amounts bound := by
  intro i hi
  rw [← get_node_right v left right i]
  exact amounts (2 ^ height + i) (by omega)

/-- A number without a sign that is no less than the leaves up to `count` and keeps below the
bound of all leaves together. -/
def IsSumOf (count bound : Nat) (tree : PerfectTree Binary32 height) (x : Binary32) : Prop :=
  ∃ m : Binary32.Magnitude, x = finite false m ∧ m.units ≤ 2 ^ height * bound ∧
    ∀ i < count, ∀ leaf : Binary32.Magnitude, tree.get i = finite false leaf → leaf.units ≤ m.units

theorem IsSumOf.add {v x y : Binary32} {left right : PerfectTree Binary32 height} {count : Nat}
    (fits : Rounding.Fits precision bound) (below : 2 ^ (height + 1) * bound ≤ greatestUnits)
    (onLeft : IsSumOf (2 ^ height) bound left x) (onRight : IsSumOf count bound right y) :
    IsSumOf (2 ^ height + count) bound (node v left right) (x + y) := by
  obtain ⟨a, rfl, ha, leavesLeft⟩ := onLeft
  obtain ⟨b, rfl, hb, leavesRight⟩ := onRight
  have double : 2 ^ (height + 1) * bound = 2 ^ height * bound + 2 ^ height * bound := by ring
  have units : a.units + b.units ≤ 2 ^ (height + 1) * bound := by omega
  obtain ⟨c, sum, ac, bc, hc⟩ := Binary32.exists_add_finite
    (fits.two_pow_mul (by decide) (height + 1)) below units
  refine ⟨c, sum, hc, fun i hi leaf hleaf => ?_⟩
  by_cases inLeft : i < 2 ^ height
  · rw [get_node_left v left right inLeft] at hleaf
    exact (leavesLeft i inLeft leaf hleaf).trans ac
  · obtain ⟨j, rfl⟩ := Nat.exists_eq_add_of_le (Nat.le_of_not_lt inLeft)
    rw [get_node_right] at hleaf
    exact (leavesRight j (by omega) leaf hleaf).trans bc

theorem isSumOf_value (fits : Rounding.Fits precision bound)
    (below : 2 ^ height * bound ≤ greatestUnits) (combined : tree.Combined .sum)
    (amounts : tree.Amounts bound) : IsSumOf (2 ^ height) bound tree tree.value := by
  induction tree with
  | leaf v =>
    obtain ⟨m, equal, small⟩ := amounts 0 (by decide)
    refine ⟨m, equal, by omega, fun i hi leaf hleaf => ?_⟩
    obtain rfl : m = leaf := by
      have : finite false m = finite false leaf := equal.symm.trans hleaf
      simpa using this
    exact Nat.le_refl _
  | @node height v left right ihl ihr =>
    obtain ⟨rfl, onLeft, onRight⟩ := combined
    have double : 2 ^ (height + 1) * bound = 2 ^ height * bound + 2 ^ height * bound := by ring
    have sum := IsSumOf.add (v := Operation.sum.combine left.value right.value) fits below
      (ihl (by omega) onLeft amounts.left) (ihr (by omega) onRight amounts.right)
    rwa [← Nat.mul_two, ← Nat.pow_succ] at sum

theorem isSumOf_foldUpTo (fits : Rounding.Fits precision bound)
    (below : 2 ^ height * bound ≤ greatestUnits) (combined : tree.Combined .sum)
    (amounts : tree.Amounts bound) {count : Nat} (notAll : count < 2 ^ height) :
    IsSumOf count bound tree (tree.foldUpTo .sum count) := by
  induction tree generalizing count with
  | leaf v => exact ⟨.zero, rfl, Nat.zero_le _, fun i hi => by omega⟩
  | @node height v left right ihl ihr =>
    obtain ⟨rfl, onLeft, onRight⟩ := combined
    have double : 2 ^ (height + 1) * bound = 2 ^ height * bound + 2 ^ height * bound := by ring
    unfold foldUpTo
    split
    next inLeft =>
      obtain ⟨m, equal, small, leaves⟩ := ihl (by omega) onLeft amounts.left inLeft
      refine ⟨m, equal, by omega, fun i hi leaf hleaf => ?_⟩
      rw [get_node_left _ left right (by omega)] at hleaf
      exact leaves i hi leaf hleaf
    next beyond =>
      have inRight : count - 2 ^ height < 2 ^ height := by omega
      have rest := ihr (by omega) onRight amounts.right inRight
      have sum := IsSumOf.add (v := Operation.sum.combine left.value right.value) fits below
        (isSumOf_value fits (by omega) onLeft amounts.left) rest
      rwa [Nat.add_sub_cancel' (by omega)] at sum

theorem foldRange_zero (fits : Rounding.Fits precision bound)
    (below : 2 ^ height * bound ≤ greatestUnits) (combined : tree.Combined .sum)
    (amounts : tree.Amounts bound) {stop : Nat} (positive : 0 < stop)
    (inside : stop ≤ 2 ^ height) :
    tree.foldRange .sum 0 stop =
      if stop = 2 ^ height then tree.value else tree.foldUpTo .sum stop := by
  unfold foldRange
  by_cases all : stop = 2 ^ height
  · obtain ⟨m, equal, _⟩ := isSumOf_value fits below combined amounts
    rw [if_pos ⟨rfl, all⟩, if_pos all, equal]
    change 0 + finite false m + 0 = _
    rw [Binary32.zero_add_finite, Binary32.finite_add_zero]
  · obtain ⟨m, equal, _⟩ := isSumOf_foldUpTo fits below combined amounts
      (Nat.lt_of_le_of_ne inside all)
    rw [if_neg (fun h => all h.2), if_neg all]
    cases tree with
    | leaf v => omega
    | node v left right =>
      simp only [foldParts, if_true, equal]
      exact Binary32.zero_add_finite m

theorem isSumOf_foldRange (fits : Rounding.Fits precision bound)
    (below : 2 ^ height * bound ≤ greatestUnits) (combined : tree.Combined .sum)
    (amounts : tree.Amounts bound) {stop : Nat} (positive : 0 < stop)
    (inside : stop ≤ 2 ^ height) : IsSumOf stop bound tree (tree.foldRange .sum 0 stop) := by
  rw [foldRange_zero fits below combined amounts positive inside]
  split
  next all =>
    rw [all]
    exact isSumOf_value fits below combined amounts
  next notAll =>
    exact isSumOf_foldUpTo fits below combined amounts (Nat.lt_of_le_of_ne inside notAll)

theorem value_eq_zero (combined : tree.Combined .sum) (zero : ∀ i < 2 ^ height, tree.get i = 0) :
    tree.value = 0 := by
  induction tree with
  | leaf v => exact zero 0 (by decide)
  | @node height v left right ihl ihr =>
    obtain ⟨rfl, onLeft, onRight⟩ := combined
    change left.value + right.value = 0
    rw [ihl onLeft, ihr onRight]
    · rfl
    · intro i hi
      rw [← get_node_right _ left right i]
      exact zero _ (by omega)
    · intro i hi
      rw [← get_node_left _ left right hi]
      exact zero _ (by omega)

theorem foldUpTo_eq_value (fits : Rounding.Fits precision bound)
    (below : 2 ^ height * bound ≤ greatestUnits) (combined : tree.Combined .sum)
    (amounts : tree.Amounts bound) {count : Nat} (notAll : count < 2 ^ height)
    (zero : ∀ i, count ≤ i → i < 2 ^ height → tree.get i = 0) :
    tree.foldUpTo .sum count = tree.value := by
  induction tree generalizing count with
  | leaf v => exact (zero 0 (by omega) (by decide)).symm
  | @node height v left right ihl ihr =>
    obtain ⟨rfl, onLeft, onRight⟩ := combined
    have double : 2 ^ (height + 1) * bound = 2 ^ height * bound + 2 ^ height * bound := by ring
    unfold foldUpTo
    split
    next inLeft =>
      have rightZero : right.value = 0 := by
        apply value_eq_zero onRight
        intro i hi
        rw [← get_node_right _ left right i]
        exact zero _ (by omega) (by omega)
      obtain ⟨m, equal, _⟩ := isSumOf_value fits (by omega) onLeft amounts.left
      rw [ihl (by omega) onLeft amounts.left inLeft]
      · change left.value = left.value + right.value
        rw [rightZero, equal, Binary32.finite_add_zero]
      · intro i hi hi'
        rw [← get_node_left _ left right hi']
        exact zero i hi (by omega)
    next beyond =>
      have inRight : count - 2 ^ height < 2 ^ height := by omega
      rw [ihr (by omega) onRight amounts.right inRight]
      · rfl
      · intro i hi hi'
        rw [← get_node_right _ left right i]
        exact zero _ (by omega) (by omega)

theorem foldRange_eq_value (fits : Rounding.Fits precision bound)
    (below : 2 ^ height * bound ≤ greatestUnits) (combined : tree.Combined .sum)
    (amounts : tree.Amounts bound) {stop : Nat} (positive : 0 < stop)
    (inside : stop ≤ 2 ^ height) (zero : ∀ i, stop ≤ i → i < 2 ^ height → tree.get i = 0) :
    tree.foldRange .sum 0 stop = tree.value := by
  rw [foldRange_zero fits below combined amounts positive inside]
  split
  next => rfl
  next notAll =>
    exact foldUpTo_eq_value fits below combined amounts (Nat.lt_of_le_of_ne inside notAll) zero

end PerfectTree

theorem SegmentTree.indexOfPrefixSum_eq_ok_iff {tree : SumTree} {target : Binary32} {i : Nat} :
    tree.indexOfPrefixSum target = .ok i ↔
      (0 < tree.total ∧ tree.total.isFinite) ∧ (0 ≤ target ∧ target < tree.total) ∧
        tree.root.descend target = i := by
  unfold indexOfPrefixSum
  split
  next degenerate => exact iff_of_false nofun fun found => degenerate found.1
  next positive =>
    split
    next outside => exact iff_of_false nofun fun found => outside found.2.1
    next inside => simp [not_not.1 positive, not_not.1 inside]

theorem SegmentTree.indexOfPrefixSum_eq_ok {tree : SumTree} {total : Binary32.Magnitude}
    {target : Binary32} (h : tree.total = finite false total) (nonneg : 0 ≤ target)
    (below : target < finite false total) :
    tree.indexOfPrefixSum target = .ok (tree.root.descend target) :=
  indexOfPrefixSum_eq_ok_iff.2
    ⟨h ▸ ⟨Binary32.lt_of_le_of_lt nonneg below, rfl⟩, ⟨nonneg, h ▸ below⟩, rfl⟩

end ExperienceReplay

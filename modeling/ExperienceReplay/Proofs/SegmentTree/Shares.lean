import ExperienceReplay.Proofs.Binary32.Exact
import ExperienceReplay.Proofs.SegmentTree.Combined
import Mathlib.Algebra.BigOperators.Ring.Finset
import Mathlib.Algebra.Order.BigOperators.Group.Finset
import Mathlib.Order.Bounds.Basic

/-!
Sum trees whose leaves are multiples of a power of two with a total small enough for no sum to be
rounded. Main statement: the leaf that a target leads to is the first at which the running sum
exceeds it, whether or not the target is a multiple of the same power.
-/

namespace ExperienceReplay

open Binary32 (precision greatestUnits HasUnits)
open Finset (range)

theorem sum_range_mono (units : Nat → Nat) {m n : Nat} (h : m ≤ n) :
    ∑ i ∈ range m, units i ≤ ∑ i ∈ range n, units i :=
  Finset.sum_le_sum_of_subset (Finset.range_subset_range.2 h)

theorem isLeast_running_sum {units : Nat → Nat} {amount i : Nat}
    (before : ∑ k ∈ range i, units k ≤ amount) (exceeded : amount < ∑ k ∈ range (i + 1), units k) :
    IsLeast {i | amount < ∑ k ∈ range (i + 1), units k} i := by
  refine ⟨exceeded, fun j more => Nat.le_of_not_lt fun less => ?_⟩
  have : ∑ k ∈ range (j + 1), units k ≤ ∑ k ∈ range i, units k := sum_range_mono units less
  have : amount < ∑ k ∈ range (j + 1), units k := more
  omega

namespace PerfectTree

variable {height q : Nat} {units : Nat → Nat} {tree : PerfectTree Binary32 height}

/-- Leaves of so many units each, multiples of `2 ^ q`, with a total that is within the precision
and the range of the format. -/
structure OnGrid (q : Nat) (units : Nat → Nat) (tree : PerfectTree Binary32 height) : Prop where
  leaf : ∀ i < 2 ^ height, (tree.get i).HasUnits (units i)
  multiple : ∀ i < 2 ^ height, 2 ^ q ∣ units i
  within : ∑ i ∈ range (2 ^ height), units i ≤ 2 ^ precision * 2 ^ q
  le_greatest : ∑ i ∈ range (2 ^ height), units i ≤ greatestUnits

theorem sum_range_halves (units : Nat → Nat) (height : Nat) :
    ∑ i ∈ range (2 ^ (height + 1)), units i =
      ∑ i ∈ range (2 ^ height), units i + ∑ i ∈ range (2 ^ height), units (2 ^ height + i) := by
  rw [Nat.pow_succ, Nat.mul_two, Finset.sum_range_add]

theorem OnGrid.dvd_sum (onGrid : tree.OnGrid q units) :
    2 ^ q ∣ ∑ i ∈ range (2 ^ height), units i :=
  Finset.dvd_sum fun i mem => onGrid.multiple i (Finset.mem_range.1 mem)

theorem OnGrid.left {v : Binary32} {left right : PerfectTree Binary32 height}
    (onGrid : (node v left right).OnGrid q units) : left.OnGrid q units := by
  have total := sum_range_halves units height
  have within := onGrid.within
  have le_greatest := onGrid.le_greatest
  refine ⟨fun i hi => ?_, fun i hi => onGrid.multiple i (by omega), by omega, by omega⟩
  rw [← get_node_left v left right hi]
  exact onGrid.leaf i (by omega)

theorem OnGrid.right {v : Binary32} {left right : PerfectTree Binary32 height}
    (onGrid : (node v left right).OnGrid q units) :
    right.OnGrid q fun i => units (2 ^ height + i) := by
  have total := sum_range_halves units height
  have within := onGrid.within
  have le_greatest := onGrid.le_greatest
  refine ⟨fun i hi => ?_, fun i hi => onGrid.multiple _ (by omega), by omega, by omega⟩
  rw [← get_node_right v left right i]
  exact onGrid.leaf _ (by omega)

theorem OnGrid.hasUnits_value (onGrid : tree.OnGrid q units) (combined : tree.Combined .sum) :
    tree.value.HasUnits (∑ i ∈ range (2 ^ height), units i) := by
  induction tree generalizing units with
  | leaf v =>
    rw [Nat.pow_zero, Finset.sum_range_one]
    exact onGrid.leaf 0 (by decide)
  | @node height v left right ihl ihr =>
    obtain ⟨rfl, onLeft, onRight⟩ := combined
    have fits := Rounding.fits_of_dvd (by decide) onGrid.dvd_sum onGrid.within
    have le_greatest := onGrid.le_greatest
    rw [sum_range_halves] at fits le_greatest ⊢
    exact (ihl onGrid.left onLeft).add (ihr onGrid.right onRight) fits le_greatest

theorem OnGrid.descend (onGrid : tree.OnGrid q units) (combined : tree.Combined .sum)
    {target : Binary32} {amount : Nat} (here : target.HasUnits amount)
    (below : amount < ∑ i ∈ range (2 ^ height), units i) :
    tree.descend target < 2 ^ height ∧ ∑ k ∈ range (tree.descend target), units k ≤ amount ∧
      amount < ∑ k ∈ range (tree.descend target + 1), units k := by
  induction tree generalizing units target amount with
  | leaf v =>
    unfold PerfectTree.descend
    exact ⟨by decide, Nat.zero_le _, below⟩
  | @node height v left right ihl ihr =>
    obtain ⟨rfl, onLeft, onRight⟩ := combined
    have leftSum := onGrid.left.hasUnits_value onLeft
    have within := onGrid.within
    rw [sum_range_halves] at below within
    unfold PerfectTree.descend
    split
    next inLeft =>
      obtain ⟨inside, before, exceeded⟩ :=
        ihl onGrid.left onLeft here ((here.lt_iff leftSum).1 inLeft)
      exact ⟨by omega, before, exceeded⟩
    next inRight =>
      have beyond := Nat.le_of_not_lt (mt (here.lt_iff leftSum).2 inRight)
      -- what remains is exact: the target may be off the grid, but the sum taken from it is not
      obtain ⟨whole, rfl⟩ := here.exists_magnitude
      have rest := here.sub leftSum beyond <|
        whole.fits.sub (by decide) (by omega) onGrid.left.dvd_sum
      obtain ⟨inside, before, exceeded⟩ := ihr onGrid.right onRight rest (by omega)
      rw [Nat.add_assoc, Finset.sum_range_add, Finset.sum_range_add]
      exact ⟨by omega, by omega, by omega⟩

end PerfectTree

end ExperienceReplay

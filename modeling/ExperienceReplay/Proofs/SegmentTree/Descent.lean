import ExperienceReplay.Proofs.Binary32.Monotone
import ExperienceReplay.Proofs.SegmentTree.Sums

/-!
Two searches of one tree. Main statement: greater targets are found in later leaves, whatever the
leaves hold and however their sums were rounded.
-/

namespace ExperienceReplay

open Binary32 (infinity)

namespace PerfectTree

variable {height : Nat}

theorem descend_lt (tree : PerfectTree Binary32 height) (target : Binary32) :
    tree.descend target < 2 ^ height := by
  induction tree generalizing target with
  | leaf v => exact Nat.one_pos
  | @node height v left right ihl ihr =>
    unfold descend
    split
    next => exact (ihl target).trans (Nat.pow_lt_pow_right (by decide) (Nat.lt_succ_self height))
    next =>
      have := ihr (target - left.value)
      omega

/-- Rounding does not let two descents cross. The lesser target goes left wherever the greater one
does, and where both go right, so do their remainders. A target that became infinite or no number
goes right from there on. -/
theorem descend_le_descend (tree : PerfectTree Binary32 height) {target other : Binary32}
    (ordered : other < infinity → target ≤ other) : tree.descend target ≤ tree.descend other := by
  induction tree generalizing target other with
  | leaf v => exact Nat.le_refl 0
  | @node height v left right ihl ihr =>
    unfold descend
    split
    next here =>
      split
      next => exact ihl ordered
      next =>
        have := descend_lt left target
        omega
    next reached =>
      split
      next there =>
        have finite : other < infinity :=
          Binary32.lt_of_lt_of_le there (Binary32.le_infinity (Binary32.ne_nan_of_lt there).2)
        exact absurd (Binary32.lt_of_le_of_lt (ordered finite) there) reached
      next reached' =>
        apply Nat.add_le_add_left
        exact ihr (Binary32.sub_le_sub_of_reached ordered reached reached')

end PerfectTree

def SegmentTree.FindsInOrder (tree : SumTree) : Prop :=
  ∀ {target other : Binary32} {i j : Nat}, target ≤ other →
    tree.indexOfPrefixSum target = .ok i → tree.indexOfPrefixSum other = .ok j → i ≤ j

theorem SegmentTree.findsInOrder (tree : SumTree) : tree.FindsInOrder := by
  intro target other i j ordered found found'
  obtain ⟨_, _, rfl⟩ := indexOfPrefixSum_eq_ok_iff.1 found
  obtain ⟨_, _, rfl⟩ := indexOfPrefixSum_eq_ok_iff.1 found'
  exact tree.root.descend_le_descend fun _ => ordered

end ExperienceReplay

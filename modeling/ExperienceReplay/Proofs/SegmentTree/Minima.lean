import ExperienceReplay.Proofs.Binary32.Order
import ExperienceReplay.Proofs.SegmentTree.Combined

/-!
Minima over a tree of numbers: the value of the tree is the least of its leaves.
-/

namespace ExperienceReplay

theorem Operation.min_self (x : Binary32) : Operation.min.combine x x = x :=
  or_self_iff.1 (Binary32.lesser_eq_or x x)

namespace PerfectTree

variable {height : Nat} {tree : PerfectTree Binary32 height}

theorem value_min_mem (combined : tree.Combined .min) :
    ∃ i < 2 ^ height, tree.value = tree.get i := by
  induction tree with
  | leaf v => exact ⟨0, by decide, rfl⟩
  | @node height v left right ihl ihr =>
    obtain ⟨rfl, onLeft, onRight⟩ := combined
    rcases Binary32.lesser_eq_or left.value right.value with least | least
    · obtain ⟨i, hi, found⟩ := ihl onLeft
      refine ⟨i, by omega, ?_⟩
      rw [get_node_left _ left right hi, ← found]
      exact least
    · obtain ⟨i, hi, found⟩ := ihr onRight
      refine ⟨2 ^ height + i, by omega, ?_⟩
      rw [get_node_right, ← found]
      exact least

theorem value_min_le (combined : tree.Combined .min)
    (numbers : ∀ i < 2 ^ height, tree.get i ≠ .nan) :
    ∀ i < 2 ^ height, tree.value ≤ tree.get i := by
  induction tree with
  | leaf v =>
    intro i _
    exact Binary32.le_refl (numbers 0 (by decide))
  | @node height v left right ihl ihr =>
    have onLeftNumbers : ∀ i < 2 ^ height, left.get i ≠ .nan := by
      intro i hi
      rw [← get_node_left v left right hi]
      exact numbers i (by omega)
    have onRightNumbers : ∀ i < 2 ^ height, right.get i ≠ .nan := by
      intro i hi
      rw [← get_node_right v left right i]
      exact numbers _ (by omega)
    obtain ⟨rfl, onLeft, onRight⟩ := combined
    intro i hi
    by_cases inLeft : i < 2 ^ height
    · rw [get_node_left _ left right inLeft]
      obtain ⟨j, hj, found⟩ := value_min_mem onLeft
      exact Binary32.le_trans (Binary32.lesser_le_left (found ▸ onLeftNumbers j hj))
        (ihl onLeft onLeftNumbers i inLeft)
    · obtain ⟨k, rfl⟩ := Nat.exists_eq_add_of_le (Nat.le_of_not_lt inLeft)
      rw [get_node_right]
      obtain ⟨j, hj, found⟩ := value_min_mem onRight
      exact Binary32.le_trans (Binary32.lesser_le_right (found ▸ onRightNumbers j hj))
        (ihr onRight onRightNumbers k (by omega))

end PerfectTree

end ExperienceReplay

import ExperienceReplay.Proofs.Buffer.Runs
import ExperienceReplay.Proofs.SegmentTree.Accuracy

/-!
The mass of a buffer is near the exact sum of its weights. Weights are so small that no sum of them
is infinite, however often it is rounded upwards.
-/

namespace ExperienceReplay

theorem two_mul_size_mul_greatestWeightUnits {sums : SumTree} (small : sums.height ≤ 126) :
    2 * (sums.size * greatestWeightUnits sums.height) ≤ Binary32.greatestUnits := by
  have whole : 2 ^ sums.height * 2 ^ (252 - sums.height) = 2 ^ 252 := by
    rw [← Nat.pow_add]
    congr 1
    omega
  unfold SegmentTree.size greatestWeightUnits Binary32.greatestUnits
  rw [Nat.mul_left_comm (2 ^ sums.height), whole]

namespace Buffer

variable [Power] {buffer : Buffer} {layout : RecordRing.Layout} {named : List Nat}

theorem Sound.finiteSums (sound : buffer.Sound layout named) : buffer.sums.FiniteSums :=
  SegmentTree.finiteSums_of_amounts sound.weights.sums_combined sound.weights.amounts
    (two_mul_size_mul_greatestWeightUnits sound.weights.small) sound.weights.small

/-- Whatever was written to a tree of sums, its finite sums are as near to exact ones as one
rounding for every row of nodes keeps them, with two more for ranges: errors do not add up over
time. After any run of a buffer its leaves are not below zero and all sums are finite. -/
theorem sums_nearly_exact :
    (∀ capacity writes, ((SegmentTree.ofCapacity .sum capacity).offerAll writes).NearlyExact) ∧
    ∀ {config : Config} {start : Buffer}, config.capacity < 2 ^ 64 →
      Power.pow 1 config.alpha = 1 → build config = .ok start → ∀ requests,
        (start.after requests).sums.FiniteSums ∧ (start.after requests).sums.NearlyExact := by
  constructor
  · intro capacity writes
    apply SegmentTree.nearlyExact
    exact SegmentTree.combined_offerAll (PerfectTree.combined_replicate rfl _) writes
  · intro config start word one_pow built requests
    obtain ⟨layout, _, sound⟩ := exists_sound_of_build word one_pow built
    have sound := sound.after requests
    exact ⟨sound.finiteSums, SegmentTree.nearlyExact sound.weights.sums_combined⟩

omit [Power] in
/-- One and the least normal number are summed up to one, in a tree that was written to and in a
buffer. The exact sum is greater, by less than two roundings. -/
theorem sums_nearly_exact_absorbed :
    let tree := (SegmentTree.ofCapacity .sum 3).offerAll
      [⟨0, 1, .replace⟩, ⟨1, 1, .accumulate⟩, ⟨1, Binary32.leastNormal, .replace⟩]
    let filling := Request.insert (.ofList [("states", [0, 1]), ("terminals", [0, 1])])
    (tree.total = 1 ∧
      WithinRoundings 2 (tree.leaves.map Binary32.toRat).sum (1 : Binary32).toRat) ∧
    letI := Power.linear
    ∃ start, build (.linear 3) = .ok start ∧
      let sums := (start.after [filling, .update [1] [Binary32.leastNormal]]).sums
      sums.total = 1 ∧
        WithinRoundings 2 (sums.leaves.map Binary32.toRat).sum (1 : Binary32).toRat := by
  let _ := Power.linear
  obtain ⟨trees, buffers⟩ := sums_nearly_exact
  intro tree filling
  constructor
  · have one : tree.total = 1 := by decide +kernel
    have near : tree.NearlyExact := trees 3 _
    have within := near.total (by decide +kernel) (by decide +kernel)
    rw [one] at within
    exact ⟨one, within⟩
  · have built : build (.linear 3) = .ok _ := rfl
    refine ⟨_, built, ?_⟩
    intro sums
    have one : sums.total = 1 := by decide +kernel
    have height : sums.height = 2 := by decide +kernel
    obtain ⟨finite, near⟩ : sums.FiniteSums ∧ sums.NearlyExact := buffers (by decide) rfl built _
    have within := near.total finite.nonneg (by rw [one]; rfl)
    rw [one, height] at within
    exact ⟨one, within⟩

end Buffer

end ExperienceReplay

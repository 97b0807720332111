import ExperienceReplay.Proofs.Buffer.Runs

/-!
The two trees of a buffer hold the same weights. Main statement: after any run each leaf is one
number in range in both trees or neutral in both, and the weight that new records get is in that
range too, although no insert checks it.
-/

namespace ExperienceReplay.Buffer

/-- Large enough to have full precision, and so small that the sum of all leaves is finite. -/
def WeightInRange (buffer : Buffer) (weight : Binary32) : Prop :=
  Binary32.leastNormal ≤ weight ∧
    weight ≤ Binary32.greatest / Binary32.ofNat (2 * buffer.priorityCapacity)

def Weighs (buffer : Buffer) (slot : Nat) (weight : Binary32) : Prop :=
  buffer.sums.leaf slot = .ok weight ∧ buffer.mins.leaf slot = .ok weight

def Weightless (buffer : Buffer) (slot : Nat) : Prop :=
  buffer.sums.leaf slot = .ok 0 ∧ buffer.mins.leaf slot = .ok .infinity

structure Coupled [Power] (buffer : Buffer) : Prop where
  leaves : ∀ slot < buffer.priorityCapacity,
    (∃ weight, buffer.Weighs slot weight ∧ buffer.WeightInRange weight) ∨ buffer.Weightless slot
  written : ∀ slot < buffer.size, ∃ weight, buffer.Weighs slot weight ∧ buffer.WeightInRange weight
  beyond : ∀ slot, buffer.capacity ≤ slot → slot < buffer.priorityCapacity →
    buffer.Weightless slot
  seed : buffer.WeightInRange (Power.pow buffer.maxPriority buffer.alpha)

variable {buffer : Buffer}

theorem weightInRange_of_isWeight (small : buffer.sums.height ≤ 126) {weight : Binary32}
    (isWeight : IsWeight buffer.sums.height weight) : buffer.WeightInRange weight := by
  obtain ⟨m, rfl, normal, below⟩ := isWeight
  refine ⟨Binary32.finite_le_finite.2 normal, ?_⟩
  change Binary32.finite false m ≤ buffer.greatestWeight
  rw [greatestWeight_eq small]
  exact Binary32.finite_le_finite.2 below

variable [Power] {layout : RecordRing.Layout} {named : List Nat}

theorem Sound.leaves (sound : buffer.Sound layout named) {slot : Nat}
    (inside : slot < buffer.sums.size) :
    buffer.sums.leaf slot = .ok (buffer.sums.root.get slot) ∧
      buffer.mins.leaf slot = .ok (buffer.mins.root.get slot) :=
  ⟨SegmentTree.leaf_eq_ok inside, SegmentTree.leaf_eq_ok (by rwa [sound.weights.size_eq])⟩

theorem Sound.exists_weighs (sound : buffer.Sound layout named) {slot : Nat}
    (inside : slot < buffer.sums.size) (has : slot < buffer.size ∨ slot ∈ named) :
    ∃ weight, buffer.Weighs slot weight ∧ buffer.WeightInRange weight := by
  obtain ⟨isWeight, same⟩ := sound.weights.weight slot inside has
  have leaves := sound.leaves inside
  rw [same] at leaves
  exact ⟨_, leaves, weightInRange_of_isWeight sound.weights.small isWeight⟩

theorem Sound.weightless (sound : buffer.Sound layout named) {slot : Nat}
    (inside : slot < buffer.sums.size) (has : ¬(slot < buffer.size ∨ slot ∈ named)) :
    buffer.Weightless slot := by
  obtain ⟨inSums, inMins⟩ := sound.weights.neutral slot inside has
  have leaves := sound.leaves inside
  rwa [inSums, inMins] at leaves

theorem Sound.coupled (sound : buffer.Sound layout named) : buffer.Coupled := by
  have size_le := sound.size_le
  have size_le_sums := sound.size_le_sums
  refine ⟨fun slot inside => ?_, fun slot written => ?_, fun slot outside inside => ?_, ?_⟩
  · by_cases has : slot < buffer.size ∨ slot ∈ named
    · exact Or.inl (sound.exists_weighs inside has)
    · exact Or.inr (sound.weightless inside has)
  · exact sound.exists_weighs (by omega) (Or.inl written)
  · rw [sound.capacity_eq] at outside
    refine sound.weightless inside ?_
    rintro (written | mem)
    · omega
    · exact absurd (sound.named_lt_capacity slot mem) (by omega)
  · exact weightInRange_of_isWeight sound.weights.small sound.seed

/-- Whatever was asked of a buffer, its trees agree on every leaf, and all weights are in range. -/
theorem coupled_after_build {config : Config} (word : config.capacity < 2 ^ 64)
    (one_pow : Power.pow 1 config.alpha = 1) {start : Buffer} (built : build config = .ok start)
    (requests : List Request) : (start.after requests).Coupled := by
  obtain ⟨layout, _, sound⟩ := exists_sound_of_build word one_pow built
  exact (sound.after requests).coupled

omit [Power] in
/-- The greatest weight that four leaves allow is taken; a greater one is refused. -/
theorem coupled_after_build_greatest :
    letI := Power.linear
    ∃ start, build (.linear 3) = .ok start ∧
      let limit := Binary32.greatest / Binary32.ofNat 8
      let buffer := start.after [.insert (.ofList [("states", [0, 1]), ("terminals", [0, 1])]),
        .update [2, 0] [limit, Binary32.leastNormal], .update [1] [Binary32.greatest]]
      buffer.Coupled ∧ buffer.maxPriority = limit ∧ buffer.size = 2 ∧ buffer.Weighs 2 limit ∧
        buffer.Weighs 1 1 ∧ buffer.Weightless 3 := by
  let _ := Power.linear
  have built : build (.linear 3) = .ok _ := rfl
  refine ⟨_, built, ?_⟩
  intro limit buffer
  have coupled : buffer.Coupled := coupled_after_build (by decide) rfl built _
  exact ⟨coupled, by decide +kernel, by decide +kernel, ⟨by decide +kernel, by decide +kernel⟩,
    ⟨by decide +kernel, by decide +kernel⟩,
    coupled.beyond 3 (by decide +kernel) (by decide +kernel)⟩

end ExperienceReplay.Buffer

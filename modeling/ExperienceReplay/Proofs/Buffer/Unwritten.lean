import ExperienceReplay.Proofs.Buffer.Runs

/-!
Slots that were never written. The check of new priorities lets every slot of the ring pass, also
one that holds no record yet; such a slot then has a weight, and the least weight may be its own.
Main statement: unwritten slots carry nothing exactly if every slot that got a new priority is
written.
-/

namespace ExperienceReplay

open Binary32 (Magnitude finite)

namespace Buffer

variable [Power] {buffer : Buffer} {layout : RecordRing.Layout} {named : List Nat}

/-- Slots that were never written are neutral in both trees, so that the root of the minima is the
least weight of a written slot, and the root of the sums is the mass of the written slots. -/
structure NeutralUnwritten (buffer : Buffer) : Prop where
  neutral : ∀ slot, buffer.size ≤ slot → slot < buffer.priorityCapacity →
    buffer.sums.leaf slot = .ok 0 ∧ buffer.mins.leaf slot = .ok .infinity
  least_le : ∀ slot < buffer.size, ∃ weight, buffer.mins.leaf slot = .ok weight ∧
    buffer.mins.total ≤ weight
  least_written : 0 < buffer.size → ∃ slot < buffer.size,
    buffer.mins.leaf slot = .ok buffer.mins.total
  mass : 0 < buffer.size → buffer.sums.reduce 0 (buffer.size - 1) = .ok buffer.sums.total
  empty : buffer.size = 0 → buffer.mins.total = .infinity ∧ buffer.sums.total = 0

theorem Sound.mins_leaf (sound : buffer.Sound layout named) {slot : Nat}
    (inside : slot < buffer.sums.size) :
    buffer.mins.leaf slot = .ok (buffer.mins.root.get slot) :=
  SegmentTree.leaf_eq_ok (by rwa [sound.weights.size_eq])

theorem Sound.exists_mins_leaf (sound : buffer.Sound layout named) {slot : Nat}
    (written : slot < buffer.size) :
    ∃ m : Magnitude, buffer.mins.root.get slot = finite false m := by
  have inside := sound.size_le_sums
  obtain ⟨⟨m, equal, _⟩, same⟩ := sound.weights.weight slot (by omega) (Or.inl written)
  exact ⟨m, same.trans equal⟩

theorem Sound.total_mins_le (sound : buffer.Sound layout named) {slot : Nat}
    (inside : slot < buffer.sums.size) : buffer.mins.total ≤ buffer.mins.root.get slot := by
  apply PerfectTree.value_min_le sound.weights.mins_combined sound.weights.mins_ne_nan slot
  rwa [sound.weights.height_eq]

theorem Sound.exists_total_mins (sound : buffer.Sound layout named) :
    ∃ slot < buffer.sums.size, buffer.mins.total = buffer.mins.root.get slot := by
  obtain ⟨slot, inside, equal⟩ := PerfectTree.value_min_mem sound.weights.mins_combined
  rw [sound.weights.height_eq] at inside
  exact ⟨slot, inside, equal⟩

theorem Sound.neutralUnwritten (sound : buffer.Sound layout named)
    (written : ∀ slot ∈ named, slot < buffer.size) : buffer.NeutralUnwritten := by
  have inside := sound.size_le_sums
  have neutral : ∀ slot, buffer.size ≤ slot → slot < buffer.sums.size →
      buffer.sums.root.get slot = 0 ∧ buffer.mins.root.get slot = .infinity := by
    intro slot unwritten below
    apply sound.weights.neutral slot below
    rintro (before | mem)
    · omega
    · exact absurd (written slot mem) (by omega)
  refine ⟨?_, ?_, ?_, ?_, ?_⟩
  · intro slot unwritten below
    obtain ⟨inSums, inMins⟩ := neutral slot unwritten below
    rw [sound.mins_leaf below, SegmentTree.leaf_eq_ok below, inSums, inMins]
    exact ⟨rfl, rfl⟩
  · intro slot below
    exact ⟨_, sound.mins_leaf (by omega), sound.total_mins_le (by omega)⟩
  · intro holdsRecords
    obtain ⟨slot, below, equal⟩ := sound.exists_total_mins
    refine ⟨slot, ?_, by rw [sound.mins_leaf below, equal]⟩
    by_contra unwritten
    -- otherwise the least weight would be infinite, but that of slot zero is not
    obtain ⟨m, first⟩ := sound.exists_mins_leaf holdsRecords
    have least := sound.total_mins_le (by omega : 0 < buffer.sums.size)
    rw [equal, (neutral slot (by omega) below).2, first] at least
    exact Binary32.not_infinity_le_finite m least
  · intro holdsRecords
    rw [SegmentTree.reduce_zero (by omega), Nat.sub_add_cancel holdsRecords]
    refine congrArg _ (PerfectTree.foldRange_eq_value (fits_greatestWeightUnits _)
      (two_pow_mul_greatestWeightUnits sound.weights.small) sound.weights.sums_combined
      sound.weights.amounts holdsRecords inside fun slot unwritten below => ?_)
    exact (neutral slot unwritten below).1
  · intro noRecords
    obtain ⟨slot, below, equal⟩ := sound.exists_total_mins
    refine ⟨equal.trans (neutral slot (by omega) below).2, ?_⟩
    exact PerfectTree.value_eq_zero sound.weights.sums_combined fun slot below =>
      (neutral slot (by omega) below).1

/-- Unwritten slots carry nothing after a run exactly if every slot that got a new priority is
written in the end. -/
theorem neutralUnwritten_after_build_iff {config : Config} (word : config.capacity < 2 ^ 64)
    (one_pow : Power.pow 1 config.alpha = 1) {start : Buffer} (built : build config = .ok start)
    (requests : List Request) :
    (start.after requests).NeutralUnwritten ↔
      ∀ slot ∈ start.rescoredSlots requests, slot < (start.after requests).size := by
  obtain ⟨layout, _, sound⟩ := exists_sound_of_build word one_pow built
  have sound := sound.after requests
  rw [List.nil_append] at sound
  constructor
  · intro unwritten slot mem
    by_contra beyond
    have below := sound.named_lt slot mem
    obtain ⟨⟨m, equal, normal, _⟩, _⟩ := sound.weights.weight slot below (Or.inr mem)
    obtain ⟨zero, _⟩ := unwritten.neutral slot (by omega) below
    rw [SegmentTree.leaf_eq_ok below, equal] at zero
    have : m.units = 0 := congrArg Magnitude.units (Binary32.finite.inj (Except.ok.inj zero)).2
    omega
  · exact sound.neutralUnwritten

omit [Power] in
/-- A slot that got its priority early is written by the end. -/
theorem neutralUnwritten_after_build_iff_written_later :
    letI := Power.linear
    ∃ start, build (.linear 4) = .ok start ∧
      let requests := [.update [1] [Binary32.leastNormal],
        .insert (.ofList [("states", [0, 1]), ("terminals", [0, 1])])]
      start.rescoredSlots requests = [1] ∧ (start.after requests).NeutralUnwritten := by
  let _ := Power.linear
  have built : build (.linear 4) = .ok _ := rfl
  refine ⟨_, built, by decide +kernel, ?_⟩
  exact (neutralUnwritten_after_build_iff (by decide) rfl built _).2 (by decide +kernel)

omit [Power] in
/-- The only record weighs one, and yet the least weight is that of a slot without a record. -/
theorem unwritten_slot_has_least_weight :
    letI := Power.linear
    ∃ start, build (.linear 4) = .ok start ∧
      let buffer := start.after [.insert (.ofList [("states", [0]), ("terminals", [0])]),
        .update [2] [Binary32.leastNormal]]
      buffer.size = 1 ∧ buffer.mins.leaf 0 = .ok 1 ∧
        buffer.sums.leaf 2 = .ok Binary32.leastNormal ∧
        buffer.mins.total = Binary32.leastNormal ∧ ¬buffer.NeutralUnwritten := by
  let _ := Power.linear
  refine ⟨_, rfl, by decide +kernel, by decide +kernel, by decide +kernel, by decide +kernel, ?_⟩
  intro unwritten
  have neutral := (unwritten.neutral 2 (by decide +kernel) (by decide +kernel)).1
  revert neutral
  decide +kernel

end Buffer

end ExperienceReplay

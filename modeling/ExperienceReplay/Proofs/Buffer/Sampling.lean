import ExperienceReplay.Buffer.Sampling
import ExperienceReplay.Proofs.Buffer.Sound

/-!
Sampling a buffer that holds records succeeds. The mass and the root are summed in different
orders, but both are finite and have full precision, so that the target of a search stays below the
root.
-/

namespace ExperienceReplay

open Binary32 (Magnitude finite)

/-- What a batch drawn from a buffer looks like: every slot was written and has a weight. -/
structure SampledBatch.DrawnFrom (batch : SampledBatch) (buffer : Buffer) (draws : List Binary32) :
    Prop where
  length_indices : batch.indices.length = draws.length
  length_weights : batch.weights.length = draws.length
  indices : ∀ slot ∈ batch.indices, slot < buffer.size ∧
    ∃ leaf, buffer.sums.leaf slot = .ok leaf ∧ 0 < leaf ∧ leaf.isFinite
  weights : ∀ weight ∈ batch.weights, Binary32.leastNormal ≤ weight ∧ weight ≤ 1

namespace Buffer

variable [Power] {buffer : Buffer} {layout : RecordRing.Layout} {named : List Nat}

theorem Sound.size_le (sound : buffer.Sound layout named) : buffer.size ≤ layout.capacity := by
  obtain ⟨_, holds⟩ := sound.ring
  have : buffer.size = min _ _ := holds.size_eq
  omega

theorem Sound.size_le_sums (sound : buffer.Sound layout named) : buffer.size ≤ buffer.sums.size :=
  Nat.le_trans sound.size_le sound.capacity_le

omit [Power] in
theorem totalMass_eq_ok {m : Magnitude} (positive : 0 < buffer.size)
    (reduced : buffer.sums.reduce 0 (buffer.size - 1) = .ok (finite false m))
    (mass : 0 < m.units) : buffer.totalMass = .ok (finite false m) := by
  unfold totalMass
  rw [if_neg (by omega), Abort.lastSlot_of_pos positive]
  change (refusing (buffer.sums.reduce 0 (buffer.size - 1)) >>= fun _ => _) = _
  rw [reduced]
  change (if ¬(0 < finite false m ∧ (finite false m).isFinite) then _ else _) = _
  rw [if_neg (not_not_intro ⟨Binary32.zero_lt_finite.2 mass, rfl⟩)]
  rfl

theorem Sound.exists_totalMass (sound : buffer.Sound layout named) (positive : 0 < buffer.size) :
    ∃ m : Magnitude, buffer.totalMass = .ok (finite false m) ∧ 2 ^ 23 ≤ m.units := by
  have inside := sound.size_le_sums
  obtain ⟨m, mass, normal⟩ := sound.weights.exists_reduce (by omega : buffer.size - 1 < _)
    (Nat.zero_le _) (Or.inl positive)
  exact ⟨m, totalMass_eq_ok positive mass (by omega), normal⟩

omit [Power] in
theorem select_eq_ok_iff {mass draw : Binary32} {slot : Nat} : buffer.select mass draw = .ok slot ↔
    0 < buffer.size ∧ ∃ found, min found (buffer.size - 1) = slot ∧
      buffer.sums.indexOfPrefixSum
        ((draw * mass).lesser (buffer.sums.total * Binary32.belowOne)) = .ok found := by
  unfold select
  simp only [bind_eq_ok_iff, refusing, mapError_eq_ok_iff]
  constructor
  · rintro ⟨found, searched, last, hasLast, answered⟩
    rcases Nat.eq_zero_or_pos buffer.size with empty | positive
    · rw [empty] at hasLast
      cases hasLast
    rw [Abort.lastSlot_of_pos positive] at hasLast
    cases hasLast
    exact ⟨positive, found, Except.ok.inj answered, searched⟩
  · rintro ⟨positive, found, rfl, searched⟩
    exact ⟨found, searched, _, Abort.lastSlot_of_pos positive, rfl⟩

omit [Power] in
theorem select_eq_ok {mass draw bound : Binary32} {found : Nat} (positive : 0 < buffer.size)
    (bounded : buffer.sums.total * Binary32.belowOne = bound)
    (index : buffer.sums.indexOfPrefixSum ((draw * mass).lesser bound) = .ok found) :
    buffer.select mass draw = .ok (min found (buffer.size - 1)) :=
  select_eq_ok_iff.2 ⟨positive, found, rfl, bounded ▸ index⟩

theorem Sound.exists_select (sound : buffer.Sound layout named) (positive : 0 < buffer.size)
    (mass : Magnitude) {draw : Binary32} (nonneg : 0 ≤ draw) (below : draw < 1) :
    ∃ slot, buffer.select (finite false mass) draw = .ok slot ∧ slot < buffer.size := by
  have inside := sound.size_le_sums
  obtain ⟨root, total, normal⟩ := sound.weights.exists_total (by omega : 0 < _) (Or.inl positive)
  obtain ⟨bound, product, less⟩ := Binary32.exists_mul_belowOne normal
  have targetBelow : (draw * finite false mass).lesser (finite false bound) < finite false root :=
    Binary32.lt_of_le_of_lt (Binary32.lesser_le_right Binary32.noConfusion)
      (Binary32.finite_lt_finite.2 less)
  have targetNonneg : 0 ≤ (draw * finite false mass).lesser (finite false bound) := by
    rcases Binary32.lesser_eq_or (draw * finite false mass) (finite false bound) with same | same
    · rw [same]
      exact Binary32.zero_le_mul_finite nonneg below
    · rw [same]
      exact Binary32.zero_le_finite bound
  have found := SegmentTree.indexOfPrefixSum_eq_ok total targetNonneg targetBelow
  exact ⟨_, select_eq_ok positive (total ▸ product) found, by omega⟩

omit [Power] in
/-- Clamping puts an importance weight between the least number of full precision and one, whatever
the power function makes of the ratio. -/
theorem leastNormal_le_clamp (x : Binary32) :
    Binary32.leastNormal ≤ (x.greater Binary32.leastNormal).lesser 1 := by
  rcases Binary32.lesser_eq_or (x.greater Binary32.leastNormal) 1 with same | same
  · rw [same]
    exact Binary32.le_greater_right Binary32.noConfusion
  · rw [same]
    decide

def importanceOf (buffer : Buffer) (leaf : Binary32) : Binary32 :=
  ((Power.pow (buffer.mins.total / leaf) buffer.beta).greater Binary32.leastNormal).lesser 1

theorem importanceWeight_eq_ok_iff {slot : Nat} {weight : Binary32} :
    buffer.importanceWeight slot = .ok weight ↔
      ∃ leaf, buffer.sums.leaf slot = .ok leaf ∧ buffer.importanceOf leaf = weight := by
  unfold importanceWeight importanceOf
  simp only [bind_eq_ok_iff, refusing, mapError_eq_ok_iff]
  constructor
  · rintro ⟨leaf, held, weighed⟩
    exact ⟨leaf, held, Except.ok.inj weighed⟩
  · rintro ⟨leaf, held, rfl⟩
    exact ⟨leaf, held, rfl⟩

theorem Sound.exists_magnitude (sound : buffer.Sound layout named) {slot : Nat}
    (written : slot < buffer.size) :
    ∃ m : Magnitude, buffer.sums.leaf slot = .ok (finite false m) ∧
      buffer.mins.leaf slot = .ok (finite false m) ∧ 0 < m.units := by
  have inside := Nat.lt_of_lt_of_le written sound.size_le_sums
  obtain ⟨⟨m, equal, normal, _⟩, same⟩ := sound.weights.weight slot inside (Or.inl written)
  refine ⟨m, ?_, ?_, Nat.lt_of_lt_of_le (by decide) normal⟩
  · rw [SegmentTree.leaf_eq_ok inside, equal]
  · rw [SegmentTree.leaf_eq_ok (by rwa [sound.weights.size_eq]), same, equal]

theorem Sound.exists_leaf (sound : buffer.Sound layout named) {slot : Nat}
    (written : slot < buffer.size) :
    ∃ leaf, buffer.sums.leaf slot = .ok leaf ∧ 0 < leaf ∧ leaf.isFinite := by
  obtain ⟨m, leaf, _, positive⟩ := sound.exists_magnitude written
  exact ⟨_, leaf, Binary32.zero_lt_finite.2 positive, rfl⟩

theorem Sound.exists_importanceWeight (sound : buffer.Sound layout named) {slot : Nat}
    (written : slot < buffer.size) : ∃ weight, buffer.importanceWeight slot = .ok weight ∧
      Binary32.leastNormal ≤ weight ∧ weight ≤ 1 := by
  obtain ⟨m, leaf, _⟩ := sound.exists_magnitude written
  exact ⟨_, importanceWeight_eq_ok_iff.2 ⟨_, leaf, rfl⟩, leastNormal_le_clamp _,
    Binary32.lesser_le_right Binary32.noConfusion⟩

omit [Power] in
theorem find?_share_eq_none_iff {draws : List Binary32} :
    draws.find? (fun draw => ¬(0 ≤ draw ∧ draw < 1)) = none ↔
      ∀ draw ∈ draws, 0 ≤ draw ∧ draw < 1 := by
  simp

theorem sampleWith_eq_ok_iff {draws : List Binary32} {batch : SampledBatch} :
    buffer.sampleWith draws = .ok batch ↔ ∃ mass, buffer.totalMass = .ok mass ∧
      (∀ draw ∈ draws, 0 ≤ draw ∧ draw < 1) ∧
      draws.mapM (buffer.select mass) = .ok batch.indices ∧
      batch.indices.mapM buffer.importanceWeight = .ok batch.weights ∧
      buffer.ring.read batch.indices = .ok batch.records := by
  unfold sampleWith
  rw [bind_eq_ok_iff]
  constructor
  · rintro ⟨mass, massed, sampled⟩
    split at sampled
    next => cases sampled
    next valid =>
      obtain ⟨indices, selected, sampled⟩ := bind_eq_ok_iff.1 sampled
      obtain ⟨weights, weighed, sampled⟩ := bind_eq_ok_iff.1 sampled
      obtain ⟨records, shown, sampled⟩ := bind_eq_ok_iff.1 sampled
      cases sampled
      exact ⟨mass, massed, find?_share_eq_none_iff.1 valid, selected, weighed, shown⟩
  · rintro ⟨mass, massed, shares, selected, weighed, shown⟩
    refine ⟨mass, massed, ?_⟩
    rw [find?_share_eq_none_iff.2 shares]
    exact bind_eq_ok_iff.2 ⟨_, selected,
      bind_eq_ok_iff.2 ⟨_, weighed, bind_eq_ok_iff.2 ⟨_, shown, rfl⟩⟩⟩

theorem Sound.exists_sampleWith (sound : buffer.Sound layout named) (positive : 0 < buffer.size)
    {draws : List Binary32} (shares : ∀ draw ∈ draws, 0 ≤ draw ∧ draw < 1) :
    ∃ batch, buffer.sampleWith draws = .ok batch ∧ batch.DrawnFrom buffer draws := by
  obtain ⟨mass, massed, _⟩ := sound.exists_totalMass positive
  obtain ⟨indices, selected, below⟩ := exists_mapM_eq_ok fun draw mem =>
    sound.exists_select positive mass (shares draw mem).1 (shares draw mem).2
  have written := forall_mem_of_forall₂ below
  obtain ⟨weights, weighed, bounds⟩ := exists_mapM_eq_ok fun slot mem =>
    sound.exists_importanceWeight (written slot mem)
  obtain ⟨history, holds⟩ := sound.ring
  obtain ⟨records, shown⟩ : ∃ records, buffer.ring.read indices = .ok records :=
    ⟨_, holds.read fun slot mem => Nat.lt_of_lt_of_le (written slot mem) sound.size_le⟩
  refine ⟨⟨records, indices, weights⟩,
    sampleWith_eq_ok_iff.2 ⟨_, massed, shares, selected, weighed, shown⟩, ?_⟩
  exact {
    length_indices := below.length_eq.symm
    length_weights := by rw [← bounds.length_eq, ← below.length_eq]
    indices := fun slot mem => ⟨written slot mem, sound.exists_leaf (written slot mem)⟩
    weights := forall_mem_of_forall₂ bounds }

omit [Power] in
theorem totalMass_of_empty (empty : buffer.size = 0) :
    buffer.totalMass = .error (.refused .emptyBuffer) := by
  unfold totalMass
  rw [if_pos empty]
  rfl

omit [Power] in
theorem size_pos_of_totalMass {mass : Binary32} (massed : buffer.totalMass = .ok mass) :
    0 < buffer.size := by
  apply Nat.pos_of_ne_zero
  intro empty
  rw [totalMass_of_empty empty] at massed
  cases massed

theorem Sound.drawnFrom (sound : buffer.Sound layout named) {draws : List Binary32}
    {batch : SampledBatch} (sampled : buffer.sampleWith draws = .ok batch) :
    batch.DrawnFrom buffer draws := by
  obtain ⟨mass, massed, shares, _⟩ := sampleWith_eq_ok_iff.1 sampled
  obtain ⟨batch', sampled', drawn⟩ :=
    sound.exists_sampleWith (size_pos_of_totalMass massed) shares
  obtain rfl : batch = batch' := Except.ok.inj (sampled.symm.trans sampled')
  exact drawn

theorem Sound.sampleWith (sound : buffer.Sound layout named) (draws : List Binary32) :
    (∃ batch, buffer.sampleWith draws = .ok batch) ∨
      ∃ error, buffer.sampleWith draws = .error (.refused error) := by
  by_cases empty : buffer.size = 0
  · refine Or.inr ⟨.emptyBuffer, ?_⟩
    unfold Buffer.sampleWith
    rw [totalMass_of_empty empty]
    rfl
  have positive := Nat.pos_of_ne_zero empty
  cases invalid : draws.find? (fun draw => ¬(0 ≤ draw ∧ draw < 1)) with
  | some draw =>
    obtain ⟨mass, massed, _⟩ := sound.exists_totalMass positive
    refine Or.inr ⟨.invalidUniform draw, ?_⟩
    unfold Buffer.sampleWith
    rw [massed]
    simp only [bind, Except.bind, invalid]
    rfl
  | none =>
    obtain ⟨batch, sampled, _⟩ :=
      sound.exists_sampleWith positive (find?_share_eq_none_iff.1 invalid)
    exact Or.inl ⟨batch, sampled⟩

omit [Power] in
/-- A draw of the stream is a fraction with 24 bits, so that nothing is rounded. -/
theorem draw_mem_share (key : ChaCha.Key) (k : Nat) :
    0 ≤ RandomStream.draw key k ∧ RandomStream.draw key k < 1 := by
  have small : (ChaCha.word key k >>> 8).toNat < 2 ^ 24 := by
    have := (ChaCha.word key k).toNat_lt
    rw [UInt32.toNat_shiftRight]
    change (ChaCha.word key k).toNat >>> 8 < 2 ^ 24
    rw [Nat.shiftRight_eq_div_pow]
    omega
  unfold RandomStream.draw
  generalize (ChaCha.word key k >>> 8).toNat = upper at small ⊢
  have below : upper * 2 ^ 125 < Binary32.unitsPerOne :=
    Nat.mul_lt_mul_of_pos_right small (Nat.two_pow_pos 125)
  obtain ⟨m, units⟩ : ∃ m : Magnitude, m.units = upper * 2 ^ 125 :=
    ⟨⟨_, Rounding.fits_mul_two_pow (by decide) (Nat.le_of_lt small),
      Nat.le_trans (Nat.le_of_lt below) (by decide)⟩, rfl⟩
  have exact :
      Binary32.ofQuotient false (upper * Binary32.unitsPerOne) (2 ^ 24) = finite false m := by
    apply Binary32.ofQuotient_eq false m (by decide)
    rw [units, Nat.mul_assoc, ← Nat.pow_add]
    rfl
  rw [exact]
  refine ⟨Binary32.zero_le_finite m, Binary32.finite_lt_finite.2 ?_⟩
  rw [units]
  exact below

theorem perform_sample_of_empty (empty : buffer.size = 0) (n : Nat) :
    (sample n).perform buffer = (.error (.refused .emptyBuffer), buffer) := by
  unfold sample
  rw [Action.perform_bind, Action.perform_inspect, totalMass_of_empty empty]

omit [Power] in
theorem share_of_mem_take (stream : RandomStream) (n : Nat) :
    ∀ draw ∈ (stream.take n).1, 0 ≤ draw ∧ draw < 1 := by
  intro draw mem
  obtain ⟨i, _, rfl⟩ := List.mem_map.1 mem
  exact draw_mem_share _ _

theorem perform_sample_of_sampled {n : Nat} {batch : SampledBatch}
    (sampled : buffer.sampleWith (buffer.stream.take n).1 = .ok batch) :
    (sample n).perform buffer =
      (.ok batch, { buffer with stream := (buffer.stream.take n).2 }) := by
  obtain ⟨mass, massed, _⟩ := sampleWith_eq_ok_iff.1 sampled
  unfold sample takeDraws
  rw [Action.perform_bind, Action.perform_inspect, massed]
  simp only
  rw [Action.perform_bind, Action.perform_update]
  simp only
  rw [Action.perform_inspect]
  exact congrArg (·, _) sampled

theorem sampleWith_of_perform_sample {n : Nat} {batch : SampledBatch}
    (performed : ((sample n).perform buffer).1 = .ok batch) :
    buffer.sampleWith (buffer.stream.take n).1 = .ok batch := by
  unfold sample takeDraws at performed
  rw [Action.perform_bind, Action.perform_inspect] at performed
  cases massed : buffer.totalMass with
  | error abort =>
    rw [massed] at performed
    cases performed
  | ok mass =>
    rw [massed] at performed
    simp only at performed
    rw [Action.perform_bind, Action.perform_update] at performed
    simp only at performed
    rwa [Action.perform_inspect] at performed

theorem Sound.perform_sample (sound : buffer.Sound layout named) (positive : 0 < buffer.size)
    (n : Nat) :
    ∃ batch, (sample n).perform buffer =
      (.ok batch, { buffer with stream := (buffer.stream.take n).2 }) := by
  obtain ⟨batch, sampled, _⟩ := sound.exists_sampleWith positive (share_of_mem_take _ n)
  exact ⟨batch, perform_sample_of_sampled sampled⟩

end Buffer

end ExperienceReplay

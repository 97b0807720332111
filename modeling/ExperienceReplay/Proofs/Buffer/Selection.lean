import ExperienceReplay.Proofs.Buffer.Runs
import ExperienceReplay.Proofs.SegmentTree.Descent

/-!
Two draws from one buffer. Main statement: the greater draw selects the later slot, or the same one,
whatever weights the buffer holds, so that the draws that select a slot are an interval.
-/

namespace ExperienceReplay

namespace Buffer

variable {buffer : Buffer} {mass draw other : Binary32} {slot later : Nat}

theorem exists_hasUnits_of_totalMass (massed : buffer.totalMass = .ok mass) :
    ∃ n, mass.HasUnits n := by
  unfold totalMass at massed
  split at massed
  next => cases massed
  next =>
    obtain ⟨last, _, massed⟩ := bind_eq_ok_iff.1 massed
    obtain ⟨sum, _, massed⟩ := bind_eq_ok_iff.1 massed
    split at massed
    next => cases massed
    next degenerate =>
      cases massed
      obtain ⟨positive, isFinite⟩ := not_not.1 degenerate
      exact Binary32.exists_hasUnits_of_isFinite (Binary32.le_of_lt positive) isFinite

theorem draw_mul_le_draw_mul {n : Nat} (finite : mass.HasUnits n) (nonneg : 0 ≤ draw)
    (ordered : draw ≤ other) (below : other < 1) : draw * mass ≤ other * mass := by
  obtain ⟨a, _, ha⟩ :=
    Binary32.hasUnits_one.exists_below nonneg (Binary32.lt_of_le_of_lt ordered below)
  obtain ⟨b, _, hb⟩ := Binary32.hasUnits_one.exists_below (Binary32.le_trans nonneg ordered) below
  have le : a ≤ b := (ha.le_iff hb).1 ordered
  exact Binary32.mul_le_mul ha finite hb finite (by exact_mod_cast Nat.mul_le_mul_right n le)

theorem select_le_select {n : Nat} (finite : mass.HasUnits n) (nonneg : 0 ≤ draw)
    (ordered : draw ≤ other) (below : other < 1) (selected : buffer.select mass draw = .ok slot)
    (selected' : buffer.select mass other = .ok later) : slot ≤ later := by
  obtain ⟨_, found, rfl, here⟩ := select_eq_ok_iff.1 selected
  obtain ⟨_, found', rfl, there⟩ := select_eq_ok_iff.1 selected'
  have targets := Binary32.lesser_le_lesser (draw_mul_le_draw_mul finite nonneg ordered below)
    (buffer.sums.total * Binary32.belowOne)
  have := buffer.sums.findsInOrder targets here there
  omega

variable [Power]

def SelectsInOrder (buffer : Buffer) : Prop :=
  ∀ {draws others : List Binary32} {batch batch' : SampledBatch},
    buffer.sampleWith draws = .ok batch → buffer.sampleWith others = .ok batch' →
    ∀ first ∈ draws.zip batch.indices, ∀ second ∈ others.zip batch'.indices,
      first.1 ≤ second.1 → first.2 ≤ second.2

theorem selectsInOrder (buffer : Buffer) : buffer.SelectsInOrder := by
  rintro draws others batch batch' sampled sampled' ⟨draw, slot⟩ mem ⟨other, later⟩ mem' ordered
  obtain ⟨mass, massed, shares, selected, _⟩ := sampleWith_eq_ok_iff.1 sampled
  obtain ⟨mass', massed', shares', selected', _⟩ := sampleWith_eq_ok_iff.1 sampled'
  obtain rfl : mass' = mass := Except.ok.inj (massed'.symm.trans massed)
  obtain ⟨n, finite⟩ := exists_hasUnits_of_totalMass massed
  exact select_le_select finite (shares draw (List.of_mem_zip mem).1).1 ordered
    (shares' other (List.of_mem_zip mem').1).2
    (List.forall₂_zip (forall₂_of_mapM_eq_ok selected) mem)
    (List.forall₂_zip (forall₂_of_mapM_eq_ok selected') mem')

/-- Greater targets are found in later leaves of every tree, and greater draws select later slots of
every buffer; and after any requests a buffer that holds records has a slot for every draw. -/
theorem selection_in_order :
    (∀ tree : SumTree, tree.FindsInOrder) ∧ (∀ buffer : Buffer, buffer.SelectsInOrder) ∧
    ∀ {config : Config} {start : Buffer}, config.capacity < 2 ^ 64 →
      Power.pow 1 config.alpha = 1 → build config = .ok start →
      ∀ requests, 0 < (start.after requests).size →
      ∀ draws : List Binary32, (∀ draw ∈ draws, 0 ≤ draw ∧ draw < 1) →
        ∃ batch, (start.after requests).sampleWith draws = .ok batch ∧
          batch.indices.length = draws.length := by
  refine ⟨SegmentTree.findsInOrder, selectsInOrder, ?_⟩
  intro config start word one_pow built requests holdsRecords draws shares
  obtain ⟨layout, _, sound⟩ := exists_sound_of_build word one_pow built
  obtain ⟨batch, sampled, drawn⟩ := (sound.after requests).exists_sampleWith holdsRecords shares
  exact ⟨batch, sampled, drawn.length_indices⟩

omit [Power] in
/-- A tree with a negative leaf, and a leaf that its sum is too coarse for; and a buffer whose mass
is rounded. -/
theorem selection_in_order_rounded :
    letI := Power.linear
    let half := 1 / Binary32.ofNat 2
    let tree : SumTree := (SegmentTree.ofCapacity .sum 4).writeAll
      [(0, 1), (1, -half), (2, 1), (3, Binary32.leastNormal)]
    (∃ i j, tree.indexOfPrefixSum 0 = .ok i ∧ tree.indexOfPrefixSum half = .ok j ∧ i ≤ j) ∧
    ∃ start, build (.linear 3) = .ok start ∧
      let buffer := start.after [.insert (.ofList [("states", [0, 1]), ("terminals", [0, 1])]),
        .update [1] [Binary32.leastNormal]]
      (∃ batch, buffer.sampleWith [0, half, Binary32.belowOne] = .ok batch ∧
        batch.indices.length = 3) ∧
      ∃ first later, (buffer.sampleWith [half]).map SampledBatch.indices = .ok [first] ∧
        (buffer.sampleWith [Binary32.belowOne]).map SampledBatch.indices = .ok [later] ∧
        first ≤ later := by
  let _ := Power.linear
  have built : build (.linear 3) = .ok _ := rfl
  intro half tree
  obtain ⟨findsInOrder, selectsInOrder, answered⟩ := selection_in_order
  refine ⟨⟨0, 2, by decide +kernel, by decide +kernel, ?_⟩, _, built, ?_⟩
  · exact findsInOrder tree (by decide +kernel : (0 : Binary32) ≤ half) (by decide +kernel)
      (by decide +kernel)
  intro buffer
  have answered := answered (by decide) rfl built
    [.insert (.ofList [("states", [0, 1]), ("terminals", [0, 1])]),
      .update [1] [Binary32.leastNormal]] (by decide +kernel)
  obtain ⟨batch, sampled, drawn⟩ := answered [half] (by decide +kernel)
  obtain ⟨batch', sampled', drawn'⟩ := answered [Binary32.belowOne] (by decide +kernel)
  obtain ⟨first, indices⟩ := List.length_eq_one_iff.1 drawn
  obtain ⟨later, indices'⟩ := List.length_eq_one_iff.1 drawn'
  refine ⟨answered _ (by decide +kernel), first, later, ?_, ?_, ?_⟩
  · rw [sampled, ← indices]
    rfl
  · rw [sampled', ← indices']
    rfl
  · exact selectsInOrder buffer sampled sampled' (half, first) (by simp [indices])
      (Binary32.belowOne, later) (by simp [indices']) (by decide +kernel : half ≤ Binary32.belowOne)

end Buffer

end ExperienceReplay

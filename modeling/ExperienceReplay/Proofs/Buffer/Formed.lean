import ExperienceReplay.Proofs.Buffer.Runs

/-!
What holds of a buffer after any calls whatever its power function is: the ring is the history of
some records, and both trees have room for all slots and combine their leaves. Nothing is said about
the numbers in the leaves.
-/

namespace ExperienceReplay.Buffer

structure Formed (buffer : Buffer) (layout : RecordRing.Layout) : Prop where
  ring : ∃ history, buffer.ring.Holds layout history
  capacity_le : layout.capacity ≤ buffer.sums.size
  height_eq : buffer.mins.height = buffer.sums.height
  sums_combined : buffer.sums.root.Combined .sum
  mins_combined : buffer.mins.root.Combined .min

variable {buffer : Buffer} {layout : RecordRing.Layout}

theorem exists_formed_of_build {config : Config} (built : build config = .ok buffer) :
    ∃ layout : RecordRing.Layout, layout.capacity = config.capacity ∧
      layout.schema = config.fields ∧ buffer.Formed layout := by
  obtain ⟨ring, made, rfl⟩ := exists_ring_of_build built
  obtain ⟨layout, capacity, schema, _, holds⟩ := RecordRing.exists_layout_of_build made
  refine ⟨layout, capacity, schema, ⟨[], holds⟩, ?_, rfl, ?_, ?_⟩
  · rw [capacity]
    exact le_two_pow_ceilLog2 config.capacity
  · exact PerfectTree.combined_replicate rfl _
  · exact PerfectTree.combined_replicate (Operation.min_self _) _

theorem Formed.capacity_eq (formed : buffer.Formed layout) : buffer.capacity = layout.capacity := by
  obtain ⟨_, holds⟩ := formed.ring
  exact holds.capacity_eq

theorem Formed.inside (formed : buffer.Formed layout) {slot : Nat}
    (below : slot < layout.capacity) : slot < buffer.sums.size ∧ slot < buffer.mins.size := by
  have sizes : buffer.mins.size = buffer.sums.size := congrArg (2 ^ ·) formed.height_eq
  have := formed.capacity_le
  omega

theorem Formed.of_stream (formed : buffer.Formed layout) (stream : RandomStream) :
    ({ buffer with stream } : Buffer).Formed layout :=
  ⟨formed.ring, formed.capacity_le, formed.height_eq, formed.sums_combined, formed.mins_combined⟩

theorem Formed.weighing (formed : buffer.Formed layout) (entries : List (Nat × Binary32)) :
    (buffer.weighing entries).Formed layout where
  ring := formed.ring
  capacity_le := formed.capacity_le.trans_eq (SegmentTree.size_writeAll _ _).symm
  height_eq := by
    change (SegmentTree.writeAll _ _).height = (SegmentTree.writeAll _ _).height
    rw [SegmentTree.height_writeAll, SegmentTree.height_writeAll, formed.height_eq]
  sums_combined := SegmentTree.combined_writeAll formed.sums_combined entries
  mins_combined := SegmentTree.combined_writeAll formed.mins_combined entries

theorem Formed.weighing_congr (formed : buffer.Formed layout)
    {entries others : List (Nat × Binary32)}
    (inside : ∀ entry ∈ entries, entry.1 < buffer.sums.size ∧ entry.1 < buffer.mins.size)
    (inside' : ∀ entry ∈ others, entry.1 < buffer.sums.size ∧ entry.1 < buffer.mins.size)
    (same : ∀ slot, lastFor? entries slot = lastFor? others slot) :
    buffer.weighing entries = buffer.weighing others := by
  have sums := SegmentTree.writeAll_congr formed.sums_combined
    (fun entry mem => (inside entry mem).1) (fun entry mem => (inside' entry mem).1) same
  have mins := SegmentTree.writeAll_congr formed.mins_combined
    (fun entry mem => (inside entry mem).2) (fun entry mem => (inside' entry mem).2) same
  unfold Buffer.weighing
  rw [sums, mins]

variable [Power]

theorem Formed.perform_insert (formed : buffer.Formed layout) {batch : Records} {slots : List Nat}
    {ring : RecordRing} (inserted : buffer.ring.insert batch = .ok (slots, ring))
    (below : ∀ slot ∈ slots, slot < layout.capacity) :
    (insert batch).perform buffer = (.ok (), buffer.filled slots ring) :=
  Buffer.perform_insert inserted fun slot mem => formed.inside (below slot mem)

theorem perform_insert_of_refused {batch : Records} {abort : Abort}
    (refused : buffer.ring.insert batch = .error abort) :
    (insert batch).perform buffer = (.error abort, buffer) := by
  unfold insert
  rw [Action.perform_bind, Action.perform_update, refused]
  rfl

/-- A batch is inserted, and its records come after those before, or it is refused and changes
nothing. -/
theorem Formed.perform_insert_cases (formed : buffer.Formed layout) (batch : Records) :
    (∃ slots ring history newer, buffer.ring.Holds layout history ∧
      ring.Holds layout (history ++ newer) ∧
      (Buffer.insert batch).perform buffer = (.ok (), buffer.filled slots ring)) ∨
    ∃ cause, (Buffer.insert batch).perform buffer =
      (.error (.refused (.schemaMismatch cause)), buffer) := by
  obtain ⟨history, holds⟩ := formed.ring
  by_cases fits : ∃ count, Schema.Fits layout.schema batch count
  · obtain ⟨count, fits⟩ := fits
    obtain ⟨ring, inserted, holds'⟩ := holds.insert_of_fits fits
    refine Or.inl ⟨_, ring, history, _, holds, holds', formed.perform_insert inserted ?_⟩
    intro slot mem
    obtain ⟨j, _, rfl⟩ := List.mem_map.1 mem
    exact Nat.mod_lt _ layout.capacity_pos
  · obtain ⟨cause, refused⟩ := holds.insert_of_not_fits (not_exists.1 fits)
    exact Or.inr ⟨cause, perform_insert_of_refused refused⟩

theorem Formed.insert (formed : buffer.Formed layout) (batch : Records) :
    ((Buffer.insert batch).perform buffer).2.Formed layout := by
  rcases formed.perform_insert_cases batch with
    ⟨slots, ring, history, newer, _, holds, performed⟩ | ⟨cause, refused⟩
  · rw [performed]
    apply Formed.weighing
    exact ⟨⟨_, holds⟩, formed.capacity_le, formed.height_eq, formed.sums_combined,
      formed.mins_combined⟩
  · rwa [refused]

theorem Formed.sample (formed : buffer.Formed layout) (n : Nat) :
    ((Buffer.sample n).perform buffer).2.Formed layout := by
  unfold Buffer.sample takeDraws
  rw [Action.perform_bind, Action.perform_inspect]
  cases buffer.totalMass with
  | error abort => exact formed
  | ok mass =>
    simp only
    rw [Action.perform_bind, Action.perform_update]
    simp only
    rw [Action.perform_inspect]
    exact formed.of_stream _

def updated (buffer : Buffer) (scores : List (Nat × Binary32)) : Buffer :=
  { buffer.rescored scores with annealing := buffer.annealing.countUpdate }

theorem Formed.inside_of_checked (formed : buffer.Formed layout) {scores : List (Nat × Binary32)}
    (checked : scores.forM buffer.checkScore = .ok ()) :
    ∀ score ∈ scores, score.1 < buffer.sums.size ∧ score.1 < buffer.mins.size := by
  intro score mem
  have passed := checkScore_eq_ok_iff.1 (forM_eq_ok_iff.1 checked score mem)
  rw [formed.capacity_eq] at passed
  exact formed.inside passed.1

theorem Formed.perform_update_of_checked (formed : buffer.Formed layout) {indices : List Nat}
    {priorities : List Binary32} (same : indices.length = priorities.length)
    (checked : (indices.zip priorities).forM buffer.checkScore = .ok ()) :
    (Buffer.update indices priorities).perform buffer =
      (.ok (), buffer.updated (indices.zip priorities)) :=
  Buffer.perform_update_of_checked same checked
    (perform_rescores (formed.inside_of_checked checked))

theorem Formed.perform_update_cases (formed : buffer.Formed layout) (indices : List Nat)
    (priorities : List Binary32) :
    (indices.length = priorities.length ∧
      (indices.zip priorities).forM buffer.checkScore = .ok () ∧
      (Buffer.update indices priorities).perform buffer =
        (.ok (), buffer.updated (indices.zip priorities))) ∨
    ∃ error, (Buffer.update indices priorities).perform buffer =
      (.error (.refused error), buffer) := by
  by_cases same : indices.length = priorities.length
  · cases checked : (indices.zip priorities).forM buffer.checkScore with
    | error error => exact Or.inr ⟨error, perform_update_of_refused same checked⟩
    | ok => exact Or.inl ⟨same, rfl, formed.perform_update_of_checked same checked⟩
  · exact Or.inr ⟨_, perform_update_of_mismatch same⟩

theorem Formed.update (formed : buffer.Formed layout) (indices : List Nat)
    (priorities : List Binary32) :
    ((Buffer.update indices priorities).perform buffer).2.Formed layout := by
  rcases formed.perform_update_cases indices priorities with ⟨_, _, performed⟩ | ⟨error, refused⟩
  · rw [performed]
    have weighed := formed.weighing
      ((indices.zip priorities).map fun score => (score.1, Power.pow score.2 buffer.alpha))
    exact ⟨weighed.ring, weighed.capacity_le, weighed.height_eq, weighed.sums_combined,
      weighed.mins_combined⟩
  · rwa [refused]

theorem Formed.ask (formed : buffer.Formed layout) (request : Request) :
    (buffer.ask request).2.Formed layout := by
  cases request with
  | insert batch =>
    rw [ask_insert]
    exact formed.insert batch
  | sample n =>
    rw [ask_sample]
    exact formed.sample n
  | draw draws =>
    rw [ask_draw]
    exact formed
  | update indices priorities =>
    rw [ask_update]
    exact formed.update indices priorities
  | length => exact formed

theorem Formed.after (formed : buffer.Formed layout) (requests : List Request) :
    (buffer.after requests).Formed layout := by
  induction requests generalizing buffer with
  | nil => exact formed
  | cons request rest ih => exact ih (formed.ask request)

end ExperienceReplay.Buffer

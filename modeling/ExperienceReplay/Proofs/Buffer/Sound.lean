import ExperienceReplay.Proofs.Buffer.Weights
import ExperienceReplay.Proofs.RecordRing.Reading

/-!
What holds of a buffer after any calls: its ring is the history of some records, and both trees hold
a weight for every slot that was written or rescored. Each call that changes the buffer keeps this,
or is refused and changes nothing.
-/

namespace ExperienceReplay

/-- The slots that records `n` to `n + count - 1` go to, with those below, are the slots that hold
the first `n + count` records. -/
theorem lt_min_or_mem_slots_iff {capacity n count slot : Nat} (positive : 0 < capacity) :
    (slot < min n capacity ∨ slot ∈ (List.range count).map fun j => (n + j) % capacity) ↔
      slot < min (n + count) capacity := by
  simp only [List.mem_map, List.mem_range]
  constructor
  · rintro (written | ⟨j, hj, rfl⟩)
    · omega
    · have := Nat.mod_lt (n + j) positive
      have := Nat.mod_le (n + j) capacity
      omega
  · intro below
    by_cases written : slot < min n capacity
    · exact Or.inl written
    · refine Or.inr ⟨slot - n, by omega, ?_⟩
      rw [Nat.add_sub_cancel' (by omega), Nat.mod_eq_of_lt (by omega)]

namespace Buffer

def seedWeight [Power] (buffer : Buffer) : Binary32 := Power.pow buffer.maxPriority buffer.alpha

/-- What holds of a buffer of a layout after any calls, where `named` are the slots rescored. -/
structure Sound [Power] (buffer : Buffer) (layout : RecordRing.Layout) (named : List Nat) :
    Prop where
  ring : ∃ history, buffer.ring.Holds layout history
  capacity_le : layout.capacity ≤ buffer.sums.size
  weights : Weights buffer.sums buffer.mins fun slot => slot < buffer.size ∨ slot ∈ named
  named_lt_capacity : ∀ slot ∈ named, slot < layout.capacity
  seed : IsWeight buffer.sums.height buffer.seedWeight

variable [Power] {buffer : Buffer} {layout : RecordRing.Layout} {named : List Nat}

theorem Sound.of_stream (sound : buffer.Sound layout named) (stream : RandomStream) :
    ({ buffer with stream } : Buffer).Sound layout named :=
  ⟨sound.ring, sound.capacity_le, sound.weights, sound.named_lt_capacity, sound.seed⟩

theorem Sound.named_lt (sound : buffer.Sound layout named) :
    ∀ slot ∈ named, slot < buffer.sums.size :=
  fun slot mem => Nat.lt_of_lt_of_le (sound.named_lt_capacity slot mem) sound.capacity_le

theorem Sound.capacity_eq (sound : buffer.Sound layout named) :
    buffer.capacity = layout.capacity := by
  obtain ⟨_, holds⟩ := sound.ring
  exact holds.capacity_eq

omit [Power] in
theorem exists_ring_of_build {config : Config} (built : build config = .ok buffer) :
    ∃ ring, RecordRing.build config.capacity config.fields config.nextStates = .ok ring ∧
      buffer = {
        ring
        sums := .ofCapacity _ config.capacity
        mins := .ofCapacity _ config.capacity
        alpha := config.alpha
        annealing := .ofSchedule config.beta config.betaSchedule
        maxPriority := 1
        stream := .ofSeed config.seed } := by
  unfold build at built
  cases valid : config.validate with
  | error defect =>
    rw [valid] at built
    cases built
  | ok =>
    cases made : RecordRing.build config.capacity config.fields config.nextStates with
    | error error =>
      rw [valid, made] at built
      cases built
    | ok ring =>
      rw [valid, made] at built
      exact ⟨ring, rfl, (Except.ok.inj built).symm⟩

/-- One to the power `alpha` has to be a weight: it is that of the first records. -/
theorem exists_sound_of_build {config : Config} (word : config.capacity < 2 ^ 64)
    (one_pow : Power.pow 1 config.alpha = 1) (built : build config = .ok buffer) :
    ∃ layout : RecordRing.Layout, layout.capacity = config.capacity ∧ buffer.Sound layout [] := by
  obtain ⟨ring, made, rfl⟩ := exists_ring_of_build built
  obtain ⟨layout, same, _, _, holds⟩ := RecordRing.exists_layout_of_build made
  have empty : ring.size = 0 := holds.size_eq.trans (Nat.zero_min _)
  have weights := Weights.ofCapacity word
  refine ⟨layout, same, ⟨[], holds⟩, ?_, ?_, by simp, ?_⟩
  · rw [same]
    exact le_two_pow_ceilLog2 config.capacity
  · apply weights.congr
    intro slot
    simp [Buffer.size, empty]
  · change IsWeight _ (Power.pow 1 config.alpha)
    rw [one_pow]
    exact isWeight_one weights.small

omit [Power] in
theorem perform_setWeight {weight : Binary32} {slot : Nat} (inSums : slot < buffer.sums.size)
    (inMins : slot < buffer.mins.size) :
    (setWeight weight slot).perform buffer = (.ok (), { buffer with
      sums := buffer.sums.write slot weight .replace
      mins := buffer.mins.write slot weight .replace }) := by
  unfold setWeight
  rw [Action.perform_bind, Action.perform_update, SegmentTree.update_eq_ok inSums]
  change (Action.update _).perform _ = _
  rw [Action.perform_update]
  simp only
  rw [SegmentTree.update_eq_ok inMins]
  rfl

def weighing (buffer : Buffer) (entries : List (Nat × Binary32)) : Buffer :=
  { buffer with
    sums := buffer.sums.writeAll entries
    mins := buffer.mins.writeAll entries }

omit [Power] in
theorem perform_setWeights {weight : Binary32} {slots : List Nat}
    (inside : ∀ slot ∈ slots, slot < buffer.sums.size ∧ slot < buffer.mins.size) :
    (slots.forM (setWeight weight)).perform buffer =
      (.ok (), buffer.weighing (slots.map (·, weight))) := by
  induction slots generalizing buffer with
  | nil => rfl
  | cons slot rest ih =>
    obtain ⟨⟨inSums, inMins⟩, inside⟩ := List.forall_mem_cons.1 inside
    rw [List.forM, Action.perform_bind, perform_setWeight inSums inMins]
    exact ih inside

def filled (buffer : Buffer) (slots : List Nat) (ring : RecordRing) : Buffer :=
  { buffer with ring }.weighing (slots.map (·, buffer.seedWeight))

theorem perform_insert {batch : Records} {slots : List Nat} {ring : RecordRing}
    (inserted : buffer.ring.insert batch = .ok (slots, ring))
    (inside : ∀ slot ∈ slots, slot < buffer.sums.size ∧ slot < buffer.mins.size) :
    (insert batch).perform buffer = (.ok (), buffer.filled slots ring) := by
  unfold insert
  rw [Action.perform_bind, Action.perform_update, inserted]
  simp only [bind_pure_comp, Functor.map, Except.map]
  rw [Action.perform_bind, Action.perform_get]
  exact perform_setWeights inside

theorem Sound.insert_of_fits (sound : buffer.Sound layout named) {batch : Records} {count : Nat}
    (fits : Schema.Fits layout.schema batch count) :
    ∃ slots ring, buffer.ring.insert batch = .ok (slots, ring) ∧
      (∀ slot ∈ slots, slot < layout.capacity) ∧
      (insert batch).perform buffer = (.ok (), buffer.filled slots ring) ∧
      (buffer.filled slots ring).Sound layout named := by
  obtain ⟨history, holds⟩ := sound.ring
  obtain ⟨ring, inserted, holds'⟩ := holds.insert_of_fits fits
  have capacity_le := sound.capacity_le
  have size : buffer.size = min history.length layout.capacity := holds.size_eq
  have size' : ring.size = min (history.length + count) layout.capacity := by
    rw [holds'.size_eq, List.length_append, Records.length_toHistory]
  have below : ∀ slot ∈ (List.range count).map fun j => (history.length + j) % layout.capacity,
      slot < layout.capacity := by
    intro slot mem
    obtain ⟨j, _, rfl⟩ := List.mem_map.1 mem
    exact Nat.mod_lt _ layout.capacity_pos
  refine ⟨_, ring, inserted, below, perform_insert inserted fun slot mem => ?_, ⟨_, holds'⟩, ?_, ?_,
    sound.named_lt_capacity, ?_⟩
  · have := below slot mem
    rw [sound.weights.size_eq]
    omega
  · exact Nat.le_trans capacity_le (Nat.le_of_eq (SegmentTree.size_writeAll _ _).symm)
  · apply (sound.weights.writeAll fun entry mem => ?_).congr
    · intro slot
      change (slot < buffer.size ∨ slot ∈ named) ∨ _ ↔ slot < ring.size ∨ slot ∈ named
      rw [List.map_map, Function.comp_def, List.map_id', size, size',
        ← lt_min_or_mem_slots_iff layout.capacity_pos]
      exact or_right_comm
    · obtain ⟨slot, there, rfl⟩ := List.mem_map.1 mem
      exact ⟨Nat.lt_of_lt_of_le (below slot there) capacity_le, sound.seed⟩
  · exact (SegmentTree.height_writeAll _ _).symm ▸ sound.seed

theorem Sound.insert_of_not_fits (sound : buffer.Sound layout named) {batch : Records}
    (misfit : ∀ count, ¬Schema.Fits layout.schema batch count) :
    ∃ cause, buffer.ring.insert batch = .error (.refused (.schemaMismatch cause)) ∧
      (insert batch).perform buffer = (.error (.refused (.schemaMismatch cause)), buffer) := by
  obtain ⟨_, holds⟩ := sound.ring
  obtain ⟨cause, refused⟩ := holds.insert_of_not_fits misfit
  refine ⟨cause, refused, ?_⟩
  unfold insert
  rw [Action.perform_bind, Action.perform_update, refused]
  rfl

theorem Sound.insert (sound : buffer.Sound layout named) (batch : Records) :
    (∃ slots ring, buffer.ring.insert batch = .ok (slots, ring) ∧
      (∀ slot ∈ slots, slot < layout.capacity) ∧
      (Buffer.insert batch).perform buffer = (.ok (), buffer.filled slots ring) ∧
      (buffer.filled slots ring).Sound layout named) ∨
    ∃ cause, buffer.ring.insert batch = .error (.refused (.schemaMismatch cause)) ∧
      (Buffer.insert batch).perform buffer =
        (.error (.refused (.schemaMismatch cause)), buffer) := by
  by_cases fits : ∃ count, Schema.Fits layout.schema batch count
  · obtain ⟨count, fits⟩ := fits
    exact Or.inl (sound.insert_of_fits fits)
  · exact Or.inr (sound.insert_of_not_fits (not_exists.1 fits))

theorem checkScore_eq_ok_iff {score : Nat × Binary32} :
    buffer.checkScore score = .ok () ↔ score.1 < buffer.capacity ∧ buffer.isScorable score.2 := by
  unfold checkScore
  split
  next beyond =>
    constructor
    · intro passed
      cases passed
    · intro passed
      omega
  next inside =>
    split
    next scorable => simp [scorable, Nat.lt_of_not_le inside]
    next refused => simp [refused]

theorem perform_rescore {score : Nat × Binary32} (inSums : score.1 < buffer.sums.size)
    (inMins : score.1 < buffer.mins.size) :
    (rescore score).perform buffer = (.ok (), { buffer with
      sums := buffer.sums.write score.1 (Power.pow score.2 buffer.alpha) .replace
      mins := buffer.mins.write score.1 (Power.pow score.2 buffer.alpha) .replace
      maxPriority := buffer.maxPriority.greater score.2 }) := by
  unfold rescore
  rw [Action.perform_bind, Action.perform_get]
  change (setWeight _ _ >>= fun _ => _).perform buffer = _
  rw [Action.perform_bind, perform_setWeight inSums inMins]
  rfl

/-- The buffer after slots got new priorities, but before the update is counted. -/
def rescored (buffer : Buffer) (scores : List (Nat × Binary32)) : Buffer :=
  { buffer.weighing (scores.map fun score => (score.1, Power.pow score.2 buffer.alpha)) with
    maxPriority := scores.foldl (fun greatest score => greatest.greater score.2) buffer.maxPriority }

theorem perform_rescores {scores : List (Nat × Binary32)}
    (inside : ∀ score ∈ scores, score.1 < buffer.sums.size ∧ score.1 < buffer.mins.size) :
    (scores.forM rescore).perform buffer = (.ok (), buffer.rescored scores) := by
  induction scores generalizing buffer with
  | nil => rfl
  | cons score rest ih =>
    obtain ⟨⟨inSums, inMins⟩, inside⟩ := List.forall_mem_cons.1 inside
    rw [List.forM, Action.perform_bind, perform_rescore inSums inMins]
    exact ih inside

omit [Power] in
theorem foldl_greater_eq_or (scores : List (Nat × Binary32)) (greatest : Binary32) :
    scores.foldl (fun greatest score => greatest.greater score.2) greatest = greatest ∨
      ∃ score ∈ scores,
        scores.foldl (fun greatest score => greatest.greater score.2) greatest = score.2 := by
  induction scores generalizing greatest with
  | nil => exact Or.inl rfl
  | cons score rest ih =>
    rw [List.foldl_cons]
    rcases ih (greatest.greater score.2) with same | ⟨later, mem, same⟩
    · rw [same]
      refine (greatest.greater_eq_or score.2).imp_right fun same => ?_
      exact ⟨score, List.mem_cons_self, same⟩
    · exact Or.inr ⟨later, List.mem_cons_of_mem _ mem, same⟩

theorem perform_update_of_mismatch {indices : List Nat} {priorities : List Binary32}
    (different : indices.length ≠ priorities.length) :
    (update indices priorities).perform buffer =
      (.error (.refused (.lengthMismatch indices.length priorities.length)), buffer) := by
  unfold update
  rw [if_pos different]
  rfl

theorem perform_update_of_refused {indices : List Nat} {priorities : List Binary32} {error : Error}
    (same : indices.length = priorities.length)
    (refused : (indices.zip priorities).forM buffer.checkScore = .error error) :
    (update indices priorities).perform buffer = (.error (.refused error), buffer) := by
  unfold update
  rw [if_neg (not_not_intro same)]
  simp only
  rw [Action.perform_bind, Action.perform_inspect, refused]
  rfl

theorem perform_update_of_checked {indices : List Nat} {priorities : List Binary32}
    {rescored : Buffer} (same : indices.length = priorities.length)
    (checked : (indices.zip priorities).forM buffer.checkScore = .ok ())
    (performed : ((indices.zip priorities).forM rescore).perform buffer = (.ok (), rescored)) :
    (update indices priorities).perform buffer =
      (.ok (), { rescored with annealing := rescored.annealing.countUpdate }) := by
  unfold update
  rw [if_neg (not_not_intro same)]
  simp only
  rw [Action.perform_bind, Action.perform_inspect, checked]
  change ((indices.zip priorities).forM rescore >>= fun _ => _).perform buffer = _
  rw [Action.perform_bind, performed]
  rfl

theorem Sound.weights_of_checked (sound : buffer.Sound layout named)
    {scores : List (Nat × Binary32)} (checked : scores.forM buffer.checkScore = .ok ()) :
    ∀ score ∈ scores, score.1 < layout.capacity ∧
      IsWeight buffer.sums.height (Power.pow score.2 buffer.alpha) := by
  intro score mem
  obtain ⟨below, scorable⟩ := checkScore_eq_ok_iff.1 (forM_eq_ok_iff.1 checked score mem)
  rw [sound.capacity_eq] at below
  exact ⟨below, isWeight_of_isScorable sound.weights.small scorable⟩

theorem Sound.update_of_checked (sound : buffer.Sound layout named) {indices : List Nat}
    {priorities : List Binary32} (same : indices.length = priorities.length)
    (checked : (indices.zip priorities).forM buffer.checkScore = .ok ()) :
    let next := buffer.rescored (indices.zip priorities)
    (update indices priorities).perform buffer =
        (.ok (), { next with annealing := next.annealing.countUpdate }) ∧
      { next with annealing := next.annealing.countUpdate }.Sound layout (named ++ indices) := by
  have capacity_le := sound.capacity_le
  have passed := sound.weights_of_checked checked
  have firsts : (indices.zip priorities).map Prod.fst = indices :=
    List.map_fst_zip (Nat.le_of_eq same)
  have performed := perform_rescores fun score mem => by
    have := (passed score mem).1
    rw [sound.weights.size_eq]
    exact ⟨by omega, by omega⟩
  refine ⟨perform_update_of_checked same checked performed, sound.ring, ?_, ?_, ?_, ?_⟩
  · exact Nat.le_trans capacity_le (Nat.le_of_eq (SegmentTree.size_writeAll _ _).symm)
  · apply (sound.weights.writeAll fun entry mem => ?_).congr
    · intro slot
      rw [List.map_map, List.mem_append, ← or_assoc]
      change _ ∨ slot ∈ (indices.zip priorities).map Prod.fst ↔ _
      rw [firsts]
      rfl
    · obtain ⟨score, there, rfl⟩ := List.mem_map.1 mem
      exact ⟨Nat.lt_of_lt_of_le (passed score there).1 capacity_le, (passed score there).2⟩
  · refine List.forall_mem_append.2 ⟨sound.named_lt_capacity, fun slot mem => ?_⟩
    rw [← firsts] at mem
    obtain ⟨score, there, rfl⟩ := List.mem_map.1 mem
    exact (passed score there).1
  · change IsWeight (SegmentTree.writeAll _ _).height (Power.pow (List.foldl _ _ _) buffer.alpha)
    rw [SegmentTree.height_writeAll]
    rcases foldl_greater_eq_or (indices.zip priorities) buffer.maxPriority with
      old | ⟨score, mem, new⟩
    · rw [old]
      exact sound.seed
    · rw [new]
      exact (passed score mem).2

theorem Sound.update (sound : buffer.Sound layout named) (indices : List Nat)
    (priorities : List Binary32) :
    let next := buffer.rescored (indices.zip priorities)
    ((Buffer.update indices priorities).perform buffer =
        (.ok (), { next with annealing := next.annealing.countUpdate }) ∧
      { next with annealing := next.annealing.countUpdate }.Sound layout (named ++ indices)) ∨
    ∃ error, (Buffer.update indices priorities).perform buffer =
      (.error (.refused error), buffer) := by
  by_cases same : indices.length = priorities.length
  · cases checked : (indices.zip priorities).forM buffer.checkScore with
    | error error => exact Or.inr ⟨error, perform_update_of_refused same checked⟩
    | ok => exact Or.inl (sound.update_of_checked same checked)
  · exact Or.inr ⟨_, perform_update_of_mismatch same⟩

end Buffer

end ExperienceReplay

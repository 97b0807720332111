import ExperienceReplay.Proofs.Buffer.Rescoring

/-!
New records enter with the top weight. No priority that a leaf stands for is kept, but none was
above the greatest one seen, and the power function does not turn that around. Main statement: after
any run the greatest priority is that of all accepted, and the slots that the next batch is written
to weigh at least as much as any other.
-/

namespace ExperienceReplay

structure Power.Increasing [Power] (exponent : Binary32) : Prop where
  one_pow : Power.pow 1 exponent = 1
  pow_le_pow : ∀ {x y : Binary32}, 0 < x → x ≤ y → y.isFinite →
    Power.pow x exponent ≤ Power.pow y exponent

namespace Buffer

def Tops (buffer : Buffer) (slot : Nat) : Prop :=
  ∃ weight, buffer.Weighs slot weight ∧ ∀ leaf ∈ buffer.sums.leaves, leaf ≤ weight

theorem isGreatest_append {accepted priorities : List Binary32} {greatest next : Binary32}
    (before : IsGreatest {priority | priority = 1 ∨ priority ∈ accepted} greatest)
    (after : IsGreatest {priority | priority = greatest ∨ priority ∈ priorities} next) :
    IsGreatest {priority | priority = 1 ∨ priority ∈ accepted ++ priorities} next := by
  have above : greatest ≤ next := after.2 (Or.inl rfl)
  constructor
  · rcases after.1 with rfl | mem
    · exact before.1.imp_right (List.mem_append_left priorities)
    · exact Or.inr (List.mem_append_right accepted mem)
  · rintro priority (rfl | mem)
    · exact Binary32.le_trans (before.2 (Or.inl rfl)) above
    · rcases List.mem_append.1 mem with earlier | later
      · exact Binary32.le_trans (before.2 (Or.inr earlier)) above
      · exact after.2 (Or.inr later)

variable [Power]

def acceptedPriorities (buffer : Buffer) (requests : List Request) : List Binary32 :=
  ((buffer.transcript requests).flatMap Exchange.scores).map Prod.snd

theorem acceptedPriorities_cons (buffer : Buffer) (request : Request) (rest : List Request) :
    buffer.acceptedPriorities (request :: rest) =
      (buffer.exchange request).scores.map Prod.snd ++
        (buffer.ask request).2.acceptedPriorities rest :=
  List.map_append

/-- The leaves are bounded by the weight of the greatest priority, which is that of all accepted so
far. -/
structure Topped (buffer : Buffer) (accepted : List Binary32) : Prop where
  increasing : Power.Increasing buffer.alpha
  greatest : IsGreatest {priority | priority = 1 ∨ priority ∈ accepted} buffer.maxPriority
  finite : buffer.maxPriority.isFinite
  leaves : ∀ leaf ∈ buffer.sums.leaves, leaf ≤ buffer.seedWeight

variable {buffer : Buffer} {layout : RecordRing.Layout} {accepted : List Binary32}

theorem topped_of_build {config : Config} (increasing : Power.Increasing config.alpha)
    (built : build config = .ok buffer) : buffer.Topped [] := by
  obtain ⟨ring, _, rfl⟩ := exists_ring_of_build built
  have one_le : (1 : Binary32) ≤ 1 := by decide
  refine ⟨increasing, ⟨Or.inl rfl, fun priority mem => ?_⟩, rfl, fun leaf mem => ?_⟩
  · obtain rfl : priority = 1 := by simpa using mem
    exact one_le
  · obtain rfl : leaf = 0 := by
      simpa [SegmentTree.leaves, SegmentTree.ofCapacity, Operation.sum] using mem
    change 0 ≤ Power.pow 1 config.alpha
    rw [increasing.one_pow]
    decide

theorem Topped.congr (topped : buffer.Topped accepted) {next : Buffer}
    (same : (next.sums, next.alpha, next.maxPriority) =
      (buffer.sums, buffer.alpha, buffer.maxPriority)) : next.Topped accepted := by
  obtain ⟨sums, alpha, maxPriority⟩ : next.sums = buffer.sums ∧ next.alpha = buffer.alpha ∧
      next.maxPriority = buffer.maxPriority := by simpa using same
  obtain ⟨increasing, greatest, finite, leaves⟩ := topped
  unfold seedWeight at leaves
  rw [← alpha] at increasing
  rw [← maxPriority] at greatest finite
  rw [← sums, ← maxPriority, ← alpha] at leaves
  exact ⟨increasing, greatest, finite, leaves⟩

theorem Topped.positive (topped : buffer.Topped accepted) : 0 < buffer.maxPriority := by
  have positive : (0 : Binary32) < 1 := by decide
  exact Binary32.lt_of_lt_of_le positive (topped.greatest.2 (Or.inl rfl))

theorem Topped.pow_le_seedWeight (topped : buffer.Topped accepted) {priority : Binary32}
    (positive : 0 < priority) (below : priority ≤ buffer.maxPriority) :
    Power.pow priority buffer.alpha ≤ buffer.seedWeight :=
  topped.increasing.pow_le_pow positive below topped.finite

theorem Topped.seedWeight_le (topped : buffer.Topped accepted) :
    buffer.seedWeight ≤ buffer.seedWeight :=
  topped.pow_le_seedWeight topped.positive
    (Binary32.le_refl (Binary32.ne_nan_of_lt topped.positive).2)

omit [Power] in
theorem Formed.lt_capacity_of_inserted (formed : buffer.Formed layout) {batch : Records}
    {slots : List Nat} {ring : RecordRing}
    (inserted : buffer.ring.insert batch = .ok (slots, ring)) :
    ∀ slot ∈ slots, slot < layout.capacity := by
  obtain ⟨history, holds⟩ := formed.ring
  by_cases fits : ∃ count, Schema.Fits layout.schema batch count
  · obtain ⟨count, fits⟩ := fits
    obtain ⟨next, taken, _⟩ := holds.insert_of_fits fits
    rw [taken] at inserted
    cases inserted
    intro slot mem
    obtain ⟨j, _, rfl⟩ := List.mem_map.1 mem
    exact Nat.mod_lt _ layout.capacity_pos
  · obtain ⟨cause, refused⟩ := holds.insert_of_not_fits (not_exists.1 fits)
    rw [refused] at inserted
    cases inserted

theorem Topped.leaves_filled (topped : buffer.Topped accepted) (slots : List Nat)
    (ring : RecordRing) :
    ∀ leaf ∈ (buffer.filled slots ring).sums.leaves, leaf ≤ buffer.seedWeight :=
  SegmentTree.forall_mem_leaves_writeAll topped.leaves
    (List.forall_mem_map.2 fun _ _ => topped.seedWeight_le)

/-- Every slot that a batch is written to ends up on top, also if later records of the same batch
were written over it. -/
theorem Formed.tops_of_inserted (formed : buffer.Formed layout) (topped : buffer.Topped accepted)
    {batch : Records} {next : Buffer}
    (taken : (Buffer.insert batch).perform buffer = (.ok (), next)) {slot : Nat}
    (mem : slot ∈ buffer.written (.insert batch)) : next.Tops slot := by
  cases inserted : buffer.ring.insert batch with
  | error abort =>
    rw [perform_insert_of_refused inserted] at taken
    cases taken
  | ok result =>
    obtain ⟨slots, ring⟩ := result
    have below := formed.lt_capacity_of_inserted inserted
    rw [written, inserted] at mem
    rw [formed.perform_insert inserted below] at taken
    obtain rfl : buffer.filled slots ring = next := congrArg Prod.snd taken
    have reweighed : buffer.Reweighed (buffer.filled slots ring)
        (slots.map (·, buffer.seedWeight)) := ⟨rfl, rfl, rfl⟩
    have last : lastFor? (slots.map (·, buffer.seedWeight)) slot = some buffer.seedWeight := by
      rw [lastFor?_const, if_pos mem]
    refine ⟨buffer.seedWeight, reweighed.weighs ?_ last, topped.leaves_filled slots ring⟩
    exact List.forall_mem_map.2 fun slot mem => formed.inside (below slot mem)

theorem Formed.topped_updated (formed : buffer.Formed layout) (topped : buffer.Topped accepted)
    {indices : List Nat} {priorities : List Binary32} (same : indices.length = priorities.length)
    (checked : (indices.zip priorities).forM buffer.checkScore = .ok ()) :
    (buffer.updated (indices.zip priorities)).Topped (accepted ++ priorities) := by
  have number := (Binary32.ne_nan_of_lt topped.positive).2
  have greatest := (formed.rescoring_updated number same checked).greatest
  have scorable := ((forM_checkScore_eq_ok_iff same).1 checked).2
  have finite : (buffer.updated (indices.zip priorities)).maxPriority.isFinite := by
    rcases greatest.1 with equal | mem
    · rw [equal]
      exact topped.finite
    · exact (scorable _ mem).finite
  have increasing : Power.Increasing (buffer.updated (indices.zip priorities)).alpha :=
    topped.increasing
  refine ⟨increasing, isGreatest_append topped.greatest greatest, finite, ?_⟩
  apply SegmentTree.forall_mem_leaves_writeAll
  · intro leaf mem
    exact Binary32.le_trans (topped.leaves leaf mem)
      (increasing.pow_le_pow topped.positive (greatest.2 (Or.inl rfl)) finite)
  · refine List.forall_mem_map.2 fun score mem => ?_
    have given := (List.of_mem_zip mem).2
    exact increasing.pow_le_pow (scorable _ given).positive (greatest.2 (Or.inr given)) finite

theorem Formed.topped_ask (formed : buffer.Formed layout) (topped : buffer.Topped accepted)
    (request : Request) :
    (buffer.ask request).2.Topped (accepted ++ (buffer.exchange request).scores.map Prod.snd) := by
  have unscored (none : request.scores = []) :
      accepted ++ (buffer.exchange request).scores.map Prod.snd = accepted := by
    rw [Exchange.scores_eq_nil none, List.map_nil, List.append_nil]
  cases request with
  | insert batch =>
    rw [unscored rfl, ask_insert]
    cases inserted : buffer.ring.insert batch with
    | error abort => rwa [perform_insert_of_refused inserted]
    | ok result =>
      rw [formed.perform_insert inserted (formed.lt_capacity_of_inserted inserted)]
      exact ⟨topped.increasing, topped.greatest, topped.finite, topped.leaves_filled _ _⟩
  | sample n =>
    rw [unscored rfl, ask_sample]
    have kept : (Buffer.sample n).Keeps fun buffer : Buffer =>
        (buffer.sums, buffer.alpha, buffer.maxPriority) := keeps_sample (fun _ _ => rfl) n
    exact topped.congr (kept buffer)
  | draw draws =>
    rw [unscored rfl, ask_draw]
    exact topped
  | update indices priorities =>
    rcases formed.perform_update_cases indices priorities with
      ⟨same, checked, performed⟩ | ⟨error, refused⟩
    · have scores : (buffer.exchange (.update indices priorities)).scores =
          indices.zip priorities := by
        unfold Exchange.scores exchange
        rw [ask_update, performed]
        rfl
      rw [scores, List.map_snd_zip (Nat.le_of_eq same.symm), ask_update, performed]
      exact formed.topped_updated topped same checked
    · have scores : (buffer.exchange (.update indices priorities)).scores = [] := by
        unfold Exchange.scores exchange
        rw [ask_update, refused]
        rfl
      rwa [scores, List.map_nil, List.append_nil, ask_update, refused]
  | length =>
    rw [unscored rfl]
    exact topped

theorem Formed.topped_after (formed : buffer.Formed layout) (topped : buffer.Topped accepted)
    (requests : List Request) :
    (buffer.after requests).Topped (accepted ++ buffer.acceptedPriorities requests) := by
  induction requests generalizing buffer accepted with
  | nil => rwa [acceptedPriorities, transcript, List.flatMap_nil, List.map_nil, List.append_nil]
  | cons request rest ih =>
    rw [acceptedPriorities_cons, ← List.append_assoc]
    exact ih (formed.ask request) (formed.topped_ask topped request)

/-- After any run the greatest priority is the maximum of one and all that were accepted, also of
slots that were written over since. Directly after a batch was inserted, no leaf weighs more than
those of the slots it was written to. -/
theorem tops_after_build {config : Config} (increasing : Power.Increasing config.alpha)
    {start : Buffer} (built : build config = .ok start) (requests : List Request) :
    let buffer := start.after requests
    IsGreatest {priority | priority = 1 ∨ priority ∈ start.acceptedPriorities requests}
      buffer.maxPriority ∧
    ∀ batch next, (insert batch).perform buffer = (.ok (), next) →
      ∀ slot ∈ buffer.written (.insert batch), next.Tops slot := by
  obtain ⟨layout, _, _, formed⟩ := exists_formed_of_build built
  have topped := formed.topped_after (topped_of_build increasing built) requests
  rw [List.nil_append] at topped
  intro buffer
  exact ⟨topped.greatest, fun batch next taken slot mem =>
    (formed.after requests).tops_of_inserted topped taken mem⟩

omit [Power] in
/-- A priority of two is given to new records after its own slot was written over. -/
theorem tops_after_build_overwritten :
    letI := Power.linear
    ∃ start, build (.linear 3) = .ok start ∧
      let two := Records.ofList [("states", [0, 1]), ("terminals", [0, 1])]
      let buffer := start.after [.insert two, .update [0] [Binary32.ofNat 2], .insert two]
      Binary32.ofNat 2 ≤ buffer.maxPriority ∧
        ∃ next, (insert two).perform buffer = (.ok (), next) ∧ next.Tops 1 ∧ next.Tops 2 := by
  let _ := Power.linear
  have built : build (.linear 3) = .ok _ := rfl
  refine ⟨_, built, ?_⟩
  intro two buffer
  have increasing : Power.Increasing (Config.linear 3).alpha := ⟨rfl, fun _ below _ => below⟩
  obtain ⟨greatest, tops⟩ := tops_after_build increasing built
    [.insert two, .update [0] [Binary32.ofNat 2], .insert two]
  have written : buffer.written (.insert two) = [1, 2] := by decide +kernel
  have answered : ((insert two).perform buffer).1 = .ok () := by decide +kernel
  have taken : (insert two).perform buffer = (.ok (), ((insert two).perform buffer).2) := by
    rw [← answered]
  refine ⟨greatest.2 (Or.inr (by decide +kernel)), _, taken, ?_, ?_⟩
  · exact tops two _ taken 1 (written ▸ by decide)
  · exact tops two _ taken 2 (written ▸ by decide)

end Buffer

end ExperienceReplay

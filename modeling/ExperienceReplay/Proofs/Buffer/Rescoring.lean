import ExperienceReplay.Proofs.Buffer.Formed
import ExperienceReplay.Proofs.Buffer.Leaves
import ExperienceReplay.Proofs.Buffer.Parts

/-!
What an update of priorities does. Main statement: it is taken exactly if every slot and every
priority passes, the first that does not is reported, and of the priorities taken the last one of
each slot is its weight and the greatest one stays known, so that their order does not matter where
no slot is named twice.
-/

namespace ExperienceReplay.Buffer

variable [Power] {buffer next : Buffer} {layout : RecordRing.Layout} {indices : List Nat}
  {priorities : List Binary32} {scores : List (Nat × Binary32)}

structure Scorable (buffer : Buffer) (priority : Binary32) : Prop where
  positive : 0 < priority
  finite : priority.isFinite
  weight : buffer.WeightInRange (Power.pow priority buffer.alpha)

/-- Why a slot does not get a priority. The slot is looked at first. -/
inductive Offence (buffer : Buffer) : Nat × Binary32 → Error → Prop
  | slot {slot : Nat} (beyond : buffer.capacity ≤ slot) (priority : Binary32) :
    Offence buffer (slot, priority) (.indexOutOfRange slot buffer.capacity)
  | priority {slot : Nat} (inside : slot < buffer.capacity) {priority : Binary32}
    (unfit : ¬buffer.Scorable priority) :
    Offence buffer (slot, priority) (.invalidPriority slot priority)

theorem isScorable_iff {priority : Binary32} :
    buffer.isScorable priority ↔ buffer.Scorable priority := by
  unfold isScorable
  simp only [Bool.and_eq_true, decide_eq_true_eq]
  constructor
  · rintro ⟨⟨⟨positive, finite⟩, normal⟩, below⟩
    exact ⟨positive, finite, normal, below⟩
  · rintro ⟨positive, finite, normal, below⟩
    exact ⟨⟨⟨positive, finite⟩, normal⟩, below⟩

theorem checkScore_eq_ok_iff_scorable {score : Nat × Binary32} :
    buffer.checkScore score = .ok () ↔
      score.1 < buffer.capacity ∧ buffer.Scorable score.2 := by
  rw [checkScore_eq_ok_iff, isScorable_iff]

theorem checkScore_eq_error_iff {score : Nat × Binary32} {error : Error} :
    buffer.checkScore score = .error error ↔ buffer.Offence score error := by
  obtain ⟨slot, priority⟩ := score
  unfold checkScore
  constructor
  · intro failed
    split at failed
    next beyond =>
      cases failed
      exact .slot beyond priority
    next inside =>
      split at failed
      next => cases failed
      next unfit =>
        cases failed
        exact .priority (Nat.lt_of_not_le inside) (mt isScorable_iff.2 unfit)
  · intro offence
    cases offence with
    | slot beyond => exact if_pos beyond
    | priority inside unfit =>
      rw [if_neg (Nat.not_le_of_lt inside), if_neg (mt isScorable_iff.1 unfit)]

theorem forM_checkScore_eq_ok_iff (same : indices.length = priorities.length) :
    (indices.zip priorities).forM buffer.checkScore = .ok () ↔
      (∀ slot ∈ indices, slot < buffer.capacity) ∧
        ∀ priority ∈ priorities, buffer.Scorable priority := by
  have firsts := List.map_fst_zip (Nat.le_of_eq same)
  have seconds := List.map_snd_zip (Nat.le_of_eq same.symm)
  simp only [forM_eq_ok_iff, checkScore_eq_ok_iff_scorable]
  constructor
  · intro passed
    refine ⟨fun slot mem => ?_, fun priority mem => ?_⟩
    · rw [← firsts] at mem
      obtain ⟨score, there, rfl⟩ := List.mem_map.1 mem
      exact (passed score there).1
    · rw [← seconds] at mem
      obtain ⟨score, there, rfl⟩ := List.mem_map.1 mem
      exact (passed score there).2
  · rintro ⟨inside, scorable⟩ score mem
    exact ⟨inside _ (List.of_mem_zip mem).1, scorable _ (List.of_mem_zip mem).2⟩

omit [Power] in
theorem isGreatest_foldl_greater {greatest : Binary32} (number : greatest ≠ .nan)
    (numbers : ∀ score ∈ scores, score.2 ≠ .nan) :
    IsGreatest {priority | priority = greatest ∨ priority ∈ scores.map Prod.snd}
      (scores.foldl (fun greatest score => greatest.greater score.2) greatest) := by
  induction scores generalizing greatest with
  | nil => exact ⟨Or.inl rfl, fun priority mem => by simp_all [Binary32.le_refl]⟩
  | cons score rest ih =>
    obtain ⟨here, numbers⟩ := List.forall_mem_cons.1 numbers
    have either := greatest.greater_eq_or score.2
    have number' : greatest.greater score.2 ≠ .nan := by
      rcases either with same | same
      · rwa [same]
      · rwa [same]
    obtain ⟨mem, upper⟩ := ih number' numbers
    have above := upper (Or.inl rfl)
    rw [List.foldl_cons, List.map_cons]
    constructor
    · rcases mem with same | later
      · rcases either with same' | same'
        · exact Or.inl (same.trans same')
        · exact Or.inr (List.mem_cons.2 (Or.inl (same.trans same')))
      · exact Or.inr (List.mem_cons_of_mem _ later)
    · rintro priority (rfl | mem)
      · exact Binary32.le_trans (Binary32.le_greater_left number) above
      · rcases List.mem_cons.1 mem with rfl | later
        · exact Binary32.le_trans (Binary32.le_greater_right here) above
        · exact upper (Or.inr later)

omit [Power] in
theorem eq_of_isGreatest {numbers : Set Binary32} {a b : Binary32} (positive : 0 < a)
    (greatest : IsGreatest numbers a) (greatest' : IsGreatest numbers b) : a = b :=
  Binary32.eq_of_le_of_le positive (greatest'.2 greatest.1) (greatest.2 greatest'.1)

theorem Formed.perform_update_fst_eq_ok_iff (formed : buffer.Formed layout) :
    ((Buffer.update indices priorities).perform buffer).1 = .ok () ↔
      indices.length = priorities.length ∧ (∀ slot ∈ indices, slot < buffer.capacity) ∧
        ∀ priority ∈ priorities, buffer.Scorable priority := by
  constructor
  · intro taken
    rcases formed.perform_update_cases indices priorities with ⟨same, checked, _⟩ | ⟨_, refused⟩
    · exact ⟨same, (forM_checkScore_eq_ok_iff same).1 checked⟩
    · rw [refused] at taken
      cases taken
  · rintro ⟨same, passed⟩
    rw [formed.perform_update_of_checked same ((forM_checkScore_eq_ok_iff same).2 passed)]

structure Rescoring (buffer next : Buffer) (indices : List Nat) (priorities : List Binary32) :
    Prop where
  weighs : ∀ slot priority, lastFor? (indices.zip priorities) slot = some priority →
    next.Weighs slot (Power.pow priority buffer.alpha)
  others : ∀ slot ∉ indices, next.sums.leaf slot = buffer.sums.leaf slot ∧
    next.mins.leaf slot = buffer.mins.leaf slot
  greatest : IsGreatest {priority | priority = buffer.maxPriority ∨ priority ∈ priorities}
    next.maxPriority
  counted : next.annealing = buffer.annealing.countUpdate
  ring : next.ring = buffer.ring
  alpha : next.alpha = buffer.alpha
  stream : next.stream = buffer.stream

theorem number_of_checked (checked : scores.forM buffer.checkScore = .ok ()) :
    ∀ score ∈ scores, score.2 ≠ .nan := by
  intro score mem
  have passed := checkScore_eq_ok_iff_scorable.1 (forM_eq_ok_iff.1 checked score mem)
  exact (Binary32.ne_nan_of_lt passed.2.positive).2

theorem Formed.weights_inside (formed : buffer.Formed layout)
    (checked : scores.forM buffer.checkScore = .ok ()) :
    ∀ entry ∈ scores.map fun score => (score.1, Power.pow score.2 buffer.alpha),
      entry.1 < buffer.sums.size ∧ entry.1 < buffer.mins.size :=
  List.forall_mem_map.2 (formed.inside_of_checked checked)

theorem Formed.rescoring_updated (formed : buffer.Formed layout)
    (number : buffer.maxPriority ≠ .nan) (same : indices.length = priorities.length)
    (checked : (indices.zip priorities).forM buffer.checkScore = .ok ()) :
    buffer.Rescoring (buffer.updated (indices.zip priorities)) indices priorities := by
  have firsts := List.map_fst_zip (Nat.le_of_eq same)
  have seconds := List.map_snd_zip (Nat.le_of_eq same.symm)
  have inside := formed.weights_inside checked
  have reweighed : buffer.Reweighed (buffer.updated (indices.zip priorities)) _ := ⟨rfl, rfl, rfl⟩
  have last (slot : Nat) := lastFor?_map (Power.pow · buffer.alpha) (indices.zip priorities) slot
  refine ⟨fun slot priority given => ?_, fun slot fresh => ?_, ?_, rfl, rfl, rfl, rfl⟩
  · exact reweighed.weighs inside ((last slot).trans (congrArg _ given))
  · rw [← firsts, ← lastFor?_eq_none_iff] at fresh
    exact reweighed.leaf_eq inside ((last slot).trans (congrArg _ fresh))
  · have greatest := isGreatest_foldl_greater number (number_of_checked checked)
    rwa [seconds] at greatest

theorem foldl_greater_perm {others : List (Nat × Binary32)} (perm : scores.Perm others)
    (positive : 0 < buffer.maxPriority) (checked : scores.forM buffer.checkScore = .ok ()) :
    scores.foldl (fun greatest score => greatest.greater score.2) buffer.maxPriority =
      others.foldl (fun greatest score => greatest.greater score.2) buffer.maxPriority := by
  have number := (Binary32.ne_nan_of_lt positive).2
  have numbers := number_of_checked checked
  have greatest := isGreatest_foldl_greater number numbers
  have greatest' := isGreatest_foldl_greater number fun score mem =>
    numbers score (perm.mem_iff.2 mem)
  simp only [(perm.map Prod.snd).mem_iff] at greatest
  exact eq_of_isGreatest (Binary32.lt_of_lt_of_le positive (greatest.2 (Or.inl rfl))) greatest
    greatest'

theorem Formed.updated_perm (formed : buffer.Formed layout) (positive : 0 < buffer.maxPriority)
    {others : List (Nat × Binary32)} (perm : scores.Perm others)
    (distinct : (scores.map Prod.fst).Nodup)
    (checked : scores.forM buffer.checkScore = .ok ())
    (checked' : others.forM buffer.checkScore = .ok ()) :
    buffer.updated scores = buffer.updated others := by
  have weighed := formed.weighing_congr (formed.weights_inside checked)
    (formed.weights_inside checked') fun slot => by
      rw [lastFor?_map (Power.pow · buffer.alpha), lastFor?_map (Power.pow · buffer.alpha),
        lastFor?_perm perm distinct]
  unfold updated rescored
  rw [weighed, foldl_greater_perm perm positive checked]

theorem Formed.perform_update_perm (formed : buffer.Formed layout)
    (positive : 0 < buffer.maxPriority) {others : List Nat} {values : List Binary32}
    (same : indices.length = priorities.length) (same' : others.length = values.length)
    (perm : (indices.zip priorities).Perm (others.zip values)) (distinct : indices.Nodup) :
    ((Buffer.update indices priorities).perform buffer).2 =
      ((Buffer.update others values).perform buffer).2 := by
  have firsts := List.map_fst_zip (Nat.le_of_eq same)
  have checks : (indices.zip priorities).forM buffer.checkScore = .ok () ↔
      (others.zip values).forM buffer.checkScore = .ok () := by
    simp only [forM_eq_ok_iff, perm.mem_iff]
  rcases formed.perform_update_cases indices priorities with
    ⟨_, checked, performed⟩ | ⟨error, refused⟩
  · have checked' := checks.1 checked
    rw [performed, formed.perform_update_of_checked same' checked']
    exact formed.updated_perm positive perm (firsts.symm ▸ distinct) checked checked'
  · rcases formed.perform_update_cases others values with
      ⟨_, checked', _⟩ | ⟨error', refused'⟩
    · rw [formed.perform_update_of_checked same (checks.2 checked')] at refused
      cases refused
    · rw [refused, refused']

theorem Formed.maxPriority_pos_ask (formed : buffer.Formed layout)
    (positive : 0 < buffer.maxPriority) (request : Request) :
    0 < (buffer.ask request).2.maxPriority := by
  cases request with
  | insert batch =>
    have kept : (Buffer.insert batch).Keeps maxPriority := keeps_insert (fun _ _ _ _ => rfl) batch
    rwa [ask_insert, kept]
  | sample n =>
    have kept : (Buffer.sample n).Keeps maxPriority := keeps_sample (fun _ _ => rfl) n
    rwa [ask_sample, kept]
  | draw draws => rwa [ask_draw]
  | update indices priorities =>
    rw [ask_update]
    rcases formed.perform_update_cases indices priorities with
      ⟨same, checked, performed⟩ | ⟨_, refused⟩
    · rw [performed]
      have rescoring := formed.rescoring_updated (Binary32.ne_nan_of_lt positive).2 same checked
      exact Binary32.lt_of_lt_of_le positive (rescoring.greatest.2 (Or.inl rfl))
    · rwa [refused]
  | length => exact positive

theorem Formed.maxPriority_pos_after (formed : buffer.Formed layout)
    (positive : 0 < buffer.maxPriority) (requests : List Request) :
    0 < (buffer.after requests).maxPriority := by
  induction requests generalizing buffer with
  | nil => exact positive
  | cons request rest ih =>
    exact ih (formed.ask request) (formed.maxPriority_pos_ask positive request)

structure RescoresExactly (buffer : Buffer) : Prop where
  taken_iff : ∀ indices priorities, ((update indices priorities).perform buffer).1 = .ok () ↔
    indices.length = priorities.length ∧ (∀ slot ∈ indices, slot < buffer.capacity) ∧
      ∀ priority ∈ priorities, buffer.Scorable priority
  mismatch : ∀ indices priorities, indices.length ≠ priorities.length →
    (update indices priorities).perform buffer =
      (.error (.refused (.lengthMismatch indices.length priorities.length)), buffer)
  first_offence : ∀ indices priorities before score after error,
    indices.length = priorities.length → indices.zip priorities = before ++ score :: after →
    (∀ passed ∈ before, passed.1 < buffer.capacity ∧ buffer.Scorable passed.2) →
    buffer.Offence score error →
    (update indices priorities).perform buffer = (.error (.refused error), buffer)
  rescoring : ∀ indices priorities next,
    (update indices priorities).perform buffer = (.ok (), next) →
    buffer.Rescoring next indices priorities
  permuted : ∀ indices priorities others values, indices.length = priorities.length →
    others.length = values.length → (indices.zip priorities).Perm (others.zip values) →
    indices.Nodup → ((update indices priorities).perform buffer).2 =
      ((update others values).perform buffer).2

theorem Formed.rescoresExactly (formed : buffer.Formed layout) (positive : 0 < buffer.maxPriority) :
    buffer.RescoresExactly where
  taken_iff _ _ := formed.perform_update_fst_eq_ok_iff
  mismatch _ _ := perform_update_of_mismatch
  first_offence _ _ before score after error same split passed offence :=
    perform_update_of_refused same (forM_eq_error_iff.2 ⟨before, score, after, split,
      fun other mem => checkScore_eq_ok_iff_scorable.2 (passed other mem),
      checkScore_eq_error_iff.2 offence⟩)
  rescoring indices priorities next taken := by
    rcases formed.perform_update_cases indices priorities with
      ⟨same, checked, performed⟩ | ⟨error, refused⟩
    · obtain rfl : _ = next := congrArg Prod.snd (performed.symm.trans taken)
      exact formed.rescoring_updated (Binary32.ne_nan_of_lt positive).2 same checked
    · cases refused.symm.trans taken
  permuted _ _ _ _ same same' perm distinct :=
    formed.perform_update_perm positive same same' perm distinct

/-- An update does exactly what it should, whatever was asked of the buffer before and whatever the
power function is. -/
theorem rescoresExactly_after_build {config : Config} {start : Buffer}
    (built : build config = .ok start) (requests : List Request) :
    (start.after requests).RescoresExactly := by
  obtain ⟨layout, _, _, formed⟩ := exists_formed_of_build built
  obtain ⟨ring, _, rfl⟩ := exists_ring_of_build built
  have positive : (0 : Binary32) < 1 := by decide
  exact (formed.after requests).rescoresExactly (formed.maxPriority_pos_after positive requests)

omit [Power] in
/-- A slot named twice gets the last of its priorities, and the greater one stays known; pairs may
trade places; and of two pairs that do not pass the first one is reported. -/
theorem rescoresExactly_after_build_two_records :
    letI := Power.linear
    ∃ start, build (.linear 3) = .ok start ∧
      let buffer := start.after [.insert (.ofList [("states", [0, 1]), ("terminals", [0, 1])])]
      let next := ((update [1, 1] [Binary32.ofNat 2, Binary32.leastNormal]).perform buffer).2
      next.Weighs 1 Binary32.leastNormal ∧ Binary32.ofNat 2 ≤ next.maxPriority ∧
        next.sums.leaf 0 = buffer.sums.leaf 0 ∧
        ((update [0, 1] [Binary32.ofNat 2, Binary32.leastNormal]).perform buffer).2 =
          ((update [1, 0] [Binary32.leastNormal, Binary32.ofNat 2]).perform buffer).2 ∧
        (update [0, 3, 1] [1, 1, 0]).perform buffer =
          (.error (.refused (.indexOutOfRange 3 3)), buffer) := by
  let _ := Power.linear
  have built : build (.linear 3) = .ok _ := rfl
  refine ⟨_, built, ?_⟩
  intro buffer next
  have exactly : buffer.RescoresExactly := rescoresExactly_after_build built _
  have scorable (priority : Binary32) (passes : buffer.isScorable priority) :
      buffer.Scorable priority := isScorable_iff.1 passes
  have taken : ((update [1, 1] [Binary32.ofNat 2, Binary32.leastNormal]).perform buffer).1 =
      .ok () := (exactly.taken_iff _ _).2 ⟨rfl, by decide +kernel, by
        simp only [List.forall_mem_cons]
        exact ⟨scorable _ (by decide +kernel), scorable _ (by decide +kernel), nofun⟩⟩
  have rescoring := exactly.rescoring [1, 1] [Binary32.ofNat 2, Binary32.leastNormal] next
    (Prod.ext taken rfl)
  refine ⟨rescoring.weighs 1 _ rfl, rescoring.greatest.2 (Or.inr List.mem_cons_self),
    (rescoring.others 0 (by decide)).1, ?_, ?_⟩
  · exact exactly.permuted _ _ _ _ rfl rfl (List.Perm.swap _ _ _) (by decide)
  · have capacity : buffer.capacity = 3 := by decide +kernel
    have offence : buffer.Offence (3, 1) (.indexOutOfRange 3 3) :=
      capacity ▸ Offence.slot (Nat.le_of_eq capacity) 1
    refine exactly.first_offence [0, 3, 1] [1, 1, 0] [(0, 1)] (3, 1) [(1, 0)] _ rfl rfl ?_ offence
    simp only [List.forall_mem_cons]
    exact ⟨⟨by decide +kernel, scorable 1 (by decide +kernel)⟩, nofun⟩

end ExperienceReplay.Buffer
